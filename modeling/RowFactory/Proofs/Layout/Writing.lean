import Mathlib.Tactic.ByContra
import RowFactory.Layout.Piece
import RowFactory.Proofs.Source.Spacing

namespace RowFactory

/-- What remains of pieces without their groups. -/
inductive Stroke where
  | char (c : Char)
  | gap (g : Gap)

namespace Page

/-- Beginning and ending a group writes nothing. -/
@[simp] theorem text_enter (p : Page) (offset : Int) (consistent : Bool) (width : Nat) :
    (p.enter offset consistent width).text = p.text ∧
      (p.enter offset consistent width).pending = p.pending := by
  unfold enter
  split <;> exact ⟨rfl, rfl⟩

@[simp] theorem text_leave (p : Page) : p.leave.text = p.text ∧ p.leave.pending = p.pending := by
  unfold leave
  split <;> exact ⟨rfl, rfl⟩

end Page

namespace Stroke

def ofPieces : List Piece → List Stroke
  | [] => []
  | .word s :: ps => s.toList.map .char ++ ofPieces ps
  | .gap g :: ps => .gap g :: ofPieces ps
  | .enter _ _ :: ps | .leave :: ps => ofPieces ps

/-- A text that may be written for the strokes when `n` blanks are owed: every gap goes on or ends
its line, with any indentation after it. -/
inductive Writes : Nat → List Stroke → List Char → Prop
  | done (n : Nat) : Writes n [] []
  | owed {n : Nat} {ss : List Stroke} {out : List Char} :
      Writes n ss out → Writes (n + 1) ss (' ' :: out)
  | char {c : Char} {ss : List Stroke} {out : List Char} :
      Writes 0 ss out → Writes 0 (.char c :: ss) (c :: out)
  | goesOn {n : Nat} {g : Gap} {ss : List Stroke} {out : List Char} :
      Writes (n + g.blanks) ss out → Writes n (.gap g :: ss) out
  | ends {n m : Nat} {g : Gap} {ss : List Stroke} {out : List Char} :
      Writes m ss out → Writes n (.gap g :: ss) ('\n' :: out)
  | endsBehindComma {m : Nat} {g : Gap} {ss : List Stroke} {out : List Char} :
      g.comma → Writes m ss out → Writes 0 (.gap g :: ss) (',' :: '\n' :: out)

namespace Writes

variable {ss : List Stroke} {out : List Char}

theorem replicate (h : Writes 0 ss out) (n : Nat) :
    Writes n ss (List.replicate n ' ' ++ out) := by
  induction n with
  | zero => exact h
  | succ n ih => exact .owed ih

theorem chars (h : Writes 0 ss out) (cs : List Char) :
    Writes 0 (cs.map .char ++ ss) (cs ++ out) := by
  induction cs with
  | nil => exact h
  | cons c cs ih => exact .char ih

theorem of_chars {cs : List Char} (h : Writes 0 (cs.map .char ++ ss) out) :
    ∃ tail, out = cs ++ tail ∧ Writes 0 ss tail := by
  induction cs generalizing out with
  | nil => exact ⟨out, rfl, h⟩
  | cons c cs ih =>
    cases h with
    | char hrest =>
      obtain ⟨tail, rfl, htail⟩ := ih hrest
      exact ⟨tail, rfl, htail⟩

end Writes

/-- The page that is written goes on with a text that may be written for the pieces. -/
theorem exists_writes (p : Page) (ps : List Piece) :
    ∃ out, (p.write ps).text.toList = p.text.toList ++ out ∧ Writes p.pending (ofPieces ps) out := by
  induction ps generalizing p with
  | nil => exact ⟨[], by simp [Page.write], .done _⟩
  | cons piece ps ih =>
    cases piece with
    | word s =>
      obtain ⟨out, htext, hout⟩ := ih (p.word s)
      refine ⟨List.replicate p.pending ' ' ++ (s.toList ++ out), ?_, (hout.chars s.toList).replicate _⟩
      rw [Page.write, htext]
      simp [Page.word, Page.addText]
    | gap g =>
      obtain ⟨out, htext, hout⟩ := ih (p.gap g (g.blanks + Piece.reach 0 ps))
      rw [Page.write, htext]
      by_cases hgoes : p.goesOn g (g.blanks + Piece.reach 0 ps)
      · simp only [Page.gap, hgoes, ↓reduceIte] at hout ⊢
        exact ⟨out, rfl, .goesOn hout⟩
      · simp only [Page.gap, hgoes, Bool.false_eq_true, ↓reduceIte] at hout ⊢
        cases hcomma : g.comma with
        | false => exact ⟨'\n' :: out, by simp, .ends hout⟩
        | true =>
          exact ⟨List.replicate p.pending ' ' ++ ',' :: '\n' :: out, by simp [Page.addText],
            (Writes.endsBehindComma hcomma hout).replicate _⟩
    | enter offset consistent =>
      obtain ⟨out, htext, hout⟩ := ih (p.enter offset consistent (Piece.reach 1 ps))
      simp only [Page.text_enter] at htext hout
      exact ⟨out, htext, hout⟩
    | leave =>
      obtain ⟨out, htext, hout⟩ := ih p.leave
      simp only [Page.text_leave] at htext hout
      exact ⟨out, htext, hout⟩

theorem exists_writes_layOut (ps : List Piece) :
    ∃ out, (layOut ps).toList = out ∧ Writes 0 (ofPieces ps) out := by
  obtain ⟨out, htext, hout⟩ := exists_writes Page.empty ps
  exact ⟨out, by simpa [layOut, Page.empty] using htext, hout⟩

end Stroke

namespace Lexeme

def isComma : Lexeme → Bool
  | .punct c _ => c = ','
  | _ => false

/-- The token ends a list of arguments. -/
def endsList : Lexeme → Bool
  | .closing d => d = .paren
  | .punct c _ => c = '>'
  | _ => false

end Lexeme

/-- Without the commas directly before the end of a list. -/
def dropClosingCommas : List Lexeme → List Lexeme
  | [] => []
  | l :: ls =>
    if l.isComma && ls.head?.any Lexeme.endsList then dropClosingCommas ls
    else l :: dropClosingCommas ls

theorem head?_dropClosingCommas {ls : List Lexeme} {l : Lexeme} (hl : l.endsList)
    (h : ls.head? = some l) : (dropClosingCommas ls).head? = some l := by
  have hcomma : l.isComma = false := by
    cases l with
    | punct c joint =>
      have hc : c = '>' := by simpa [Lexeme.endsList] using hl
      simp [Lexeme.isComma, hc]
    | _ => rfl
  cases ls with
  | nil => cases h
  | cons m ls =>
    obtain rfl := Option.some.inj h
    simp [dropClosingCommas, hcomma]

/-- A layout: glyphs that are written in any case, and gaps. -/
inductive Mark where
  | glyph (g : Glyph)
  | gap (g : Gap)

namespace Mark

def strokes : List Mark → List Stroke
  | [] => []
  | .glyph g :: ms => g.chars.map .char ++ strokes ms
  | .gap g :: ms => .gap g :: strokes ms

def lexemes : List Mark → List Lexeme
  | [] => []
  | .glyph (.lexeme l) :: ms => l :: lexemes ms
  | _ :: ms => lexemes ms

/-- The glyph that may follow at once: across gaps that write no blank, the next one. -/
def next? : List Mark → Option Glyph
  | [] => none
  | .glyph g :: _ => some g
  | .gap g :: ms => if g.blanks = 0 then next? ms else none

def startsGap : List Mark → Bool
  | .glyph _ :: _ => false
  | _ => true

/-- Whatever the gaps do, the glyphs meet one another; and a comma is written only before the end of
a list, where it does not stand otherwise. -/
def Sound : List Mark → Prop
  | [] => True
  | .glyph g :: ms =>
    g.IsSpelled ∧ (∀ b ∈ next? ms, g.meets b) ∧ (startsGap ms → g.isJoint = false) ∧
      (∀ l, g = .lexeme l → l.isComma → (lexemes ms).head?.any Lexeme.endsList = false) ∧
        Sound ms
  | .gap g :: ms =>
    (g.comma → ∃ l rest, ms = .glyph (.lexeme l) :: rest ∧ l.endsList) ∧ Sound ms

end Mark

namespace Glyph

def isBlank : Glyph → Bool
  | .blank | .lineEnd => true
  | .lexeme _ => false

def comma : Glyph := .lexeme (.punct ',' false)

theorem joins_eq_false {a b : Glyph} (h : b.isBlank ∨ b = comma) : a.joins b = false := by
  have hall : ∀ pair ∈ operatorPairs, pair.2 ≠ ',' := by decide
  rcases h with h | rfl
  · match a, b with
    | .blank, _ | .lineEnd, _ | .lexeme _, .blank | .lexeme _, .lineEnd => rfl
  · match a with
    | .lexeme (.punct c joint) =>
      have hmem : (c, ',') ∉ operatorPairs := fun hmem => hall _ hmem rfl
      simpa [joins, Lexeme.joins, comma] using hmem
    | .blank | .lineEnd | .lexeme (.ident _) | .lexeme (.lifetime _) | .lexeme (.literal _)
    | .lexeme (.opening _) | .lexeme (.closing _) => rfl

/-- A blank or a comma may stand after whatever is not joint. -/
theorem meets_of_separates {a b : Glyph} (h : b.isBlank ∨ b = comma) (ha : a.isJoint = false) :
    a.meets b := by
  refine ⟨fun _ => ?_, by rw [ha, joins_eq_false h]⟩
  rcases h with h | rfl
  · match b with
    | .blank | .lineEnd => exact ⟨rfl, by simp⟩
  · exact ⟨rfl, by simp [comma]⟩

theorem meets_of_isBlank {a : Glyph} (h : a.isBlank) (b : Glyph) : a.meets b := by
  match a with
  | .blank | .lineEnd =>
    refine ⟨fun hwordy => ?_, rfl⟩
    cases hwordy

end Glyph

namespace Mark

/-- The glyphs are a text that is written for the marks when `n` blanks are owed. -/
structure Renders (n : Nat) (ms : List Mark) (gs : List Glyph) : Prop where
  fits : Glyph.Fits gs
  tokens : dropClosingCommas (Glyph.lexemes gs) = lexemes ms
  owed : 0 < n → ∀ g ∈ gs.head?, g.isBlank
  direct : n = 0 → ∀ g, ms.head? = some (.glyph g) → gs.head? = some g
  begins : ∀ g ∈ gs.head?, g.isBlank ∨ g = .comma ∨ next? ms = some g
  first : ∀ l, ms.head? = some (.glyph (.lexeme l)) → (Glyph.lexemes gs).head? = some l

variable {n : Nat} {ms : List Mark} {gs : List Glyph}

theorem Renders.owed_cons (h : Renders n ms gs) : Renders (n + 1) ms (.blank :: gs) where
  fits := h.fits.cons trivial (fun b _ => Glyph.meets_of_isBlank rfl b) (fun _ => rfl)
  tokens := h.tokens
  owed _ g hg := by
    obtain rfl := Option.some.inj hg
    rfl
  direct hn := by cases hn
  begins g hg := by
    obtain rfl := Option.some.inj hg
    exact .inl rfl
  first := h.first

theorem renders_nil : Renders n [] [] where
  fits := Glyph.fits_nil
  tokens := rfl
  owed _ g hg := by cases hg
  direct _ g hg := by cases hg
  begins g hg := by cases hg
  first l hl := by cases hl

/-- What is written for a glyph, before what is written for the marks after it. -/
theorem Renders.glyph_cons {g : Glyph} (hsound : Sound (.glyph g :: ms)) (h : Renders 0 ms gs) :
    Renders 0 (.glyph g :: ms) (g :: gs) := by
  obtain ⟨hspelled, hmeets, hgap, hcomma, -⟩ := hsound
  have hnext : ∀ b ∈ gs.head?, g.meets b := by
    intro b hb
    match ms with
    | .glyph b' :: ms =>
      obtain rfl : b' = b := Option.some.inj ((h.direct rfl b' rfl).symm.trans hb)
      exact hmeets b' rfl
    | [] | .gap _ :: _ =>
      rcases h.begins b hb with hblank | hb' | hb'
      · exact Glyph.meets_of_separates (.inl hblank) (hgap rfl)
      · exact Glyph.meets_of_separates (.inr hb') (hgap rfl)
      · exact hmeets b hb'
  have hlast : gs = [] → g.isJoint = false := by
    rintro rfl
    match ms with
    | .glyph b :: ms => cases h.direct rfl b rfl
    | [] | .gap _ :: _ => exact hgap rfl
  refine ⟨h.fits.cons hspelled hnext hlast, ?_, (fun hn => by cases hn), fun _ b hb => ?_,
    fun b hb => ?_, fun l hl => ?_⟩
  · match g with
    | .blank | .lineEnd => exact h.tokens
    | .lexeme l =>
      have hkept : (l.isComma && (Glyph.lexemes gs).head?.any Lexeme.endsList) = false := by
        cases hl : l.isComma with
        | false => rfl
        | true =>
          cases hhead : (Glyph.lexemes gs).head? with
          | none => rfl
          | some m =>
            by_contra hends
            have hm : m.endsList := by simpa using hends
            have hmarks := head?_dropClosingCommas hm hhead
            have hnone := hcomma l rfl hl
            rw [← h.tokens, hmarks] at hnone
            simp [hm] at hnone
      simp [Glyph.lexemes, lexemes, dropClosingCommas, hkept, h.tokens]
  · obtain rfl := Mark.glyph.inj (Option.some.inj hb)
    rfl
  · exact .inr (.inr hb)
  · obtain rfl := Mark.glyph.inj (Option.some.inj hl)
    rfl

theorem Renders.gap_goesOn {g : Gap} (h : Renders (n + g.blanks) ms gs) :
    Renders n (.gap g :: ms) gs where
  fits := h.fits
  tokens := h.tokens
  owed hn := h.owed (by omega)
  direct _ b hb := by cases Option.some.inj hb
  begins b hb := by
    by_cases hblanks : g.blanks = 0
    · simpa only [next?, hblanks, if_pos] using h.begins b hb
    · exact .inl (h.owed (by omega) b hb)
  first l hl := by cases Option.some.inj hl

theorem Renders.gap_ends {m : Nat} {g : Gap} (h : Renders m ms gs) :
    Renders n (.gap g :: ms) (.lineEnd :: gs) where
  fits := h.fits.cons trivial (fun b _ => Glyph.meets_of_isBlank rfl b) (fun _ => rfl)
  tokens := h.tokens
  owed _ b hb := by
    obtain rfl := Option.some.inj hb
    rfl
  direct _ b hb := by cases Option.some.inj hb
  begins b hb := by
    obtain rfl := Option.some.inj hb
    exact .inl rfl
  first l hl := by cases Option.some.inj hl

theorem Renders.gap_endsBehindComma {m : Nat} {g : Gap} {l : Lexeme} (h : Renders m ms gs)
    (hl : l.endsList) (hhead : ms.head? = some (.glyph (.lexeme l))) :
    Renders 0 (.gap g :: ms) (.comma :: .lineEnd :: gs) := by
  have hline : Renders 0 (.gap g :: ms) (.lineEnd :: gs) := h.gap_ends
  refine ⟨?_, ?_, (fun hn => by cases hn), (fun _ b hb => by cases Option.some.inj hb), ?_,
    (fun l hl => by cases Option.some.inj hl)⟩
  · refine hline.fits.cons ?_ (fun b hb => ?_) (fun _ => rfl)
    · have hcomma : ',' ∈ plainPuncts := by decide
      exact hcomma
    · obtain rfl := Option.some.inj hb
      exact Glyph.meets_of_separates (.inl rfl) rfl
  · have hfirst := h.first l hhead
    have hdrop : dropClosingCommas (.punct ',' false :: Glyph.lexemes gs) =
        dropClosingCommas (Glyph.lexemes gs) := by
      simp [dropClosingCommas, Lexeme.isComma, hfirst, hl]
    exact hdrop.trans h.tokens
  · intro b hb
    obtain rfl := Option.some.inj hb
    exact .inr (.inl rfl)

theorem eq_gap_of_strokes_eq {g : Gap} {ss : List Stroke} {m : Mark}
    (hspelled : ∀ b, m = .glyph b → b.IsSpelled) (h : strokes (m :: ms) = .gap g :: ss) :
    m = .gap g ∧ strokes ms = ss := by
  cases m with
  | gap g' =>
    obtain ⟨hg, hss⟩ := List.cons.inj h
    exact ⟨congrArg Mark.gap (Stroke.gap.inj hg), hss⟩
  | glyph b =>
    obtain ⟨c, cs, hchars, -⟩ := (hspelled b rfl).exists_head
    rw [strokes, hchars] at h
    cases h

theorem exists_glyph_of_strokes_eq {c : Char} {ss : List Stroke} {m : Mark}
    (hspelled : ∀ b, m = .glyph b → b.IsSpelled) (h : strokes (m :: ms) = .char c :: ss) :
    ∃ b cs, m = .glyph b ∧ b.chars = c :: cs ∧ ss = cs.map .char ++ strokes ms := by
  cases m with
  | gap g => cases h
  | glyph b =>
    obtain ⟨d, cs, hchars, -⟩ := (hspelled b rfl).exists_head
    rw [strokes, hchars] at h
    obtain ⟨hd, hss⟩ := List.cons.inj h
    obtain rfl := Stroke.char.inj hd
    exact ⟨b, cs, rfl, hchars, hss.symm⟩

/-- Whatever is written for sound marks is a text of fitting glyphs with the tokens of the marks,
but for commas before the end of a list. -/
theorem exists_renders (hsound : Sound ms) {out : List Char}
    (h : Stroke.Writes n (strokes ms) out) : ∃ gs, Glyph.text gs = out ∧ Renders n ms gs := by
  induction ms generalizing n out with
  | nil =>
    obtain ⟨ss, hss⟩ : ∃ ss, ss = strokes [] := ⟨_, rfl⟩
    rw [← hss] at h
    induction h with
    | done n => exact ⟨[], rfl, renders_nil⟩
    | owed _ ihw =>
      obtain ⟨gs, rfl, hgs⟩ := ihw hss
      exact ⟨.blank :: gs, rfl, hgs.owed_cons⟩
    | _ => cases hss
  | cons m ms ih =>
    have hspelled : ∀ b, m = .glyph b → b.IsSpelled := by
      rintro b rfl
      exact hsound.1
    have htail : Sound ms := by
      cases m with
      | glyph g => exact hsound.2.2.2.2
      | gap g => exact hsound.2
    obtain ⟨ss, hss⟩ : ∃ ss, strokes (m :: ms) = ss := ⟨_, rfl⟩
    rw [hss] at h
    induction h with
    | done n =>
      cases m with
      | gap g => cases hss
      | glyph b =>
        obtain ⟨c, cs, hchars, -⟩ := (hspelled b rfl).exists_head
        rw [strokes, hchars] at hss
        cases hss
    | owed _ ihw =>
      obtain ⟨gs, rfl, hgs⟩ := ihw hss
      exact ⟨.blank :: gs, rfl, hgs.owed_cons⟩
    | char hrest _ =>
      obtain ⟨b, cs, rfl, hchars, rfl⟩ := exists_glyph_of_strokes_eq hspelled hss
      obtain ⟨tail, rfl, hwrites⟩ := hrest.of_chars
      obtain ⟨gs, rfl, hgs⟩ := ih htail hwrites
      refine ⟨b :: gs, ?_, hgs.glyph_cons hsound⟩
      rw [Glyph.text_cons, hchars]
      rfl
    | goesOn hrest _ =>
      obtain ⟨rfl, rfl⟩ := eq_gap_of_strokes_eq hspelled hss
      obtain ⟨gs, htext, hgs⟩ := ih htail hrest
      exact ⟨gs, htext, hgs.gap_goesOn⟩
    | ends hrest _ =>
      obtain ⟨rfl, rfl⟩ := eq_gap_of_strokes_eq hspelled hss
      obtain ⟨gs, rfl, hgs⟩ := ih htail hrest
      exact ⟨.lineEnd :: gs, rfl, hgs.gap_ends⟩
    | endsBehindComma hcomma hrest _ =>
      obtain ⟨rfl, rfl⟩ := eq_gap_of_strokes_eq hspelled hss
      obtain ⟨gs, rfl, hgs⟩ := ih htail hrest
      obtain ⟨l, rest, rfl, hl⟩ := hsound.1 hcomma
      exact ⟨.comma :: .lineEnd :: gs, rfl, hgs.gap_endsBehindComma hl rfl⟩

/-- The lines laid out for pieces are read, up to spacing and closing commas, as the tokens of sound
marks for them. -/
theorem exists_lex?_layOut {ps : List Piece} (hsound : Sound ms)
    (hstrokes : Stroke.ofPieces ps = strokes ms) :
    ∃ ls, lex? (layOut ps).toList = some ls ∧
      dropClosingCommas (Lexeme.settle ls) = lexemes ms := by
  obtain ⟨out, htext, hwrites⟩ := Stroke.exists_writes_layOut ps
  rw [hstrokes] at hwrites
  obtain ⟨gs, rfl, hgs⟩ := exists_renders hsound hwrites
  obtain ⟨ls, hread, hsettled⟩ := Glyph.exists_lex?_text hgs.fits
  exact ⟨ls, by rw [htext, hread], by rw [hsettled, hgs.tokens]⟩

end Mark

end RowFactory
