import RowFactory.Layout.TokenLayout
import RowFactory.Proofs.Source.Glyphs

namespace RowFactory

namespace Glyph

/-- A glyph that may stand after any other. -/
def isLoose : Glyph → Bool
  | .blank | .lineEnd => true
  | .lexeme (.opening _) | .lexeme (.closing _) => true
  | .lexeme _ => false

theorem mayTouch_of_isLoose (a : Glyph) {b : Glyph} (h : b.isLoose) : a.mayTouch b := by
  intro _
  match b with
  | .blank | .lineEnd | .lexeme (.opening _) | .lexeme (.closing _) => exact ⟨rfl, by simp⟩

theorem readable_nil : Readable [] := ⟨by simp, .nil⟩

theorem Readable.cons {g : Glyph} {gs : List Glyph} (hg : g.IsSpelled) (hwordy : g.isWordy = false)
    (h : Readable gs) : Readable (g :: gs) := by
  refine ⟨?_, List.isChain_cons.mpr ⟨fun b _ hw => ?_, h.apart⟩⟩
  · rintro b (_ | ⟨_, hb⟩)
    · exact hg
    · exact h.spelled b hb
  · rw [hwordy] at hw
    cases hw

theorem Readable.append {gs hs : List Glyph} (hg : Readable gs) (hh : Readable hs)
    (hbetween : ∀ a ∈ gs.getLast?, ∀ b ∈ hs.head?, a.mayTouch b) : Readable (gs ++ hs) := by
  refine ⟨fun g hmem => ?_, List.isChain_append.mpr ⟨hg.apart, hh.apart, hbetween⟩⟩
  rcases List.mem_append.mp hmem with hmem | hmem
  · exact hg.spelled g hmem
  · exact hh.spelled g hmem

theorem Readable.append_loose {gs hs : List Glyph} (hg : Readable gs) (hh : Readable hs)
    (hloose : ∀ b ∈ hs.head?, b.isLoose) : Readable (gs ++ hs) :=
  hg.append hh fun a _ b hb => mayTouch_of_isLoose a (hloose b hb)

theorem readable_single {g : Glyph} (hg : g.IsSpelled) : Readable [g] :=
  ⟨by simpa using hg, .singleton g⟩

theorem text_append (gs hs : List Glyph) : text (gs ++ hs) = text gs ++ text hs :=
  List.flatMap_append

end Glyph

mutual

/-- The token and all in it are spelled, and a joint character always has another after it. -/
def Token.IsSpelled : Token → Prop
  | .ident i => i.isSpelled
  | .lifetime _ => False
  | .punct c _ => c ∈ plainPuncts
  | .literal text => ∃ content, text = String.ofList (quoteLiteral content)
  | .group _ body => Token.AreSpelled body

def Token.AreSpelled : List Token → Prop
  | [] => True
  | t :: ts =>
    t.IsSpelled ∧ (t.isJoint → ∃ c joint, ts.head? = some (.punct c joint)) ∧ Token.AreSpelled ts

end

namespace Token

@[simp] theorem areSpelled_nil : AreSpelled [] := trivial

@[simp] theorem areSpelled_cons {t : Token} {ts : List Token} :
    AreSpelled (t :: ts) ↔ t.IsSpelled ∧
      (t.isJoint → ∃ c joint, ts.head? = some (.punct c joint)) ∧ AreSpelled ts := Iff.rfl

@[simp] theorem isSpelled_ident {i : Ident} : (Token.ident i).IsSpelled ↔ i.isSpelled := Iff.rfl

@[simp] theorem isSpelled_punct {c : Char} {joint : Bool} :
    (Token.punct c joint).IsSpelled ↔ c ∈ plainPuncts := Iff.rfl

@[simp] theorem isSpelled_group {d : Delimiter} {body : List Token} :
    (Token.group d body).IsSpelled ↔ AreSpelled body := Iff.rfl

@[simp] theorem isSpelled_string (content : String) : (Token.string content).IsSpelled :=
  ⟨content.toList, rfl⟩

@[simp] theorem isJoint_ident (i : Ident) : (Token.ident i).isJoint = false := rfl

@[simp] theorem isJoint_punct (c : Char) (joint : Bool) : (Token.punct c joint).isJoint = joint := rfl

@[simp] theorem isJoint_group (d : Delimiter) (body : List Token) :
    (Token.group d body).isJoint = false := rfl

@[simp] theorem isJoint_string (content : String) : (Token.string content).isJoint = false := rfl

end Token

theorem Token.AreSpelled.append {ts us : List Token} (ht : Token.AreSpelled ts)
    (hu : Token.AreSpelled us) : Token.AreSpelled (ts ++ us) := by
  induction ts with
  | nil => exact hu
  | cons t ts ih =>
    obtain ⟨hspelled, hjoint, hrest⟩ := ht
    refine ⟨hspelled, fun h => ?_, ih hrest⟩
    obtain ⟨c, joint, hhead⟩ := hjoint h
    cases ts with
    | nil => cases hhead
    | cons u ts => exact ⟨c, joint, hhead⟩

theorem Token.AreSpelled.flatMap {α : Type} {f : α → List Token} {xs : List α}
    (h : ∀ x ∈ xs, Token.AreSpelled (f x)) : Token.AreSpelled (xs.flatMap f) := by
  induction xs with
  | nil => exact areSpelled_nil
  | cons x xs ih => exact (h x (by simp)).append (ih fun y hy => h y (List.mem_cons_of_mem x hy))

mutual

/-- The glyphs of a token's text. -/
def Token.glyphs : Token → List Glyph
  | .ident i => [.lexeme (.ident i)]
  | .lifetime i => [.lexeme (.lifetime i)]
  | .punct c joint => [.lexeme (.punct c joint)]
  | .literal text => [.lexeme (.literal text)]
  | .group d body =>
    .lexeme (.opening d) :: (if d = .brace then [.blank] else []) ++ Token.lineGlyphs body ++
      (if d = .brace && !body.isEmpty then [.blank] else []) ++ [.lexeme (.closing d)]

/-- The glyphs of the line that the tokens stand on. -/
def Token.lineGlyphs : List Token → List Glyph
  | [] => []
  | [t] => t.glyphs
  | s :: t :: ts => s.glyphs ++ (if s.isJoint then [] else [.blank]) ++ Token.lineGlyphs (t :: ts)

end

namespace Token

theorem line_cons_cons (s t : Token) (ts : List Token) :
    Token.line (s :: t :: ts) = s.text ++ (if s.isJoint then "" else " ") ++ Token.line (t :: ts) := by
  cases s with
  | punct c joint => cases joint <;> simp [Token.line, Token.text, isJoint]
  | _ => simp [Token.line, isJoint]

mutual

theorem text_glyphs (t : Token) : Glyph.text t.glyphs = t.text.toList := by
  cases t with
  | ident i => simp [glyphs, Token.text, Glyph.text, Glyph.chars, Lexeme.chars]
  | lifetime i => simp [glyphs, Token.text, Glyph.text, Glyph.chars, Lexeme.chars]
  | punct c joint => simp [glyphs, Token.text, Glyph.text, Glyph.chars, Lexeme.chars]
  | literal text => simp [glyphs, Token.text, Glyph.text, Glyph.chars, Lexeme.chars]
  | group d body =>
    have hbody := text_lineGlyphs body
    have hopen : Glyph.text (.lexeme (.opening d) :: if d = .brace then [.blank] else []) =
        d.openText.toList := by cases d <;> rfl
    have hclose : Glyph.text [.lexeme (.closing d)] = d.closeText.toList := by cases d <;> rfl
    rw [glyphs, Token.text, Glyph.text_append, Glyph.text_append, Glyph.text_append, hopen, hbody,
      hclose]
    simp only [String.toList_append, List.append_assoc]
    split <;> rfl

theorem text_lineGlyphs (ts : List Token) : Glyph.text (lineGlyphs ts) = (Token.line ts).toList := by
  match ts with
  | [] => rfl
  | [t] => simpa [lineGlyphs, Token.line] using text_glyphs t
  | s :: t :: ts =>
    have hhead := text_glyphs s
    have htail := text_lineGlyphs (t :: ts)
    rw [lineGlyphs, line_cons_cons, Glyph.text_append, Glyph.text_append, hhead, htail]
    simp only [String.toList_append]
    split <;> rfl

end

mutual

theorem readable_glyphs {t : Token} (h : t.IsSpelled) : Glyph.Readable t.glyphs := by
  cases t with
  | ident i => exact Glyph.readable_single h
  | lifetime i => exact h.elim
  | punct c joint => exact Glyph.readable_single h
  | literal text => exact Glyph.readable_single h
  | group d body =>
    have hbody : Glyph.Readable (lineGlyphs body) := readable_lineGlyphs h
    have hclose : Glyph.Readable ((if d = .brace && !body.isEmpty then [.blank] else []) ++
        [.lexeme (.closing d)]) := by
      split
      · exact Glyph.Readable.cons trivial rfl (Glyph.readable_single trivial)
      · exact Glyph.readable_single trivial
    have hinner := hbody.append_loose hclose (by split <;> simp [Glyph.isLoose])
    rw [glyphs, List.append_assoc, List.append_assoc, List.cons_append]
    refine Glyph.Readable.cons trivial rfl ?_
    split
    · exact Glyph.Readable.cons trivial rfl hinner
    · exact hinner

theorem readable_lineGlyphs {ts : List Token} (h : AreSpelled ts) :
    Glyph.Readable (lineGlyphs ts) := by
  match ts with
  | [] => exact Glyph.readable_nil
  | [t] => exact readable_glyphs h.1
  | s :: t :: ts =>
    have hhead := readable_glyphs h.1
    have htail := readable_lineGlyphs h.2.2
    rw [lineGlyphs, List.append_assoc]
    split
    case isTrue hjoint =>
      cases s with
      | punct c joint => exact Glyph.Readable.cons h.1 rfl htail
      | _ => cases hjoint
    case isFalse =>
      exact hhead.append_loose (Glyph.Readable.cons trivial rfl htail)
        (by simp [Glyph.isLoose])

end

theorem isPunct_head?_lineGlyphs {c : Char} {joint : Bool} {ts : List Token}
    (h : ts.head? = some (.punct c joint)) (rest : List Glyph) :
    (lineGlyphs ts ++ rest).head?.any Glyph.isPunct = true := by
  match ts with
  | [t] =>
    obtain rfl := Option.some.inj h
    rfl
  | s :: t :: ts =>
    obtain rfl := Option.some.inj h
    rfl

mutual

/-- Where the token before `rest` is a character, it is joint if another one begins `rest`. -/
theorem read_glyphs {t : Token} (h : t.IsSpelled) {rest : List Glyph}
    (hrest : rest.head?.any Glyph.isPunct = t.isJoint) :
    Glyph.read (t.glyphs ++ rest) = t.lexemes ++ Glyph.read rest := by
  cases t with
  | ident i => rfl
  | lifetime i => rfl
  | punct c joint => simpa [glyphs, lexemes, Glyph.read, isJoint] using hrest
  | literal text => rfl
  | group d body =>
    have hinner (tail : List Glyph) (htail : tail.head?.any Glyph.isPunct = false) :
        Glyph.read (lineGlyphs body ++ tail) = flatten body ++ Glyph.read tail :=
      read_lineGlyphs h htail
    have hclose : Glyph.read (lineGlyphs body ++
        ((if d = .brace && !body.isEmpty then [.blank] else []) ++ .lexeme (.closing d) :: rest)) =
        flatten body ++ .closing d :: Glyph.read rest := by
      rw [hinner _ (by split <;> rfl)]
      split <;> rfl
    simp only [glyphs, lexemes, List.append_assoc, List.cons_append, List.nil_append, Glyph.read]
    rw [← hclose]
    split <;> rfl

theorem read_lineGlyphs {ts : List Token} (h : AreSpelled ts) {rest : List Glyph}
    (hrest : rest.head?.any Glyph.isPunct = false) :
    Glyph.read (lineGlyphs ts ++ rest) = flatten ts ++ Glyph.read rest := by
  match ts with
  | [] => rfl
  | [t] =>
    have hjoint : t.isJoint = false := by
      cases hj : t.isJoint with
      | false => rfl
      | true =>
        obtain ⟨c, joint, hhead⟩ := h.2.1 hj
        cases hhead
    rw [lineGlyphs, read_glyphs h.1 (by rw [hrest, hjoint])]
    simp [flatten]
  | s :: t :: ts =>
    have htail := read_lineGlyphs h.2.2 hrest
    have hnext : ((if s.isJoint then [] else [Glyph.blank]) ++ (lineGlyphs (t :: ts) ++ rest)).head?.any
        Glyph.isPunct = s.isJoint := by
      split
      case isTrue hjoint =>
        obtain ⟨c, joint, hhead⟩ := h.2.1 hjoint
        rw [List.nil_append, isPunct_head?_lineGlyphs hhead, hjoint]
      case isFalse hjoint =>
        rw [Bool.not_eq_true] at hjoint
        rw [hjoint]
        rfl
    rw [lineGlyphs, List.append_assoc, List.append_assoc, read_glyphs h.1 hnext, flatten,
      List.append_assoc, ← htail]
    split <;> rfl

end

mutual

theorem pair_lexemes (t : Token) (pending : List (Delimiter × List Token)) (done : List Token)
    (rest : List Lexeme) :
    Token.pair pending done (t.lexemes ++ rest) = Token.pair pending (t :: done) rest := by
  cases t with
  | group d body =>
    have hbody := pair_flatten body ((d, done) :: pending) [] (.closing d :: rest)
    simp only [lexemes, List.append_assoc, List.cons_append, List.nil_append, Token.pair]
    rw [hbody]
    simp [Token.pair]
  | _ => rfl

/-- Reading the flat sequence of trees adds the trees to the current level. -/
theorem pair_flatten (ts : List Token) (pending : List (Delimiter × List Token))
    (done : List Token) (rest : List Lexeme) :
    Token.pair pending done (flatten ts ++ rest) =
      Token.pair pending (ts.reverse ++ done) rest := by
  cases ts with
  | nil => rfl
  | cons t ts =>
    rw [flatten, List.append_assoc, pair_lexemes t, pair_flatten ts]
    simp

end

@[simp] theorem flatten_append (ts us : List Token) :
    flatten (ts ++ us) = flatten ts ++ flatten us := by
  induction ts with
  | nil => rfl
  | cons t ts ih => rw [List.cons_append, flatten, flatten, ih, List.append_assoc]

/-- Flat sequences of trees are paired to those trees. -/
theorem ofLexemes?_flatten (ts : List Token) : Token.ofLexemes? (flatten ts) = some ts := by
  have hpair := pair_flatten ts [] [] []
  simpa [Token.ofLexemes?, Token.pair] using hpair

/-- Spelled tokens on one line are read back. -/
theorem lex?_line {ts : List Token} (h : AreSpelled ts) :
    lex? ((Token.line ts).toList ++ ['\n']) = some (flatten ts) := by
  have hreadable := (readable_lineGlyphs h).append_loose (Glyph.readable_single (g := .lineEnd) trivial)
    (by simp [Glyph.isLoose])
  have htext : Glyph.text (lineGlyphs ts ++ [Glyph.lineEnd]) = (Token.line ts).toList ++ ['\n'] := by
    rw [Glyph.text_append, text_lineGlyphs]
    rfl
  rw [← htext, Glyph.lex?_text hreadable, read_lineGlyphs h rfl]
  simp [Glyph.read]

end Token

end RowFactory
