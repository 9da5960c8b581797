import Mathlib.Data.List.Chain
import RowFactory.Proofs.Source.Spelling

namespace RowFactory

def Delimiter.openChar : Delimiter → Char
  | .paren => '('
  | .bracket => '['
  | .brace => '\x7b'

def Delimiter.closeChar : Delimiter → Char
  | .paren => ')'
  | .bracket => ']'
  | .brace => '\x7d'

namespace Lexeme

/-- The characters of a token. -/
def chars : Lexeme → List Char
  | .ident i => i.text.toList
  | .lifetime i => '\x27' :: i.text.toList
  | .punct c _ => [c]
  | .literal text => text.toList
  | .opening d => [d.openChar]
  | .closing d => [d.closeChar]

/-- A token that the writer of factories spells: no lifetime, and no literal but a string. -/
def IsSpelled : Lexeme → Prop
  | .ident i => i.isSpelled
  | .lifetime _ => False
  | .punct c _ => c ∈ plainPuncts
  | .literal text => ∃ content, text = String.ofList (quoteLiteral content)
  | .opening _ | .closing _ => True

/-- Where the token ends is seen from the character after it. -/
def isWordy : Lexeme → Bool
  | .ident _ | .lifetime _ | .literal _ => true
  | _ => false

def isPunct : Lexeme → Bool
  | .punct .. => true
  | _ => false

end Lexeme

/-- A token, or a blank between tokens. -/
inductive Glyph where
  | blank
  | lineEnd
  | lexeme (l : Lexeme)
deriving DecidableEq

namespace Glyph

def chars : Glyph → List Char
  | .blank => [' ']
  | .lineEnd => ['\n']
  | .lexeme l => l.chars

def text (gs : List Glyph) : List Char := gs.flatMap chars

def IsSpelled : Glyph → Prop
  | .lexeme l => l.IsSpelled
  | _ => True

def isWordy : Glyph → Bool
  | .lexeme l => l.isWordy
  | _ => false

def isPunct : Glyph → Bool
  | .lexeme l => l.isPunct
  | _ => false

/-- The two glyphs stay apart when nothing stands between them. -/
def mayTouch (a b : Glyph) : Prop :=
  a.isWordy → b.isWordy = false ∧ ∀ joint, b ≠ .lexeme (.punct '#' joint)

/-- The glyphs are spelled and stay apart. -/
structure Readable (gs : List Glyph) : Prop where
  spelled : ∀ g ∈ gs, g.IsSpelled
  apart : gs.IsChain mayTouch

/-- The tokens as they are read: a punctuation character is joint if the next glyph is one. -/
def read : List Glyph → List Lexeme
  | [] => []
  | .lexeme (.punct c _) :: gs => .punct c (gs.head?.any isPunct) :: read gs
  | .lexeme l :: gs => l :: read gs
  | .blank :: gs | .lineEnd :: gs => read gs

end Glyph

/-- More steps than necessary do no harm. -/
theorem lexFrom_of_le {n m : Nat} {cs : List Char} {ls : List Lexeme} (h : lexFrom n cs = some ls)
    (hnm : n ≤ m) : lexFrom m cs = some ls := by
  induction n generalizing m cs ls with
  | zero =>
    cases cs with
    | nil => cases m <;> exact h
    | cons c cs => cases h
  | succ n ih =>
    obtain ⟨m, rfl⟩ : ∃ k, m = k + 1 := ⟨m - 1, by omega⟩
    cases cs with
    | nil => exact h
    | cons c cs =>
      simp only [lexFrom, Option.bind_eq_bind, Option.bind_eq_some_iff] at h ⊢
      obtain ⟨head, hhead, tail, htail, hls⟩ := h
      exact ⟨head, hhead, tail, ih htail (by omega), hls⟩

/-- Reading goes on after the tokens at the head. -/
theorem lex?_of_readLexemes? {cs rest : List Char} {head tail : List Lexeme}
    (hread : readLexemes? cs = some (head, rest)) (hlt : rest.length < cs.length)
    (htail : lex? rest = some tail) : lex? cs = some (head ++ tail) := by
  obtain ⟨c, cs, rfl⟩ : ∃ c cs', cs = c :: cs' := by
    cases cs with
    | nil => cases hlt
    | cons c cs => exact ⟨c, cs, rfl⟩
  have hmore : lexFrom cs.length rest = some tail :=
    lexFrom_of_le htail (Nat.le_of_lt_succ hlt)
  simp [lex?, lexFrom, hread, hmore]

theorem readLexemes?_blank {c : Char} (hc : c = ' ' ∨ c = '\n') (cs : List Char) :
    readLexemes? (c :: cs) = some ([], cs) := by
  have hskip : skipBlank? (c :: cs) = some cs := by
    rcases hc with rfl | rfl <;>
      simp [skipBlank?, isPlainLineComment, isPlainBlockComment, startsWith, List.isPrefixOf,
        isTokenBlank, isBlank, CharTable.contains, blankTable]
  rw [readLexemes?, hskip]

/-- A token that is no comment, blank or delimiter is read by itself. -/
theorem readLexemes?_leaf {c : Char} {cs rest : List Char} {l : Lexeme} (hslash : c ≠ '/')
    (hblank : isTokenBlank c = false) (hdelimiter : delimiterOf? c = none)
    (hleaf : readLeaf? (c :: cs) = some (l, rest)) :
    readLexemes? (c :: cs) = some ([l], rest) := by
  have hparen : c ≠ '(' := by
    rintro rfl
    cases hdelimiter
  rw [readLexemes?_cons hslash hblank (fun h => absurd h hparen), hdelimiter, hleaf]
  rfl

theorem delimiterOf?_eq_none {c : Char} (hc : isIdentifierContinue c) : delimiterOf? c = none := by
  have hall : ∀ d ∈ ['(', '[', '\x7b', ')', ']', '\x7d'], isIdentifierContinue d = false :=
    forall_mem_of_all (by decide)
  unfold delimiterOf?
  split
  all_goals first | rfl | exact absurd hc (by decide)

theorem readLexemes?_ident {i : Ident} (hi : i.isSpelled) {rest : List Char}
    (hrest : EndsName rest) :
    readLexemes? (i.text.toList ++ rest) = some ([.ident i], rest) := by
  obtain ⟨raw, name⟩ := i
  obtain ⟨cs, rfl⟩ : ∃ cs, name = String.ofList cs := ⟨name.toList, by simp⟩
  simp only [Ident.isSpelled, String.toList_ofList, Bool.and_eq_true, Bool.not_eq_true'] at hi
  obtain ⟨hname, hraw⟩ := hi
  cases cs with
  | nil => cases hname
  | cons c cs =>
    simp only [isIdentifier, Bool.and_eq_true, List.all_eq_true] at hname
    obtain ⟨hc, hcs⟩ := hname
    cases raw with
    | false =>
      have hcont := isIdentifierContinue_of_start hc
      have hleaf := readLeaf?_plain hc hcs hrest
      simp only [Ident.text, Bool.false_eq_true, ↓reduceIte, String.toList_ofList]
      exact readLexemes?_leaf (ne_of_test hcont (by decide)) (isTokenBlank_eq_false hcont)
        (delimiterOf?_eq_none hcont) hleaf
    | true =>
      have hleaf := readLeaf?_raw hc hcs hrest (by simpa using hraw)
      simp only [Ident.text, ↓reduceIte, String.toList_append, String.toList_ofList]
      exact readLexemes?_leaf (by decide) (isTokenBlank_eq_false (by decide)) rfl hleaf

theorem readLexemes?_punct {c : Char} (hc : c ∈ plainPuncts) (rest : List Char) :
    readLexemes? (c :: rest) = some ([.punct c (readPunct? rest).isSome], rest) := by
  have hall : ∀ d ∈ plainPuncts, d ≠ '/' ∧ isTokenBlank d = false ∧ delimiterOf? d = none :=
    forall_mem_of_all (by decide)
  obtain ⟨hslash, hblank, hdelimiter⟩ := hall c hc
  exact readLexemes?_leaf hslash hblank hdelimiter (readLeaf?_punct hc rest)

theorem readLexemes?_string (content : List Char) {rest : List Char} (hrest : EndsName rest) :
    readLexemes? (quoteLiteral content ++ rest) =
      some ([.literal (String.ofList (quoteLiteral content))], rest) :=
  readLexemes?_leaf (by decide) (by decide) rfl (readLeaf?_string content hrest)

theorem readLexemes?_opening (d : Delimiter) {rest : List Char} (hrest : rest.head? ≠ some '/') :
    readLexemes? (d.openChar :: rest) = some ([.opening d], rest) := by
  have hchar : d.openChar ≠ '/' ∧ isTokenBlank d.openChar = false ∧
      delimiterOf? d.openChar = some (.opening d) := by cases d <;> decide
  rw [readLexemes?_cons hchar.1 hchar.2.1 (fun _ => hrest), hchar.2.2]

theorem readLexemes?_closing (d : Delimiter) (rest : List Char) :
    readLexemes? (d.closeChar :: rest) = some ([.closing d], rest) := by
  have hchar : d.closeChar ≠ '/' ∧ isTokenBlank d.closeChar = false ∧
      delimiterOf? d.closeChar = some (.closing d) ∧ d.closeChar ≠ '(' := by cases d <;> decide
  rw [readLexemes?_cons hchar.1 hchar.2.1 (fun h => absurd h hchar.2.2.2), hchar.2.2.1]

/-- The first character of a spelled token, in the light of which the token before it ends. -/
theorem Lexeme.IsSpelled.exists_head {l : Lexeme} (h : l.IsSpelled) :
    ∃ c cs, l.chars = c :: cs ∧ c ≠ '/' ∧
      (∀ rest, (readPunct? (c :: rest)).isSome = l.isPunct) ∧
      (l.isWordy = false → isIdentifierContinue c = false ∧
        (c ∈ quoteMarks → ∃ joint, l = .punct '#' joint)) := by
  cases l with
  | ident i =>
    obtain ⟨raw, name⟩ := i
    obtain ⟨cs, rfl⟩ : ∃ cs, name = String.ofList cs := ⟨name.toList, by simp⟩
    simp only [IsSpelled, Ident.isSpelled, String.toList_ofList, Bool.and_eq_true] at h
    obtain ⟨c, cs, hchars, hc⟩ : ∃ c tail, (Lexeme.ident ⟨raw, .ofList cs⟩).chars = c :: tail ∧
        isIdentifierContinue c := by
      cases raw with
      | true => exact ⟨'r', '#' :: cs, by simp [chars, Ident.text], by decide⟩
      | false =>
        cases cs with
        | nil => cases h.1
        | cons c cs =>
          simp only [isIdentifier, Bool.and_eq_true] at h
          exact ⟨c, cs, by simp [chars, Ident.text], isIdentifierContinue_of_start h.1.1⟩
    refine ⟨c, cs, hchars, ne_of_test hc (by decide), fun rest => ?_, fun h => by cases h⟩
    rw [Option.isSome_eq_false_iff.mpr]
    · rfl
    · exact Option.isNone_iff_eq_none.mpr (readPunct?_eq_none hc)
  | lifetime => exact h.elim
  | punct c joint =>
    have hall : ∀ d ∈ plainPuncts, d ≠ '/' ∧ isIdentifierContinue d = false ∧
        (d ∈ quoteMarks → d = '#') := forall_mem_of_all (by decide)
    obtain ⟨hslash, hcont, hmark⟩ := hall c h
    refine ⟨c, [], rfl, hslash, fun rest => ?_, fun _ => ⟨hcont, fun hc => ⟨joint, ?_⟩⟩⟩
    · rw [readPunct?_plain h]
      rfl
    · rw [hmark hc]
  | literal text =>
    obtain ⟨content, rfl⟩ := h
    refine ⟨'\x22', escapeLiteral content ++ ['\x22'], by simp [chars, quoteLiteral], by decide,
      fun rest => ?_, fun h => by cases h⟩
    simp [readPunct?, isPunct]
  | opening d =>
    refine ⟨d.openChar, [], rfl, ?_⟩
    cases d <;> exact ⟨by decide, fun rest => by simp [readPunct?, Delimiter.openChar, isPunct],
      fun _ => ⟨by decide, by decide⟩⟩
  | closing d =>
    refine ⟨d.closeChar, [], rfl, ?_⟩
    cases d <;> exact ⟨by decide, fun rest => by simp [readPunct?, Delimiter.closeChar, isPunct],
      fun _ => ⟨by decide, by decide⟩⟩

namespace Glyph

theorem IsSpelled.exists_head {g : Glyph} (h : g.IsSpelled) :
    ∃ c cs, g.chars = c :: cs ∧ c ≠ '/' ∧
      (∀ rest, (readPunct? (c :: rest)).isSome = g.isPunct) ∧
      (g.isWordy = false → isIdentifierContinue c = false ∧
        (c ∈ quoteMarks → ∃ joint, g = .lexeme (.punct '#' joint))) := by
  cases g with
  | blank =>
    exact ⟨' ', [], rfl, by decide, fun rest => by simp [readPunct?, isPunct],
      fun _ => ⟨by decide, by decide⟩⟩
  | lineEnd =>
    exact ⟨'\n', [], rfl, by decide, fun rest => by simp [readPunct?, isPunct],
      fun _ => ⟨by decide, by decide⟩⟩
  | lexeme l =>
    obtain ⟨c, cs, hchars, hslash, hpunct, hends⟩ := Lexeme.IsSpelled.exists_head h
    refine ⟨c, cs, hchars, hslash, hpunct, fun hwordy => ⟨(hends hwordy).1, fun hc => ?_⟩⟩
    obtain ⟨joint, rfl⟩ := (hends hwordy).2 hc
    exact ⟨joint, rfl⟩

theorem text_cons (g : Glyph) (gs : List Glyph) : text (g :: gs) = g.chars ++ text gs := rfl

/-- A token that stays apart from what stands after it ends there. -/
theorem endsName_text {g : Glyph} {gs : List Glyph} (hwordy : g.isWordy)
    (hspelled : ∀ h ∈ gs, h.IsSpelled) (hapart : ∀ h ∈ gs.head?, g.mayTouch h) :
    EndsName (text gs) := by
  cases gs with
  | nil =>
    intro c hc
    cases hc
  | cons h gs =>
    obtain ⟨c, cs, hchars, -, -, hends⟩ := (hspelled h (by simp)).exists_head
    obtain ⟨hplain, hhash⟩ := hapart h rfl hwordy
    intro d hd
    obtain rfl : c = d := by simpa [text_cons, hchars] using hd
    refine ⟨(hends hplain).1, fun hc => ?_⟩
    obtain ⟨joint, rfl⟩ := (hends hplain).2 hc
    exact hhash joint rfl

theorem readPunct?_text {gs : List Glyph} (hspelled : ∀ h ∈ gs, h.IsSpelled) :
    (readPunct? (text gs)).isSome = gs.head?.any isPunct := by
  cases gs with
  | nil => rfl
  | cons h gs =>
    obtain ⟨c, cs, hchars, -, hpunct, -⟩ := (hspelled h (by simp)).exists_head
    rw [text_cons, hchars, List.cons_append, hpunct]
    rfl

theorem head?_text_ne_slash {gs : List Glyph} (hspelled : ∀ h ∈ gs, h.IsSpelled) :
    (text gs).head? ≠ some '/' := by
  cases gs with
  | nil => simp [text]
  | cons h gs =>
    obtain ⟨c, cs, hchars, hslash, -, -⟩ := (hspelled h (by simp)).exists_head
    simpa [text_cons, hchars] using hslash

/-- One glyph is read as its token, or skipped. -/
theorem readLexemes?_text {g : Glyph} {gs : List Glyph} (h : Readable (g :: gs)) :
    ∃ head, readLexemes? (text (g :: gs)) = some (head, text gs) ∧ read (g :: gs) = head ++ read gs := by
  have hspelled : ∀ h ∈ gs, h.IsSpelled := fun h' hmem => h.spelled h' (by simp [hmem])
  have hapart := (List.isChain_cons.mp h.apart).1
  cases g with
  | blank => exact ⟨[], readLexemes?_blank (.inl rfl) _, rfl⟩
  | lineEnd => exact ⟨[], readLexemes?_blank (.inr rfl) _, rfl⟩
  | lexeme l =>
    have hl : l.IsSpelled := h.spelled (.lexeme l) (by simp)
    cases l with
    | ident i =>
      exact ⟨[.ident i], readLexemes?_ident hl (endsName_text rfl hspelled hapart), rfl⟩
    | lifetime => exact hl.elim
    | punct c joint =>
      refine ⟨[.punct c (gs.head?.any isPunct)], ?_, rfl⟩
      rw [← readPunct?_text hspelled]
      exact readLexemes?_punct hl _
    | literal spelling =>
      refine ⟨[.literal spelling], ?_, rfl⟩
      obtain ⟨content, rfl⟩ := hl
      have hread := readLexemes?_string content (endsName_text rfl hspelled hapart)
      simpa [text_cons, chars, Lexeme.chars] using hread
    | opening d => exact ⟨[.opening d], readLexemes?_opening d (head?_text_ne_slash hspelled), rfl⟩
    | closing d => exact ⟨[.closing d], readLexemes?_closing d _, rfl⟩

/-- A readable text is read as its tokens. -/
theorem lex?_text {gs : List Glyph} (h : Readable gs) : lex? (text gs) = some (read gs) := by
  induction gs with
  | nil => rfl
  | cons g gs ih =>
    have hrest : Readable gs :=
      ⟨fun h' hmem => h.spelled h' (by simp [hmem]), (List.isChain_cons.mp h.apart).2⟩
    obtain ⟨head, hread, htokens⟩ := readLexemes?_text h
    obtain ⟨c, cs, hchars, -⟩ := (h.spelled g (by simp)).exists_head
    rw [htokens]
    refine lex?_of_readLexemes? hread ?_ (ih hrest)
    simp only [text_cons, hchars, List.length_append, List.length_cons]
    omega

end Glyph

end RowFactory
