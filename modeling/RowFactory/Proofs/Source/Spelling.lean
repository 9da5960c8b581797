import Mathlib.Data.List.Basic
import Mathlib.Data.List.TakeWhile
import RowFactory.Proofs.Text.Quoted

namespace RowFactory

theorem ne_of_test {p : Char → Bool} {c d : Char} (hc : p c) (hd : p d = false) : c ≠ d := by
  rintro rfl
  simp [hc] at hd

/-- The code points in the intervals of a table. -/
def CharTable.points (table : CharTable) : List Nat :=
  table.flatMap fun interval => List.range' interval.1 (interval.2 + 1 - interval.1)

theorem CharTable.mem_points {table : CharTable} {c : Char} (h : table.contains c) :
    c.toNat ∈ table.points := by
  obtain ⟨interval, hmem, hin⟩ := List.any_eq_true.mp h
  simp only [Bool.and_eq_true, decide_eq_true_eq] at hin
  exact List.mem_flatMap.mpr ⟨interval, hmem, List.mem_range'_1.mpr (by omega)⟩

/-- The code points of the characters that count as blanks between tokens. -/
def tokenBlanks : List Nat := blankTable.points ++ ['\u200e'.toNat, '\u200f'.toNat]

theorem mem_tokenBlanks {c : Char} (h : isTokenBlank c) : c.toNat ∈ tokenBlanks := by
  simp only [isTokenBlank, isBlank, Bool.or_eq_true, decide_eq_true_eq] at h
  rcases h with (h | rfl) | rfl
  · exact List.mem_append_left _ (CharTable.mem_points h)
  · simp [tokenBlanks]
  · simp [tokenBlanks]

/-- No character of a name is a blank. -/
theorem isTokenBlank_eq_false {c : Char} (h : isIdentifierContinue c) : isTokenBlank c = false := by
  have hall : ∀ n ∈ tokenBlanks, isIdentifierContinue (Char.ofNat n) = false := by decide +kernel
  cases hb : isTokenBlank c with
  | false => rfl
  | true =>
    have hc := hall c.toNat (mem_tokenBlanks hb)
    rw [Char.ofNat_toNat, h] at hc
    cases hc

theorem isIdentifierContinue_of_start {c : Char} (h : isIdentifierStart c) :
    isIdentifierContinue c := by
  simp [isIdentifierContinue, h]

/-- Characters that make a literal, or a raw name, of the letters before them. -/
def quoteMarks : List Char := ['\x22', '\x27', '#']

/-- What may stand after a name: it neither goes on with it nor makes something else of it. -/
def EndsName (rest : List Char) : Prop :=
  ∀ c ∈ rest.head?, isIdentifierContinue c = false ∧ c ∉ quoteMarks

theorem isIdentifierContinue_of_mem_quoteMarks {q : Char} (h : q ∈ quoteMarks) :
    isIdentifierContinue q = false := by
  have hall : ∀ q ∈ quoteMarks, isIdentifierContinue q = false := forall_mem_of_all (by decide)
  exact hall q h

/-- No literal begins with a name. -/
theorem not_prefix_name {name rest : List Char} (w : List Char) {q : Char} (more : List Char)
    (hname : ∀ c ∈ name, isIdentifierContinue c) (hrest : EndsName rest)
    (hw : ∀ c ∈ w, isIdentifierContinue c) (hq : q ∈ quoteMarks) :
    ¬ w ++ q :: more <+: name ++ rest := by
  induction name generalizing w with
  | nil =>
    rintro ⟨tail, htail⟩
    cases w with
    | nil => exact (hrest q (by rw [← List.nil_append rest, ← htail]; rfl)).2 hq
    | cons c w =>
      have hc := (hrest c (by rw [← List.nil_append rest, ← htail]; rfl)).1
      rw [hw c (by simp)] at hc
      cases hc
  | cons a name ih =>
    intro hprefix
    cases w with
    | nil =>
      obtain ⟨rfl, -⟩ := List.cons_prefix_cons.mp hprefix
      have hq' := isIdentifierContinue_of_mem_quoteMarks hq
      rw [hname q (by simp)] at hq'
      cases hq'
    | cons c w =>
      exact ih w (fun c hc => hname c (by simp [hc])) (fun c hc => hw c (by simp [hc]))
        (List.cons_prefix_cons.mp hprefix).2

theorem dropWord?_eq_none {word : String} {cs : List Char} (h : ¬ word.toList <+: cs) :
    dropWord? word cs = none := by
  cases hd : dropWord? word cs with
  | none => rfl
  | some rest => exact absurd ⟨rest, List.isPrefixOf?_eq_some_iff_append_eq.mp hd⟩ h

theorem startsWith_eq_false {word : String} {cs : List Char} (h : ¬ word.toList <+: cs) :
    startsWith word cs = false := by
  cases hs : startsWith word cs with
  | false => rfl
  | true => exact absurd (List.isPrefixOf_iff_prefix.mp hs) h

theorem readHashes?_eq_none {cs : List Char} (h : ∀ c ∈ cs.head?, c ∉ quoteMarks) :
    readHashes? cs = none := by
  cases cs with
  | nil => rfl
  | cons c cs =>
    have hc := h c rfl
    simp only [quoteMarks, List.mem_cons, List.not_mem_nil, or_false, not_or] at hc
    simp only [readHashes?, List.takeWhile_cons, hc.2.2, decide_false, Bool.false_eq_true,
      ↓reduceIte, List.length_nil, List.drop_zero]
    split
    next heq => exact absurd (List.cons.inj heq).1 hc.1
    next => rfl

theorem isAsciiDigit_eq_false {c : Char} (h : isIdentifierStart c) : isAsciiDigit c = false := by
  have hall : ∀ n ∈ List.range' 48 10, isIdentifierStart (Char.ofNat n) = false := by decide
  cases hd : isAsciiDigit c with
  | false => rfl
  | true =>
    have hmem : c.toNat ∈ List.range' 48 10 := by
      simp only [isAsciiDigit, Bool.and_eq_true, decide_eq_true_eq] at hd
      have hlow : ('0' : Char).toNat ≤ c.toNat := hd.1
      have hhigh : c.toNat ≤ ('9' : Char).toNat := hd.2
      simp only [List.mem_range'_1]
      exact ⟨hlow, Nat.lt_succ_of_le hhigh⟩
    have hc := hall c.toNat hmem
    rw [Char.ofNat_toNat, h] at hc
    cases hc

theorem le_of_hexValue?_eq_some {c : Char} {d : Nat} (h : hexValue? c = some d)
    (hdigit : isAsciiDigit c = false) : 10 ≤ d := by
  unfold hexValue? at h
  split at h
  next hd => simp [isAsciiDigit, hd] at hdigit
  next =>
    split at h
    next => obtain rfl := Option.some.inj h; omega
    next =>
      split at h
      next => obtain rfl := Option.some.inj h; omega
      next => cases h

/-- No number begins with a character that is no digit. -/
theorem number_eq_none {c : Char} (cs : List Char) (h : isAsciiDigit c = false) :
    fractionEnd? (c :: cs) = none ∧
      (digitsEnd? (integerBase (c :: cs)).1 true (integerBase (c :: cs)).2) = none := by
  have hzero : c ≠ '0' := by
    rintro rfl
    cases h
  have hbase : integerBase (c :: cs) = (10, c :: cs) := by
    unfold integerBase
    split
    all_goals first | rfl | exact absurd (List.cons.inj ‹_›).1 hzero
  have hguard : (guard (isAsciiDigit c) : Option Unit) = none := if_neg (by simp [h])
  have hfraction : fractionEnd? (c :: cs) = none := by
    rw [fractionEnd?, List.head?_cons, Option.bind_eq_bind, Option.bind_some, hguard]
    rfl
  refine ⟨hfraction, ?_⟩
  rw [hbase, digitsEnd?]
  split
  next => rfl
  next =>
    cases hv : hexValue? c with
    | none => rfl
    | some d =>
      have hd := le_of_hexValue?_eq_some hv h
      simp [Nat.not_lt.mpr hd]

section Name

variable {name rest : List Char} (hname : ∀ c ∈ name, isIdentifierContinue c)
  (hrest : EndsName rest)
include hname hrest

theorem quotedEnd?_name (rules : QuoteRules) {plain raw : String} (w : List Char)
    (hplain : plain.toList = w ++ ['\x22']) (hw : w.all isIdentifierContinue)
    (hraw : raw.toList.all isIdentifierContinue) :
    quotedEnd? rules plain raw (name ++ rest) = none := by
  have hnone : dropWord? plain (name ++ rest) = none := by
    apply dropWord?_eq_none
    rw [hplain]
    exact not_prefix_name w [] hname hrest (List.all_eq_true.mp hw) (by decide)
  have hhashes : (dropWord? raw (name ++ rest)).bind readHashes? = none := by
    cases hd : dropWord? raw (name ++ rest) with
    | none => rfl
    | some tail =>
      refine readHashes?_eq_none fun c hc hmem => ?_
      obtain ⟨more, rfl⟩ : ∃ more, tail = c :: more := by
        cases tail with
        | nil => cases hc
        | cons d more => exact ⟨more, by rw [Option.some.inj hc]⟩
      have hsplit := List.isPrefixOf?_eq_some_iff_append_eq.mp hd
      exact not_prefix_name _ more hname hrest (List.all_eq_true.mp hraw) hmem ⟨[], by rw [← hsplit]; simp⟩
  rw [quotedEnd?, hnone, hhashes]
  rfl

theorem characterEnd?_name (rules : QuoteRules) {opening : String} (w : List Char)
    (hopening : opening.toList = w ++ ['\x27']) (hw : w.all isIdentifierContinue) :
    characterEnd? rules opening (name ++ rest) = none := by
  have hnone : dropWord? opening (name ++ rest) = none := by
    apply dropWord?_eq_none
    rw [hopening]
    exact not_prefix_name w [] hname hrest (List.all_eq_true.mp hw) (by decide)
  rw [characterEnd?, hnone]
  rfl

theorem startsWith_name_eq_false {word : String}
    (h : (word.toList.dropWhile isIdentifierContinue).head?.any quoteMarks.contains) :
    startsWith word (name ++ rest) = false := by
  apply startsWith_eq_false
  rw [← List.takeWhile_append_dropWhile (p := isIdentifierContinue) (l := word.toList)]
  cases hmark : word.toList.dropWhile isIdentifierContinue with
  | nil => simp [hmark] at h
  | cons q more =>
    have hq : q ∈ quoteMarks := by simpa [hmark] using h
    exact not_prefix_name _ more hname hrest (fun c hc => List.mem_takeWhile_imp hc) hq

theorem startsLikeLiteral_name : startsLikeLiteral (name ++ rest) = false := by
  have hall : ∀ word ∈ ["r\x22", "r#\x22", "r##", "b\x22", "b'", "br\x22", "br#", "c\x22", "cr\x22",
      "cr#"], (word.toList.dropWhile isIdentifierContinue).head?.any quoteMarks.contains := by decide
  rw [startsLikeLiteral, List.any_eq_false]
  intro word hword
  rw [startsWith_name_eq_false hname hrest (hall word hword)]
  simp

theorem literalEnd?_name (hdigit : ∀ c ∈ name.head?, isAsciiDigit c = false) (hne : name ≠ []) :
    literalEnd? (name ++ rest) = none := by
  obtain ⟨c, cs, rfl⟩ := List.exists_cons_of_ne_nil hne
  have hnumber := number_eq_none (cs ++ rest) (hdigit c rfl)
  rw [literalEnd?, quotedEnd?_name hname hrest .text [] rfl (by decide) (by decide),
    quotedEnd?_name hname hrest .bytes ['b'] rfl (by decide) (by decide),
    quotedEnd?_name hname hrest .cText ['c'] rfl (by decide) (by decide),
    characterEnd?_name hname hrest .bytes ['b'] rfl (by decide),
    characterEnd?_name hname hrest .text [] rfl (by decide), List.cons_append, hnumber.1]
  simp [hnumber.2]

end Name

/-- A text as it is taken apart: nothing but the first character decides what comes first. -/
theorem readLexemes?_cons {c : Char} {cs : List Char} (hslash : c ≠ '/')
    (hblank : isTokenBlank c = false) (hparen : c = '(' → cs.head? ≠ some '/') :
    readLexemes? (c :: cs) =
      match delimiterOf? c with
      | some delimiter => some ([delimiter], cs)
      | none => (readLeaf? (c :: cs)).map fun (l, rest) => ([l], rest) := by
  have hs : '/' ≠ c := hslash.symm
  have hfailed : dropWord? failedLiteral (c :: cs) = none := by
    by_cases h : c = '('
    · subst h
      have hcs := hparen rfl
      cases cs with
      | nil => rfl
      | cons d ds =>
        have hd : '/' ≠ d := fun h => hcs (by rw [h]; rfl)
        simp [dropWord?, failedLiteral, List.isPrefixOf?, hd]
    · simp [dropWord?, failedLiteral, List.isPrefixOf?, Ne.symm h]
  have hskip : skipBlank? (c :: cs) = none := by
    simp [skipBlank?, isPlainLineComment, isPlainBlockComment, startsWith, List.isPrefixOf, hs,
      hblank]
  have hdoc : readDoc? (c :: cs) = none := by
    have hstart : ∀ w ∈ ["//!", "/*!", "///", "/**"], startsWith w (c :: cs) = false := by
      simp [startsWith, List.isPrefixOf, hs]
    rw [readDoc?, hstart "//!" (by simp), hstart "/*!" (by simp), hstart "///" (by simp),
      hstart "/**" (by simp)]
    rfl
  rw [readLexemes?, hskip]
  simp only
  rw [hdoc]
  simp only
  rw [hfailed]
  cases hd : delimiterOf? c <;> simp [hd]

/-- A name that can be spelled: its characters are those of an identifier, and it has a raw form if
it is raw. -/
def Ident.isSpelled (i : Ident) : Bool := isIdentifier i.name.toList && !(i.raw && neverRaw i.name)

theorem readName?_append {c : Char} {name rest : List Char} (hc : isIdentifierStart c)
    (hname : ∀ c ∈ name, isIdentifierContinue c) (hrest : EndsName rest) :
    readName? (c :: name ++ rest) = some (c :: name, rest) := by
  have hstop : rest.takeWhile isIdentifierContinue = [] ∧
      rest.dropWhile isIdentifierContinue = rest := by
    cases rest with
    | nil => exact ⟨rfl, rfl⟩
    | cons d ds => simp [(hrest d rfl).1]
  rw [List.cons_append, readName?, if_pos hc, List.takeWhile_append_of_pos hname,
    List.dropWhile_append_of_pos hname, hstop.1, hstop.2, List.append_nil]

theorem readPunct?_eq_none {c : Char} {cs : List Char} (hc : isIdentifierContinue c) :
    readPunct? (c :: cs) = none := by
  have hall : ∀ d ∈ "~!@#$%^&*-=+|;:,<.>/?'".toList, isIdentifierContinue d = false :=
    forall_mem_of_all (by decide)
  have hmem : c ∉ "~!@#$%^&*-=+|;:,<.>/?'".toList := by
    intro h
    rw [hall c h] at hc
    cases hc
  unfold readPunct?
  simp only [if_neg hmem]
  split <;> rfl

theorem readPunctuation?_eq_none {c : Char} {cs : List Char} (hc : isIdentifierContinue c) :
    readPunctuation? (c :: cs) = none := by
  rw [readPunctuation?, readPunct?_eq_none hc]
  rfl

/-- A name that is not raw is read up to its end. -/
theorem readLeaf?_plain {c : Char} {name rest : List Char} (hc : isIdentifierStart c)
    (hname : ∀ c ∈ name, isIdentifierContinue c) (hrest : EndsName rest) :
    readLeaf? (c :: name ++ rest) = some (.ident (.plain (String.ofList (c :: name))), rest) := by
  have hall : ∀ d ∈ c :: name, isIdentifierContinue d := by
    intro d hd
    rcases List.mem_cons.mp hd with rfl | hd
    · exact isIdentifierContinue_of_start hc
    · exact hname d hd
  have hliteral := literalEnd?_name hall hrest (fun d hd => by
    obtain rfl := Option.some.inj hd
    exact isAsciiDigit_eq_false hc) (List.cons_ne_nil c name)
  have hraw : dropWord? "r#" (c :: name ++ rest) = none :=
    dropWord?_eq_none (not_prefix_name ['r'] [] hall hrest (forall_mem_of_all (by decide)) (by decide))
  have hpunct : readPunctuation? (c :: name ++ rest) = none :=
    readPunctuation?_eq_none (isIdentifierContinue_of_start hc)
  rw [readLeaf?, hliteral, hpunct, startsLikeLiteral_name hall hrest, readIdent?, hraw,
    readName?_append hc hname hrest]
  rfl

/-- A raw name is read up to its end. -/
theorem readLeaf?_raw {c : Char} {name rest : List Char} (hc : isIdentifierStart c)
    (hname : ∀ c ∈ name, isIdentifierContinue c) (hrest : EndsName rest)
    (hraw : neverRaw (String.ofList (c :: name)) = false) :
    readLeaf? ('r' :: '#' :: c :: name ++ rest) =
      some (.ident ⟨true, String.ofList (c :: name)⟩, rest) := by
  have hquote : '\x22' ≠ c := (ne_of_test hc (by decide)).symm
  have hhash : '#' ≠ c := (ne_of_test hc (by decide)).symm
  have hhashes : readHashes? ('#' :: c :: name ++ rest) = none := by
    simp only [readHashes?, List.cons_append, List.takeWhile_cons, decide_true, ↓reduceIte,
      Ne.symm hhash, decide_false, Bool.false_eq_true, List.length_cons, List.length_nil,
      Nat.zero_add, List.drop_one, List.tail_cons]
    split
    next heq => exact absurd (List.cons.inj heq).1 hquote.symm
    next => rfl
  have hnumber := number_eq_none (c := 'r') ('#' :: c :: name ++ rest) (by decide)
  have hliteral : literalEnd? ('r' :: '#' :: c :: name ++ rest) = none := by
    have hquoted : quotedEnd? .text "\x22" "r" ('r' :: '#' :: c :: name ++ rest) = none := by
      have hafter : dropWord? "r" ('r' :: '#' :: c :: name ++ rest) =
          some ('#' :: c :: name ++ rest) := rfl
      have hplain : dropWord? "\x22" ('r' :: '#' :: c :: name ++ rest) = none := rfl
      rw [quotedEnd?, hplain, hafter]
      simp only [Option.bind_some]
      rw [hhashes]
      rfl
    rw [literalEnd?, hquoted]
    have hfraction := hnumber.1
    have hdigits := hnumber.2
    simp only [List.cons_append] at hfraction hdigits ⊢
    rw [hfraction]
    simp [hdigits, quotedEnd?, characterEnd?, dropWord?, List.isPrefixOf?]
  have hlike : startsLikeLiteral ('r' :: '#' :: c :: name ++ rest) = false := by
    simp [startsLikeLiteral, startsWith, List.isPrefixOf, hquote, hhash]
  have hpunct : readPunctuation? ('r' :: '#' :: c :: name ++ rest) = none :=
    readPunctuation?_eq_none (by decide)
  have hafter : dropWord? "r#" ('r' :: '#' :: c :: name ++ rest) = some (c :: name ++ rest) := rfl
  have hread := readName?_append hc hname hrest
  rw [readLeaf?, hliteral, hpunct, hlike, readIdent?, hafter]
  simp only [hread, Bool.false_eq_true, ↓reduceIte, Option.bind_eq_bind, Option.bind_some, hraw]
  rfl

/-- Operator characters that begin neither a comment nor a lifetime. -/
def plainPuncts : List Char := "~!@#$%^&*-=+|;:,<.>?".toList

theorem readPunct?_plain {c : Char} (hc : c ∈ plainPuncts) (rest : List Char) :
    readPunct? (c :: rest) = some (c, rest) := by
  have hall : ∀ d ∈ plainPuncts, d ≠ '/' ∧ d ∈ "~!@#$%^&*-=+|;:,<.>/?'".toList :=
    forall_mem_of_all (by decide)
  obtain ⟨hslash, hmem⟩ := hall c hc
  simp only [readPunct?, hmem]
  simp [startsWith, List.isPrefixOf, Ne.symm hslash]

theorem readLeaf?_punct {c : Char} (hc : c ∈ plainPuncts) (rest : List Char) :
    readLeaf? (c :: rest) = some (.punct c (readPunct? rest).isSome, rest) := by
  have hall : ∀ d ∈ plainPuncts, d ∉ ['\x22', '\x27', 'r', 'b', 'c'] ∧
      isAsciiDigit d = false := forall_mem_of_all (by decide)
  obtain ⟨hfirst, hdigit⟩ := hall c hc
  simp only [List.mem_cons, List.not_mem_nil, or_false, not_or] at hfirst
  obtain ⟨hquote, htick, hr, hb, hcc⟩ := hfirst
  have hnumber := number_eq_none rest hdigit
  have hliteral : literalEnd? (c :: rest) = none := by
    rw [literalEnd?, hnumber.1]
    simp [hnumber.2, quotedEnd?, characterEnd?, dropWord?, List.isPrefixOf?, Ne.symm hquote,
      Ne.symm htick, Ne.symm hr, Ne.symm hb, Ne.symm hcc]
  rw [readLeaf?, hliteral]
  simp [readPunctuation?, readPunct?_plain hc, htick]

/-- A string literal is read up to its closing quote. -/
theorem readLeaf?_string (content : List Char) {rest : List Char} (hrest : EndsName rest) :
    readLeaf? (quoteLiteral content ++ rest) =
      some (.literal (String.ofList (quoteLiteral content)), rest) := by
  have hsuffix : dropSuffix rest = rest := by
    unfold dropSuffix
    cases rest with
    | nil => rfl
    | cons d ds =>
      have hd : isIdentifierStart d = false := by
        cases hs : isIdentifierStart d with
        | false => rfl
        | true =>
          have hcont := (hrest d rfl).1
          rw [isIdentifierContinue_of_start hs] at hcont
          cases hcont
      simp [readName?, hd]
  have hread := readQuoted_escapeLiteral content rest
  have hliteral : literalEnd? (quoteLiteral content ++ rest) = some rest := by
    have hquoted : quotedEnd? .text "\x22" "r" (quoteLiteral content ++ rest) = some rest := by
      have hafter : dropWord? "\x22" (quoteLiteral content ++ rest) =
          some (escapeLiteral content ++ '\x22' :: rest) := by
        simp [quoteLiteral, dropWord?, List.isPrefixOf?]
      rw [quotedEnd?, hafter]
      simp [hread]
    rw [literalEnd?, hquoted]
    simp [hsuffix]
  rw [readLeaf?, hliteral]
  simp

end RowFactory
