import RowFactory.Proofs.Name.QualifiedName
import RowFactory.Proofs.Source.ReadsPath
import RowFactory.Proofs.Source.Takes
import RowFactory.Proofs.Source.TokenText

namespace RowFactory

open RowFactory.Parser

/-- The glyphs of names with `::` between them. -/
def nameGlyphs (i : Ident) (names : List Ident) : List Glyph :=
  .lexeme (.ident i) :: names.flatMap fun j =>
    [.lexeme (.punct ':' true), .lexeme (.punct ':' false), .lexeme (.ident j)]

theorem nameGlyphs_cons (i j : Ident) (names : List Ident) :
    nameGlyphs i (j :: names) =
      .lexeme (.ident i) :: .lexeme (.punct ':' true) :: .lexeme (.punct ':' false) ::
        nameGlyphs j names := rfl

theorem text_nameGlyphs (i : Ident) (names : List Ident) :
    Glyph.text (nameGlyphs i names) = ("::".intercalate ((i :: names).map Ident.text)).toList := by
  induction names generalizing i with
  | nil => simp [nameGlyphs, Glyph.text, Glyph.chars, Lexeme.chars]
  | cons j names ih =>
    rw [nameGlyphs_cons, List.map_cons, List.map_cons, String.intercalate_cons_cons,
      ← List.map_cons, String.toList_append, String.toList_append, ← ih j]
    simp [Glyph.text, Glyph.chars, Lexeme.chars]

theorem readable_nameGlyphs {i : Ident} {names : List Ident} (h : ∀ j ∈ i :: names, j.isSpelled) :
    Glyph.Readable (nameGlyphs i names) := by
  induction names generalizing i with
  | nil => exact Glyph.readable_single (h i (by simp))
  | cons j names ih =>
    have hrest := ih fun k hk => h k (List.mem_cons_of_mem i hk)
    have hcolon : ':' ∈ plainPuncts := by decide
    have hcolons := Glyph.Readable.cons (g := .lexeme (.punct ':' true)) hcolon rfl
      (Glyph.Readable.cons (g := .lexeme (.punct ':' false)) hcolon rfl hrest)
    have hname := Glyph.readable_single (g := .lexeme (.ident i)) (h i (by simp))
    refine hname.append hcolons fun a ha b hb => ?_
    obtain rfl : .lexeme (.punct ':' true) = b := Option.some.inj hb
    exact fun _ => ⟨rfl, by simp⟩

theorem read_nameGlyphs (i : Ident) (names : List Ident) :
    Glyph.read (nameGlyphs i names) = Token.flatten (.ident i :: laterNames names) := by
  induction names generalizing i with
  | nil => rfl
  | cons j names ih =>
    have hrest := ih j
    rw [nameGlyphs_cons]
    simp only [Glyph.read]
    rw [hrest]
    rfl

/-- A name begins with a character of an identifier. -/
theorem exists_head_text {i : Ident} (h : i.isSpelled) :
    ∃ c cs, i.text.toList = c :: cs ∧ isIdentifierContinue c := by
  obtain ⟨raw, name⟩ := i
  simp only [Ident.isSpelled, Bool.and_eq_true] at h
  cases raw with
  | true => exact ⟨'r', '#' :: name.toList, by simp [Ident.text], by decide⟩
  | false =>
    cases hcs : name.toList with
    | nil => simp [hcs, isIdentifier] at h
    | cons c cs =>
      rw [hcs, isIdentifier, Bool.and_eq_true] at h
      exact ⟨c, cs, by simp [Ident.text, hcs], isIdentifierContinue_of_start h.1.1⟩

/-- Names with `::` between them are taken apart into those names. -/
theorem tokens?_names {i : Ident} {names : List Ident} (h : ∀ j ∈ i :: names, j.isSpelled) :
    tokens? ("::".intercalate ((i :: names).map Ident.text)).toList =
      some (.ident i :: laterNames names) := by
  have hreadable := readable_nameGlyphs h
  have hmark : dropMark (Glyph.text (nameGlyphs i names)) = Glyph.text (nameGlyphs i names) := by
    obtain ⟨c, cs, hhead, hc⟩ := exists_head_text (h i (by simp))
    have hne : c ≠ '\ufeff' := ne_of_test hc (by decide +kernel)
    simp [dropMark, nameGlyphs, Glyph.text, Glyph.chars, Lexeme.chars, hhead, hne]
  rw [← text_nameGlyphs, tokens?, hmark, Glyph.lex?_text hreadable, read_nameGlyphs,
    Option.bind_some, Token.ofLexemes?_flatten]

/-- A path of names is read back from its text. -/
theorem ofText?_names {i : Ident} {names : List Ident} (hspelled : ∀ j ∈ i :: names, j.isSpelled)
    (hends : ∀ j ∈ i :: names, j.endsPath) :
    Path.ofText? ("::".intercalate ((i :: names).map Ident.text)) =
      some ⟨false, (i :: names).map .plain⟩ := by
  have hreadable : Path.IsReadable ⟨false, (i :: names).map .plain⟩ := ⟨i, names, rfl, hends⟩
  have hends : EndsPath false [] := ⟨rfl, rfl⟩
  have hread := hreadable.reads_path (Grammar.forTokens (.ident i :: laterNames names)) hends
  have htokens : Path.tokens ⟨false, (i :: names).map .plain⟩ = .ident i :: laterNames names :=
    joined_plain i names
  rw [htokens, List.append_nil] at hread
  obtain ⟨p, hp, rfl⟩ := hread.exists_all
  rw [Path.ofText?, ofText?, tokens?_names hspelled]
  exact hp

theorem fails_ident {i : Ident} (h : i.isKeyword) (rest : List Token) :
    ident.Fails (.ident i :: rest) := by
  refine (reads_anyIdent i).bind_fails ?_
  rw [guard_eq_ite, if_neg (by simp [h])]
  exact (fails_failure rest).bind_left _

/-- A name is read as an identifier if it is no reserved word. -/
theorem isSome_ofText?_ident {name : String} (h : isIdentifier name.toList) :
    (Ident.ofText? name).isSome = !keywords.contains name := by
  have hspelled : ∀ j ∈ [Ident.plain name], j.isSpelled := by
    simp [Ident.isSpelled, Ident.plain, h]
  have htokens : tokens? name.toList = some [.ident (.plain name)] := by
    simpa [Ident.text, Ident.plain, laterNames] using tokens?_names hspelled
  have hread : Ident.ofText? name = all ident [.ident (.plain name)] := by
    rw [Ident.ofText?, ofText?, htokens]
    rfl
  rw [hread]
  cases hkeyword : keywords.contains name with
  | true =>
    have hplain : (Ident.plain name).isKeyword := by
      simpa [Ident.isKeyword, Ident.plain] using hkeyword
    have hrun := fails_ident hplain [] (.start [.ident (.plain name)]) rfl
    rw [all, hrun]
    rfl
  | false =>
    have hplain : (Ident.plain name).isKeyword = false := by
      simpa [Ident.isKeyword, Ident.plain] using hkeyword
    have hident := reads_ident (o := []) hplain
    obtain ⟨i, hi, -⟩ := hident.exists_all
    rw [hi]
    rfl

/-- A module's name in the text of a path: as it is where it names a place by itself or is read as
an identifier, and raw otherwise. -/
def segmentText (name : String) : String :=
  if pathKeywords.contains name || (Ident.ofText? name).isSome then name else "r#" ++ name

/-- The text of the path by which generated code refers to the type. -/
def QualifiedName.pathText (n : QualifiedName) : String :=
  "::".intercalate (n.module.segments.map segmentText ++ [n.ident.text])

theorem segmentText_eq {name : String} (h : IsModuleName name) :
    segmentText name = (moduleIdent name).text := by
  rw [segmentText, isSome_ofText?_ident h.1]
  simp only [moduleIdent, Ident.text]
  rcases Bool.eq_false_or_eq_true (pathKeywords.contains name) with hplace | hplace <;>
    rcases Bool.eq_false_or_eq_true (keywords.contains name) with hkeyword | hkeyword <;>
    simp only [hplace, hkeyword] <;> rfl

/-- The path of a type can stand wherever a path can, and ends in the type's own identifier. -/
theorem QualifiedName.isReadable_of_path? {n : QualifiedName} {p : Path} (h : n.path? = .ok p)
    (hident : n.ident.isKeyword = false) :
    p.IsReadable ∧ p.startsPlain ∧ ∃ names, p.segments = (names ++ [n.ident]).map .plain := by
  have hends : n.ident.endsPath := by simp [Ident.endsPath, hident]
  rw [path?_eq (isModuleName_of_path? h), if_pos hends] at h
  cases h
  have hall := endsPath_names n.module.segments hends
  have htry : ∀ j ∈ n.module.segments.map moduleIdent ++ [n.ident], j ≠ .plain "try" := by
    simp only [List.mem_append, List.mem_map, List.mem_singleton]
    rintro j (⟨name, -, rfl⟩ | rfl) hj
    · obtain rfl : name = "try" := congrArg Ident.name hj
      revert hj
      decide
    · rw [hj] at hident
      cases hident
  obtain ⟨i, names, hnames⟩ : ∃ i names,
      n.module.segments.map moduleIdent ++ [n.ident] = i :: names :=
    List.exists_cons_of_ne_nil (by simp)
  rw [hnames] at hall htry
  refine ⟨⟨i, names, by rw [hnames], hall⟩, ?_, _, rfl⟩
  simpa [Path.startsPlain, hnames, Segment.name] using htry i List.mem_cons_self

/-- An identifier that may name a type: it can be spelled, and is no reserved word. -/
def Ident.IsTypeName (i : Ident) : Prop := i.isSpelled ∧ i.isKeyword = false

namespace QualifiedName

variable {n : QualifiedName} (hmodules : ∀ name ∈ n.module.segments, IsModuleName name)
  (hident : n.ident.IsTypeName)
include hmodules

theorem pathText_eq : n.pathText =
    "::".intercalate ((n.module.segments.map moduleIdent ++ [n.ident]).map Ident.text) := by
  have hsegments : n.module.segments.map segmentText =
      (n.module.segments.map moduleIdent).map Ident.text := by
    rw [List.map_map]
    exact List.map_congr_left fun name hname => segmentText_eq (hmodules name hname)
  rw [pathText, hsegments, List.map_append]
  rfl

include hident

theorem path?_eq_ok :
    n.path? = .ok ⟨false, (n.module.segments.map moduleIdent ++ [n.ident]).map .plain⟩ := by
  rw [path?_eq hmodules, if_pos]
  simp [Ident.endsPath, hident.2]

/-- The path is the one that is read from its text. -/
theorem ofText?_pathText :
    Path.ofText? n.pathText =
      some ⟨false, (n.module.segments.map moduleIdent ++ [n.ident]).map .plain⟩ := by
  have hspelled : ∀ j ∈ n.module.segments.map moduleIdent ++ [n.ident], j.isSpelled := by
    intro j hj
    rcases List.mem_append.mp hj with hj | hj
    · obtain ⟨name, hname, rfl⟩ := List.mem_map.mp hj
      exact isSpelled_moduleIdent (hmodules name hname)
    · obtain rfl : j = n.ident := by simpa using hj
      exact hident.1
  have hends := endsPath_names (i := n.ident) n.module.segments
    (by simp [Ident.endsPath, hident.2])
  obtain ⟨i, names, hnames⟩ : ∃ i names,
      n.module.segments.map moduleIdent ++ [n.ident] = i :: names :=
    List.exists_cons_of_ne_nil (by simp)
  rw [pathText_eq hmodules, hnames]
  rw [hnames] at hspelled hends
  exact ofText?_names hspelled hends

end QualifiedName

/-- Where the names of the modules can be written, and the type's identifier is no reserved word,
there is a path, and it is the one that is read from its text. It has neither colons in front nor
arguments; its names are those of the modules and of the type, which stands last as it is spelled; a
module's name is raw if it is a reserved word that does not name a place by itself, and only then.
So types with one identifier have one path only if they stand in one module. -/
theorem name_has_path {n : QualifiedName}
    (hmodules : ∀ name ∈ n.module.segments, IsModuleName name) (hident : n.ident.IsTypeName) :
    ∃ p, n.path? = .ok p ∧ Path.ofText? n.pathText = some p ∧ p.leadingColon = false ∧
      (∀ s ∈ p.segments, s.hasArguments = false) ∧
      p.segments.map (·.name.name) = n.module.segments ++ [n.simpleName] ∧
      p.segments.getLast?.map Segment.name = some n.ident ∧
      (∀ (i : Nat) (name : String), n.module.segments[i]? = some name →
        ∃ s, p.segments[i]? = some s ∧
          (s.name.raw = true ↔ name ∈ keywords ∧ name ∉ pathKeywords)) ∧
      ∀ m : QualifiedName, (∀ name ∈ m.module.segments, IsModuleName name) → m.ident = n.ident →
        m.path? = n.path? → m.module = n.module := by
  refine ⟨_, n.path?_eq_ok hmodules hident, n.ofText?_pathText hmodules hident, rfl, ?_, ?_, ?_, ?_,
    fun m hm hsame hpath => ?_⟩
  · intro s hs
    obtain ⟨i, -, rfl⟩ := List.mem_map.mp hs
    rfl
  · simp [QualifiedName.simpleName, Segment.name, moduleIdent, Function.comp_def]
  · simp [Segment.name]
  · intro i name hname
    refine ⟨.plain (moduleIdent name), ?_, ?_⟩
    · have hlt := (List.getElem?_eq_some_iff.mp hname).1
      rw [List.map_append, List.getElem?_append_left (by simpa using hlt), List.getElem?_map,
        List.getElem?_map, hname]
      rfl
    · simp [Segment.name, moduleIdent, and_comm]
  · rw [n.path?_eq_ok hmodules hident, m.path?_eq_ok hm (hsame ▸ hident)] at hpath
    have hnames := congrArg (List.map (·.name.name)) (congrArg Path.segments (Except.ok.inj hpath))
    have hsegments : m.module.segments = n.module.segments := by
      simpa [Segment.name, moduleIdent, Function.comp_def, hsame] using hnames
    exact congrArg ModulePath.mk hsegments

/-- A type in modules named by reserved words. -/
theorem name_has_path_match :
    let n : QualifiedName := ⟨⟨["crate", "type", "super", "größe"]⟩, ⟨true, "match"⟩⟩
    (∀ name ∈ n.module.segments, IsModuleName name) ∧ n.ident.IsTypeName ∧
      n.pathText = "crate::r#type::super::größe::r#match" ∧
      ∃ p, n.path? = .ok p ∧ Path.ofText? n.pathText = some p := by
  intro n
  have hmodules : ∀ name ∈ n.module.segments, IsModuleName name := by decide +kernel
  have hident : n.ident.IsTypeName := by
    exact ⟨by decide +kernel, by decide +kernel⟩
  obtain ⟨p, hpath, htext, -⟩ := name_has_path hmodules hident
  exact ⟨hmodules, hident, by decide +kernel, p, hpath, htext⟩

end RowFactory
