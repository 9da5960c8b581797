import Mathlib.Data.List.Forall2
import RowFactory.Output.Writer
import RowFactory.Proofs.Factory.Execution
import RowFactory.Proofs.Factory.OfStruct
import RowFactory.Proofs.Mapping.ColumnAttribute

namespace RowFactory

/-- All of the text is one string literal, and the content is what it stands for. -/
structure StandsFor (literal content : String) : Prop where
  closes : quotedEnd? .text "\x22" "r" literal.toList = some []
  value : stringValue? literal = some content

theorem standsFor_of_readQuoted {body : List Char} {content : String}
    (h : QuoteRules.text.readQuoted .plain body = some (content.toList, [])) :
    StandsFor (String.ofList ('\x22' :: body)) content := by
  constructor
  · have hafter : dropWord? "\x22" ('\x22' :: body) = some body := by
      simp [dropWord?, List.isPrefixOf?]
    rw [String.toList_ofList, quotedEnd?, hafter]
    simp [h]
  · simp [stringValue?, h]

theorem standsFor_quoteLiteral (content : String) :
    StandsFor (String.ofList (quoteLiteral content.toList)) content :=
  standsFor_of_readQuoted (readQuoted_escapeLiteral content.toList [])

theorem standsFor_quoteName (content : String) :
    StandsFor (String.ofList (quoteName content.toList)) content :=
  standsFor_of_readQuoted (readQuoted_quoteName content.toList [])

/-- Characters that end a line. -/
def lineBreaks : List Char :=
  ['\n', '\x0b', '\x0c', '\r', '\u0085', '\u2028', '\u2029']

theorem not_mem_lineBreaks_of_isPrintable {c : Char} (h : isPrintable c) : c ∉ lineBreaks := by
  have hnone : ∀ x ∈ lineBreaks, isPrintable x = false := forall_mem_of_all (by decide +kernel)
  intro hc
  rw [hnone c hc] at h
  cases h

/-- The fields that a factory assigns, in order. -/
def StructItem.assignedFields (s : StructItem) : List Field :=
  s.fields.toList.filter fun x => (Member.ofField x).isEligible

/-- The factory is an `impl` block with one function, which sets these fields one after another from
the columns of these literals. -/
def Factory.Sets (f : Factory) (literals : List (Ident × String)) : Prop :=
  f.tokens = f.tokensBefore ++ [Token.word "for"] ++ f.target.tokens ++
    f.implGenerics.argumentTokens ++ f.implGenerics.whereTokens ++
    [.group .brace (f.signatureTokens ++ [.group .brace (letTokens (!literals.isEmpty) ++
      literals.flatMap (fun (field, literal) =>
        setTokens (f.below ["Row", "get"]).tokens f.rowName field literal) ++ okTokens)])]

/-- The field and the literal of an assignment. -/
def Assignment.literal (a : Assignment) : Ident × String :=
  (a.field, String.ofList (quoteLiteral a.column.toList))

theorem Factory.sets_literals (f : Factory) : f.Sets (f.assignments.map Assignment.literal) := by
  unfold Factory.Sets
  rw [tokens_eq, tokensAfter, bodyTokens_eq, List.isEmpty_map, List.flatMap_map]
  simp only [List.append_assoc]
  rfl

/-- The field is set from the column that its attributes name, however they spell it. -/
structure Assigns (x : Field) (assigned : Ident × String) : Prop where
  name : x.name = some assigned.1
  column : StandsFor assigned.2 (resolveColumnName assigned.1 x.attrs)
  spelled : ∀ literal name, x.NamesColumn literal → stringValue? literal = some name →
    StandsFor assigned.2 name

theorem assigns_resolveColumnName {x : Field} {field : Ident} (h : x.name = some field) :
    Assigns x (field, String.ofList (quoteLiteral (resolveColumnName field x.attrs).toList)) := by
  have hcolumn := standsFor_quoteLiteral (resolveColumnName field x.attrs)
  refine ⟨h, hcolumn, fun literal name hnames hname => ?_⟩
  rw [← resolveColumnName_of_namesColumn hnames hname field]
  exact hcolumn

theorem forall₂_fieldBindings (fields : List Field) :
    List.Forall₂ (fun x b => Assigns x b.assignment.literal)
      (fields.filter fun x => (Member.ofField x).isEligible) (fieldBindings fields) := by
  induction fields with
  | nil => exact .nil
  | cons x rest ih =>
    by_cases h : (Member.ofField x).isEligible
    · obtain ⟨field, hfield, hb⟩ := binding?_of_isEligible h
      rw [List.filter_cons, if_pos h, fieldBindings_cons_some hb]
      exact .cons (assigns_resolveColumnName hfield) ih
    · have hb : (Member.ofField x).binding? = none := by rw [Member.binding?, if_neg h]
      rw [List.filter_cons, if_neg h, fieldBindings_cons_none hb]
      exact ih

/-- The index with these literals in its lines. -/
def indexWith (literals : List String) : String :=
  String.ofList ("// @generated by rowmap-codegen. Do not edit.\n".toList ++
    literals.flatMap fun literal => "include!(".toList ++ literal.toList ++ ");\n".toList)

theorem indexText_eq (hints : List String) :
    indexText hints = indexWith (hints.map fun hint => String.ofList (quoteName hint.toList)) := by
  unfold indexText indexWith
  rw [List.flatMap_map]
  simp only [String.toList_ofList]
  rfl

theorem includeLine_append (hint : String) (rest : List Char) :
    includeLine hint ++ rest = "include!(".toList ++ '\x22' ::
      (hint.toList.flatMap escapeChar ++ '\x22' :: (");\n".toList ++ rest)) := by
  unfold includeLine quoteName
  rw [List.append_assoc, List.append_assoc, List.append_assoc, List.cons_append,
    List.singleton_append]

/-- The quote that closes a name shows where its line goes on. -/
theorem includeLine_append_inj {hint hint' : String} {rest rest' : List Char}
    (h : includeLine hint ++ rest = includeLine hint' ++ rest') : hint = hint' ∧ rest = rest' := by
  rw [includeLine_append, includeLine_append] at h
  have hbody := (List.cons.inj (List.append_cancel_left h)).2
  have hread := congrArg (QuoteRules.text.readQuoted .plain) hbody
  rw [readQuoted_quoteName, readQuoted_quoteName] at hread
  obtain ⟨hhint, hrest⟩ := Prod.mk.inj (Option.some.inj hread)
  exact ⟨String.toList_injective hhint, List.append_cancel_left hrest⟩

theorem includeLine_append_ne_nil (hint : String) (rest : List Char) :
    includeLine hint ++ rest ≠ [] := by
  rw [includeLine_append]
  exact List.append_ne_nil_of_right_ne_nil _ (List.cons_ne_nil _ _)

theorem flatMap_includeLine_inj {hints hints' : List String}
    (h : hints.flatMap includeLine = hints'.flatMap includeLine) : hints = hints' := by
  induction hints generalizing hints' with
  | nil =>
    cases hints' with
    | nil => rfl
    | cons hint rest => exact absurd h.symm (includeLine_append_ne_nil hint _)
  | cons hint rest ih =>
    cases hints' with
    | nil => exact absurd h (includeLine_append_ne_nil hint _)
    | cons hint' rest' =>
      obtain ⟨rfl, hrest⟩ := includeLine_append_inj h
      rw [ih hrest]

theorem indexText_inj {hints hints' : List String} (h : indexText hints = indexText hints') :
    hints = hints' :=
  flatMap_includeLine_inj (List.append_cancel_left (String.ofList_injective h))

/-- However the literal is spelled by which an attribute names a field's column, the factory sets
that field from a literal that stands for the same name. In the index each file stands in a literal
without a line break, and no other files in no other order give the same index. -/
theorem written_literals_stand_for_names {m : ModulePath} {s : StructItem} {impls : List ImplItem}
    {runtime : Path} {f : Factory}
    (h : Factory.ofType? (.ofStruct m s impls) (AnnotatedType.ofStruct m s impls).bindings
      runtime = .ok f)
    (artifacts others : List Artifact) :
    (∃ literals, f.Sets literals ∧ List.Forall₂ Assigns s.assignedFields literals) ∧
      (∃ literals, indexText (artifacts.map (·.hint)) = indexWith literals ∧
        List.Forall₂ (fun a literal => StandsFor literal a.hint ∧
          ∀ c ∈ literal.toList, c ∉ lineBreaks) artifacts literals) ∧
      (indexText (artifacts.map (·.hint)) = indexText (others.map (·.hint)) →
        artifacts.map (·.hint) = others.map (·.hint)) := by
  refine ⟨⟨_, f.sets_literals, ?_⟩, ⟨_, indexText_eq _, ?_⟩, indexText_inj⟩
  · rw [assignments_of_ofType? h, List.map_map]
    exact List.forall₂_map_right_iff.mpr (forall₂_fieldBindings s.fields.toList)
  · rw [List.map_map]
    refine List.forall₂_map_right_iff.mpr (List.forall₂_same.mpr fun a _ => ?_)
    refine ⟨standsFor_quoteName a.hint, fun c hc => not_mem_lineBreaks_of_isPrintable ?_⟩
    exact isPrintable_of_mem_quoteName (by simpa using hc)

/-- A public field of this name with `#[column(name = literal)]`. -/
def columnField (name literal : String) : Field :=
  ⟨[columnAttribute .paren false literal []], .anyone, some (.plain name), plainTy "String"⟩

theorem namesColumn_columnField (name literal : String) :
    (columnField name literal).NamesColumn literal :=
  ⟨[], .paren, false, [], [], rfl, rfl⟩

theorem binding?_columnField {literal column : String} (h : stringValue? literal = some column)
    (name : String) :
    (Member.ofField (columnField name literal)).binding? =
      some ⟨.plain name, column, plainTy "String"⟩ := by
  obtain ⟨field, hfield, hb⟩ := binding?_of_isEligible (x := columnField name literal) rfl
  obtain rfl := Option.some.inj hfield
  rw [hb, resolveColumnName_of_namesColumn (namesColumn_columnField name literal) h]
  rfl

def readingsStruct (fields : List Field) : StructItem :=
  { attrs := []
    visibility := .inherited
    name := .plain "Readings"
    generics := .none
    fields := .named fields }

/-- NUL before a digit and a combining mark are escaped, a quote and a backslash stand raw. -/
theorem written_literals_stand_for_names_readings :
    let escaped := "\"\\u\x7b0\x7d7e\\u\x7b301\x7d\\r\""
    let raw := "r#\"a\"b\\c\"#"
    let s := readingsStruct [columnField "escaped" escaped, columnField "raw" raw]
    let t := AnnotatedType.ofStruct ⟨["crate"]⟩ s []
    let f : Factory :=
      ⟨⟨false, [.plain (.plain "crate"), .plain (.plain "Readings")]⟩, .none, defaultRuntime,
        [⟨.plain "escaped", "\x007e\u0301\r"⟩, ⟨.plain "raw", "a\"b\\c"⟩]⟩
    let hints := ["a\"\u2028.rs", "b.rs"]
    stringValue? escaped = some "\x007e\u0301\r" ∧ stringValue? raw = some "a\"b\\c" ∧
      Factory.ofType? t t.bindings defaultRuntime = .ok f ∧
      (∃ first second, f.Sets [(.plain "escaped", first), (.plain "raw", second)] ∧
        StandsFor first "\x007e\u0301\r" ∧ StandsFor second "a\"b\\c") ∧
      (∃ first second, indexText hints = indexWith [first, second] ∧
        StandsFor first "a\"\u2028.rs" ∧ '\u2028' ∉ first.toList ∧ StandsFor second "b.rs") ∧
      indexText hints ≠ indexText hints.reverse := by
  intro escaped raw s t f hints
  have hescaped : stringValue? escaped = some "\x007e\u0301\r" := by decide +kernel
  have hraw : stringValue? raw = some "a\"b\\c" := by decide +kernel
  have hbindings : fieldBindings s.fields.toList =
      [⟨.plain "escaped", "\x007e\u0301\r", plainTy "String"⟩,
        ⟨.plain "raw", "a\"b\\c", plainTy "String"⟩] :=
    (fieldBindings_cons_some (binding?_columnField hescaped _) _).trans
      (congrArg _ (fieldBindings_cons_some (binding?_columnField hraw _) _))
  have hf : Factory.ofType? t t.bindings defaultRuntime = .ok f := by
    rw [(bindings_ofStruct _ s []).trans hbindings]
    rfl
  let artifact (hint : String) : Artifact := ⟨t.name, hint, ""⟩
  obtain ⟨hfactory, hindex, hinj⟩ :=
    written_literals_stand_for_names hf (hints.map artifact) (hints.reverse.map artifact)
  refine ⟨hescaped, hraw, hf, ?_, ?_, ?_⟩
  · obtain ⟨_, hsets, hassigns⟩ := hfactory
    rcases hassigns with _ | ⟨hfirst, _ | ⟨hsecond, _ | _⟩⟩
    rename_i first second
    obtain ⟨_, first⟩ := first
    obtain ⟨_, second⟩ := second
    obtain rfl := Option.some.inj hfirst.name
    obtain rfl := Option.some.inj hsecond.name
    exact ⟨first, second, hsets,
      hfirst.spelled escaped _ (namesColumn_columnField _ _) hescaped,
      hsecond.spelled raw _ (namesColumn_columnField _ _) hraw⟩
  · obtain ⟨_, hindex, hlines⟩ := hindex
    rcases hlines with _ | ⟨⟨hfirst, hbreaks⟩, _ | ⟨⟨hsecond, -⟩, _ | _⟩⟩
    exact ⟨_, _, hindex, hfirst, fun h => hbreaks _ h (by decide), hsecond⟩
  · exact fun heq => absurd (hinj heq) (by decide)

end RowFactory
