import RowFactory.Factory.Basic
import RowFactory.Proofs.Source.TokenText

namespace RowFactory

/-- A path of spelled names without arguments. -/
def Path.IsPlain (p : Path) : Prop :=
  ∃ names : List Ident, p.segments = names.map Segment.plain ∧ ∀ i ∈ names, i.isSpelled

theorem Path.isPlain_corePath {names : List String}
    (h : ∀ n ∈ names, (Ident.plain n).isSpelled) : (corePath names).IsPlain := by
  refine ⟨("core" :: names).map .plain, by simp [corePath], ?_⟩
  simp only [List.map_cons, List.mem_cons, List.mem_map]
  rintro i (rfl | ⟨n, hn, rfl⟩)
  · decide
  · exact h n hn

theorem areSpelled_colons : Token.AreSpelled (Token.operator "::") := by
  simp +decide [Token.operator, Token.operatorOf]

theorem areSpelled_joined {names : List Ident} (h : ∀ i ∈ names, i.isSpelled) :
    Token.AreSpelled (Segment.joined (names.map .plain)) := by
  induction names with
  | nil => exact Token.areSpelled_nil
  | cons i names ih =>
    have hi : Token.AreSpelled [.ident i] := by simp [h i]
    cases names with
    | nil => simpa [Segment.joined, Segment.tokens] using hi
    | cons j names =>
      have hrest := ih fun i hi => h i (List.mem_cons_of_mem _ hi)
      exact (hi.append areSpelled_colons).append hrest

theorem Path.IsPlain.areSpelled {p : Path} (h : p.IsPlain) : Token.AreSpelled p.tokens := by
  obtain ⟨names, hnames, hspelled⟩ := h
  have hrest := areSpelled_joined hspelled
  rw [Path.tokens, hnames]
  cases p.leadingColon with
  | true => exact areSpelled_colons.append hrest
  | false => exact hrest

namespace Factory

/-- The factory of a type without parameters and predicates, below a runtime without arguments; all
its names can be spelled. -/
structure IsSimple (f : Factory) : Prop where
  params : f.generics.params = []
  predicates : f.generics.predicates = []
  target : f.target.IsPlain
  runtime : f.runtime.IsPlain
  fields : ∀ a ∈ f.assignments, a.field.isSpelled

variable {f : Factory}

theorem IsSimple.below (h : f.IsSimple) {names : List String}
    (hnames : ∀ n ∈ names, (Ident.plain n).isSpelled) : (f.below names).IsPlain := by
  obtain ⟨ids, hids, hspelled⟩ := h.runtime
  refine ⟨ids ++ names.map .plain, by simp [Factory.below, hids], ?_⟩
  simp only [List.mem_append, List.mem_map]
  rintro i (hi | ⟨n, hn, rfl⟩)
  · exact hspelled i hi
  · exact hnames n hn

theorem rowName_isSpelled (f : Factory) : f.rowName.isSpelled := by
  unfold rowName
  split <;> decide

theorem IsSimple.areSpelled_assignmentTokens (h : f.IsSimple) {a : Assignment}
    (ha : a ∈ f.assignments) : Token.AreSpelled (f.assignmentTokens a) := by
  have hpath : Token.AreSpelled (f.below ["Row", "get"]).tokens := (h.below (by decide)).areSpelled
  have hfield := h.fields a ha
  have hrow := f.rowName_isSpelled
  refine (Token.AreSpelled.append ?_ hpath).append ?_
  · simp +decide [Token.word, hfield]
  · simp +decide [Token.comma, hrow]

theorem IsSimple.areSpelled_signatureTokens (h : f.IsSimple) :
    Token.AreSpelled f.signatureTokens := by
  have hrow := f.rowName_isSpelled
  have hpath : Token.AreSpelled (f.below ["Row"]).tokens := (h.below (by decide)).areSpelled
  have hresult : Token.AreSpelled (pathTokens ["result", "Result"]) :=
    (Path.isPlain_corePath (by decide)).areSpelled
  have harrow : Token.AreSpelled (Token.operator "->") := by
    simp +decide [Token.operator, Token.operatorOf]
  refine ((((((Token.AreSpelled.append ?_ hpath).append ?_).append harrow).append hresult).append
    ?_).append areSpelled_colons).append ?_
  · simp +decide [Token.word, rowParam]
  · simp +decide [Token.word, rowParam, hrow]
  · simp +decide [Token.word, Token.comma, rowParam]
  · simp +decide [Token.word]

theorem IsSimple.areSpelled_bodyTokens (h : f.IsSimple) : Token.AreSpelled f.bodyTokens := by
  have hdefault : Token.AreSpelled (pathTokens ["default", "Default"]) :=
    (Path.isPlain_corePath (by decide)).areSpelled
  have hresult : Token.AreSpelled (pathTokens ["result", "Result"]) :=
    (Path.isPlain_corePath (by decide)).areSpelled
  have hassignments : Token.AreSpelled (f.assignments.flatMap f.assignmentTokens) :=
    Token.AreSpelled.flatMap fun a ha => h.areSpelled_assignmentTokens ha
  have hlet : Token.AreSpelled (Token.word "let" :: wordIf (!f.isDegenerate) "mut") := by
    cases f.isDegenerate <;> simp +decide [Token.word, wordIf]
  refine ((((((((hlet.append ?_).append hdefault).append ?_).append areSpelled_colons).append
    ?_).append hassignments).append hresult).append areSpelled_colons).append ?_
  · simp +decide [Token.word]
  · simp +decide
  · simp +decide [Token.word]
  · simp +decide [Token.word]

/-- Without parameters and predicates nothing stands between the names in front of the body. -/
theorem IsSimple.tokens_eq (h : f.IsSimple) :
    f.tokens =
      [Token.punct '#' false, .group .bracket [Token.word "automatically_derived"],
          .word "impl"] ++ (f.below ["FromRow"]).tokens ++ [Token.word "for"] ++
        f.target.tokens ++
        [Token.group .brace (f.signatureTokens ++ [Token.group .brace f.bodyTokens])] := by
  have hgenerics : f.implGenerics = f.generics := by simp [implGenerics, h.params]
  simp [Factory.tokens, hgenerics, Generics.declarationTokens, Generics.argumentTokens,
    Generics.angled, Generics.whereTokens, h.params, h.predicates]

theorem IsSimple.areSpelled_tokens (h : f.IsSimple) : Token.AreSpelled f.tokens := by
  have hpath : Token.AreSpelled (f.below ["FromRow"]).tokens := (h.below (by decide)).areSpelled
  have hbody := h.areSpelled_bodyTokens
  have hfunction : Token.AreSpelled (f.signatureTokens ++ [Token.group .brace f.bodyTokens]) :=
    h.areSpelled_signatureTokens.append (by simp [hbody])
  rw [h.tokens_eq]
  refine (((Token.AreSpelled.append ?_ hpath).append ?_).append h.target.areSpelled).append ?_
  · simp +decide [Token.word]
  · simp +decide [Token.word]
  · simp [hfunction]

/-- The text on one line is read back as the factory's tokens. -/
theorem IsSimple.lex?_compactText (h : f.IsSimple) :
    lex? f.compactText.toList = some (Token.flatten f.tokens) := by
  rw [compactText, String.toList_append]
  exact Token.lex?_line h.areSpelled_tokens

theorem IsSimple.tokens?_compactText (h : f.IsSimple) :
    tokens? f.compactText.toList = some f.tokens := by
  have hmark : dropMark f.compactText.toList = f.compactText.toList := by
    have hhead : f.compactText.toList.head? = some '#' := by
      rw [compactText, h.tokens_eq]
      simp [Token.line_cons_cons, Token.text]
    simp [dropMark, hhead]
  rw [tokens?, hmark, h.lex?_compactText, Option.bind_some, Token.ofLexemes?_flatten]

end Factory

end RowFactory
