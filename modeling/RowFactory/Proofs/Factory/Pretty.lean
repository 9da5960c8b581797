import RowFactory.Config
import RowFactory.Factory.Pretty
import RowFactory.Proofs.Layout.Marks
import RowFactory.Proofs.Name.QualifiedName

namespace RowFactory

namespace Factory

open Mark in
/-- The layout of one assignment. -/
def assignmentMarks (f : Factory) (a : Assignment) : List Mark :=
  ofTokens [Token.word "instance"] ++ [.gap .thin] ++
    ofTokens [Token.punct '.' false, .ident a.field] ++ [blank] ++
    ofTokens [Token.punct '=' false] ++ [blank, .gap .never] ++
    ofTokens (f.below ["Row", "get"]).tokens ++ [opening .paren, .gap .thin] ++
    ofTokens [Token.ident f.rowName, .comma] ++ [.gap .blank] ++
    ofTokens [Token.string a.column] ++ [.gap .closing, closing .paren] ++
    ofTokens [Token.punct '?' false, .punct ';' false] ++ [.gap .lineEnd]

open Mark in
/-- The layout of the parameter of type and its bound. -/
def rowParamMarks (f : Factory) : List Mark :=
  ofTokens [Token.punct '<' false] ++ [.gap .thin] ++
    ofTokens [rowParam, .punct ':' false] ++ [blank] ++ ofTokens (f.below ["Row"]).tokens ++
    [.gap .closing] ++ ofTokens [Token.punct '>' false]

open Mark in
/-- The layout of the parameter in parentheses. -/
def paramMarks (f : Factory) : List Mark :=
  [opening .paren, .gap .never, .gap .thin] ++
    ofTokens [Token.ident f.rowName, .punct ':' false] ++ [blank] ++
    ofTokens [Token.punct '&' false, rowParam] ++ [.gap .closing, closing .paren]

open Mark in
/-- The layout of the result's type. -/
def resultMarks : List Mark :=
  ofTokens [Token.punct '-' true, .punct '>' false] ++ [blank] ++
    ofTokens (pathTokens ["result", "Result"]) ++ ofTokens [Token.punct '<' false] ++ [.gap .thin] ++
    ofTokens [Token.word "Self", .comma] ++ [.gap .blank] ++
    ofTokens [rowParam, .punct ':' true, .punct ':' false, .word "Error"] ++ [.gap .closing] ++
    ofTokens [Token.punct '>' false]

open Mark in
/-- The layout of the function up to its brace. -/
def signatureMarks (f : Factory) : List Mark :=
  ofTokens [Token.word "fn"] ++ [blank] ++ ofTokens [Token.word "from_row"] ++ f.rowParamMarks ++
    f.paramMarks ++ [blank] ++ resultMarks ++ [blank]

open Mark in
/-- The layout of the statement that begins the function. -/
def instanceMarks (f : Factory) : List Mark :=
  ofTokens [Token.word "let"] ++ [blank] ++
    (if f.isDegenerate then [] else ofTokens [Token.word "mut"] ++ [blank]) ++
    ofTokens [Token.word "instance"] ++ [blank] ++ ofTokens [Token.punct '=' false] ++
    [blank, .gap .never] ++ ofTokens [Token.punct '<' false, .word "Self"] ++ [blank] ++
    ofTokens [Token.word "as"] ++ [blank] ++ ofTokens (pathTokens ["default", "Default"]) ++
    ofTokens [Token.punct '>' false, .punct ':' true, .punct ':' false, .word "default",
      .group .paren [], .punct ';' false] ++ [.gap .lineEnd]

open Mark in
/-- The layout of the statement that ends the function. -/
def answerMarks : List Mark :=
  ofTokens (pathTokens ["result", "Result"]) ++
    ofTokens [Token.punct ':' true, .punct ':' false, .word "Ok"] ++ [opening .paren, .gap .thin] ++
    ofTokens [Token.word "instance"] ++ [.gap .closing, closing .paren]

open Mark in
/-- The layout of the function. -/
def functionMarks (f : Factory) : List Mark :=
  f.signatureMarks ++ [opening .brace, .gap .lineEnd] ++ f.instanceMarks ++
    f.assignments.flatMap f.assignmentMarks ++ answerMarks ++
    [.gap { Gap.lineEnd with offset := -indentStep }, closing .brace]

open Mark in
/-- The layout of the whole block. -/
def marks (f : Factory) : List Mark :=
  ofTokens [Token.punct '#' false, .group .bracket [Token.word "automatically_derived"]] ++
    [.gap .blank] ++ ofTokens [Token.word "impl"] ++ [blank] ++
    ofTokens (f.below ["FromRow"]).tokens ++ [.gap .blank] ++ ofTokens [Token.word "for"] ++
    [blank] ++ ofTokens f.target.tokens ++ [blank, opening .brace, .gap .lineEnd] ++
    f.functionMarks ++
    [.gap { Gap.lineEnd with offset := -indentStep }, closing .brace, .gap .lineEnd]

section Lexemes

theorem lexemes_assignmentMarks (f : Factory) (a : Assignment) :
    Mark.lexemes (f.assignmentMarks a) = Token.flatten (f.assignmentTokens a) := by
  simp [assignmentMarks, assignmentTokens, Token.flatten, Token.lexemes]

theorem lexemes_assignments (f : Factory) (assignments : List Assignment) :
    Mark.lexemes (assignments.flatMap f.assignmentMarks) =
      Token.flatten (assignments.flatMap f.assignmentTokens) := by
  induction assignments with
  | nil => rfl
  | cons a assignments ih => simp [lexemes_assignmentMarks, ih]

theorem lexemes_signatureMarks (f : Factory) :
    Mark.lexemes f.signatureMarks = Token.flatten f.signatureTokens := by
  simp [signatureMarks, rowParamMarks, paramMarks, resultMarks, signatureTokens,
    Mark.operator_colons, Mark.operator_arrow, Token.flatten, Token.lexemes]

theorem lexemes_body (f : Factory) :
    Mark.lexemes f.instanceMarks ++
        (Token.flatten (f.assignments.flatMap f.assignmentTokens) ++ Mark.lexemes answerMarks) =
      Token.flatten f.bodyTokens := by
  cases hd : f.isDegenerate <;>
    simp [instanceMarks, answerMarks, bodyTokens, hd, wordIf, Mark.operator_colons, Token.flatten,
      Token.lexemes]

theorem IsSimple.lexemes_marks {f : Factory} (h : f.IsSimple) :
    Mark.lexemes f.marks = Token.flatten f.tokens := by
  simp [h.tokens_eq, marks, functionMarks, lexemes_signatureMarks, lexemes_assignments,
    Token.flatten, Token.lexemes, ← lexemes_body]

end Lexemes

section Strokes

theorem strokes_pathTokens (a b : String) :
    Mark.strokes (Mark.ofTokens (pathTokens [a, b])) =
      ("::core::" ++ a ++ "::" ++ b).toList.map .char := by
  simp [pathTokens, corePath, Path.tokens, operatorIf, Segment.joined, Segment.tokens,
    Mark.operator_colons, Ident.plain, Ident.text]

theorem firm_answerPieces : Firm answerPieces := by
  simp [answerPieces, callPieces, bracketed, group_eq, Gap.thin, Gap.closing]

theorem firm_instancePieces (f : Factory) : Firm f.instancePieces := by
  simp [instancePieces, group_eq, Gap.thin, Gap.never, Gap.lineEnd]

theorem ofPieces_answerPieces : Stroke.ofPieces answerPieces = Mark.strokes answerMarks := by
  simp [answerPieces, answerMarks, callPieces, bracketed, group_eq,
    strokes_pathTokens, Stroke.ofPieces, Delimiter.openChar, Delimiter.closeChar, Gap.thin,
    Gap.closing]

theorem ofPieces_instancePieces (f : Factory) :
    Stroke.ofPieces f.instancePieces = Mark.strokes f.instanceMarks := by
  cases hd : f.isDegenerate <;>
    simp [instancePieces, instanceMarks, hd, group_eq, strokes_pathTokens, Stroke.ofPieces,
      Delimiter.openChar, Delimiter.closeChar, Gap.thin, Gap.never, Gap.lineEnd]

variable {f : Factory} (h : f.IsSimple)
include h

theorem IsSimple.firm_assignmentPieces (a : Assignment) : Firm (f.assignmentPieces a) := by
  have hpath : (f.below ["Row", "get"]).IsPlain := h.below (by decide)
  simp [assignmentPieces, callPieces, bracketed, hpath.valuePieces_eq, group_eq,
    Gap.thin, Gap.blank, Gap.closing, Gap.never, Gap.lineEnd]

theorem IsSimple.firm_assignments (assignments : List Assignment) :
    Firm (assignments.flatMap f.assignmentPieces) := by
  induction assignments with
  | nil => exact firm_nil
  | cons a assignments ih => simp [h.firm_assignmentPieces, ih]

theorem IsSimple.firm_signaturePieces : Firm f.signaturePieces := by
  have hpath : (f.below ["Row"]).IsPlain := h.below (by decide)
  have hresult : (corePath ["result", "Result"]).IsPlain := Path.isPlain_corePath (by decide)
  simp [signaturePieces, resultPieces, paramPieces, bracketed, hpath.pieces_eq,
    hresult.pieces_eq, group_eq, Gap.thin, Gap.blank, Gap.closing, Gap.never]

theorem IsSimple.ofPieces_assignmentPieces (a : Assignment) :
    Stroke.ofPieces (f.assignmentPieces a) = Mark.strokes (f.assignmentMarks a) := by
  have hpath : (f.below ["Row", "get"]).IsPlain := h.below (by decide)
  simp [assignmentMarks, assignmentPieces, group_eq, Stroke.ofPieces, callPieces, bracketed, hpath.valuePieces_eq, hpath.ofPieces_words, Gap.thin, Gap.blank, Gap.closing,
    Gap.never, Gap.lineEnd, Token.comma, Delimiter.openChar, Delimiter.closeChar]

theorem IsSimple.ofPieces_assignments (assignments : List Assignment) :
    Stroke.ofPieces (assignments.flatMap f.assignmentPieces) =
      Mark.strokes (assignments.flatMap f.assignmentMarks) := by
  induction assignments with
  | nil => rfl
  | cons a assignments ih => simp [h.ofPieces_assignmentPieces, ih]

theorem IsSimple.ofPieces_signaturePieces :
    Stroke.ofPieces f.signaturePieces = Mark.strokes f.signatureMarks := by
  have hpath : (f.below ["Row"]).IsPlain := h.below (by decide)
  have hresult : (corePath ["result", "Result"]).IsPlain := Path.isPlain_corePath (by decide)
  simp [signatureMarks, rowParamMarks, paramMarks, resultMarks, signaturePieces, group_eq,
    Stroke.ofPieces, resultPieces, paramPieces, bracketed, hpath.pieces_eq,
    hpath.ofPieces_words, hresult.pieces_eq, hresult.ofPieces_words, pathTokens, Gap.thin,
    Gap.blank, Gap.closing, Gap.never, rowParam, Token.comma, Delimiter.openChar,
    Delimiter.closeChar]

theorem IsSimple.functionPieces_eq :
    f.functionPieces =
      .enter indentStep true ::
        (f.signaturePieces ++ [Piece.word "\x7b", .gap .lineEnd] ++ f.instancePieces ++
          f.assignments.flatMap f.assignmentPieces ++ answerPieces ++
          [Piece.gap { Gap.lineEnd with offset := -indentStep }]) ++
        [Piece.leave, Piece.word "\x7d"] := by
  have hmore : ∀ g, f.signaturePieces ++ [Piece.word "\x7b", .gap .lineEnd] ++ f.instancePieces ++
      f.assignments.flatMap f.assignmentPieces ++ answerPieces ++
      [Piece.gap { Gap.lineEnd with offset := -indentStep }] ≠ [.gap g] := by
    simp [signaturePieces]
  rw [functionPieces, group_eq _ _ _ hmore]
  · simp
  · simp [h.firm_signaturePieces, firm_instancePieces, h.firm_assignments, firm_answerPieces,
      Gap.lineEnd, Gap.thin]

theorem IsSimple.ofPieces_functionPieces :
    Stroke.ofPieces f.functionPieces = Mark.strokes f.functionMarks := by
  simp [h.functionPieces_eq, functionMarks, Stroke.ofPieces, h.ofPieces_signaturePieces,
    ofPieces_instancePieces, h.ofPieces_assignments, ofPieces_answerPieces, Delimiter.openChar,
    Delimiter.closeChar]

theorem IsSimple.firm_functionPieces : Firm f.functionPieces := by
  simp [h.functionPieces_eq, h.firm_signaturePieces, firm_instancePieces, h.firm_assignments,
    firm_answerPieces, Gap.lineEnd, Gap.thin]

theorem IsSimple.ofPieces_pieces : Stroke.ofPieces f.pieces = Mark.strokes f.marks := by
  have hpath : (f.below ["FromRow"]).IsPlain := h.below (by decide)
  have hgenerics : f.implGenerics = f.generics := by simp [implGenerics, h.params]
  simp [pieces, marks, hgenerics, h.params, h.predicates, Generics.declarationPieces,
    Generics.argumentPieces, Generics.wherePieces, group_eq, hpath.pieces_eq, hpath.ofPieces_words,
    h.target.pieces_eq, h.target.ofPieces_words, h.firm_functionPieces, h.ofPieces_functionPieces,
    Stroke.ofPieces, Gap.blank, Gap.thin, Gap.lineEnd, Delimiter.openChar, Delimiter.closeChar]

end Strokes

section Sound

open Mark

variable {ms : List Mark}

theorem sound_pathTokens {names : List String} (hnames : ∀ n ∈ names, (Ident.plain n).isSpelled)
    (hname : FollowsName ms) (hrest : Sound ms) : Sound (ofTokens (pathTokens names) ++ ms) :=
  (Path.isPlain_corePath hnames).sound_append hname (by simp [corePath]) hrest

theorem sound_resultMarks
    (hnext : ∀ b ∈ next? ms, Glyph.joins (.lexeme (.punct '>' false)) b = false)
    (hrest : Sound ms) : Sound (resultMarks ++ ms) := by
  have harguments : Sound (ofTokens [Token.punct '<' false] ++ [gap .thin] ++
      ofTokens [Token.word "Self", .comma] ++ [gap .blank] ++
      ofTokens [rowParam, .punct ':' true, .punct ':' false, .word "Error"] ++ [gap .closing] ++
      ofTokens [Token.punct '>' false] ++ ms) := by
    simpa +decide [ofTokens_cons, ofTokens_nil, Token.lexemes, Token.word, Token.comma, rowParam,
      hrest] using hnext
  have hpath : Sound (ofTokens (pathTokens ["result", "Result"]) ++ _) :=
    sound_pathTokens (by decide) (by simp [ofTokens_cons, Token.lexemes]) harguments
  simpa +decide [resultMarks, ofTokens_cons, ofTokens_nil, Token.lexemes] using hpath

theorem sound_answerMarks (hrest : Sound ms) : Sound (answerMarks ++ ms) := by
  have hcall : Sound (ofTokens [Token.punct ':' true, .punct ':' false, .word "Ok"] ++
      [opening .paren, gap .thin] ++ ofTokens [Token.word "instance"] ++
      [gap .closing, closing .paren] ++ ms) := by
    simp +decide [ofTokens_cons, ofTokens_nil, Token.lexemes, Token.word, hrest]
  have hpath : Sound (ofTokens (pathTokens ["result", "Result"]) ++ _) :=
    sound_pathTokens (by decide) (by simp [ofTokens_cons, Token.lexemes]) hcall
  simpa [answerMarks] using hpath

theorem sound_instanceMarks (f : Factory) (hrest : Sound ms) : Sound (f.instanceMarks ++ ms) := by
  have hcall : Sound (ofTokens [Token.punct '>' false, .punct ':' true, .punct ':' false,
      .word "default", .group .paren [], .punct ';' false] ++ [gap .lineEnd] ++ ms) := by
    simp +decide [ofTokens_cons, ofTokens_nil, Token.flatten, Token.lexemes, Token.word, hrest]
  have hpath : Sound (ofTokens (pathTokens ["default", "Default"]) ++ _) :=
    sound_pathTokens (by decide) (by simp [ofTokens_cons, Token.lexemes]) hcall
  cases hd : f.isDegenerate <;>
    simpa +decide [instanceMarks, hd, ofTokens_cons, ofTokens_nil, Token.lexemes, Token.word] using hpath

variable {f : Factory} (h : f.IsSimple)
include h

theorem IsSimple.sound_assignmentMarks {a : Assignment} (ha : a.field.isSpelled)
    (hrest : Sound ms) : Sound (f.assignmentMarks a ++ ms) := by
  have hpath : (f.below ["Row", "get"]).IsPlain := h.below (by decide)
  have hrow := f.rowName_isSpelled
  have hcall : Sound ([opening .paren, gap .thin] ++
      ofTokens [Token.ident f.rowName, .comma] ++ [gap .blank] ++
      ofTokens [Token.string a.column] ++ [gap .closing, closing .paren] ++
      ofTokens [Token.punct '?' false, .punct ';' false] ++ [gap .lineEnd] ++ ms) := by
    simp +decide [ofTokens_cons, ofTokens_nil, Token.lexemes, Token.comma, Token.string, hrow, hrest]
  have hright := hpath.sound_append (by simp) (by simp) hcall
  simpa +decide [assignmentMarks, ofTokens_cons, ofTokens_nil, Token.lexemes, Token.word,
    Token.comma, Token.string, ha] using hright

theorem IsSimple.sound_assignments {assignments : List Assignment}
    (hall : ∀ a ∈ assignments, a.field.isSpelled) (hrest : Sound ms) :
    Sound (assignments.flatMap f.assignmentMarks ++ ms) := by
  induction assignments with
  | nil => exact hrest
  | cons a assignments ih =>
    rw [List.flatMap_cons, List.append_assoc]
    exact h.sound_assignmentMarks (hall a (by simp)) (ih fun b hb => hall b (by simp [hb]))

theorem IsSimple.sound_rowParamMarks
    (hnext : ∀ b ∈ next? ms, Glyph.joins (.lexeme (.punct '>' false)) b = false)
    (hrest : Sound ms) : Sound (f.rowParamMarks ++ ms) := by
  have hpath : (f.below ["Row"]).IsPlain := h.below (by decide)
  have hclose : Sound ([gap .closing] ++ ofTokens [Token.punct '>' false] ++ ms) := by
    simpa +decide [ofTokens_cons, ofTokens_nil, Token.lexemes, hrest] using hnext
  have hbound := hpath.sound_append (by simp [ofTokens_cons, Token.lexemes])
    (by simp +decide [ofTokens_cons, Token.lexemes]) hclose
  simpa +decide [rowParamMarks, ofTokens_cons, ofTokens_nil, Token.lexemes, Token.word, rowParam]
    using hbound

omit h in
theorem sound_paramMarks (f : Factory) (hrest : Sound ms) : Sound (f.paramMarks ++ ms) := by
  have hrow := f.rowName_isSpelled
  simp +decide [paramMarks, ofTokens_cons, ofTokens_nil, Token.lexemes, Token.word, rowParam, hrow,
    hrest]

theorem IsSimple.sound_signatureMarks (hrest : Sound ms) : Sound (f.signatureMarks ++ ms) := by
  have hresult : Sound (resultMarks ++ ([blank] ++ ms)) :=
    sound_resultMarks (by simp) (by simpa using hrest)
  have hparams : Sound (f.rowParamMarks ++ (f.paramMarks ++ ([blank] ++ (resultMarks ++
      ([blank] ++ ms))))) :=
    h.sound_rowParamMarks (by simp [paramMarks]) (sound_paramMarks f (by simpa using hresult))
  simpa +decide [signatureMarks, rowParamMarks, ofTokens_cons, ofTokens_nil, Token.lexemes,
    Token.word] using hparams

theorem IsSimple.sound_functionMarks (hrest : Sound ms) : Sound (f.functionMarks ++ ms) := by
  have hanswer : Sound (answerMarks ++ ([gap { Gap.lineEnd with offset := -indentStep },
      closing .brace] ++ ms)) := sound_answerMarks (by simpa +decide using hrest)
  have hbody := sound_instanceMarks f (h.sound_assignments h.fields hanswer)
  have hsignature : Sound (f.signatureMarks ++ ([opening .brace, gap .lineEnd] ++ _)) :=
    h.sound_signatureMarks (by simpa +decide using hbody)
  simpa [functionMarks] using hsignature

theorem IsSimple.sound_marks : Sound f.marks := by
  have hpath : (f.below ["FromRow"]).IsPlain := h.below (by decide)
  have hfunction : Sound (f.functionMarks ++
      [gap { Gap.lineEnd with offset := -indentStep }, closing .brace, gap .lineEnd]) :=
    h.sound_functionMarks (by simp +decide)
  have htarget : Sound (ofTokens f.target.tokens ++
      ([blank, opening .brace, gap .lineEnd] ++ _)) :=
    h.target.sound_append (by simp) (by simp) (by simpa +decide using hfunction)
  have himpl : Sound (ofTokens (f.below ["FromRow"]).tokens ++
      ([gap .blank] ++ ofTokens [Token.word "for"] ++ [blank] ++ _)) :=
    hpath.sound_append (by simp [Gap.blank]) (by simp [Gap.blank])
      (by simpa +decide [ofTokens_cons, ofTokens_nil, Token.lexemes, Token.word] using htarget)
  simpa +decide [marks, ofTokens_cons, ofTokens_nil, Token.flatten, Token.lexemes, Token.word] using himpl

end Sound

/-- The text over several lines is read back, up to spacing and closing commas, as the tokens. -/
theorem IsSimple.exists_lex?_pieces {f : Factory} (h : f.IsSimple) :
    ∃ ls, lex? (layOut f.pieces).toList = some ls ∧
      Token.ofLexemes? (dropClosingCommas (Lexeme.settle ls)) = some f.tokens := by
  obtain ⟨ls, hread, htokens⟩ := Mark.exists_lex?_layOut h.sound_marks h.ofPieces_pieces
  rw [h.lexemes_marks] at htokens
  exact ⟨ls, hread, by rw [htokens, Token.ofLexemes?_flatten]⟩

end Factory

/-- Both texts of a factory whose type has no parameters and predicates and whose paths have no
arguments are read as its tokens, whatever the lengths of its names and the lines they are put on:
the text on one line just so, the text over several lines, if there is one, up to spacing and commas
before the end of a list. -/
theorem printers_agree {f : Factory} (hparams : f.generics.params = [])
    (hpredicates : f.generics.predicates = []) (htarget : f.target.IsPlain)
    (hruntime : f.runtime.IsPlain) (hfields : ∀ a ∈ f.assignments, a.field.isSpelled) :
    (∃ text, Printer.compact.print f = .ok text ∧ tokens? text.toList = some f.tokens) ∧
      ∀ text, Printer.pretty.print f = .ok text →
        ∃ ls, lex? text.toList = some ls ∧
          Token.ofLexemes? (dropClosingCommas (Lexeme.settle ls)) = some f.tokens := by
  have hsimple : f.IsSimple := ⟨hparams, hpredicates, htarget, hruntime, hfields⟩
  refine ⟨⟨f.compactText, rfl, hsimple.tokens?_compactText⟩, fun text htext => ?_⟩
  simp only [Printer.pretty] at htext
  split at htext
  case isTrue =>
    obtain rfl := Except.ok.inj htext
    exact hsimple.exists_lex?_pieces
  case isFalse => cases htext

/-- A type below two modules with a raw field and a column of quotes, comment marks and NUL. -/
theorem printers_agree_quoted :
    let f : Factory :=
      ⟨⟨false, [.plain (.plain "crate"), .plain ⟨true, "type"⟩, .plain (.plain "Customer")]⟩, .none,
        defaultRuntime, [⟨⟨true, "type"⟩, "\x22//\x00"⟩, ⟨.plain "rank", "rank"⟩]⟩
    f.generics.params = [] ∧ f.generics.predicates = [] ∧ f.target.IsPlain ∧ f.runtime.IsPlain ∧
      (∀ a ∈ f.assignments, a.field.isSpelled) ∧ f.isPrintable ∧
      (∃ text, Printer.compact.print f = .ok text ∧ tokens? text.toList = some f.tokens) ∧
      ∃ ls, lex? (layOut f.pieces).toList = some ls ∧
        Token.ofLexemes? (dropClosingCommas (Lexeme.settle ls)) = some f.tokens := by
  intro f
  have htarget : f.target.IsPlain :=
    ⟨[.plain "crate", ⟨true, "type"⟩, .plain "Customer"], rfl, by decide⟩
  have hruntime : f.runtime.IsPlain := ⟨[.plain "rowmap"], rfl, by decide⟩
  have hfields : ∀ a ∈ f.assignments, a.field.isSpelled := by decide
  have hprintable : f.isPrintable := by decide +kernel
  obtain ⟨hcompact, hpretty⟩ := printers_agree (f := f) rfl rfl htarget hruntime hfields
  refine ⟨rfl, rfl, htarget, hruntime, hfields, hprintable, hcompact, hpretty _ ?_⟩
  simp only [Printer.pretty, hprintable, if_true]

/-- Over several lines, the colons in front of the arguments of a type are left out. -/
theorem pretty_drops_colons :
    let f : Factory :=
      ⟨⟨false, [.plain (.plain "crate"),
          .angle (.plain "Wrapper") true [.type (plainTy "u8")] false]⟩, .none, defaultRuntime, []⟩
    f.generics.params = [] ∧ f.generics.predicates = [] ∧ f.runtime.IsPlain ∧ f.assignments = [] ∧
      ∃ text ls, Printer.pretty.print f = .ok text ∧ lex? text.toList = some ls ∧
        Token.ofLexemes? (dropClosingCommas (Lexeme.settle ls)) ≠ some f.tokens := by
  intro f
  have hruntime : f.runtime.IsPlain := ⟨[.plain "rowmap"], rfl, by decide⟩
  have hread : (Printer.pretty.print f).toOption.any fun text => (lex? text.toList).any fun ls =>
      (Token.ofLexemes? (dropClosingCommas (Lexeme.settle ls))).map Token.flatten ≠
        some (Token.flatten f.tokens) := by
    decide +kernel
  obtain ⟨text, htext, hread⟩ := (Option.any_eq_true _ _).mp hread
  obtain ⟨ls, hls, hne⟩ := (Option.any_eq_true _ _).mp hread
  have hprint : Printer.pretty.print f = .ok text := by
    cases hp : Printer.pretty.print f with
    | ok text' => simpa [hp, Except.toOption] using htext
    | error e => simp [hp, Except.toOption] at htext
  refine ⟨rfl, rfl, hruntime, rfl, text, ls, hprint, hls, fun heq => ?_⟩
  exact of_decide_eq_true hne (by rw [heq]; rfl)

end RowFactory
