import RowFactory.Factory.Pretty
import RowFactory.Proofs.Factory.Execution
import RowFactory.Proofs.Source.ReadsPath

namespace RowFactory

open RowFactory.Parser

namespace Parser

theorem reads_endsInBraces {i : List Token} : endsInBraces.Reads i i fun _ => True := by
  refine reads_cursor.bind fun _ _ => ?_
  split <;> exact reads_pure trivial

theorem reads_visibility {i : List Token} (h : isWord "pub" i = false) :
    visibility.Reads i i (· = .inherited) :=
  (reads_word?_false h).bind_eq (reads_if_false rfl (reads_pure rfl))

end Parser

namespace Factory

variable {f : Factory} (hruntime : f.runtime.IsReadable) (hplain : f.runtime.startsPlain)

theorem rowName_cases (f : Factory) : f.rowName = .plain "row" ∨ f.rowName = .plain "_row" := by
  unfold rowName
  cases f.isDegenerate
  · exact .inl rfl
  · exact .inr rfl

include hruntime in
theorem below_isReadable (names : List String) (h : ∀ n ∈ names, (Ident.plain n).endsPath) :
    (f.below names).IsReadable := by
  obtain ⟨i, later, hsegments, hends⟩ := hruntime
  refine ⟨i, later ++ names.map .plain, ?_, ?_⟩
  · simp [below, hsegments]
  · intro j hj
    rcases List.mem_append.mp (show j ∈ (i :: later) ++ names.map .plain from hj) with hj | hj
    · exact hends j hj
    · obtain ⟨n, hn, rfl⟩ := List.mem_map.mp hj
      exact h n hn

include hruntime hplain in
theorem below_startsPlain (names : List String) : (f.below names).startsPlain := by
  obtain ⟨i, later, hsegments, -⟩ := hruntime
  simpa [Path.startsPlain, below, hsegments] using hplain

/-- A column's value, as it is read from the row, and the end of the statement. -/
def valueTokens (f : Factory) (column : String) (rest : List Token) : List Token :=
  (f.below ["Row", "get"]).tokens ++
    .group .paren [.ident f.rowName, .comma, .string column] ::
      .punct '?' false :: .punct ';' false :: rest

variable (k : Nat) (rest : List Token)

theorem reads_arguments (column : String) :
    ((Grammar.atDepth (k + 1)).trailers .path).Reads
      (.group .paren [.ident f.rowName, .comma, .string column] ::
        .punct '?' false :: .punct ';' false :: rest)
      (.punct ';' false :: rest) (· = .propagation) := by
  refine reads_of_run fun _ _ unread => ?_
  rcases f.rowName_cases with h | h <;> rw [h] <;> cases unread <;>
    exact ⟨_, _, _, rfl, rfl⟩

include hruntime hplain in
theorem reads_value (column : String) :
    ((Grammar.atDepth (k + 2)).expr true assignLevel).Reads (f.valueTokens column rest)
      (.punct ';' false :: rest) fun _ => True := by
  have hpath := below_isReadable hruntime ["Row", "get"] (by decide)
  have hstarts := below_startsPlain hruntime hplain ["Row", "get"]
  have hstart : StartsPath (f.valueTokens column rest) := hpath.startsPath hstarts rfl
  have hoperand : ((Grammar.atDepth (k + 1)).operand true).Reads (f.valueTokens column rest)
      (.punct ';' false :: rest) (· = .propagation) := by
    refine (reads_whileSees_none hstart.beforeOperand_eq_false).bind_eq ?_
    refine (hpath.reads_callee hstarts _ _).bind_eq ((reads_arguments k rest column).bind_eq ?_)
    exact (reads_guard (by decide)).bind fun _ _ => reads_pure rfl
  refine hoperand.bind_eq ?_
  exact reads_of_run fun _ _ _ => ⟨_, _, _, rfl, trivial⟩

theorem assignmentTokens_append (a : Assignment) :
    f.assignmentTokens a ++ rest =
      Token.word "instance" :: .punct '.' false :: .ident a.field :: .punct '=' false ::
        f.valueTokens a.column rest := by
  simp [assignmentTokens, valueTokens]

/-- A field of the value that is built. -/
theorem reads_place {field : Ident} (hfield : field.isKeyword = false) :
    ((Grammar.atDepth k).operand true).Reads
      (Token.word "instance" :: .punct '.' false :: .ident field :: .punct '=' false :: rest)
      (.punct '=' false :: rest) (· = .field) := by
  have hatom : ((Grammar.atDepth k).atom true).Reads
      (Token.word "instance" :: .punct '.' false :: .ident field :: .punct '=' false :: rest)
      (.punct '.' false :: .ident field :: .punct '=' false :: rest) (· = .path) :=
    reads_of_run fun _ _ _ => ⟨_, _, _, rfl, rfl⟩
  have hname : fieldName.Reads (.ident field :: .punct '=' false :: rest)
      (.punct '=' false :: rest) (· = true) :=
    (reads_sees rfl).bind_eq (reads_if_true rfl ((reads_ident hfield).bind_eq (reads_pure rfl)))
  have hawait : isWord "await" (.ident field :: .punct '=' false :: rest) = false :=
    isWord_of_isKeyword_eq_false hfield (by decide)
  have htrailer : ((Grammar.atDepth k).trailer).Reads
      (.punct '.' false :: .ident field :: .punct '=' false :: rest) (.punct '=' false :: rest)
      (· = .field) := by
    refine reads_ahead.bind_eq (reads_if_false rfl (reads_if_false rfl ?_))
    refine (reads_operator?_false rfl).bind_eq (reads_if_false rfl ?_)
    refine (reads_operator rfl).bind fun _ _ => reads_ahead.bind_eq ?_
    refine (reads_word?_false hawait).bind_eq (reads_if_false rfl ?_)
    refine hname.bind_eq (reads_if_true rfl ((reads_sees rfl).bind_eq ?_))
    exact reads_of_run fun _ _ _ => ⟨_, _, _, rfl, rfl⟩
  refine (reads_whileSees_none rfl).bind_eq (hatom.bind_eq ?_)
  have htrailers : ((Grammar.atDepth k).trailers .path).Reads
      (.punct '.' false :: .ident field :: .punct '=' false :: rest) (.punct '=' false :: rest)
      (· = .field) := by
    refine reads_ite (fun h => by cases h) fun _ => ?_
    refine (htrailer.whileSees_once rfl rfl).bind ?_
    rintro kinds ⟨kind, rfl, rfl⟩
    exact reads_pure rfl
  exact htrailers.bind_eq ((reads_guard (by decide)).bind fun _ _ => reads_pure rfl)

include hruntime hplain in
theorem reads_assignment {a : Assignment} (hfield : a.field.isKeyword = false) :
    ((Grammar.atDepth (k + 2)).statement).Reads (f.assignmentTokens a ++ rest) rest
      (· = true) := by
  rw [assignmentTokens_append]
  have hvalue := reads_value hruntime hplain k rest a.column
  have hassign : ((Grammar.atDepth (k + 2)).operationsAfter true 0 .field).Reads
      (.punct '=' false :: f.valueTokens a.column rest) (.punct ';' false :: rest)
      fun _ => True := by
    refine reads_ahead.bind_eq (reads_ahead.bind_eq (reads_ite (fun h => by cases h) fun _ => ?_))
    have hnone : binaryOperator? (.punct '=' false :: f.valueTokens a.column rest) = none := rfl
    rw [hnone]
    refine reads_if_true rfl ((reads_operator rfl).bind fun _ _ => hvalue.bind fun _ _ => ?_)
    cases (f.valueTokens a.column rest).length with
    | zero => exact reads_pure trivial
    | succ fuel => exact reads_of_run fun _ _ _ => ⟨_, _, _, rfl, trivial⟩
  have hexpr : ((Grammar.atDepth (k + 2)).leadingExpr).Reads
      (Token.word "instance" :: .punct '.' false :: .ident a.field :: .punct '=' false ::
        f.valueTokens a.column rest) (.punct ';' false :: rest) fun _ => True := by
    refine (reads_whileSees_none rfl).bind_eq ((reads_sees rfl).bind_eq (reads_if_false rfl ?_))
    exact (reads_place _ _ hfield).bind_eq hassign
  refine reads_cursor.bind fun _ _ => (reads_whileSees_none rfl).bind_eq (reads_ahead.bind_eq ?_)
  refine reads_if_false rfl (reads_if_false rfl (reads_if_false rfl ?_))
  refine hexpr.bind fun kind _ => reads_endsInBraces.bind fun _ _ => ?_
  refine (reads_operator?_true rfl).bind_eq (reads_pure rfl)

theorem reads_answer (fuel : Nat) :
    ((Grammar.atDepth (k + 3)).statementsFrom (fuel + 1)).Reads okTokens [] fun _ => True := by
  refine reads_of_run fun _ _ unread => ?_
  cases unread <;> exact ⟨_, _, _, rfl, trivial⟩

include hruntime hplain in
theorem reads_assignments {as : List Assignment} (hfields : ∀ a ∈ as, a.field.isKeyword = false)
    {fuel : Nat} (hfuel : as.length < fuel) :
    ((Grammar.atDepth (k + 3)).statementsFrom fuel).Reads
      (as.flatMap f.assignmentTokens ++ okTokens) [] fun _ => True := by
  induction as generalizing fuel with
  | nil =>
    obtain ⟨fuel, rfl⟩ := Nat.exists_eq_add_one.mpr hfuel
    exact reads_answer k fuel
  | cons a as ih =>
    obtain ⟨fuel, rfl⟩ := Nat.exists_eq_add_one.mpr (Nat.zero_lt_of_lt hfuel)
    have ha := reads_assignment hruntime hplain (k + 1)
      (as.flatMap f.assignmentTokens ++ okTokens) (hfields a (by simp))
    have hlater := ih (fun b hb => hfields b (by simp [hb])) (Nat.lt_of_succ_lt_succ hfuel)
    have hmore : (as.flatMap f.assignmentTokens ++ okTokens).isEmpty = false := by
      simp [okTokens]
    rw [List.flatMap_cons, List.append_assoc]
    refine (reads_whileSees_none rfl).bind_eq ((reads_sees rfl).bind_eq (reads_if_false rfl ?_))
    refine ha.bind_eq ((reads_sees hmore).bind_eq (reads_if_false rfl ?_))
    exact (reads_guard rfl).bind fun _ _ => hlater

theorem reads_instance (mutable : Bool) :
    ((Grammar.atDepth (k + 3)).statement).Reads (letTokens mutable ++ rest) rest (· = true) := by
  refine reads_of_run fun _ _ unread => ?_
  cases mutable <;> cases unread <;> exact ⟨_, _, _, rfl, rfl⟩

theorem bodyTokens_append (f : Factory) :
    f.bodyTokens = letTokens (!f.isDegenerate) ++
      (f.assignments.flatMap f.assignmentTokens ++ okTokens) :=
  f.bodyTokens_eq

include hruntime hplain in
theorem reads_body (hfields : ∀ a ∈ f.assignments, a.field.isKeyword = false) :
    ((Grammar.atDepth (k + 4)).statements).Reads f.bodyTokens [] fun _ => True := by
  have hfuel : f.assignments.length < f.bodyTokens.length := by
    have hlength := length_le_length_flatMap f.assignmentTokens
      (by simp [assignmentTokens]) f.assignments
    rw [bodyTokens_append]
    simp only [letTokens, List.length_append, List.length_cons]
    omega
  have hmore : (f.assignments.flatMap f.assignmentTokens ++ okTokens).isEmpty = false := by
    simp [okTokens]
  refine reads_ahead.bind_eq ?_
  rw [bodyTokens_append f] at hfuel ⊢
  refine (reads_whileSees_none rfl).bind_eq ((reads_sees rfl).bind_eq (reads_if_false rfl ?_))
  refine (reads_instance k _ _).bind_eq ((reads_sees hmore).bind_eq (reads_if_false rfl ?_))
  refine (reads_guard rfl).bind fun _ _ => ?_
  exact reads_assignments hruntime hplain k hfields hfuel

/-- The function's parameter list and result. -/
def resultTokens (f : Factory) : List Token :=
  .group .paren [.ident f.rowName, .punct ':' false, .punct '&' false, rowParam] ::
    Token.operator "->" ++ pathTokens ["result", "Result"] ++
    [Token.punct '<' false, .word "Self", .comma, rowParam] ++ Token.operator "::" ++
    [Token.word "Error", .punct '>' false]

theorem signatureTokens_append (f : Factory) :
    f.signatureTokens ++ rest =
      .word "fn" :: .word "from_row" :: .punct '<' false :: rowParam :: .punct ':' false ::
        ((f.below ["Row"]).tokens ++ .punct '>' false :: (f.resultTokens ++ rest)) := by
  simp [signatureTokens, resultTokens]

theorem reads_signatureHead : (signatureHead false).Reads (.word "fn" :: rest) rest fun _ => True :=
  reads_of_run fun _ _ _ => ⟨_, _, _, rfl, trivial⟩

include hruntime hplain in
theorem reads_signature (body : List Token) :
    ((Grammar.atDepth (k + 4)).signature false).Reads (f.signatureTokens ++ [.group .brace body])
      [.group .brace body] (· = .plain "from_row") := by
  have hpath := below_isReadable hruntime ["Row"] (by decide)
  have hstarts := below_startsPlain hruntime hplain ["Row"]
  have hname : (Ident.plain "__R").isKeyword = false := by decide
  rw [signatureTokens_append]
  refine (reads_signatureHead _).bind fun _ _ => (reads_ident rfl).bind_eq ?_
  refine (hpath.reads_boundedParam hstarts hname (k + 3)).bind fun generics _ => ?_
  refine reads_of_run fun _ _ unread => ?_
  unfold resultTokens
  rcases f.rowName_cases with h | h <;> rw [h] <;> cases unread <;>
    exact ⟨_, _, _, rfl, rfl⟩

include hruntime hplain in
theorem reads_function (hfields : ∀ a ∈ f.assignments, a.field.isKeyword = false) :
    ((Grammar.atDepth (k + 4)).implItem).Reads
      (f.signatureTokens ++ [.group .brace f.bodyTokens]) [] fun _ => True := by
  have hsignature := reads_signature hruntime hplain k f.bodyTokens
  have hblock : ((Grammar.atDepth (k + 4)).bodyOrNone).Reads [.group .brace f.bodyTokens] []
      (· = some []) := by
    have hbody := reads_body hruntime hplain k hfields
    refine (reads_operator?_false rfl).bind_eq (reads_if_false rfl ?_)
    refine (Reads.group _ (Q := (· = [])) ?_).bind_eq (reads_pure rfl)
    exact (reads_whileSees_none rfl).bind_eq (hbody.bind fun _ _ => reads_pure rfl)
  have hcontent : ((Grammar.atDepth (k + 4)).implContent []).Reads
      (f.signatureTokens ++ [.group .brace f.bodyTokens]) []
      (· = .function [] .inherited (.plain "from_row")) := by
    refine (reads_visibility rfl).bind_eq ?_
    refine (reads_sees rfl).bind_eq (reads_if_false rfl (reads_ahead.bind_eq ?_))
    refine reads_if_true rfl (hsignature.bind_eq (hblock.bind_eq (reads_pure rfl)))
  refine (Reads.withAltered (Reads.withWritten (Q := fun _ => True) ?_)).bind
    fun _ _ => reads_pure trivial
  refine reads_cursor.bind fun _ _ => (reads_whileSees_none rfl).bind_eq (hcontent.bind_eq ?_)
  exact reads_pure_bind (reads_pure trivial)

/-- The braces of the block. -/
def braces (f : Factory) : Token :=
  .group .brace (f.signatureTokens ++ [.group .brace f.bodyTokens])

end Factory

end RowFactory
