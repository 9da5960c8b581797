import RowFactory.Proofs.Factory.Assignments
import RowFactory.Proofs.Text.Quoted

namespace RowFactory

variable {τ : Type} {Carrier : τ → Type} {ε : Type}

/-- The tokens of `instance.field = get(param, literal)?;`. -/
def setTokens (get : List Token) (param field : Ident) (literal : String) : List Token :=
  [Token.word "instance", .punct '.' false, .ident field, .punct '=' false] ++ get ++
    [Token.group .paren [.ident param, .comma, .literal literal], .punct '?' false,
      .punct ';' false]

/-- The tokens of `let instance = <Self as Default>::default();`, perhaps with `mut`. -/
def letTokens (mutable : Bool) : List Token :=
  Token.word "let" :: wordIf mutable "mut" ++
    [Token.word "instance", .punct '=' false, .punct '<' false, .word "Self", .word "as"] ++
    Factory.pathTokens ["default", "Default"] ++ [Token.punct '>' false] ++ Token.operator "::" ++
    [Token.word "default", .group .paren [], .punct ';' false]

/-- The tokens of `Ok(instance)`. -/
def okTokens : List Token :=
  Factory.pathTokens ["result", "Result"] ++ Token.operator "::" ++
    [Token.word "Ok", .group .paren [Token.word "instance"]]

/-- Statements carried out one by one. An assignment reads the column that its literal stands for
as the type of its field, and a failure to read it ends the function with that error. The last
index lists the columns read. -/
inductive Executes (get : List Token) (param : Ident) (row : RowOf Carrier ε) :
    InstanceOf Carrier → List Token → Except ε (InstanceOf Carrier) → List String → Prop
  | returns (i : InstanceOf Carrier) : Executes get param row i okTokens (.ok i) []
  | stops {i : InstanceOf Carrier} {field : Ident} {literal column : String} {t : τ} {e : ε}
      (rest : List Token) (type : i.target? field = some t)
      (content : stringValue? literal = some column) (reads : row.get t column = .error e) :
    Executes get param row i (setTokens get param field literal ++ rest) (.error e) [column]
  | sets {i : InstanceOf Carrier} {field : Ident} {literal column : String} {t : τ} {v : Carrier t}
      {rest : List Token} {outcome : Except ε (InstanceOf Carrier)} {columns : List String}
      (type : i.target? field = some t)
      (content : stringValue? literal = some column) (reads : row.get t column = .ok v)
      (next : Executes get param row (i.set field ⟨t, v⟩) rest outcome columns) :
    Executes get param row i (setTokens get param field literal ++ rest) outcome (column :: columns)

/-- A function body that begins with the default of the type. The instance can only be assigned to
where it is mutable. -/
inductive ExecutesBody (get : List Token) (param : Ident) (row : RowOf Carrier ε)
    (start : InstanceOf Carrier) :
    List Token → Except ε (InstanceOf Carrier) → List String → Prop
  | constant : ExecutesBody get param row start (letTokens false ++ okTokens) (.ok start) []
  | mutable {statements : List Token} {outcome : Except ε (InstanceOf Carrier)}
      {columns : List String} (runs : Executes get param row start statements outcome columns) :
    ExecutesBody get param row start (letTokens true ++ statements) outcome columns

def Factory.Executes (f : Factory) (start : InstanceOf Carrier) (row : RowOf Carrier ε)
    (outcome : Except ε (InstanceOf Carrier)) (columns : List String) : Prop :=
  ExecutesBody (f.below ["Row", "get"]).tokens f.rowName row start f.bodyTokens outcome columns

section

variable {get : List Token} {param : Ident} {row : RowOf Carrier ε} {i : InstanceOf Carrier}
  {outcome : Except ε (InstanceOf Carrier)} {columns : List String}

theorem okTokens_ne_setTokens {field : Ident} {literal : String} {rest : List Token} :
    okTokens ≠ setTokens get param field literal ++ rest := by
  intro h
  have hhead : some (Token.punct ':' true) = some (Token.word "instance") :=
    congrArg List.head? h
  simp [Token.word] at hhead

theorem setTokens_inj {field field' : Ident} {literal literal' : String} {rest rest' : List Token}
    (h : setTokens get param field literal ++ rest = setTokens get param field' literal' ++ rest') :
    field = field' ∧ literal = literal' ∧ rest = rest' := by
  simpa [setTokens] using h

theorem executes_okTokens_iff :
    Executes get param row i okTokens outcome columns ↔ outcome = .ok i ∧ columns = [] := by
  constructor
  · intro h
    generalize htokens : okTokens = tokens at h
    cases h with
    | returns => exact ⟨rfl, rfl⟩
    | stops => exact absurd htokens okTokens_ne_setTokens
    | sets => exact absurd htokens okTokens_ne_setTokens
  · rintro ⟨rfl, rfl⟩
    exact .returns i

/-- An assignment reads one column; what follows counts only where that can be read. -/
theorem executes_setTokens_iff {field : Ident} {literal column : String} {t : τ}
    {rest : List Token} (ht : i.target? field = some t)
    (hcontent : stringValue? literal = some column) :
    Executes get param row i (setTokens get param field literal ++ rest) outcome columns ↔
      match row.get t column with
      | .error e => outcome = .error e ∧ columns = [column]
      | .ok v => ∃ later, columns = column :: later ∧
          Executes get param row (i.set field ⟨t, v⟩) rest outcome later := by
  constructor
  · intro h
    generalize htokens : setTokens get param field literal ++ rest = tokens at h
    cases h with
    | returns => exact absurd htokens.symm okTokens_ne_setTokens
    | stops rest' type content reads =>
      obtain ⟨rfl, rfl, rfl⟩ := setTokens_inj htokens
      obtain rfl : t = _ := Option.some.inj (ht.symm.trans type)
      obtain rfl : column = _ := Option.some.inj (hcontent.symm.trans content)
      simp [reads]
    | sets type content reads next =>
      obtain ⟨rfl, rfl, rfl⟩ := setTokens_inj htokens
      obtain rfl : t = _ := Option.some.inj (ht.symm.trans type)
      obtain rfl : column = _ := Option.some.inj (hcontent.symm.trans content)
      simpa [reads] using next
  · intro h
    split at h
    case h_1 e hget =>
      obtain ⟨rfl, rfl⟩ := h
      exact .stops rest ht hcontent hget
    case h_2 v hget =>
      obtain ⟨later, rfl, hnext⟩ := h
      exact .sets ht hcontent hget hnext

theorem executes_iff_runAssignments {assignments : List Assignment}
    (hfields : ∀ a ∈ assignments, ∃ t, i.target? a.field = some t) :
    Executes get param row i
        (assignments.flatMap (fun a =>
          setTokens get param a.field (String.ofList (quoteLiteral a.column.toList))) ++ okTokens)
        outcome columns ↔
      runAssignments row assignments i = (outcome, columns) := by
  induction assignments generalizing i outcome columns with
  | nil =>
    rw [List.flatMap_nil, List.nil_append, executes_okTokens_iff]
    simp [runAssignments, eq_comm]
  | cons a rest ih =>
    obtain ⟨t, ht⟩ := hfields a (by simp)
    rw [List.flatMap_cons, List.append_assoc,
      executes_setTokens_iff ht (stringValue?_quoteLiteral a.column)]
    cases hget : row.get t a.column with
    | error e => simp [runAssignments, ht, hget, eq_comm]
    | ok v =>
      have hrest : ∀ b ∈ rest, ∃ u, (i.set a.field ⟨t, v⟩).target? b.field = some u := by
        intro b hb
        rw [InstanceOf.target?_set ht]
        exact hfields b (by simp [hb])
      simp only [ih hrest, runAssignments, ht, hget]
      constructor
      · rintro ⟨later, rfl, hrun⟩
        simp [hrun]
      · rintro ⟨⟩
        exact ⟨_, rfl, rfl⟩

theorem letTokens_inj {mutable mutable' : Bool} {rest rest' : List Token}
    (h : letTokens mutable ++ rest = letTokens mutable' ++ rest') :
    mutable = mutable' ∧ rest = rest' := by
  rcases mutable with _ | _ <;> rcases mutable' with _ | _
  · exact ⟨rfl, List.append_cancel_left h⟩
  · simp [letTokens, wordIf, Token.word, Ident.plain] at h
  · simp [letTokens, wordIf, Token.word, Ident.plain] at h
  · exact ⟨rfl, List.append_cancel_left h⟩

theorem executesBody_mutable_iff {statements : List Token} :
    ExecutesBody get param row i (letTokens true ++ statements) outcome columns ↔
      Executes get param row i statements outcome columns := by
  constructor
  · intro h
    generalize htokens : letTokens true ++ statements = tokens at h
    cases h with
    | constant => exact absurd (letTokens_inj htokens).1 (by decide)
    | mutable runs => exact (letTokens_inj htokens).2 ▸ runs
  · exact .mutable

theorem executesBody_constant_iff :
    ExecutesBody get param row i (letTokens false ++ okTokens) outcome columns ↔
      outcome = .ok i ∧ columns = [] := by
  constructor
  · intro h
    generalize htokens : letTokens false ++ okTokens = tokens at h
    cases h with
    | constant => exact ⟨rfl, rfl⟩
    | mutable => exact absurd (letTokens_inj htokens).1 (by decide)
  · rintro ⟨rfl, rfl⟩
    exact .constant

theorem Factory.bodyTokens_eq (f : Factory) :
    f.bodyTokens = letTokens (!f.isDegenerate) ++
      (f.assignments.flatMap (fun a =>
        setTokens (f.below ["Row", "get"]).tokens f.rowName a.field
          (String.ofList (quoteLiteral a.column.toList))) ++ okTokens) := by
  simp only [bodyTokens, letTokens, okTokens, List.append_assoc]
  rfl

/-- A factory's tokens do what the factory does on the fields of its type. -/
theorem Factory.executes_iff {f : Factory}
    (hfields : ∀ a ∈ f.assignments, ∃ t, i.target? a.field = some t) :
    f.Executes i row outcome columns ↔ f.runFrom i row = (outcome, columns) := by
  unfold Factory.Executes
  rw [bodyTokens_eq]
  cases hdegenerate : f.isDegenerate with
  | true =>
    have hnil : f.assignments = [] := by simpa [isDegenerate] using hdegenerate
    simp [hnil, executesBody_constant_iff, runFrom, runAssignments, eq_comm]
  | false => exact executesBody_mutable_iff.trans (executes_iff_runAssignments hfields)

end

end RowFactory
