import RowFactory.Proofs.Source.ReadsPath

namespace RowFactory

open RowFactory.Parser

/-- An attribute may begin with this. -/
def NamePath.NamesAttribute (p : NamePath) : Prop :=
  p = ⟨false, [.plain "unsafe"]⟩ ∨
    p.names ≠ [] ∧ ∀ i ∈ p.names, i.isKeyword = false ∨ pathKeywords.contains i.name

theorem joinNames_cons (i : Ident) (names : List Ident) :
    joinNames (i :: names) = .ident i :: laterNames names := by
  induction names generalizing i with
  | nil => rfl
  | cons j names ih =>
    rw [joinNames, ih j]
    · rfl
    · exact List.cons_ne_nil j names

section

variable {key : NamePath} {rest : List Token} {name : Parser Ident}

theorem reads_joinedNames {names : List Ident}
    (hname : ∀ i ∈ names, ∀ o, name.Reads (.ident i :: o) o (· = i))
    (hrest : isOperator "::" rest = false) {fuel : Nat} (hfuel : names.length ≤ fuel) :
    (whileSeesFrom (isOperator "::") (do operator "::"; name) fuel).Reads
      (laterNames names ++ rest) rest (· = names) := by
  induction names generalizing fuel with
  | nil => exact reads_whileSeesFrom_none hrest fuel
  | cons i names ih =>
    cases fuel with
    | zero => cases hfuel
    | succ fuel =>
      refine (reads_sees (b := true) rfl).bind_eq (reads_if_true rfl ?_)
      have hi : (do operator "::"; name).Reads (laterNames (i :: names) ++ rest)
          (laterNames names ++ rest) (· = i) :=
        (reads_operator rfl).bind fun _ _ => hname i List.mem_cons_self _
      have hlater := ih (fun j hj => hname j (List.mem_cons_of_mem _ hj))
        (Nat.le_of_succ_le_succ hfuel)
      exact hi.bind_eq (hlater.bind_eq (reads_pure rfl))

/-- A path is read name by name, whatever its names may be. -/
theorem reads_pathOfNames (hkey : key.names ≠ [])
    (hname : ∀ i ∈ key.names, ∀ o, name.Reads (.ident i :: o) o (· = i))
    (hrest : isOperator "::" rest = false) :
    (do
      let leadingColon ← operator? "::"
      let first ← name
      let rest ← whileSees (isOperator "::") do
        operator "::"
        name
      return ⟨leadingColon, first :: rest⟩ : Parser NamePath).Reads
        (key.tokens ++ rest) rest (· = key) := by
  obtain ⟨leadingColon, names⟩ := key
  cases names with
  | nil => exact absurd rfl hkey
  | cons i names =>
    have hnames : (do
        let first ← name
        let rest ← whileSees (isOperator "::") do
          operator "::"
          name
        return ⟨leadingColon, first :: rest⟩ : Parser NamePath).Reads
          (.ident i :: laterNames names ++ rest) rest (· = ⟨leadingColon, i :: names⟩) := by
      refine (hname i List.mem_cons_self _).bind_eq ?_
      refine Reads.bind_eq (a := names) ?_ (reads_pure rfl)
      exact reads_ahead.bind_eq (reads_joinedNames
        (fun j hj => hname j (List.mem_cons_of_mem _ hj)) hrest (length_le_laterNames names rest))
    rw [NamePath.tokens, joinNames_cons]
    cases leadingColon with
    | false => exact (reads_operator?_false rfl).bind_eq hnames
    | true => exact (reads_operator?_true rfl).bind_eq hnames

end

namespace Grammar

variable {g : Grammar} {p : NamePath} {rest : List Token}

theorem reads_metaRest_list (d : Delimiter) (arguments : List Token) :
    (g.metaRest p).Reads (.group d arguments :: rest) rest (· = .list p d arguments) := by
  have hgroup : anyGroup.Reads (.group d arguments :: rest) rest (· = (d, arguments)) :=
    reads_of_run fun _ _ _ => ⟨_, _, _, rfl, rfl⟩
  exact reads_ahead.bind_eq (hgroup.bind_eq (reads_pure rfl))

theorem reads_metaItem_of_rest (hp : p.NamesAttribute) {after o : List Token}
    {Q : MetaItem → Prop} (hcolons : isOperator "::" after = false)
    (h : (g.metaRest p).Reads after o Q) : g.metaItem.Reads (p.tokens ++ after) o Q := by
  obtain rfl | ⟨hne, hnames⟩ := hp
  · exact (reads_word?_true "unsafe").bind_eq (reads_if_true rfl h)
  · have hword : isWord "unsafe" (p.tokens ++ after) = false := by
      obtain ⟨leadingColon, names⟩ := p
      obtain ⟨i, names, rfl⟩ := List.exists_cons_of_ne_nil hne
      rw [NamePath.tokens, joinNames_cons]
      cases leadingColon with
      | true => rfl
      | false =>
        simp only [Bool.false_eq_true, ↓reduceIte, List.nil_append, List.cons_append, isWord,
          decide_eq_false_iff_not]
        rintro rfl
        have hfirst := hnames _ List.mem_cons_self
        revert hfirst
        decide
    refine (reads_word?_false hword).bind_eq (reads_if_false rfl ?_)
    refine Reads.bind_eq (a := p) ?_ h
    refine reads_pathOfNames hne (fun i hi o => ?_) hcolons
    refine (reads_anyIdent i).bind_eq ((reads_guard ?_).bind fun _ _ => reads_pure rfl)
    simpa using hnames i hi

end Grammar

end RowFactory
