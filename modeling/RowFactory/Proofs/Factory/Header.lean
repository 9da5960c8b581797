import RowFactory.Proofs.Factory.OfStruct
import RowFactory.Proofs.Factory.Opening
import RowFactory.Proofs.Factory.ReadBack
import RowFactory.Proofs.Name.PathText
import RowFactory.Proofs.Printed.Generics
import RowFactory.Proofs.Source.ImplHead
import RowFactory.Proofs.Source.ReadsArguments

namespace RowFactory

open RowFactory.Parser

/-- The type that a path stands for with the names of the parameters, if there are any, for the
arguments of its last segment. -/
def Path.applied (p : Path) (generics : Generics) : Ty :=
  .path none 0 p.leadingColon
    (if generics.params.isEmpty then p.segments
      else p.segments.dropLast ++
        (p.segments.getLast?.map fun s => generics.applied s.name).toList)

/-- The predicates of a factory: those of the type, and that it has a default if it has
parameters. -/
def Factory.clause (f : Factory) : List WherePredicate :=
  f.generics.predicates ++ if f.generics.params.isEmpty then [] else [defaultPredicate]

theorem Grammar.readsPartsOf_defaultPredicate (n : Nat) :
    (atDepth (n + 1)).ReadsPartsOf defaultPredicate := by
  have hself : Path.IsReadable ⟨false, [.plain (.plain "Self")]⟩ :=
    ⟨.plain "Self", [], rfl, by decide⟩
  have hdefault : (corePath ["default", "Default"]).IsReadable :=
    ⟨.plain "core", [.plain "default", .plain "Default"], rfl, by decide⟩
  exact hself.readsPartsOf (by decide) hdefault (by decide) n

/-- A header that gives the runtime's trait to a type with these parameters and predicates. -/
structure ImplHead.Declares (head : ImplHead) (f : Factory) : Prop where
  trait : head.first = (f.below ["FromRow"]).ty ∧ head.isConst = false
  params : head.generics.params = f.generics.ordered.map GenericParam.ordered
  target : head.target = some (f.target.applied f.generics)
  clause : head.generics.predicates = f.clause.map WherePredicate.ordered

namespace Factory

/-- What stands between the attribute and the braces. -/
def headTokens (f : Factory) : List Token :=
  .word "impl" :: (f.implGenerics.declarationTokens ++ ((f.below ["FromRow"]).tokens ++
    .word "for" :: (f.target.tokens ++ (f.implGenerics.argumentTokens ++
      f.implGenerics.whereTokens))))

theorem tokens_eq_head (f : Factory) :
    f.tokens = .punct '#' false :: .group .bracket [.word "automatically_derived"] ::
      (f.headTokens ++ [f.braces]) := by
  simp [tokens, headTokens, braces]

theorem predicates_implGenerics (f : Factory) : f.implGenerics.predicates = f.clause := by
  unfold implGenerics clause
  split
  case isTrue => simp
  case isFalse => simp [Generics.require]

theorem argumentTokens_implGenerics (f : Factory) :
    f.implGenerics.argumentTokens = f.generics.argumentTokens := by
  unfold implGenerics
  split <;> rfl

variable {f : Factory}

theorem readsPartsOf_clause {n : Nat} (h : f.generics.ReadsBack (Grammar.atDepth (n + 1))) :
    (∀ p ∈ f.clause, (Grammar.atDepth (n + 1)).ReadsPartsOf p) ∧
      ∀ p ∈ f.clause.head?, ∀ rest, startsGenerics (p.tokens ++ rest) = false := by
  unfold clause
  constructor
  · intro p hp
    rcases List.mem_append.mp hp with hp | hp
    · exact h.predicates p hp
    · split at hp
      · cases hp
      · rw [List.mem_singleton.mp hp]
        exact Grammar.readsPartsOf_defaultPredicate n
  · intro p hp rest
    cases hlist : f.generics.predicates with
    | nil =>
      rw [hlist, List.nil_append] at hp
      split at hp
      · cases hp
      · obtain rfl : defaultPredicate = p := by simpa using hp
        rfl
    | cons q predicates =>
      refine h.opens p ?_ rest
      rw [hlist] at hp ⊢
      exact hp

variable (hruntime : f.runtime.IsReadable) (hplain : f.runtime.startsPlain)
  (htarget : f.target.IsReadable) (htargetPlain : f.target.startsPlain)
  (hparams : ∀ p ∈ f.generics.params, p.IsDeclared) {names : List Ident} {i : Ident}
  (hi : i.isKeyword = false) (hsegments : f.target.segments = (names ++ [i]).map .plain)

include htarget htargetPlain hparams hi hsegments in
/-- The target is read with the names of the parameters for its arguments. -/
theorem reads_target (n : Nat) {rest : List Token} (hrest : EndsType rest) :
    ((Grammar.atDepth (n + 2)).type true).Reads
      (f.target.tokens ++ (f.implGenerics.argumentTokens ++ rest)) rest
      (· = f.target.applied f.generics) := by
  rw [argumentTokens_implGenerics]
  by_cases hne : f.generics.params = []
  · have htokens : f.generics.argumentTokens = [] := by
      simp [Generics.argumentTokens, Generics.angled, hne]
    have happlied : f.target.applied f.generics =
        .path none 0 f.target.leadingColon f.target.segments := by simp [Path.applied, hne]
    rw [htokens, List.nil_append, happlied]
    exact htarget.reads_type htargetPlain hrest (n + 1) true
  · have happlied : f.target.applied f.generics = .path none 0 f.target.leadingColon
        (names.map .plain ++ [f.generics.applied i]) := by
      simp [Path.applied, hne, hsegments, Segment.name]
    rw [happlied]
    exact Grammar.reads_type_ordered hne hparams htarget htargetPlain hi hsegments hrest

include hparams in
/-- The parameters are read back, unless they begin with a blank. -/
theorem reads_implParams {n : Nat} (hread : f.generics.ReadsBack (Grammar.atDepth n))
    (hblank : f.generics.opensBlank = false) {rest : List Token} (hrest : StartsPath rest) :
    (Grammar.atDepth n).implParams.Reads (f.implGenerics.declarationTokens ++ rest) rest
      fun q => q.params = f.generics.ordered.map GenericParam.ordered ∧ q.predicates = [] := by
  rw [declarationTokens_implGenerics]
  by_cases hne : f.generics.params = []
  · have hordered : f.generics.ordered = [] := by simp [Generics.ordered, lifetimesAhead, hne]
    have htokens : f.generics.declarationTokens = [] := by
      simp [Generics.declarationTokens, Generics.angled, hne]
    have hnone : startsGenerics rest = false := by
      simp [startsGenerics, hrest.isOperator_eq_false "<" (by decide)]
    rw [htokens, hordered]
    exact (reads_sees hnone).bind_eq (reads_if_false rfl (reads_pure ⟨rfl, rfl⟩))
  · have hopens : startsGenerics (f.generics.declarationTokens ++ rest) = true := by
      rw [Generics.startsGenerics_declarationTokens (fun p hp => (hparams p hp).hasName) hne,
        hblank]
      rfl
    refine (reads_sees hopens).bind_eq (reads_if_true rfl ?_)
    refine (Grammar.reads_genericParams hne (fun p hp => ⟨hparams p hp, hread.params p hp⟩)
      rest).mono fun q h => ⟨h.1, h.2.2⟩

include hruntime hplain htarget htargetPlain hparams hi hsegments in
/-- The header of a factory is read back, up to its braces. -/
theorem reads_implHead {n : Nat} (hread : f.generics.ReadsBack (Grammar.atDepth (n + 2)))
    (hblank : f.generics.opensBlank = false) :
    (Grammar.atDepth (n + 2)).implHead.Reads (f.headTokens ++ [f.braces]) [f.braces]
      (·.Declares f) := by
  have hpath := below_isReadable hruntime ["FromRow"] (by decide)
  have hstarts := below_startsPlain hruntime hplain ["FromRow"]
  have hstart : StartsPath ((f.below ["FromRow"]).tokens ++
      .word "for" :: (f.target.tokens ++ (f.implGenerics.argumentTokens ++
        (f.implGenerics.whereTokens ++ [f.braces])))) := hpath.startsPath hstarts rfl
  have hends : EndsType (f.implGenerics.whereTokens ++ [f.braces]) := by
    unfold Generics.whereTokens
    split <;> exact ⟨⟨rfl, rfl⟩, rfl, rfl, rfl⟩
  have htargetRead := reads_target htarget htargetPlain hparams hi hsegments n hends
  have hclause (before : Generics) (hbefore : before.predicates = []) :
      ((Grammar.atDepth (n + 2)).whereClause before).Reads
        (f.implGenerics.whereTokens ++ [f.braces]) [f.braces]
        fun q => q.params = before.params ∧
          q.predicates = f.clause.map WherePredicate.ordered := by
    have h := readsPartsOf_clause hread
    rw [← predicates_implGenerics] at h ⊢
    exact Grammar.reads_whereTokens h.1 h.2 hbefore _ []
  simp only [headTokens, List.cons_append, List.append_assoc]
  refine (reads_word?_false rfl).bind_eq ((reads_word?_false rfl).bind_eq ?_)
  refine (reads_word _).bind fun _ _ => ?_
  refine (reads_implParams hparams hread hblank hstart).bind fun generics hgenerics => ?_
  refine (reads_sees (b := false) ?_).bind_eq (reads_if_false rfl ?_)
  · simp [hstart.isWord_eq_false (w := "const") (by decide),
      hstart.isOperator_eq_false "?" (by decide)]
  refine (reads_sees (b := false) ?_).bind_eq (reads_if_false rfl ?_)
  · simp [hstart.isOperator_eq_false "!" (by decide)]
  refine (hpath.reads_type hstarts ⟨⟨rfl, rfl⟩, rfl, rfl, rfl⟩ (n + 1) true).bind_eq ?_
  refine (reads_word?_true _).bind_eq ((reads_guard rfl).bind fun _ _ => ?_)
  have hmap : (some <$> (Grammar.atDepth (n + 2)).type true : Parser (Option Ty)).Reads
      (f.target.tokens ++ (f.implGenerics.argumentTokens ++
        (f.implGenerics.whereTokens ++ [f.braces]))) (f.implGenerics.whereTokens ++ [f.braces])
      (· = some (f.target.applied f.generics)) := htargetRead.bind_eq (reads_pure rfl)
  refine reads_if_true rfl (hmap.bind_eq ?_)
  refine (hclause generics hgenerics.2).bind fun q hq => reads_pure ?_
  exact ⟨⟨rfl, rfl⟩, hq.1.trans hgenerics.1, rfl, hq.2⟩

end Factory

/-- Items in angle brackets; nothing without items. -/
def angleTokens (trailing : Bool) (items : List (List Token)) : List Token :=
  if items.isEmpty then []
  else [.punct '<' false] ++ joinTokens "," trailing items ++ [.punct '>' false]

/-- The where clause of these predicates. -/
def clauseTokens (trailing : Bool) (predicates : List WherePredicate) : List Token :=
  if predicates.isEmpty then []
  else .word "where" :: joinTokens "," trailing (predicates.map WherePredicate.tokens)

theorem Generics.angled_eq_angleTokens (generics : Generics) (form : GenericParam → List Token) :
    generics.angled form = angleTokens generics.commaTrails (generics.ordered.map form) := by
  have hempty : (generics.ordered.map form).isEmpty = generics.params.isEmpty := by
    rw [List.isEmpty_map, Bool.eq_iff_iff, List.isEmpty_iff, List.isEmpty_iff,
      List.eq_nil_iff_forall_not_mem, List.eq_nil_iff_forall_not_mem]
    simp only [mem_ordered]
  rw [angled_eq, angleTokens, hempty]

namespace Factory

theorem headTokens_eq (f : Factory) :
    f.headTokens =
      [Token.word "impl"] ++
        angleTokens f.generics.commaTrails (f.generics.ordered.map GenericParam.tokens) ++
      (f.below ["FromRow"]).tokens ++ [.word "for"] ++ f.target.tokens ++
        angleTokens f.generics.commaTrails (f.generics.ordered.map fun p => [p.argument]) ++
      clauseTokens (f.generics.params.isEmpty && f.generics.predicatesTrailing) f.clause := by
  have hwhere : f.implGenerics.whereTokens =
      clauseTokens (f.generics.params.isEmpty && f.generics.predicatesTrailing) f.clause := by
    have htrailing : f.implGenerics.predicatesTrailing =
        (f.generics.params.isEmpty && f.generics.predicatesTrailing) := by
      unfold implGenerics
      split
      case isTrue hempty => simp [hempty]
      case isFalse hempty => simp [hempty, Generics.require]
    rw [Generics.whereTokens, predicates_implGenerics, htrailing]
    rfl
  rw [headTokens, declarationTokens_implGenerics, argumentTokens_implGenerics, hwhere,
    Generics.declarationTokens, Generics.argumentTokens, Generics.angled_eq_angleTokens,
    Generics.angled_eq_angleTokens]
  simp

end Factory

theorem Token.sizeAll_le_angleTokens (trailing : Bool) {items : List (List Token)}
    {ts : List Token} (h : ts ∈ items) :
    Token.sizeAll ts ≤ Token.sizeAll (angleTokens trailing items) := by
  have hle := Token.sizeAll_le_joinTokens "," trailing h
  have hne : items.isEmpty = false := List.isEmpty_eq_false_iff.mpr (List.ne_nil_of_mem h)
  simp only [angleTokens, hne, Bool.false_eq_true, if_false, Token.sizeAll_append]
  omega

theorem Token.sizeAll_le_clauseTokens (trailing : Bool) {predicates : List WherePredicate}
    {p : WherePredicate} (h : p ∈ predicates) :
    Token.sizeAll p.tokens ≤ Token.sizeAll (clauseTokens trailing predicates) := by
  have hle := Token.sizeAll_le_joinTokens "," trailing
    (List.mem_map_of_mem (f := WherePredicate.tokens) h)
  have hne : predicates.isEmpty = false := List.isEmpty_eq_false_iff.mpr (List.ne_nil_of_mem h)
  simp only [clauseTokens, hne, Bool.false_eq_true, if_false, Token.sizeAll]
  omega

theorem Factory.four_le_sizeAll_tokens (f : Factory) : 4 ≤ Token.sizeAll f.tokens := by
  rw [f.tokens_eq_head, headTokens]
  simp only [List.cons_append, Token.sizeAll, Token.size, Token.word, Token.sizeAll_append]
  omega

/-- What a struct's parameters and predicates are made of is read back by whatever is deep enough
for the tokens of its factory. -/
theorem StructItem.IsRead.readsBack {s : StructItem} (hs : s.IsRead)
    (hes : ∀ e ∈ s.generics.embedded, e.IsReadBack) {f : Factory} (hf : f.generics = s.generics)
    {n : Nat} (hn : Token.sizeAll f.tokens ≤ n) : f.generics.ReadsBack (Grammar.atDepth n) := by
  obtain ⟨depth, attrs, visibility, i, j, h⟩ := hs
  have hhead : Token.sizeAll f.headTokens < n := by
    refine Nat.lt_of_lt_of_le ?_ hn
    rw [f.tokens_eq_head]
    simp only [Token.sizeAll, Token.size, Token.sizeAll_append]
    omega
  rw [f.headTokens_eq] at hhead
  simp only [Token.sizeAll_append, hf] at hhead
  rw [hf]
  refine Grammar.readsBack_of_gives_structItem h (fun p hp => ?_) (fun p hp => ?_) hes
  · have hle := Token.sizeAll_le_angleTokens s.generics.commaTrails
      (List.mem_map_of_mem (f := GenericParam.tokens) (Generics.mem_ordered.mpr hp))
    omega
  · have hclause : p ∈ f.clause := List.mem_append_left _ (hf ▸ hp)
    have hle := Token.sizeAll_le_clauseTokens
      (s.generics.params.isEmpty && s.generics.predicatesTrailing) hclause
    omega

/-- The header of a struct's factory is read back by whatever is deep enough. -/
theorem reads_implHead_structFactory {s : StructItem} {runtime target : Path} {names : List Ident}
    (hs : s.IsRead) (hparams : ∀ p ∈ s.generics.params, p.IsDeclared)
    (hname : s.name.isKeyword = false) (hes : ∀ e ∈ s.generics.embedded, e.IsReadBack)
    (hblank : s.generics.opensBlank = false) (hruntime : runtime.IsReadable)
    (hplain : runtime.startsPlain) (htarget : target.IsReadable) (htargetPlain : target.startsPlain)
    (hsegments : target.segments = (names ++ [s.name]).map .plain) {n : Nat}
    (hn : Token.sizeAll (structFactory s runtime target).tokens ≤ n) :
    (Grammar.atDepth n).implHead.Reads
      ((structFactory s runtime target).headTokens ++ [(structFactory s runtime target).braces])
      [(structFactory s runtime target).braces] (·.Declares (structFactory s runtime target)) := by
  have hread : (structFactory s runtime target).generics.ReadsBack (Grammar.atDepth n) :=
    hs.readsBack hes rfl hn
  obtain ⟨n, rfl⟩ := Nat.exists_eq_add_of_le'
    ((structFactory s runtime target).four_le_sizeAll_tokens.trans hn)
  exact Factory.reads_implHead hruntime hplain htarget htargetPlain hparams hname hsegments
    hread hblank

/-- Whether the header of the factory of the struct in a text is read back as a header. -/
def headerIsRead? (source runtime : String) : Option Bool := do
  let runtime ← Path.ofText? runtime
  match ← itemsOfText? source with
  | [.struct s] =>
    let t := AnnotatedType.ofStruct .root s []
    let f ← (Factory.ofType? t t.bindings runtime).toOption
    let head := (Grammar.forTokens f.tokens).implHead
    return (head.run (.start (f.headTokens ++ [f.braces]))).isSome
  | _ => none

end RowFactory
