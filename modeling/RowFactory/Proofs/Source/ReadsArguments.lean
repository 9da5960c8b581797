import RowFactory.Proofs.Printed.Lists
import RowFactory.Proofs.Source.ReadsGenerics

namespace RowFactory

open RowFactory.Parser

/-- What a parameter's name stands for where arguments stand. -/
def GenericParam.asArgument : GenericParam → Argument
  | .lifetime p => .lifetime p.name
  | .type _ name _ _ | .const _ name _ =>
    .type (if name = .plain "_" then .infer else .path none 0 false [.plain name])

/-- A name with the names of the parameters for its arguments. -/
def Generics.applied (generics : Generics) (i : Ident) : Segment :=
  .angle i false (generics.ordered.map GenericParam.asArgument) generics.commaTrails

namespace Grammar

/-- The name of a parameter is read as an argument. -/
theorem readsItem_argument {n : Nat} {p : GenericParam} (hp : p.IsDeclared) :
    ReadsItem (atDepth (n + 1)).argument (isOperator ">") EndsParam [p.argument]
      (· = p.asArgument) := by
  refine ⟨fun rest hrest => ?_, fun rest _ => by cases p <;> rfl⟩
  have hplus := hrest.isOperator_eq_false "+" (by decide)
  have hequals := hrest.isOperator_eq_false "=" (by decide)
  have hcolon := hrest.isOperator_eq_false ":" (by decide)
  have hends : EndsType rest := by cases hrest <;> exact ⟨⟨rfl, rfl⟩, rfl, rfl, rfl⟩
  have hname {i : Ident} (hi : i.isKeyword = false) : (atDepth (n + 1)).argument.Reads
      (.ident i :: rest) rest
      (· = .type (if i = .plain "_" then .infer else .path none 0 false [.plain i])) := by
    obtain ⟨hreadable, hplain⟩ := Path.isReadable_name hi
    have hconst : startsConstant (.ident i :: rest) = false := by
      have htrue := isWord_of_isKeyword_eq_false (w := "true") (o := rest) hi (by decide)
      have hfalse := isWord_of_isKeyword_eq_false (w := "false") (o := rest) hi (by decide)
      simp only [isWord, decide_eq_false_iff_not] at htrue hfalse
      simp [startsConstant, isLiteral, isGroup, htrue, hfalse]
    refine (reads_sees rfl).bind_eq (reads_if_false rfl ?_)
    refine (reads_sees hconst).bind_eq (reads_if_false rfl ?_)
    refine (hreadable.reads_type hplain hends n true).bind_eq ?_
    refine (reads_operator?_false hequals).bind_eq (reads_if_false rfl ?_)
    refine (reads_operator?_false hcolon).bind_eq (reads_if_false rfl (reads_pure ?_))
    rw [if_neg]
    rintro rfl
    cases hi
  have hblank : (atDepth (n + 1)).argument.Reads (.ident (.plain "_") :: rest) rest
      (· = .type .infer) := reads_of_run fun _ _ _ => ⟨_, _, _, rfl, rfl⟩
  cases p with
  | lifetime p =>
    refine (reads_sees (b := true) (by simp [GenericParam.argument, isLifetime, hplus])).bind_eq ?_
    exact reads_if_true rfl ((reads_lifetime p.name).bind_eq (reads_pure rfl))
  | type attrs name bs trailing =>
    obtain hi | ⟨hi, -⟩ := hp
    · exact hname hi
    · subst hi
      exact hblank
  | const attrs name ty => exact hname hp

/-- Names in angle brackets behind a name that may have arguments. -/
theorem reads_segment_ordered {n : Nat} {generics : Generics} (hne : generics.params ≠ [])
    (hparams : ∀ p ∈ generics.params, p.IsDeclared) {i : Ident} (hi : i.isKeyword = false)
    (rest : List Token) :
    ((atDepth (n + 1)).segment false).Reads
      (.ident i :: (generics.argumentTokens ++ rest)) rest (· = generics.applied i) := by
  have htokens : generics.argumentTokens ++ rest = .punct '<' false ::
      (joinTokens "," generics.commaTrails (generics.ordered.map fun p => [p.argument]) ++
        .punct '>' false :: rest) := by
    simp [Generics.argumentTokens, Generics.angled_eq, hne]
  have hordered : generics.ordered ≠ [] := by
    obtain ⟨p, hp⟩ := List.exists_mem_of_ne_nil _ hne
    exact List.ne_nil_of_mem (Generics.mem_ordered.mpr hp)
  have hitems : ∀ p ∈ generics.ordered, ReadsItem (atDepth (n + 1)).argument (isOperator ">")
      EndsParam [p.argument] (· = p.asArgument) := fun p hp =>
    readsItem_argument (hparams p (Generics.mem_ordered.mp hp))
  have hlist := reads_closedList_map "," generics.commaTrails hitems
    (fun ts => ⟨.comma ts, rfl⟩) (.angle rest) rfl
  have htrailing : (generics.commaTrails && !generics.ordered.isEmpty) = generics.commaTrails := by
    simp [hordered]
  rw [htrailing] at hlist
  have harguments : ((atDepth (n + 1)).angleArguments).Reads (generics.argumentTokens ++ rest) rest
      (· = (generics.ordered.map GenericParam.asArgument, generics.commaTrails)) := by
    rw [htokens]
    refine (reads_operator rfl).bind fun _ _ => hlist.bind_eq ?_
    exact (reads_operator rfl).bind fun _ _ => reads_pure rfl
  have hbare : isBareSegment (.ident i :: (generics.argumentTokens ++ rest)) = false := by
    have hwords : ∀ w ∈ ["super", "self", "crate", "try"], keywords.contains w := by decide
    exact List.any_eq_false.mpr fun w hw => by
      simp [isWord_of_isKeyword_eq_false hi (hwords w hw)]
  have hself : isWord "Self" (.ident i :: (generics.argumentTokens ++ rest)) = false :=
    isWord_of_isKeyword_eq_false hi (by decide)
  have hangle : beforeAngle false (generics.argumentTokens ++ rest) = true := by
    rw [htokens]
    rfl
  have hturbofish : isOperator "::" (generics.argumentTokens ++ rest) = false := by
    rw [htokens]
    rfl
  refine (reads_sees hbare).bind_eq (reads_if_false rfl ((reads_sees hself).bind_eq ?_))
  refine reads_if_false rfl ((reads_ident hi).bind_eq ((reads_sees hangle).bind_eq ?_))
  refine reads_if_true rfl ((reads_operator?_false hturbofish).bind_eq ?_)
  exact harguments.bind_eq (reads_pure rfl)

theorem beforeAngle_laterNames_concat (names : List Ident) (i : Ident) (ts : List Token) :
    beforeAngle false (laterNames (names ++ [i]) ++ ts) = false := by
  cases names <;> rfl

section

variable {n : Nat} {generics : Generics} (hne : generics.params ≠ [])
  (hparams : ∀ p ∈ generics.params, p.IsDeclared) {names : List Ident}
  (hnames : ∀ j ∈ names, j.endsPath) {i : Ident} (hi : i.isKeyword = false) {rest : List Token}
  (hrest : EndsPath false rest)

include hne hparams hnames hi hrest

/-- Later names of a path, the last of which is given the names of the parameters. -/
theorem reads_laterNames_ordered {fuel : Nat} (hfuel : names.length < fuel) :
    (whileSeesFrom beforeSegment (do operator "::"; (atDepth (n + 1)).segment false) fuel).Reads
      (laterNames (names ++ [i]) ++ (generics.argumentTokens ++ rest)) rest
      (· = names.map .plain ++ [generics.applied i]) := by
  induction names generalizing fuel with
  | nil =>
    obtain ⟨fuel, rfl⟩ := Nat.exists_eq_add_one.mpr hfuel
    have hlast := (reads_operator_written "::" (.ident i :: (generics.argumentTokens ++ rest))).bind
      fun _ _ => reads_segment_ordered (n := n) hne hparams hi rest
    refine (reads_sees rfl).bind_eq (reads_if_true rfl (hlast.bind_eq ?_))
    exact (reads_whileSeesFrom_none hrest.segment fuel).bind_eq (reads_pure rfl)
  | cons j names ih =>
    obtain ⟨fuel, rfl⟩ := Nat.exists_eq_add_one.mpr (Nat.zero_lt_of_lt hfuel)
    have hangle := beforeAngle_laterNames_concat names i (generics.argumentTokens ++ rest)
    have hfirst := (reads_operator_written "::" (.ident j :: _)).bind fun _ _ =>
      reads_segment (g := atDepth (n + 1)) (hnames j List.mem_cons_self) hangle
    have hlater := ih (fun k hk => hnames k (List.mem_cons_of_mem _ hk))
      (Nat.lt_of_succ_lt_succ hfuel)
    refine (reads_sees rfl).bind_eq (reads_if_true rfl (hfirst.bind_eq ?_))
    exact hlater.bind_eq (reads_pure rfl)

/-- A path is read with the names of the parameters for the arguments of its last segment. -/
theorem reads_path_ordered {p : Path} (hsegments : p.segments = (names ++ [i]).map .plain) :
    ((atDepth (n + 1)).path false).Reads (p.tokens ++ (generics.argumentTokens ++ rest)) rest
      (· = ⟨p.leadingColon, names.map .plain ++ [generics.applied i]⟩) := by
  have hsegmentsRead : (do
      let first ← (atDepth (n + 1)).segment false
      let rest ← whileSees beforeSegment do operator "::"; (atDepth (n + 1)).segment false
      return ⟨p.leadingColon, first :: rest⟩ : Parser Path).Reads
      (Segment.joined p.segments ++ (generics.argumentTokens ++ rest)) rest
      (· = ⟨p.leadingColon, names.map .plain ++ [generics.applied i]⟩) := by
    rw [hsegments]
    cases names with
    | nil =>
      have hfirst := reads_segment_ordered (n := n) hne hparams hi rest
      exact hfirst.bind_eq ((reads_whileSees_none hrest.segment).bind_eq (reads_pure rfl))
    | cons j names =>
      have hangle := beforeAngle_laterNames_concat names i (generics.argumentTokens ++ rest)
      have hfirst := reads_segment (g := atDepth (n + 1)) (hnames j List.mem_cons_self) hangle
      have hfuel := length_le_laterNames (names ++ [i]) (generics.argumentTokens ++ rest)
      rw [List.length_append] at hfuel
      have hlater := reads_laterNames_ordered (n := n) hne hparams
        (fun k hk => hnames k (List.mem_cons_of_mem _ hk)) hi hrest hfuel
      rw [List.cons_append, joined_plain, List.cons_append]
      exact hfirst.bind_eq ((reads_ahead.bind_eq hlater).bind_eq (reads_pure rfl))
  rw [Path.tokens, List.append_assoc]
  cases hlead : p.leadingColon with
  | true =>
    rw [hlead] at hsegmentsRead
    exact (reads_operator?_written "::" _).bind_eq hsegmentsRead
  | false =>
    rw [hlead] at hsegmentsRead
    refine (reads_operator?_false ?_).bind_eq hsegmentsRead
    rw [hsegments]
    cases names with
    | nil => rfl
    | cons j names =>
      rw [List.cons_append, joined_plain]
      rfl

end

/-- The same where a type stands. -/
theorem reads_type_ordered {n : Nat} {generics : Generics} (hne : generics.params ≠ [])
    (hparams : ∀ p ∈ generics.params, p.IsDeclared) {p : Path} (hp : p.IsReadable)
    (hplain : p.startsPlain) {names : List Ident} {i : Ident} (hi : i.isKeyword = false)
    (hsegments : p.segments = (names ++ [i]).map .plain) {rest : List Token}
    (hrest : EndsType rest) :
    ((atDepth (n + 2)).type true).Reads (p.tokens ++ (generics.argumentTokens ++ rest)) rest
      (· = .path none 0 p.leadingColon (names.map .plain ++ [generics.applied i])) := by
  have hnames : ∀ j ∈ names, j.endsPath := by
    obtain ⟨k, later, hlater, hends⟩ := hp
    have heq : names ++ [i] = k :: later :=
      List.map_injective_iff.mpr (fun _ _ h => Segment.plain.inj h) (hsegments.symm.trans hlater)
    exact fun j hj => hends j (heq ▸ List.mem_append_left _ hj)
  have hhash : isOperator "#" (generics.argumentTokens ++ rest) = false := by
    simp only [Generics.argumentTokens, Generics.angled_eq, List.isEmpty_iff, hne, ↓reduceIte]
    rfl
  have hstart := hp.startsPath hplain hhash
  have hpath := reads_path_ordered (n := n) hne hparams hnames hi hrest.toEndsPath hsegments
  refine Reads.writtenAs _ (hstart.reads_oneType ?_)
  have hangle := hstart.isOperator_eq_false "<" (by decide)
  have hany : ((atDepth (n + 1)).anyPath false).Reads
      (p.tokens ++ (generics.argumentTokens ++ rest)) rest
      (· = .path none 0 p.leadingColon (names.map .plain ++ [generics.applied i])) :=
    (reads_sees hangle).bind_eq (reads_if_false rfl (hpath.bind_eq (reads_pure rfl)))
  refine hany.bind_eq (reads_ahead.bind_eq ?_)
  refine reads_if_false (by simp [hrest.call]) (reads_if_false (by simp [hrest.plus]) ?_)
  exact reads_pure rfl

end Grammar

end RowFactory
