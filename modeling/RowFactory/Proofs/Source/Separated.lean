import Mathlib.Data.List.Forall2
import RowFactory.Proofs.Source.Reads
import RowFactory.Source.Generics

namespace RowFactory

open RowFactory.Parser

@[simp]
theorem operatorIf_true (op : String) : operatorIf true op = Token.operator op := rfl

@[simp]
theorem operatorIf_false (op : String) : operatorIf false op = [] := rfl

theorem joinTokens_concat (separator : String) (trailing : Bool) (init : List (List Token))
    (last : List Token) :
    joinTokens separator trailing (init ++ [last]) =
      init.flatMap (· ++ Token.operator separator) ++ last ++ operatorIf trailing separator := by
  induction init with
  | nil => rfl
  | cons ts init ih =>
    obtain ⟨us, rest, hrest⟩ := List.exists_cons_of_ne_nil (l := init ++ [last]) (by simp)
    rw [List.cons_append, hrest, joinTokens, ← hrest, ih]
    · simp
    · simp

theorem joinTokens_true (separator : String) (items : List (List Token)) :
    joinTokens separator true items = items.flatMap (· ++ Token.operator separator) := by
  rcases items.eq_nil_or_concat with rfl | ⟨init, last, rfl⟩
  · rfl
  · rw [List.concat_eq_append, joinTokens_concat]
    simp

theorem joinTokens_cons (separator : String) (trailing : Bool) (ts : List Token)
    (items : List (List Token)) (rest : List Token) :
    joinTokens separator trailing (ts :: items) ++ rest =
      ts ++ (operatorIf (trailing || !items.isEmpty) separator ++
        (joinTokens separator trailing items ++ rest)) := by
  cases items with
  | nil => simp [joinTokens, operatorIf]
  | cons us items => simp [joinTokens]

@[simp]
theorem Token.sizeAll_append (ts us : List Token) :
    Token.sizeAll (ts ++ us) = Token.sizeAll ts + Token.sizeAll us := by
  induction ts with
  | nil => simp [Token.sizeAll]
  | cons t ts ih => simp [Token.sizeAll, ih, Nat.add_assoc]

/-- An item is no larger than the list that it stands in. -/
theorem Token.sizeAll_le_joinTokens (separator : String) (trailing : Bool) {ts : List Token}
    {items : List (List Token)} (h : ts ∈ items) :
    Token.sizeAll ts ≤ Token.sizeAll (joinTokens separator trailing items) := by
  induction items with
  | nil => cases h
  | cons us items ih =>
    have hjoin := congrArg Token.sizeAll (joinTokens_cons separator trailing us items [])
    simp only [Token.sizeAll_append, Token.sizeAll] at hjoin
    rcases List.mem_cons.mp h with rfl | h
    · omega
    · have hlater := ih h
      omega

/-- All items of a list but the last have a comma behind them, and the last where it trails. -/
theorem mapIdx_commas (trailing : Bool) (init : List (Bool × List Token))
    (last : Bool × List Token) :
    ((init ++ [last]).mapIdx fun i (isLifetime, ts) =>
      (isLifetime, ts, (i + 1 < (init ++ [last]).length || trailing : Bool))) =
      init.map (fun x => (x.1, x.2, true)) ++ [(last.1, last.2, trailing)] := by
  rw [List.mapIdx_concat]
  congr 1
  · apply List.ext_getElem
    · simp
    · intro i h₁ h₂
      have hi : i < init.length := by simpa using h₁
      simp [hi]
  · simp

/-- Items with the lifetimes among them first, each kind in its own order. -/
def lifetimesAhead {α : Type} (isLifetime : α → Bool) (items : List α) : List α :=
  items.filter isLifetime ++ items.filter (!isLifetime ·)

/-- Behind items that are written with the lifetimes first stands a comma: one that trails the list,
or the one between a lifetime that is the last of the list and what is written behind it. -/
def commaTrails {α : Type} (isLifetime : α → Bool) (trailing : Bool) (items : List α) : Bool :=
  trailing || (items.getLast?.any isLifetime && items.any (!isLifetime ·))

/-- What is written with the lifetimes first is a list in that order. -/
theorem lifetimesFirst_eq (trailing : Bool) (items : List (Bool × List Token)) :
    lifetimesFirst trailing items =
      joinTokens "," (commaTrails (·.1) trailing items)
        ((lifetimesAhead (·.1) items).map (·.2)) := by
  rcases items.eq_nil_or_concat with rfl | ⟨init, last, rfl⟩
  · cases trailing <;> rfl
  have hkeeps : (fun x : Bool × List Token × Bool => x.1) ∘ (fun x : Bool × List Token =>
    (x.1, x.2, true)) = (·.1) := rfl
  have hdrops : (fun x : Bool × List Token × Bool => !x.1) ∘ (fun x : Bool × List Token =>
    (x.1, x.2, true)) = (!·.1) := rfl
  have hrender : ∀ chosen : List (Bool × List Token),
      (chosen.map fun x => (x.1, x.2, true)).flatMap (fun x => x.2.1 ++ operatorIf x.2.2 ",") =
        (chosen.map (·.2)).flatMap (· ++ Token.operator ",") := fun chosen => by
    rw [List.flatMap_map, List.flatMap_map]
    rfl
  have hnone : init.any (!·.1) = !(init.filter (!·.1)).isEmpty := by
    rw [Bool.eq_iff_iff]
    simp
  obtain ⟨isLifetime, ts⟩ := last
  unfold lifetimesFirst lifetimesAhead commaTrails
  rw [List.concat_eq_append, mapIdx_commas]
  simp only [List.filter_append, List.filter_map, hkeeps, hdrops]
  generalize hlifetimes : init.filter (·.1) = lifetimes
  generalize hothers : init.filter (!·.1) = others at hnone
  cases isLifetime with
  | false =>
    have hlist := joinTokens_concat "," trailing ((lifetimes ++ others).map (·.2)) ts
    simp only [List.map_append, List.append_assoc] at hlist
    cases hlast : lifetimes.getLast? <;> simp [hrender, hlist, hlast]
  | true =>
    cases others with
    | nil =>
      have hlist := joinTokens_concat "," trailing (lifetimes.map (·.2)) ts
      simp [hrender, hnone, hlist]
    | cons item more =>
      have hlist := joinTokens_true "," ((lifetimes ++ (true, ts) :: item :: more).map (·.2))
      simp only [List.map_append, List.map_cons] at hlist
      cases trailing <;> simp [hrender, hnone, hlist]

theorem lifetimesFirst_map {α : Type} (isLifetime : α → Bool) (form : α → List Token)
    (trailing : Bool) (items : List α) :
    lifetimesFirst trailing (items.map fun a => (isLifetime a, form a)) =
      joinTokens "," (commaTrails isLifetime trailing items)
        ((lifetimesAhead isLifetime items).map form) := by
  rw [lifetimesFirst_eq]
  congr 1
  · simp only [commaTrails, List.getLast?_map, Option.any_map, List.any_map]
    rfl
  · simp only [lifetimesAhead, List.filter_map, List.map_append, List.map_map]
    rfl

/-- The parameters in the order in which they are written. -/
def Generics.ordered (generics : Generics) : List GenericParam :=
  lifetimesAhead (·.isLifetime) generics.params

/-- A comma is written behind the last parameter. -/
def Generics.commaTrails (generics : Generics) : Bool :=
  RowFactory.commaTrails (·.isLifetime) generics.trailing generics.params

theorem Generics.angled_eq (generics : Generics) (form : GenericParam → List Token) :
    generics.angled form =
      if generics.params.isEmpty then []
      else [.punct '<' false] ++
        joinTokens "," generics.commaTrails (generics.ordered.map form) ++ [.punct '>' false] := by
  rw [angled, lifetimesFirst_map]
  rfl

theorem Generics.mem_ordered {generics : Generics} {p : GenericParam} :
    p ∈ generics.ordered ↔ p ∈ generics.params := by
  simp only [ordered, lifetimesAhead, List.mem_append, List.mem_filter]
  cases p.isLifetime <;> simp

theorem isOperator_operator (op : String) (rest : List Token) :
    isOperator op (Token.operator op ++ rest) = true := by
  unfold isOperator Token.operator
  induction op.toList with
  | nil => rfl
  | cons c cs ih =>
    cases cs with
    | nil => simp [Token.operatorOf, startsOperator]
    | cons d cs => simpa [Token.operatorOf, startsOperator] using ih

theorem drop_length_operator (op : String) (rest : List Token) :
    (Token.operator op ++ rest).drop op.length = rest := by
  have hlength : ∀ cs : List Char, (Token.operatorOf cs).length = cs.length := by
    intro cs
    induction cs with
    | nil => rfl
    | cons c cs ih => cases cs <;> simp_all [Token.operatorOf]
  exact List.drop_left' (hlength _)

namespace Parser

variable {α β : Type} {item : Parser α} {form : β → List Token} {R : β → α → Prop}
  {stop : List Token → Bool} {Ends : List Token → Prop} {rest : List Token}

theorem reads_operator_written (op : String) (rest : List Token) :
    (operator op).Reads (Token.operator op ++ rest) rest fun _ => True := by
  have h := reads_operator (isOperator_operator op rest)
  rwa [drop_length_operator] at h

theorem reads_operator?_written (op : String) (rest : List Token) :
    (operator? op).Reads (Token.operator op ++ rest) rest (· = true) := by
  have h := reads_operator?_true (isOperator_operator op rest)
  rwa [drop_length_operator] at h

/-- What is written for an item is read back where an item ends, and the list does not stop in
front of it. -/
structure ReadsItem (item : Parser α) (stop : List Token → Bool) (Ends : List Token → Prop)
    (ts : List Token) (Q : α → Prop) : Prop where
  reads : ∀ rest, Ends rest → item.Reads (ts ++ rest) rest Q
  goesOn : ∀ rest, Ends rest → stop (ts ++ rest) = false

/-- A list has no more items than tokens, if something is written for each item. -/
theorem length_le_joinTokens (separator : String) (trailing : Bool) {items : List (List Token)}
    (h : [] ∉ items) :
    items.length ≤ (joinTokens separator trailing items).length := by
  induction items with
  | nil => exact Nat.zero_le _
  | cons ts items ih =>
    have hts : 0 < ts.length := List.length_pos_iff.mpr fun hnil => h (by simp [hnil])
    have hlater := ih fun hmem => h (List.mem_cons_of_mem _ hmem)
    have hjoin := congrArg List.length (joinTokens_cons separator trailing ts items [])
    simp only [List.length_append, List.length_nil] at hjoin
    rw [List.length_cons]
    omega

/-- Something is written for an item, for the list stops without one. -/
theorem length_le_of_readsItem (separator : String) (trailing : Bool) {bs : List β}
    (hitems : ∀ b ∈ bs, ReadsItem item stop Ends (form b) (R b)) (hrest : Ends rest)
    (hstop : stop rest = true) :
    bs.length < (joinTokens separator trailing (bs.map form) ++ rest).length + 1 := by
  have hne : [] ∉ bs.map form := by
    intro hmem
    obtain ⟨b, hb, hnil⟩ := List.mem_map.mp hmem
    have hgoes := (hitems b hb).goesOn rest hrest
    rw [hnil, List.nil_append, hstop] at hgoes
    cases hgoes
  have hlength := length_le_joinTokens separator trailing hne
  rw [List.length_map] at hlength
  rw [List.length_append]
  omega

theorem isEmpty_eq_of_forall₂ {as : List α} {bs : List β} (h : List.Forall₂ R bs as) :
    as.isEmpty = bs.isEmpty := by
  cases h <;> rfl

/-- A list is read back up to where it stops. -/
theorem reads_closedList_join (separator : String) (trailing : Bool) (bs : List β)
    (hitems : ∀ b ∈ bs, ReadsItem item stop Ends (form b) (R b))
    (hseparator : ∀ rest, Ends (Token.operator separator ++ rest) ∧
      stop (Token.operator separator ++ rest) = false)
    (hrest : Ends rest) (hstop : stop rest = true) :
    (closedList stop separator item).Reads
      (joinTokens separator trailing (bs.map form) ++ rest) rest
      fun (as, last) => List.Forall₂ R bs as ∧ last = (trailing && !bs.isEmpty) := by
  have hfrom : ∀ (fuel : Nat) (bs : List β), bs.length < fuel →
      (∀ b ∈ bs, ReadsItem item stop Ends (form b) (R b)) →
      (closedListFrom stop separator item fuel).Reads
        (joinTokens separator trailing (bs.map form) ++ rest) rest
        fun (as, last) => List.Forall₂ R bs as ∧ last = (trailing || bs.isEmpty) := by
    intro fuel
    induction fuel with
    | zero => exact fun _ h => absurd h (Nat.not_lt_zero _)
    | succ fuel ih =>
      intro bs hfuel hitems
      cases bs with
      | nil => exact (reads_sees hstop).bind_eq (reads_if_true rfl (reads_pure ⟨.nil, by simp⟩))
      | cons b bs =>
        have hb := hitems b List.mem_cons_self
        have hlater := ih bs (Nat.lt_of_succ_lt_succ hfuel) fun c hc =>
          hitems c (List.mem_cons_of_mem _ hc)
        rw [List.map_cons, joinTokens_cons]
        cases hmore : trailing || !(bs.map form).isEmpty with
        | false =>
          obtain ⟨rfl, hnil⟩ := Bool.or_eq_false_iff.mp hmore
          obtain rfl : bs = [] := by simpa using hnil
          refine (reads_sees (hb.goesOn _ hrest)).bind_eq (reads_if_false rfl ?_)
          refine (hb.reads _ hrest).bind fun a ha => (reads_sees hstop).bind_eq ?_
          exact reads_if_true rfl (reads_pure ⟨.cons ha .nil, rfl⟩)
        | true =>
          obtain ⟨hends, hgoes⟩ := hseparator (joinTokens separator trailing (bs.map form) ++ rest)
          refine (reads_sees (hb.goesOn _ hends)).bind_eq (reads_if_false rfl ?_)
          refine (hb.reads _ hends).bind fun a ha => (reads_sees hgoes).bind_eq ?_
          refine reads_if_false rfl ((reads_operator_written _ _).bind fun _ _ => ?_)
          refine hlater.bind fun x hx => reads_pure ⟨.cons ha hx.1, hx.2.trans ?_⟩
          simpa [or_comm, imp_iff_not_or] using hmore
  have hfuel := length_le_of_readsItem separator trailing hitems hrest hstop
  refine reads_ahead.bind_eq ((hfrom _ bs hfuel hitems).bind fun x hx => reads_pure ⟨hx.1, ?_⟩)
  rw [hx.2, isEmpty_eq_of_forall₂ hx.1]
  cases bs <;> simp

/-- A list is read back up to where it stops, if no separator follows there. -/
theorem reads_openList_join (separator : String) (trailing : Bool) (bs : List β)
    (hitems : ∀ b ∈ bs, ReadsItem item stop Ends (form b) (R b))
    (hseparator : ∀ rest, Ends (Token.operator separator ++ rest))
    (hrest : Ends rest) (hstop : stop rest = true) (hend : isOperator separator rest = false) :
    (openList stop separator item).Reads
      (joinTokens separator trailing (bs.map form) ++ rest) rest
      fun (as, last) => List.Forall₂ R bs as ∧ last = (trailing && !bs.isEmpty) := by
  have hfrom : ∀ (fuel : Nat) (bs : List β), bs.length < fuel →
      (∀ b ∈ bs, ReadsItem item stop Ends (form b) (R b)) →
      (openListFrom stop separator item fuel).Reads
        (joinTokens separator trailing (bs.map form) ++ rest) rest
        fun (as, last) => List.Forall₂ R bs as ∧ last = (trailing || bs.isEmpty) := by
    intro fuel
    induction fuel with
    | zero => exact fun _ h => absurd h (Nat.not_lt_zero _)
    | succ fuel ih =>
      intro bs hfuel hitems
      cases bs with
      | nil => exact (reads_sees hstop).bind_eq (reads_if_true rfl (reads_pure ⟨.nil, by simp⟩))
      | cons b bs =>
        have hb := hitems b List.mem_cons_self
        have hlater := ih bs (Nat.lt_of_succ_lt_succ hfuel) fun c hc =>
          hitems c (List.mem_cons_of_mem _ hc)
        rw [List.map_cons, joinTokens_cons]
        cases hmore : trailing || !(bs.map form).isEmpty with
        | false =>
          obtain ⟨rfl, hnil⟩ := Bool.or_eq_false_iff.mp hmore
          obtain rfl : bs = [] := by simpa using hnil
          refine (reads_sees (hb.goesOn _ hrest)).bind_eq (reads_if_false rfl ?_)
          refine (hb.reads _ hrest).bind fun a ha => (reads_operator?_false hend).bind_eq ?_
          exact reads_if_false rfl (reads_pure ⟨.cons ha .nil, rfl⟩)
        | true =>
          have hends := hseparator (joinTokens separator trailing (bs.map form) ++ rest)
          refine (reads_sees (hb.goesOn _ hends)).bind_eq (reads_if_false rfl ?_)
          refine (hb.reads _ hends).bind fun a ha => (reads_operator?_written _ _).bind_eq ?_
          refine reads_if_true rfl (hlater.bind fun x hx => ?_)
          refine reads_pure ⟨.cons ha hx.1, hx.2.trans ?_⟩
          simpa [or_comm, imp_iff_not_or] using hmore
  have hfuel := length_le_of_readsItem separator trailing hitems hrest hstop
  refine reads_ahead.bind_eq ((hfrom _ bs hfuel hitems).bind fun x hx => reads_pure ⟨hx.1, ?_⟩)
  rw [hx.2, isEmpty_eq_of_forall₂ hx.1]
  cases bs <;> simp

end Parser

end RowFactory
