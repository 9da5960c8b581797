import RowFactory.Proofs.Scan.Offers

namespace RowFactory

/-- The same names are bound to the same things, and everything is imported from the same paths. -/
structure ModuleScope.SameAs (s t : ModuleScope) : Prop where
  names : ∀ name, s.get? name = t.get? name
  globs : ∀ path, path ∈ s.globs ↔ path ∈ t.globs

theorem ModuleScope.SameAs.symm {s t : ModuleScope} (h : s.SameAs t) : t.SameAs s :=
  ⟨fun name => (h.names name).symm, fun path => (h.globs path).symm⟩

/-- The same names are bound to the same things; the second table may have further globs. -/
structure ModuleScope.Widens (s t : ModuleScope) : Prop where
  names : ∀ name, s.get? name = t.get? name
  globs : s.globs ⊆ t.globs

theorem ModuleScope.SameAs.widens {s t : ModuleScope} (h : s.SameAs t) : s.Widens t :=
  ⟨h.names, fun path => (h.globs path).mp⟩

theorem none_or_some_of_rel {α β : Type} {R : α → β → Prop} {a : Option α} {b : Option β}
    (h : Option.Rel R a b) :
    (a = none ∧ b = none) ∨ ∃ x y, a = some x ∧ b = some y ∧ R x y := by
  cases h with
  | none => exact .inl ⟨rfl, rfl⟩
  | some hr => exact .inr ⟨_, _, rfl, rfl, hr⟩

theorem findSome?_rel {α β γ : Type} {R : β → γ → Prop} {f : α → Option β} {g : α → Option γ}
    (h : ∀ a, Option.Rel R (f a) (g a)) (as : List α) :
    Option.Rel R (as.findSome? f) (as.findSome? g) := by
  induction as with
  | nil => exact .none
  | cons a rest ih =>
    rw [List.findSome?_cons, List.findSome?_cons]
    obtain ⟨hf, hg⟩ | ⟨x, y, hf, hg, hr⟩ := none_or_some_of_rel (h a)
    · rw [hf, hg]
      exact ih
    · rw [hf, hg]
      exact .some hr

theorem exists_of_rel {α β : Type} {R : α → β → Prop} {a : Option α} {b : Option β} {x : α}
    (h : Option.Rel R a b) (ha : a = some x) : ∃ y, b = some y ∧ R x y := by
  subst ha
  cases h with
  | some hr => exact ⟨_, rfl, hr⟩

namespace Scopes

/-- The same modules have tables, and each has the same in both. -/
def SameAs (s t : Scopes) : Prop := ∀ m, Option.Rel ModuleScope.SameAs (s.get? m) (t.get? m)

/-- The same modules have tables, those of the second perhaps with further globs. -/
def Widens (s t : Scopes) : Prop := ∀ m, Option.Rel ModuleScope.Widens (s.get? m) (t.get? m)

variable {s t : Scopes}

theorem SameAs.symm (h : s.SameAs t) : t.SameAs s := by
  intro m
  obtain ⟨hs, ht⟩ | ⟨a, b, hs, ht, hr⟩ := none_or_some_of_rel (h m)
  · rw [hs, ht]
    exact .none
  · rw [hs, ht]
    exact .some hr.symm

theorem SameAs.widens (h : s.SameAs t) : s.Widens t := by
  intro m
  obtain ⟨hs, ht⟩ | ⟨a, b, hs, ht, hr⟩ := none_or_some_of_rel (h m)
  · rw [hs, ht]
    exact .none
  · rw [hs, ht]
    exact .some hr.widens

theorem Widens.bound? (h : s.Widens t) (m : ModulePath) (lookup : Lookup) (name : String) :
    s.bound? m lookup name = t.bound? m lookup name := by
  unfold Scopes.bound?
  obtain ⟨hs, ht⟩ | ⟨a, b, hs, ht, hr⟩ := none_or_some_of_rel (h m)
  · rw [hs, ht]
  · rw [hs, ht, Option.getD_some, Option.getD_some, hr.names]

/-- A path is looked up in the same module, with the same names behind it. -/
theorem enclosing?_rel {R : ModuleScope → ModuleScope → Prop}
    (h : ∀ m, Option.Rel R (s.get? m) (t.get? m)) (segments : List String) :
    Option.Rel (fun a b => a.1 = b.1 ∧ R a.2.1 b.2.1 ∧ a.2.2 = b.2.2)
      (s.enclosing? segments) (t.enclosing? segments) := by
  refine findSome?_rel (fun n => ?_) _
  dsimp only
  obtain ⟨hs, ht⟩ | ⟨a, b, hs, ht, hr⟩ := none_or_some_of_rel (h ⟨segments.take n⟩)
  · rw [hs, ht]
    exact .none
  · rw [hs, ht]
    cases segments.drop n with
    | nil => exact .none
    | cons name rest => exact .some ⟨rfl, hr, rfl⟩

theorem exists_enclosing? {R : ModuleScope → ModuleScope → Prop}
    (h : ∀ m, Option.Rel R (s.get? m) (t.get? m)) {segments : List String} {m : ModulePath}
    {a : ModuleScope} {name : String} {rest : List String}
    (ha : s.enclosing? segments = some (m, a, name, rest)) :
    ∃ b, t.enclosing? segments = some (m, b, name, rest) ∧ R a b := by
  obtain ⟨⟨m', b, names⟩, hb, rfl, hr, rfl⟩ := exists_of_rel (enclosing?_rel h segments) ha
  exact ⟨b, hb, hr⟩

/-- Only a path from the root that a search ended at may lead on by a further glob. -/
theorem offers_of_widens (h : s.Widens t) {state : LookupState} {move : Move}
    (hm : s.Offers state move) :
    t.Offers state move ∨ ∃ segments, state = .canonical segments ∧ move = .find segments := by
  cases hm with
  | ends _ => exact .inr ⟨_, rfl, rfl⟩
  | importOnTheWay he hb =>
    obtain ⟨b, ht, hr⟩ := exists_enclosing? h he
    exact .inl (.importOnTheWay ht (by rw [← hr.names, hb]))
  | globOnTheWay he hb hg =>
    obtain ⟨b, ht, hr⟩ := exists_enclosing? h he
    exact .inl (.globOnTheWay ht (by rw [← hr.names, hb]) (hr.globs hg))
  | outside hc hp => exact .inl (.outside hc hp)
  | placed hc hp => exact .inl (.placed hc hp)
  | declared hp hb => exact .inl (.declared hp (by rw [← h.bound?, hb]))
  | imported hp hb => exact .inl (.imported hp (by rw [← h.bound?, hb]))
  | glob hp hb hl hs hg =>
    obtain ⟨b, ht, hr⟩ := exists_of_rel (h _) hs
    exact .inl (.glob hp (by rw [← h.bound?, hb]) hl ht (hr.globs hg))
  | prelude hp hb hrest => exact .inl (.prelude hp (by rw [← h.bound?, hb]) hrest)

theorem offers_of_sameAs (h : s.SameAs t) {state : LookupState} {move : Move}
    (hm : s.Offers state move) : t.Offers state move := by
  rcases offers_of_widens h.widens hm with ht | ⟨segments, rfl, rfl⟩
  · exact ht
  · cases hm with
    | ends hends =>
      refine .ends fun m b name rest he => ?_
      obtain ⟨a, ha, hr⟩ := exists_enclosing? h.symm he
      rw [hr.names]
      refine (hends m a name rest ha).imp_right fun ⟨hb, hg⟩ => ⟨hb, ?_⟩
      exact List.eq_nil_iff_forall_not_mem.mpr fun path hp => by
        simpa [hg] using (hr.globs path).mp hp

theorem reaches_of_sameAs (h : s.SameAs t) {left : Nat} {state : LookupState}
    {found : List String} (hr : s.Reaches left state found) : t.Reaches left state found := by
  induction hr with
  | find hm => exact .find (mem_movesOf_iff.mpr (offers_of_sameAs h (mem_movesOf_iff.mp hm)))
  | visit hm ha _ ih =>
    exact .visit (mem_movesOf_iff.mpr (offers_of_sameAs h (mem_movesOf_iff.mp hm))) ha ih

theorem mem_resolve_of_sameAs (h : s.SameAs t) {m : ModulePath} {path : WrittenPath}
    {found : List String} : found ∈ s.resolve m path ↔ found ∈ t.resolve m path := by
  rw [mem_resolve_iff_reaches, mem_resolve_iff_reaches]
  exact ⟨reaches_of_sameAs h, reaches_of_sameAs h.symm⟩

end Scopes

theorem carriesMarker_of_sameAs {s t : Scopes} (h : s.SameAs t) (config : Config)
    (m : ModulePath) (item : StructItem) :
    carriesMarker s config m item = carriesMarker t config m item := by
  rw [Bool.eq_iff_iff, carriesMarker_iff, carriesMarker_iff]
  simp only [Scopes.mem_resolve_of_sameAs h]

end RowFactory
