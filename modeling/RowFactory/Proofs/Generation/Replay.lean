import RowFactory.Generation.Generate
import RowFactory.Proofs.Mapping.Binding
import RowFactory.Proofs.Scan.Discovery

namespace RowFactory

inductive PassEvent where
  | check
  | deliver (a : Artifact)
  | fail (e : GenerationError)

namespace PassEvent

/-- Carries out events up to the first that ends the pass: a failure, or a check at which the
signal is set. -/
def replay (signal : Signal) : Progress → List PassEvent → Option GenerationError × Progress
  | p, [] => (none, p)
  | p, .check :: rest =>
    if signal p.checks p.delivered.length then
      (some .cancelled, { p with checks := p.checks + 1 })
    else replay signal { p with checks := p.checks + 1 } rest
  | p, .deliver a :: rest => replay signal { p with delivered := p.delivered ++ [a] } rest
  | p, .fail e :: _ => (some e, p)

/-- For each check, how many artifacts have been handed over when it is made. -/
def marks : Nat → List PassEvent → List Nat
  | _, [] => []
  | delivered, .check :: rest => delivered :: marks delivered rest
  | delivered, .deliver _ :: rest => marks (delivered + 1) rest
  | _, .fail _ :: _ => []

theorem replay_append (signal : Signal) (p : Progress) (before after : List PassEvent) :
    replay signal p (before ++ after) =
      match replay signal p before with
      | (none, q) => replay signal q after
      | stopped => stopped := by
  induction before generalizing p with
  | nil => rfl
  | cons event rest ih =>
    cases event with
    | check =>
      simp only [List.cons_append, replay]
      split
      · rfl
      · exact ih _
    | deliver a => exact ih _
    | fail e => rfl

theorem delivered_isPrefix_replay (signal : Signal) (p : Progress) (events : List PassEvent) :
    p.delivered <+: (replay signal p events).2.delivered := by
  induction events generalizing p with
  | nil => exact List.prefix_rfl
  | cons event rest ih =>
    cases event with
    | check =>
      simp only [replay]
      split
      · exact List.prefix_rfl
      · exact ih { p with checks := p.checks + 1 }
    | deliver a =>
      exact (List.prefix_append _ _).trans (ih { p with delivered := p.delivered ++ [a] })
    | fail e => exact List.prefix_rfl

/-- Where the signal is set at no check, it makes no difference; otherwise the first check at which
it is set ends the pass, and what was handed over before that check remains. -/
theorem replay_eq_cut (signal : Signal) (p : Progress) (events : List PassEvent) :
    replay signal p events =
      match ((marks p.delivered.length events).zipIdx p.checks).find? fun (d, n) => signal n d with
      | none => replay .never p events
      | some (d, n) =>
        (some .cancelled, ⟨n + 1, (replay .never p events).2.delivered.take d⟩) := by
  induction events generalizing p with
  | nil => rfl
  | cons event rest ih =>
    cases event with
    | check =>
      have hnever : replay .never p (.check :: rest) =
          replay .never { p with checks := p.checks + 1 } rest := rfl
      rw [hnever, marks, List.zipIdx_cons, List.find?_cons]
      cases hset : signal p.checks p.delivered.length with
      | true =>
        obtain ⟨later, hlater⟩ :=
          delivered_isPrefix_replay .never { p with checks := p.checks + 1 } rest
        simp [replay, hset, ← hlater]
      | false =>
        simp only [replay, hset]
        exact ih { p with checks := p.checks + 1 }
    | deliver a =>
      have h := ih { p with delivered := p.delivered ++ [a] }
      rw [List.length_append, List.length_singleton] at h
      exact h
    | fail e => rfl

end PassEvent

open PassEvent

namespace Pass

variable {α β : Type}

/-- Under every signal the pass does what the events say, and returns `a` if none of them ends
it. -/
def Follows (p : Pass α) (events : List PassEvent) (a : α) : Prop :=
  ∀ signal start, p.runFrom signal start =
    ((replay signal start events).1.elim (.ok a) .error, (replay signal start events).2)

theorem follows_pure (a : α) : (pure a : Pass α).Follows [] a :=
  fun _ _ => rfl

theorem follows_check : check.Follows [.check] () := by
  intro signal start
  rw [runFrom_check, replay]
  cases signal start.checks start.delivered.length <;> rfl

theorem follows_deliver (a : Artifact) : (deliver a).Follows [.deliver a] () :=
  fun _ _ => rfl

theorem Follows.bind {p : Pass α} {f : α → Pass β} {before after : List PassEvent} {a : α} {b : β}
    (hp : p.Follows before a) (hf : (f a).Follows after b) :
    (p >>= f).Follows (before ++ after) b := by
  intro signal start
  rw [runFrom_bind, hp signal start, replay_append]
  rcases replay signal start before with ⟨_ | e, q⟩
  · exact hf signal q
  · rfl

/-- What follows a failure does not matter. -/
theorem follows_bind_throw (e : GenerationError) (f : α → Pass β) (b : β) :
    ((throw e : Pass α) >>= f).Follows [.fail e] b :=
  fun _ _ => rfl

theorem follows_forM {p : β → Pass Unit} {events : β → List PassEvent}
    (h : ∀ x, (p x).Follows (events x) ()) (xs : List β) :
    (xs.forM p).Follows (xs.flatMap events) () := by
  induction xs with
  | nil => exact follows_pure ()
  | cons x rest ih => exact (h x).bind ih

/-- What a pass returns without cancellation is what it returns. -/
theorem Follows.eq_of_yields {p : Pass α} {events : List PassEvent} {a b : α}
    (hp : p.Follows events a) (hy : p.Yields b) : a = b := by
  obtain ⟨n, hn⟩ := hy .start
  rw [hp] at hn
  have hout := (Prod.mk.inj hn).1
  cases hend : (replay .never .start events).1 with
  | none =>
    rw [hend] at hout
    exact Except.ok.inj hout
  | some e =>
    rw [hend] at hout
    cases hout

theorem Follows.run {p : Pass α} {events : List PassEvent} {a : α} (hp : p.Follows events a)
    (signal : Signal) : p.run signal =
      ((replay signal .start events).1.elim (.ok a) .error,
        (replay signal .start events).2.delivered) := by
  change ((p.runFrom signal .start).1, (p.runFrom signal .start).2.delivered) = _
  rw [hp signal .start]

theorem Follows.collect {p : Pass α} {events : List PassEvent} {a : α} (hp : p.Follows events a)
    (signal : Signal) : p.collect signal =
      (replay signal .start events).1.elim (.ok (replay signal .start events).2.delivered)
        .error := by
  rw [Pass.collect, hp.run]
  cases (replay signal .start events).1 <;> rfl

end Pass

/-- The types that are generated for. -/
def markedTypes (units : List SourceUnit) (config : Config) : List AnnotatedType :=
  (firstMarkedStructs units config).map fun d => annotate (sightingsOf units) d.1 d.2

/-- What becomes of a type whose members are all bound. -/
def emission (config : Config) (printer : Printer) (t : AnnotatedType) : PassEvent :=
  match emit t t.bindings config.runtime printer with
  | .ok a => .deliver a
  | .error e => .fail e

/-- A check before each stage and before each member. -/
def typeEvents (config : Config) (printer : Printer) (t : AnnotatedType) : List PassEvent :=
  .check :: t.members.map (fun _ => .check) ++ [.check, emission config printer t]

/-- A check at the beginning, before each unit and before each struct, then type after type. -/
def generationEvents (units : List SourceUnit) (config : Config) (printer : Printer) :
    List PassEvent :=
  .check :: units.map (fun _ => .check) ++ (declaredStructs units).map (fun _ => .check) ++
    (markedTypes units config).flatMap (typeEvents config printer)

open Pass

theorem exists_follows_bindMembers (members : List Member) :
    ∃ bindings, (bindMembers members).Follows (members.map fun _ => .check) bindings := by
  induction members with
  | nil => exact ⟨[], follows_pure []⟩
  | cons m rest ih =>
    obtain ⟨bindings, h⟩ := ih
    refine ⟨m.binding?.toList ++ bindings, follows_check.bind ?_⟩
    have hrest := h.bind (f := fun later => pure (m.binding?.toList ++ later)) (follows_pure _)
    rw [List.append_nil] at hrest
    exact hrest

theorem follows_bindMembers (t : AnnotatedType) :
    (bindMembers t.members).Follows (t.members.map fun _ => .check) t.bindings := by
  obtain ⟨bindings, h⟩ := exists_follows_bindMembers t.members
  rw [h.eq_of_yields (yields_bindMembers t.members)] at h
  exact h

theorem exists_follows_collectMarked (sightings : List Sighting) (config : Config)
    (scopes : Scopes) (types : List AnnotatedType) (rest : List (ModulePath × StructItem)) :
    ∃ found, (collectMarked sightings config scopes types rest).Follows
      (rest.map fun _ => .check) found := by
  induction rest generalizing types with
  | nil => exact ⟨types, follows_pure types⟩
  | cons d rest ih =>
    obtain ⟨m, item⟩ := d
    cases hadd : carriesMarker scopes config m item && types.all (·.name != ⟨m, item.name⟩) with
    | true =>
      obtain ⟨found, h⟩ := ih (types ++ [annotate sightings m item])
      exact ⟨found, follows_check.bind (by simpa only [hadd, ↓reduceIte] using h)⟩
    | false =>
      obtain ⟨found, h⟩ := ih types
      refine ⟨found, follows_check.bind ?_⟩
      simpa only [hadd, Bool.false_eq_true, ↓reduceIte] using h

theorem follows_discover (units : List SourceUnit) (config : Config) :
    (discover units config).Follows
      (.check :: units.map (fun _ => .check) ++ (declaredStructs units).map (fun _ => .check))
      (markedTypes units config) := by
  obtain ⟨found, hfound⟩ := exists_follows_collectMarked (sightingsOf units) config (.ofUnits units)
    [] (structsSeen (sightingsOf units))
  have hunits := follows_forM (fun _ : SourceUnit => follows_check) units
  rw [← List.map_eq_flatMap] at hunits
  have h : (discover units config).Follows _ found := follows_check.bind (hunits.bind hfound)
  rw [h.eq_of_yields (yields_discover units config), structsSeen_sightingsOf] at h
  exact h

theorem follows_generateType (config : Config) (printer : Printer) (t : AnnotatedType) :
    (generateType config printer t).Follows (typeEvents config printer t) () := by
  refine follows_check.bind ((follows_bindMembers t).bind (follows_check.bind ?_))
  rw [emission]
  cases emit t t.bindings config.runtime printer with
  | ok a => exact (follows_pure a).bind (follows_deliver a)
  | error e => exact follows_bind_throw e _ ()

theorem follows_generatePass (units : List SourceUnit) (config : Config) (printer : Printer) :
    (generatePass units config printer).Follows (generationEvents units config printer)
      (markedTypes units config).length := by
  have htypes := follows_forM (follows_generateType config printer) (markedTypes units config)
  have hcount := htypes.bind (f := fun _ => pure (markedTypes units config).length) (follows_pure _)
  rw [List.append_nil] at hcount
  exact (follows_discover units config).bind
    (f := fun types => do types.forM (generateType config printer); return types.length) hcount

end RowFactory
