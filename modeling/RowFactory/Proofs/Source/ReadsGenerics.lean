import RowFactory.Proofs.Printed.Ordered
import RowFactory.Proofs.Source.ItemNames
import RowFactory.Proofs.Source.ReadsPath
import RowFactory.Source.GenericsGrammar

namespace RowFactory

open RowFactory.Parser

/-- A parameter ends here: a comma or the closing bracket follows. -/
inductive EndsParam : List Token → Prop
  | comma (rest : List Token) : EndsParam (.comma :: rest)
  | angle (rest : List Token) : EndsParam (.punct '>' false :: rest)

/-- The bounds of a parameter end here. -/
def endsBounds (ts : List Token) : Bool :=
  isOperator "," ts || isOperator ">" ts || isOperator "=" ts

namespace Grammar

variable (g : Grammar)

/-- Bounds up to where `stop` holds. -/
def bounds (stop : List Token → Bool) : Parser (List Bound × Bool) := openList stop "+" g.bound

/-- What is written for the attribute is read as that attribute. -/
def ReadsAttribute (a : Attribute) : Prop :=
  ∀ rest, g.outerAttribute.Reads (a.tokens ++ rest) rest (· = a)

/-- What is written for bounds is read as these bounds in front of what `Ends` holds of. -/
def ReadsBounds (stop : List Token → Bool) (Ends : List Token → Prop) (bs : List Bound)
    (trailing : Bool) : Prop :=
  ∀ rest, Ends rest →
    (g.bounds stop).Reads (joinTokens "+" trailing (Bound.parts bs) ++ rest) rest
      (· = (Bound.allOrdered bs, trailing))

/-- What a parameter is made of is read back, and a separator trails only where there are bounds. -/
def ReadsParts : GenericParam → Prop
  | .lifetime p =>
    (∀ a ∈ p.attrs, g.ReadsAttribute a) ∧ (p.trailing && !p.bounds.isEmpty) = p.trailing
  | .type attrs _ bs trailing =>
    (∀ a ∈ attrs, g.ReadsAttribute a) ∧ (trailing && !bs.isEmpty) = trailing ∧
      (bs ≠ [] → g.ReadsBounds endsBounds EndsParam bs trailing)
  | .const attrs _ ty =>
    (∀ a ∈ attrs, g.ReadsAttribute a) ∧ ∀ rest, EndsParam rest →
      (g.type true).Reads (ty.tokens ++ rest) rest (· = ty.ordered)

end Grammar

def GenericParam.attrs : GenericParam → List Attribute
  | .lifetime p => p.attrs
  | .type attrs _ _ _ => attrs
  | .const attrs _ _ => attrs

/-- What is written for a parameter behind its attributes. -/
def GenericParam.bareTokens : GenericParam → List Token
  | .lifetime p => LifetimeParam.tokens ⟨[], p.name, p.bounds, p.trailing⟩
  | .type _ name bs trailing => .ident name :: boundTokens bs trailing
  | .const _ name ty => .word "const" :: .ident name :: .punct ':' false :: ty.tokens

theorem GenericParam.tokens_eq (p : GenericParam) :
    p.tokens = attributeTokens p.attrs ++ p.bareTokens := by
  cases p with
  | lifetime p => simp [tokens, LifetimeParam.tokens, attrs, bareTokens, attributeTokens]
  | type attrs name bs trailing => simp [tokens, GenericParam.attrs, bareTokens, boundTokens]
  | const attrs name ty => simp [tokens, GenericParam.attrs, bareTokens]

/-- The parameter with the arguments in it in the order in which they are written. -/
def GenericParam.ordered : GenericParam → GenericParam
  | .lifetime p => .lifetime p
  | .type attrs name bs trailing => .type attrs name (Bound.allOrdered bs) trailing
  | .const attrs name ty => .const attrs name ty.ordered

theorem EndsParam.isOperator_eq_false {rest : List Token} (h : EndsParam rest) (op : String)
    (hop : op.toList.head?.any fun c => c ≠ ',' ∧ c ≠ '>') : isOperator op rest = false := by
  unfold isOperator
  cases hchars : op.toList with
  | nil => simp [hchars] at hop
  | cons c cs =>
    have hc : c ≠ ',' ∧ c ≠ '>' := by simpa [hchars] using hop
    cases h <;> cases cs <;> simp [startsOperator, Token.comma, hc]

namespace Grammar

variable {g : Grammar} {rest : List Token}

theorem reads_outerAttributes {attrs : List Attribute} (h : ∀ a ∈ attrs, g.ReadsAttribute a)
    (hrest : isOperator "#" rest = false) :
    g.outerAttributes.Reads (attributeTokens attrs ++ rest) rest (· = attrs) := by
  have hfrom : ∀ (fuel : Nat) (attrs : List Attribute), attrs.length ≤ fuel →
      (∀ a ∈ attrs, g.ReadsAttribute a) →
      (whileSeesFrom (isOperator "#") g.outerAttribute fuel).Reads
        (attributeTokens attrs ++ rest) rest (· = attrs) := by
    intro fuel
    induction fuel with
    | zero =>
      intro attrs hfuel _
      obtain rfl := List.eq_nil_of_length_eq_zero (Nat.le_zero.mp hfuel)
      exact reads_pure rfl
    | succ fuel ih =>
      intro attrs hfuel h
      cases attrs with
      | nil => exact (reads_sees hrest).bind_eq (reads_if_false rfl (reads_pure rfl))
      | cons a attrs =>
        have hlater := ih attrs (Nat.le_of_succ_le_succ hfuel) fun b hb =>
          h b (List.mem_cons_of_mem _ hb)
        have htokens : attributeTokens (a :: attrs) ++ rest =
            a.tokens ++ (attributeTokens attrs ++ rest) := by simp [attributeTokens]
        rw [htokens]
        refine (reads_sees (b := true) rfl).bind_eq (reads_if_true rfl ?_)
        exact (h a List.mem_cons_self _).bind_eq (hlater.bind_eq (reads_pure rfl))
  have hlength := length_le_length_flatMap Attribute.tokens (by simp [Attribute.tokens]) attrs
  refine reads_ahead.bind_eq (hfrom _ attrs ?_ h)
  rw [List.length_append]
  exact Nat.le_add_right_of_le hlength

/-- Bounds of lifetimes are read back for what they are. -/
theorem reads_lifetimes {stop : List Token → Bool}
    (hlifetime : ∀ b ts, stop (.lifetime b :: ts) = false) (hstop : stop rest = true)
    (hend : isOperator "+" rest = false) (bs : List Ident) (trailing : Bool) :
    (openList stop "+" lifetime).Reads
      (joinTokens "+" trailing (bs.map fun b => [.lifetime b]) ++ rest) rest
      (· = (bs, trailing && !bs.isEmpty)) := by
  have hitem (b : Ident) : ReadsItem lifetime stop (fun _ => True) [.lifetime b] (b = ·) := by
    refine ⟨fun ts _ => ?_, fun ts _ => hlifetime b ts⟩
    exact reads_of_run fun _ _ _ => ⟨_, _, _, rfl, rfl⟩
  have hread := reads_openList_join "+" trailing bs (fun b _ => hitem b) (fun _ => trivial) trivial
    hstop hend
  refine hread.mono ?_
  rintro ⟨as, last⟩ h
  obtain ⟨rfl, rfl⟩ : bs = as ∧ last = (trailing && !bs.isEmpty) := by simpa using h
  rfl

theorem reads_lifetime (i : Ident) : lifetime.Reads (.lifetime i :: rest) rest (· = i) :=
  reads_of_run fun _ _ _ => ⟨_, _, _, rfl, rfl⟩

theorem reads_lifetimeParam (name : Ident) (bs : List Ident) (trailing : Bool)
    (hrest : EndsParam rest) :
    g.lifetimeParam.Reads (LifetimeParam.tokens ⟨[], name, bs, trailing⟩ ++ rest) rest
      (· = ⟨[], name, bs, trailing && !bs.isEmpty⟩) := by
  refine Reads.writtenAs _ ?_
  have hplus := hrest.isOperator_eq_false "+" (by decide)
  have hcolon := hrest.isOperator_eq_false ":" (by decide)
  have hstop : (isOperator "," rest || isOperator ">" rest) = true := by cases hrest <;> rfl
  refine (reads_whileSees_none rfl).bind_eq ((reads_lifetime name).bind_eq ?_)
  cases bs with
  | nil =>
    refine (reads_operator?_false hcolon).bind_eq (reads_if_false rfl (reads_pure ?_))
    simp
  | cons b bs =>
    refine (reads_operator?_true rfl).bind_eq (reads_if_true rfl ?_)
    exact (reads_lifetimes (fun _ _ => rfl) hstop hplus (b :: bs) trailing).bind_eq (reads_pure rfl)

theorem reads_typeParam (attrs : List Attribute) (name : Ident) {bs : List Bound} {trailing : Bool}
    (htrailing : (trailing && !bs.isEmpty) = trailing)
    (h : bs ≠ [] → g.ReadsBounds endsBounds EndsParam bs trailing) (hrest : EndsParam rest) :
    (g.typeParam attrs name).Reads (boundTokens bs trailing ++ rest) rest
      (· = .type attrs name (Bound.allOrdered bs) trailing) := by
  have hcolon := hrest.isOperator_eq_false ":" (by decide)
  have hequals := hrest.isOperator_eq_false "=" (by decide)
  have hbounds : (g.boundsAfterColon endsBounds).Reads (boundTokens bs trailing ++ rest) rest
      (· = (Bound.allOrdered bs, trailing)) := by
    cases bs with
    | nil =>
      obtain rfl : false = trailing := by simpa using htrailing
      exact (reads_sees hcolon).bind_eq (reads_if_false rfl (reads_pure rfl))
    | cons b bs =>
      refine (reads_sees rfl).bind_eq (reads_if_true rfl (Reads.writtenAs _ ?_))
      exact (reads_operator rfl).bind fun _ _ => h (List.cons_ne_nil _ _) rest hrest
  refine hbounds.bind_eq ((reads_operator?_false hequals).bind_eq (reads_if_false rfl ?_))
  exact reads_pure rfl

/-- A parameter behind its attributes. -/
def bareParam (g : Grammar) (attrs : List Attribute) : Parser GenericParam := do
  if ← sees isLifetime then return .lifetime { (← g.lifetimeParam) with attrs }
  else if ← word? "const" then
    let name ← ident
    operator ":"
    let type ← g.type true
    if ← operator? "=" then let _ ← g.constant
    return .const attrs name type
  else g.typeParam attrs (← ident)

theorem genericParam_eq : g.genericParam = (do g.bareParam (← g.outerAttributes)) := rfl

open GenericParam in
theorem reads_bareParam {p : GenericParam} (hp : p.IsDeclared)
    (hblank : isWord "_" (p.bareTokens ++ rest) = false) (h : g.ReadsParts p)
    (hrest : EndsParam rest) :
    (g.bareParam p.attrs).Reads (p.bareTokens ++ rest) rest (· = p.ordered) := by
  cases p with
  | lifetime p =>
    refine (reads_sees rfl).bind_eq (reads_if_true rfl ?_)
    refine (reads_lifetimeParam p.name p.bounds p.trailing hrest).bind_eq (reads_pure ?_)
    rw [h.2]
    rfl
  | type attrs name bs trailing =>
    obtain hname | hname := hp
    · refine (reads_sees rfl).bind_eq (reads_if_false rfl ?_)
      refine (reads_word?_false (isWord_of_isKeyword_eq_false hname (by decide))).bind_eq ?_
      refine reads_if_false rfl ((reads_ident hname).bind_eq ?_)
      exact reads_typeParam attrs name h.2.1 h.2.2 hrest
    · rw [hname.1] at hblank
      cases hblank
  | const attrs name ty =>
    have hequals := hrest.isOperator_eq_false "=" (by decide)
    refine (reads_sees rfl).bind_eq (reads_if_false rfl ?_)
    refine (reads_word?_true "const").bind_eq (reads_if_true rfl ?_)
    refine (reads_ident hp).bind_eq ((reads_operator rfl).bind fun _ _ => ?_)
    refine (h.2 rest hrest).bind_eq ?_
    exact (reads_operator?_false hequals).bind_eq (reads_if_false rfl (reads_pure rfl))

theorem isOperator_bareTokens (p : GenericParam) {op : String} (hop : op ≠ "") (ts : List Token) :
    isOperator op (p.bareTokens ++ ts) = false := by
  unfold isOperator
  cases hchars : op.toList with
  | nil => exact absurd (by simpa using hchars) hop
  | cons c cs => cases p <;> cases cs <;> rfl

/-- A parameter is read back. -/
theorem reads_declaredParam {p : GenericParam} (hp : p.IsDeclared) (h : g.ReadsParts p)
    (hrest : EndsParam rest) : g.declaredParam.Reads (p.tokens ++ rest) rest (· = p.ordered) := by
  have hattrs : g.outerAttributes.Reads (attributeTokens p.attrs ++ (p.bareTokens ++ rest))
      (p.bareTokens ++ rest) (· = p.attrs) := by
    refine reads_outerAttributes ?_ (isOperator_bareTokens p (by decide) rest)
    cases p <;> exact h.1
  rw [p.tokens_eq, List.append_assoc]
  cases hblank : isWord "_" (p.bareTokens ++ rest) with
  | false =>
    refine (hattrs.bind fun _ _ => reads_sees hblank).peek.bind fun seen hseen => ?_
    obtain ⟨_, rfl, rfl⟩ := hseen
    refine reads_ite (fun h => by cases h) fun _ => ?_
    rw [genericParam_eq]
    exact hattrs.bind_eq (reads_bareParam hp hblank h hrest)
  | true =>
    obtain ⟨attrs, rfl⟩ : ∃ attrs, p = .type attrs (.plain "_") [] false := by
      cases p with
      | lifetime p => cases hblank
      | type attrs name bs trailing =>
        obtain rfl : name = .plain "_" := by simpa [isWord, GenericParam.bareTokens] using hblank
        obtain hname | ⟨-, rfl⟩ := hp
        · cases hname
        · obtain rfl : false = trailing := by simpa using h.2.1
          exact ⟨attrs, rfl⟩
      | const attrs name ty => cases hblank
    refine (hattrs.bind fun _ _ => reads_sees hblank).peek.bind fun seen hseen => ?_
    obtain ⟨_, rfl, rfl⟩ := hseen
    refine reads_ite (fun _ => ?_) fun h => absurd rfl h
    exact hattrs.bind_eq ((reads_anyIdent (.plain "_")).bind_eq (reads_pure rfl))

theorem readsItem_declaredParam {p : GenericParam} (hp : p.IsDeclared) (h : g.ReadsParts p) :
    ReadsItem (withWritten g.declaredParam) (isOperator ">") EndsParam p.tokens
      fun q => q.1 = p.ordered := by
  refine ⟨fun rest hrest => (reads_declaredParam hp h hrest).withWritten, fun rest _ => ?_⟩
  rw [p.tokens_eq, List.append_assoc]
  cases hattrs : p.attrs with
  | nil => exact isOperator_bareTokens p (by decide) rest
  | cons a attrs => rfl

theorem map_eq_of_forall₂ {α β γ : Type} {f : α → γ} {f' : β → γ} {as : List α} {bs : List β}
    (h : List.Forall₂ (fun a b => f' b = f a) as bs) : bs.map f' = as.map f := by
  rw [← List.forall₂_eq_eq_eq, List.forall₂_map_left_iff, List.forall₂_map_right_iff]
  exact h.flip

/-- Parameters are read back in the order in which they are written. -/
theorem reads_genericParams {generics : Generics} (hne : generics.params ≠ [])
    (hparams : ∀ p ∈ generics.params, p.IsDeclared ∧ g.ReadsParts p) (rest : List Token) :
    g.genericParams.Reads (generics.declarationTokens ++ rest) rest
      fun q => q.params = generics.ordered.map GenericParam.ordered ∧
        q.trailing = generics.commaTrails ∧ q.predicates = [] := by
  have htokens : generics.declarationTokens ++ rest = .punct '<' false ::
      (joinTokens "," generics.commaTrails (generics.ordered.map GenericParam.tokens) ++
        .punct '>' false :: rest) := by
    simp [Generics.declarationTokens, Generics.angled_eq, hne]
  have hordered : generics.ordered ≠ [] := by
    obtain ⟨p, hp⟩ := List.exists_mem_of_ne_nil _ hne
    exact List.ne_nil_of_mem (Generics.mem_ordered.mpr hp)
  have hitems : ∀ p ∈ generics.ordered, ReadsItem (withWritten g.declaredParam) (isOperator ">")
      EndsParam p.tokens fun q => q.1 = p.ordered := fun p hp =>
    (hparams p (Generics.mem_ordered.mp hp)).elim readsItem_declaredParam
  have hlist := reads_closedList_join "," generics.commaTrails generics.ordered
    hitems (fun ts => ⟨.comma ts, rfl⟩) (.angle rest) rfl
  rw [htokens]
  refine (reads_sees rfl).bind_eq (reads_if_true rfl ?_)
  refine Reads.bind (m := rest) (Q := fun x =>
    x.1.map Prod.fst = generics.ordered.map GenericParam.ordered ∧
      x.2 = generics.commaTrails) ?_ ?_
  · refine Reads.writtenAs _ ((reads_operator rfl).bind fun _ _ => ?_)
    refine hlist.bind fun x h => ?_
    refine (reads_operator rfl).bind fun _ _ => reads_pure ⟨map_eq_of_forall₂ h.1, h.2.trans ?_⟩
    simp [hordered]
  · exact fun x h => reads_pure ⟨h.1, h.2, rfl⟩

end Grammar

/-- The trait that a path names, as a bound. -/
def Path.bound (p : Path) : Bound := .trait false false none p.leadingColon p.segments

namespace Path.IsReadable

variable {p : Path} (hp : p.IsReadable) (hplain : p.startsPlain)
include hp hplain

theorem readsBounds (n : Nat) {stop : List Token → Bool} {Ends : List Token → Prop}
    (hstop : ∀ ts, StartsPath ts → stop ts = false)
    (hends : ∀ rest, Ends rest → EndsType rest ∧ beforeRound rest = false) :
    (Grammar.atDepth (n + 1)).ReadsBounds stop Ends [p.bound] false := by
  intro rest hrest
  obtain ⟨htype, hround⟩ := hends rest hrest
  have hbound := hp.reads_bound hplain htype hround n
  have hgoes := hstop _ (hp.startsPath hplain htype.mark)
  have htokens : joinTokens "+" false (Bound.parts [p.bound]) = p.tokens := by
    simp [bound, Bound.parts, Bound.tokens, binderTokens, joinTokens, tokens]
  rw [htokens]
  have hordered : Bound.allOrdered [p.bound] = [p.bound] := by
    obtain ⟨leading, segments⟩ := p
    obtain ⟨i, names, rfl, -⟩ := hp
    simp [bound, Bound.allOrdered, Bound.ordered, Segment.allOrdered_eq, Segment.ordered]
  refine (hbound.openList_once hgoes htype.plus).mono fun x hx => ?_
  obtain ⟨b, rfl, rfl⟩ := hx
  rw [hordered]
  rfl

end Path.IsReadable

end RowFactory
