import RowFactory.Proofs.Source.Separated

namespace RowFactory

theorem lifetimesAhead_lifetimesAhead {α : Type} (isLifetime : α → Bool) (items : List α) :
    lifetimesAhead isLifetime (lifetimesAhead isLifetime items) =
      lifetimesAhead isLifetime items := by
  simp [lifetimesAhead, List.filter_filter]

theorem isEmpty_lifetimesAhead {α : Type} (isLifetime : α → Bool) (items : List α) :
    (lifetimesAhead isLifetime items).isEmpty = items.isEmpty := by
  cases items with
  | nil => rfl
  | cons a items => cases h : isLifetime a <;> simp [lifetimesAhead, h]

theorem mem_lifetimesAhead {α : Type} {isLifetime : α → Bool} {items : List α} {a : α} :
    a ∈ lifetimesAhead isLifetime items ↔ a ∈ items := by
  simp only [lifetimesAhead, List.mem_append, List.mem_filter]
  cases isLifetime a <;> simp

/-- Behind items in the order in which they are written, a comma stands only where it trails. -/
theorem commaTrails_lifetimesAhead {α : Type} (isLifetime : α → Bool) (trailing : Bool)
    (items : List α) :
    commaTrails isLifetime trailing (lifetimesAhead isLifetime items) = trailing := by
  have hnone : ((lifetimesAhead isLifetime items).getLast?.any isLifetime &&
      (lifetimesAhead isLifetime items).any (!isLifetime ·)) = false := by
    rcases (items.filter (!isLifetime ·)).eq_nil_or_concat with hnil | ⟨init, last, hlast⟩
    · simp [lifetimesAhead, hnil]
    · have hmem : last ∈ items.filter (!isLifetime ·) := by simp [hlast]
      have hkind : isLifetime last = false := by simpa using (List.mem_filter.mp hmem).2
      simp [lifetimesAhead, hlast, hkind]
  rw [commaTrails, hnone, Bool.or_false]

mutual

/-- The type with the arguments in it in the order in which they are written. -/
def Ty.ordered : Ty → Ty
  | .path none depth leading segments => .path none depth leading (Segment.allOrdered segments)
  | .path (some self) depth leading segments =>
    .path (some self.ordered) depth leading (Segment.allOrdered segments)
  | .reference lifetime mutable target => .reference lifetime mutable target.ordered
  | .pointer mutable target => .pointer mutable target.ordered
  | .slice element => .slice element.ordered
  | .array element size => .array element.ordered size
  | .tuple elements trailing => .tuple (Ty.allOrdered elements) trailing
  | .paren inner => .paren inner.ordered
  | .never => .never
  | .infer => .infer
  | .object dyn bounds trailing => .object dyn (Bound.allOrdered bounds) trailing
  | .impl bounds trailing => .impl (Bound.allOrdered bounds) trailing
  | .function binder isUnsafe abi params trailing variadic output =>
    .function binder isUnsafe abi (FnParam.allOrdered params) trailing variadic
      (Ty.outputOrdered output)
  | .call path delimiter arguments => .call path delimiter arguments
  | .verbatim tokens => .verbatim tokens

def Ty.outputOrdered : Option Ty → Option Ty
  | none => none
  | some ty => some ty.ordered

def Ty.allOrdered : List Ty → List Ty
  | [] => []
  | ty :: rest => ty.ordered :: Ty.allOrdered rest

def Segment.ordered : Segment → Segment
  | .plain name => .plain name
  | .angle name turbofish arguments trailing =>
    .angle name turbofish (lifetimesAhead (·.isLifetime) (Argument.allOrdered arguments))
      (commaTrails (·.isLifetime) trailing arguments && !arguments.isEmpty)
  | .round name inputs trailing output =>
    .round name (Ty.allOrdered inputs) trailing (Ty.outputOrdered output)

def Segment.allOrdered : List Segment → List Segment
  | [] => []
  | s :: rest => s.ordered :: Segment.allOrdered rest

def Argument.ordered : Argument → Argument
  | .lifetime name => .lifetime name
  | .type type => .type type.ordered
  | .const value => .const value
  | .assocType owner type => .assocType owner.ordered type.ordered
  | .assocConst owner value => .assocConst owner.ordered value
  | .constraint owner bounds trailing =>
    .constraint owner.ordered (Bound.allOrdered bounds) trailing

def Argument.allOrdered : List Argument → List Argument
  | [] => []
  | a :: rest => a.ordered :: Argument.allOrdered rest

def Bound.ordered : Bound → Bound
  | .trait paren optional binder leading segments =>
    .trait paren optional binder leading (Segment.allOrdered segments)
  | .lifetime name => .lifetime name
  | .capture tokens => .capture tokens
  | .verbatim tokens => .verbatim tokens

def Bound.allOrdered : List Bound → List Bound
  | [] => []
  | b :: rest => b.ordered :: Bound.allOrdered rest

def FnParam.ordered : FnParam → FnParam
  | .mk attrs name type => .mk attrs name type.ordered

def FnParam.allOrdered : List FnParam → List FnParam
  | [] => []
  | p :: rest => p.ordered :: FnParam.allOrdered rest

end

theorem Ty.allOrdered_eq (types : List Ty) : Ty.allOrdered types = types.map Ty.ordered := by
  induction types with
  | nil => rfl
  | cons ty rest ih => rw [allOrdered, ih, List.map_cons]

theorem Segment.allOrdered_eq (segments : List Segment) :
    Segment.allOrdered segments = segments.map Segment.ordered := by
  induction segments with
  | nil => rfl
  | cons s rest ih => rw [allOrdered, ih, List.map_cons]

theorem Argument.allOrdered_eq (arguments : List Argument) :
    Argument.allOrdered arguments = arguments.map Argument.ordered := by
  induction arguments with
  | nil => rfl
  | cons a rest ih => rw [allOrdered, ih, List.map_cons]

theorem Bound.allOrdered_eq (bounds : List Bound) :
    Bound.allOrdered bounds = bounds.map Bound.ordered := by
  induction bounds with
  | nil => rfl
  | cons b rest ih => rw [allOrdered, ih, List.map_cons]

theorem FnParam.allOrdered_eq (params : List FnParam) :
    FnParam.allOrdered params = params.map FnParam.ordered := by
  induction params with
  | nil => rfl
  | cons p rest ih => rw [allOrdered, ih, List.map_cons]

theorem Ty.parts_eq (types : List Ty) : Ty.parts types = types.map Ty.tokens := by
  induction types with
  | nil => rfl
  | cons ty rest ih => rw [parts, ih, List.map_cons]

theorem Segment.parts_eq (segments : List Segment) :
    Segment.parts segments = segments.map Segment.tokens := by
  induction segments with
  | nil => rfl
  | cons s rest ih => rw [parts, ih, List.map_cons]

theorem Argument.parts_eq (arguments : List Argument) :
    Argument.parts arguments = arguments.map fun a => (a.isLifetime, a.tokens) := by
  induction arguments with
  | nil => rfl
  | cons a rest ih => rw [parts, ih, List.map_cons]

theorem Bound.parts_eq (bounds : List Bound) : Bound.parts bounds = bounds.map Bound.tokens := by
  induction bounds with
  | nil => rfl
  | cons b rest ih => rw [parts, ih, List.map_cons]

theorem FnParam.parts_eq (params : List FnParam) :
    FnParam.parts params = params.map FnParam.tokens := by
  induction params with
  | nil => rfl
  | cons p rest ih => rw [parts, ih, List.map_cons]

theorem Segment.joined_eq (segments : List Segment) :
    Segment.joined segments = joinTokens "::" false (segments.map Segment.tokens) := by
  match segments with
  | [] => rfl
  | [s] => simp [joined, joinTokens]
  | s :: t :: rest => rw [joined, joined_eq (t :: rest)]; rfl

/-- The arguments between angle brackets, in the order in which they are written. -/
theorem lifetimesFirst_parts (trailing : Bool) (arguments : List Argument) :
    lifetimesFirst trailing (Argument.parts arguments) =
      joinTokens "," (commaTrails (·.isLifetime) trailing arguments)
        ((lifetimesAhead (·.isLifetime) arguments).map Argument.tokens) := by
  rw [Argument.parts_eq, lifetimesFirst_map]

theorem Argument.isLifetime_ordered (a : Argument) : a.ordered.isLifetime = a.isLifetime := by
  cases a <;> rfl

theorem Argument.lifetimesAhead_map_ordered (arguments : List Argument) :
    lifetimesAhead (·.isLifetime) (arguments.map Argument.ordered) =
      (lifetimesAhead (·.isLifetime) arguments).map Argument.ordered := by
  have hkind : (fun a : Argument => a.isLifetime) ∘ Argument.ordered = (·.isLifetime) :=
    funext isLifetime_ordered
  have hother : (fun a : Argument => !a.isLifetime) ∘ Argument.ordered = (!·.isLifetime) :=
    funext fun a => congrArg (! ·) (isLifetime_ordered a)
  simp [lifetimesAhead, List.filter_map, hkind, hother]

mutual

/-- What is written for a type does not hang on the order of the arguments in it. -/
theorem Ty.tokens_ordered : ∀ ty : Ty, ty.ordered.tokens = ty.tokens
  | .path none depth leading segments => by
    simp only [Ty.ordered, Ty.tokens, Segment.joined_eq, Segment.map_tokens_ordered segments]
  | .path (some self) depth leading segments => by
    simp only [Ty.ordered, Ty.tokens, Segment.parts_eq, self.tokens_ordered,
      Segment.map_tokens_ordered segments]
  | .reference lifetime mutable target => by
    simp only [Ty.ordered, Ty.tokens, target.tokens_ordered]
  | .pointer mutable target => by simp only [Ty.ordered, Ty.tokens, target.tokens_ordered]
  | .slice element => by simp only [Ty.ordered, Ty.tokens, element.tokens_ordered]
  | .array element size => by simp only [Ty.ordered, Ty.tokens, element.tokens_ordered]
  | .tuple elements trailing => by
    have hlength : (Ty.allOrdered elements).length = elements.length := by simp [Ty.allOrdered_eq]
    simp only [Ty.ordered, Ty.tokens, Ty.parts_eq, Ty.map_tokens_ordered elements, hlength]
  | .paren inner => by simp only [Ty.ordered, Ty.tokens, inner.tokens_ordered]
  | .never | .infer | .call _ _ _ | .verbatim _ => rfl
  | .object dyn bounds trailing => by
    simp only [Ty.ordered, Ty.tokens, Bound.parts_eq, Bound.map_tokens_ordered bounds]
  | .impl bounds trailing => by
    simp only [Ty.ordered, Ty.tokens, Bound.parts_eq, Bound.map_tokens_ordered bounds]
  | .function binder isUnsafe abi params trailing variadic output => by
    have hempty : (FnParam.allOrdered params).isEmpty = params.isEmpty := by cases params <;> rfl
    simp only [Ty.ordered, Ty.tokens, FnParam.parts_eq, FnParam.map_tokens_ordered params,
      Ty.outputTokens_ordered output, hempty]

theorem Ty.outputTokens_ordered : ∀ output : Option Ty,
    Ty.outputTokens (Ty.outputOrdered output) = Ty.outputTokens output
  | none => rfl
  | some ty => by simp only [Ty.outputOrdered, Ty.outputTokens, ty.tokens_ordered]

theorem Ty.map_tokens_ordered : ∀ types : List Ty,
    (Ty.allOrdered types).map Ty.tokens = types.map Ty.tokens
  | [] => rfl
  | ty :: rest => by
    simp only [Ty.allOrdered, List.map_cons, ty.tokens_ordered, Ty.map_tokens_ordered rest]

theorem Segment.tokens_ordered : ∀ s : Segment, s.ordered.tokens = s.tokens
  | .plain _ => rfl
  | .angle name turbofish arguments trailing => by
    have hmap := Argument.map_tokens_ordered arguments
    rw [Argument.allOrdered_eq, List.map_map, List.map_eq_map_iff] at hmap
    have harguments : lifetimesFirst (commaTrails (·.isLifetime) trailing arguments &&
          !arguments.isEmpty)
        (Argument.parts (lifetimesAhead (·.isLifetime) (Argument.allOrdered arguments))) =
        lifetimesFirst trailing (Argument.parts arguments) := by
      cases harguments : arguments with
      | nil => cases trailing <;> rfl
      | cons a rest =>
        rw [← harguments]
        have hne : arguments.isEmpty = false := by simp [harguments]
        rw [lifetimesFirst_parts, lifetimesFirst_parts, commaTrails_lifetimesAhead,
          lifetimesAhead_lifetimesAhead, hne, Bool.not_false, Bool.and_true]
        refine congrArg _ ?_
        rw [Argument.allOrdered_eq, Argument.lifetimesAhead_map_ordered, List.map_map]
        exact List.map_congr_left fun a ha => hmap a (mem_lifetimesAhead.mp ha)
    simp only [Segment.ordered, Segment.tokens, harguments]
  | .round name inputs trailing output => by
    simp only [Segment.ordered, Segment.tokens, Ty.parts_eq, Ty.map_tokens_ordered inputs,
      Ty.outputTokens_ordered output]

theorem Segment.map_tokens_ordered : ∀ segments : List Segment,
    (Segment.allOrdered segments).map Segment.tokens = segments.map Segment.tokens
  | [] => rfl
  | s :: rest => by
    simp only [Segment.allOrdered, List.map_cons, s.tokens_ordered,
      Segment.map_tokens_ordered rest]

theorem Argument.tokens_ordered : ∀ a : Argument, a.ordered.tokens = a.tokens
  | .lifetime _ | .const _ => rfl
  | .type type => by simp only [Argument.ordered, Argument.tokens, type.tokens_ordered]
  | .assocType owner type => by
    simp only [Argument.ordered, Argument.tokens, owner.tokens_ordered, type.tokens_ordered]
  | .assocConst owner value => by
    simp only [Argument.ordered, Argument.tokens, owner.tokens_ordered]
  | .constraint owner bounds trailing => by
    simp only [Argument.ordered, Argument.tokens, owner.tokens_ordered, Bound.parts_eq,
      Bound.map_tokens_ordered bounds]

theorem Argument.map_tokens_ordered : ∀ arguments : List Argument,
    (Argument.allOrdered arguments).map Argument.tokens = arguments.map Argument.tokens
  | [] => rfl
  | a :: rest => by
    simp only [Argument.allOrdered, List.map_cons, a.tokens_ordered,
      Argument.map_tokens_ordered rest]

theorem Bound.tokens_ordered : ∀ b : Bound, b.ordered.tokens = b.tokens
  | .trait paren optional binder leading segments => by
    simp only [Bound.ordered, Bound.tokens, Segment.joined_eq, Segment.map_tokens_ordered segments]
  | .lifetime _ | .capture _ | .verbatim _ => rfl

theorem Bound.map_tokens_ordered : ∀ bounds : List Bound,
    (Bound.allOrdered bounds).map Bound.tokens = bounds.map Bound.tokens
  | [] => rfl
  | b :: rest => by
    simp only [Bound.allOrdered, List.map_cons, b.tokens_ordered, Bound.map_tokens_ordered rest]

theorem FnParam.tokens_ordered : ∀ p : FnParam, p.ordered.tokens = p.tokens
  | .mk attrs name type => by simp only [FnParam.ordered, FnParam.tokens, type.tokens_ordered]

theorem FnParam.map_tokens_ordered : ∀ params : List FnParam,
    (FnParam.allOrdered params).map FnParam.tokens = params.map FnParam.tokens
  | [] => rfl
  | p :: rest => by
    simp only [FnParam.allOrdered, List.map_cons, p.tokens_ordered, FnParam.map_tokens_ordered rest]

end

end RowFactory
