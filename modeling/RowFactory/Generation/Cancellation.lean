namespace RowFactory

/-- The message of a step that did not run because its token is cancelled. -/
def cancelledMessage : String := "generation was cancelled"

/-- All tokens made so far, each with its family, and the families that are cancelled. A token is
referred to by its place in the list. -/
structure TokenTable where
  families : List Nat
  cancelled : List Nat
deriving Inhabited

inductive TokenStep where
  | new
  | clone (token : Nat)
  | cancel (token : Nat)
deriving DecidableEq

namespace TokenTable

def empty : TokenTable := ⟨[], []⟩

/-- A new token begins a family, numbered by the token's own place; a clone joins the family of its
token. Steps on tokens that do not exist do nothing. -/
def step (t : TokenTable) : TokenStep → TokenTable
  | .new => { t with families := t.families ++ [t.families.length] }
  | .clone token =>
    match t.families[token]? with
    | some family => { t with families := t.families ++ [family] }
    | none => t
  | .cancel token =>
    match t.families[token]? with
    | some family => { t with cancelled := family :: t.cancelled }
    | none => t

def run (steps : List TokenStep) : TokenTable := steps.foldl step empty

def isCancelled (t : TokenTable) (token : Nat) : Bool :=
  t.families[token]?.any t.cancelled.contains

/-- Fails, with the message, if the token is cancelled. -/
def check (t : TokenTable) (token : Nat) : Except String Unit :=
  if t.isCancelled token then .error cancelledMessage else .ok ()

/-- Whether each token is cancelled, in the order they were made. -/
def states (t : TokenTable) : List Bool := t.families.map t.cancelled.contains

end TokenTable

end RowFactory
