import RowFactory.Proofs.Mapping.ColumnAttribute
import RowFactory.Proofs.Source.ReadsAttributes
import RowFactory.Proofs.Source.Separated
import RowFactory.Proofs.Stable.Expressions

namespace RowFactory

open RowFactory.Parser

/-- What stands behind a key: nothing, an expression after `=`, or tokens in parentheses. -/
inductive KeyValue where
  | none
  | expr (joint : Bool) (value : List Token)
  | list (arguments : List Token)

def KeyValue.tokens : KeyValue → List Token
  | .none => []
  | .expr joint value => .punct '=' joint :: value
  | .list arguments => [.group .paren arguments]

mutual

/-- The value of a key can be skipped. -/
inductive KeyValue.IsSkippable (g : Grammar) : KeyValue → Prop
  | none : KeyValue.IsSkippable g .none
  | expr (joint : Bool) {value : List Token} (h : g.IsExpr value) :
    KeyValue.IsSkippable g (.expr joint value)
  | list {arguments : List Token} (h : AreKeys g arguments) :
    KeyValue.IsSkippable g (.list arguments)

/-- Keys with values that can be skipped and commas between them, at least one. -/
inductive AreKeys (g : Grammar) : List Token → Prop
  | last {key : NamePath} {value : KeyValue} (hkey : key.names ≠ [])
    (hvalue : value.IsSkippable g) :
    AreKeys g (key.tokens ++ value.tokens)
  | trailing {key : NamePath} {value : KeyValue} (hkey : key.names ≠ [])
    (hvalue : value.IsSkippable g) (joint : Bool) :
    AreKeys g (key.tokens ++ (value.tokens ++ [.punct ',' joint]))
  | more {key : NamePath} {value : KeyValue} {rest : List Token} (hkey : key.names ≠ [])
    (hvalue : value.IsSkippable g) (joint : Bool) (hrest : AreKeys g rest) :
    AreKeys g (key.tokens ++ (value.tokens ++ .punct ',' joint :: rest))

end

/-- An item of a list ends here. -/
def EndsItem (ts : List Token) : Prop := ts = [] ∨ ∃ joint rest, ts = .punct ',' joint :: rest

theorem EndsItem.nil : EndsItem [] := .inl rfl

theorem EndsItem.comma (joint : Bool) (rest : List Token) : EndsItem (.punct ',' joint :: rest) :=
  .inr ⟨joint, rest, rfl⟩

theorem EndsItem.isOperator_eq_false {ts : List Token} (h : EndsItem ts) {op : String}
    (hop : op.toList.head?.any (· ≠ ',')) : isOperator op ts = false := by
  unfold isOperator
  cases hcs : op.toList with
  | nil => simp [hcs] at hop
  | cons c cs =>
    have hc : c ≠ ',' := by simpa [hcs] using hop
    rcases h with rfl | ⟨joint, rest, rfl⟩
    · cases cs <;> rfl
    · cases cs <;> cases joint <;> simp [startsOperator, hc]

theorem EndsItem.isGroup_eq_false {ts : List Token} (h : EndsItem ts) (d : Delimiter) :
    isGroup d ts = false := by
  rcases h with rfl | ⟨joint, rest, rfl⟩ <;> rfl

section

variable {key : NamePath} {value : KeyValue} {rest : List Token}

theorem reads_keyPath (hkey : key.names ≠ []) (hrest : isOperator "::" rest = false) :
    keyPath.Reads (key.tokens ++ rest) rest (· = key) :=
  reads_pathOfNames hkey (fun i _ _ => reads_anyIdent i) hrest

theorem KeyValue.isOperator_eq_false (value : KeyValue) (hrest : EndsItem rest) :
    isOperator "::" (value.tokens ++ rest) = false := by
  cases value with
  | none => exact hrest.isOperator_eq_false (by decide)
  | expr joint value => cases joint <;> rfl
  | list arguments => rfl

end

theorem NamePath.tokens_ne_nil {key : NamePath} (hkey : key.names ≠ []) : key.tokens ≠ [] := by
  obtain ⟨leadingColon, names⟩ := key
  cases names with
  | nil => exact absurd rfl hkey
  | cons i names => simp [NamePath.tokens, joinNames_cons]

namespace Grammar

variable {n depth : Nat} {key : NamePath} {value : KeyValue} {rest : List Token}

theorem IsExpr.reads {ts : List Token} (h : (atDepth n).IsExpr ts) (hrest : EndsItem rest) :
    (atDepth n).anyExpr.Reads (ts ++ rest) rest fun _ => True := by
  rcases hrest with rfl | ⟨joint, rest, rfl⟩
  · rw [List.append_nil]
    exact h
  · exact h.reads_before_comma joint rest

/-- At this depth, values that can be skipped are skipped up to their end. -/
def Skips (n depth : Nat) : Prop :=
  ∀ value rest, KeyValue.IsSkippable (atDepth n) value → Token.sizeAll value.tokens < depth →
    EndsItem rest → ((atDepth n).skipValue depth).Reads (value.tokens ++ rest) rest fun _ => True

/-- A key in parentheses, and its value. -/
theorem reads_key (hskips : Skips n depth) (hkey : key.names ≠ [])
    (hvalue : value.IsSkippable (atDepth n)) (hdepth : Token.sizeAll value.tokens < depth)
    (hrest : EndsItem rest) :
    (do let _ ← keyPath; (atDepth n).skipValue depth).Reads (key.tokens ++ (value.tokens ++ rest))
      rest fun _ => True :=
  (reads_keyPath hkey (value.isOperator_eq_false hrest)).bind_eq
    (hskips value rest hvalue hdepth hrest)

theorem isEmpty_key (hkey : key.names ≠ []) (ts : List Token) :
    (key.tokens ++ ts).isEmpty = false := by
  simp [NamePath.tokens_ne_nil hkey]

/-- A key, its value, a comma, and what is read behind it. -/
theorem reads_key_comma (hskips : Skips n depth) (hkey : key.names ≠ [])
    (hvalue : value.IsSkippable (atDepth n)) (hdepth : Token.sizeAll value.tokens < depth)
    (joint : Bool) {fuel : Nat} (hrest : (closedListFrom List.isEmpty ","
      (do let _ ← keyPath; (atDepth n).skipValue depth) fuel).Reads rest [] fun _ => True) :
    (closedListFrom List.isEmpty "," (do let _ ← keyPath; (atDepth n).skipValue depth)
      (fuel + 1)).Reads (key.tokens ++ (value.tokens ++ .punct ',' joint :: rest)) []
      fun (keys, _) => keys ≠ [] := by
  have hfirst := reads_key hskips hkey hvalue hdepth (.comma joint rest)
  refine (reads_sees (isEmpty_key hkey _)).bind_eq (reads_if_false rfl ?_)
  refine hfirst.bind fun _ _ => (reads_sees (b := false) rfl).bind_eq (reads_if_false rfl ?_)
  refine (reads_operator rfl).bind fun _ _ => hrest.bind fun _ _ => ?_
  exact reads_pure (List.cons_ne_nil _ _)

theorem reads_keys (hskips : Skips n depth) {ts : List Token} (h : AreKeys (atDepth n) ts)
    (hdepth : Token.sizeAll ts < depth) {fuel : Nat} (hfuel : ts.length < fuel) :
    (closedListFrom List.isEmpty "," (do let _ ← keyPath; (atDepth n).skipValue depth) fuel).Reads
      ts [] fun (keys, _) => keys ≠ [] := by
  induction fuel generalizing ts with
  | zero => cases hfuel
  | succ fuel ih =>
    cases h with
    | last hkey hvalue =>
      rw [Token.sizeAll_append] at hdepth
      have hfirst := reads_key hskips hkey hvalue (by omega) .nil
      rw [List.append_nil] at hfirst
      refine (reads_sees (isEmpty_key hkey _)).bind_eq (reads_if_false rfl ?_)
      refine hfirst.bind fun _ _ => (reads_sees (b := true) rfl).bind_eq (reads_if_true rfl ?_)
      exact reads_pure (List.cons_ne_nil _ _)
    | trailing hkey hvalue joint =>
      simp only [Token.sizeAll_append, List.length_append, List.length_singleton] at hdepth hfuel
      obtain ⟨fuel, rfl⟩ : ∃ f, fuel = f + 1 := ⟨fuel - 1, by omega⟩
      refine reads_key_comma hskips hkey hvalue (by omega) joint ?_
      exact (reads_sees (b := true) rfl).bind_eq (reads_if_true rfl (reads_pure trivial))
    | more hkey hvalue joint hrest =>
      simp only [Token.sizeAll_append, Token.sizeAll, List.length_append, List.length_cons]
        at hdepth hfuel
      refine reads_key_comma hskips hkey hvalue (by omega) joint ?_
      exact (ih hrest (by omega) (by omega)).mono fun _ _ => trivial

/-- A value is skipped up to its end. Each level of parentheses takes one of `depth`. -/
theorem reads_skipValue (n depth : Nat) : Skips n depth := by
  intro value rest hvalue hdepth hrest
  induction depth generalizing value rest with
  | zero => cases hdepth
  | succ depth ih =>
    cases hvalue with
    | none =>
      refine (reads_operator?_false (hrest.isOperator_eq_false (by decide))).bind_eq ?_
      refine reads_if_false rfl ((reads_sees (hrest.isGroup_eq_false _)).bind_eq ?_)
      exact reads_if_false rfl (reads_pure trivial)
    | expr joint h =>
      refine (reads_operator?_true rfl).bind_eq (reads_if_true rfl ?_)
      exact (h.reads hrest).bind fun _ _ => reads_pure trivial
    | @list arguments h =>
      have hsize : Token.sizeAll arguments < depth := by
        simp only [KeyValue.tokens, Token.sizeAll, Token.size] at hdepth
        omega
      have hkeys : (commaList (do let _ ← keyPath; (atDepth n).skipValue depth)).Reads arguments []
          fun keys => keys.1 ≠ [] := by
        refine reads_ahead.bind_eq ?_
        refine (reads_keys ih h hsize (Nat.lt_succ_self _)).bind fun keys hne => ?_
        exact reads_pure hne
      refine (reads_operator?_false rfl).bind_eq (reads_if_false rfl ?_)
      refine (reads_sees (b := true) rfl).bind_eq (reads_if_true rfl ?_)
      refine (hkeys.group .paren).bind fun keys hne => reads_guard ?_
      simpa using hne

end Grammar

end RowFactory
