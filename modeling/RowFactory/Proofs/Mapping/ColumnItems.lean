import RowFactory.Proofs.Mapping.Keys

namespace RowFactory

open RowFactory.Parser

/-- A key stands in front. -/
def startsKey (ts : List Token) : Bool :=
  isAnyIdent ts || (isOperator "::" ts && isAnyIdent (ts.drop 2))

/-- An item of a `column` attribute: a name for the column, or another key. -/
inductive ColumnItem where
  | name (joint : Bool) (literal : String)
  | other (key : NamePath) (value : KeyValue)

namespace ColumnItem

def tokens : ColumnItem → List Token
  | .name joint literal => nameTokens joint literal []
  | .other key value => key.tokens ++ value.tokens

/-- The name that the item gives to the column. -/
def columnName? : ColumnItem → Option String
  | .name _ literal => stringValue? literal
  | .other .. => none

/-- The literal stands for a text, the other key is not `name`, and an expression is one. -/
def IsWellFormed (g : Grammar) : ColumnItem → Prop
  | .name _ literal => ∃ name, stringValue? literal = some name
  | .other key value =>
    key.names ≠ [] ∧ key.isWord "name" = false ∧ ∀ joint ts, value = .expr joint ts → g.IsExpr ts

/-- It is another key, and what stands behind it can be skipped. -/
def IsSkippable (g : Grammar) : ColumnItem → Prop
  | .name .. => False
  | .other _ value => value.IsSkippable g

/-- It is another key with a list behind it that does not begin with a key. -/
def IsStuck : ColumnItem → Prop
  | .other _ (.list ts) => startsKey ts = false
  | _ => False

end ColumnItem

/-- Items with commas between them, which may be joint; one may also stand at the end. -/
inductive ColumnItems where
  | nil
  | last (item : ColumnItem)
  | more (item : ColumnItem) (joint : Bool) (items : ColumnItems)

namespace ColumnItems

def tokens : ColumnItems → List Token
  | .nil => []
  | .last item => item.tokens
  | .more item joint items => item.tokens ++ .punct ',' joint :: items.tokens

def toList : ColumnItems → List ColumnItem
  | .nil => []
  | .last item => [item]
  | .more item _ items => item :: items.toList

/-- The first name among the items. -/
def columnName? (items : ColumnItems) : Option String :=
  items.toList.findSome? ColumnItem.columnName?

/-- The items in front of the first name. -/
def leading (items : ColumnItems) : List ColumnItem :=
  items.toList.takeWhile (·.columnName?.isNone)

theorem columnName?_of_name (items : ColumnItems) {joint : Bool} {literal name : String}
    {others : List ColumnItem} (h : stringValue? literal = some name)
    (hitems : items.toList = .name joint literal :: others) :
    items.columnName? = some name ∧ items.leading = [] := by
  simp [columnName?, leading, hitems, ColumnItem.columnName?, h]

end ColumnItems

namespace Parser

variable {α : Type} {p : Parser α} {ts : List Token}

theorem fails_keyPath (h : startsKey ts = false) : keyPath.Fails ts := by
  obtain ⟨hfirst, hcolons⟩ := Bool.or_eq_false_iff.mp h
  cases hled : isOperator "::" ts with
  | false =>
    exact (reads_operator?_false hled).bind_fails ((fails_anyIdent hfirst).bind_left _)
  | true =>
    rw [hled, Bool.true_and] at hcolons
    exact (reads_operator?_true hled).bind_fails ((fails_anyIdent hcolons).bind_left _)

end Parser

namespace Grammar

variable {g : Grammar} {n : Nat}

/-- Keys in parentheses have to begin with one. -/
theorem fails_skipValue {arguments : List Token} (h : startsKey arguments = false) (depth : Nat)
    (rest : List Token) : (g.skipValue depth).Fails (.group .paren arguments :: rest) := by
  cases depth with
  | zero => exact fails_failure _
  | succ depth =>
    refine (reads_operator?_false rfl).bind_fails ?_
    rw [if_neg Bool.false_ne_true]
    refine Reads.bind_fails (a := true) (reads_sees rfl) ?_
    rw [if_pos rfl]
    cases arguments with
    | nil =>
      have hkeys : (group .paren (commaList (do let _ ← keyPath; g.skipValue depth))).Reads
          (.group .paren [] :: rest) rest (· = ([], false)) := by
        refine Reads.group .paren (reads_ahead.bind_eq ?_)
        refine Reads.bind_eq (a := ([], true)) ?_ (reads_pure rfl)
        exact Reads.bind_eq (a := true) (reads_sees rfl) (reads_if_true rfl (reads_pure rfl))
      exact hkeys.bind_fails (fails_failure _)
    | cons t ts =>
      refine Fails.bind_left (Fails.group .paren (reads_ahead.bind_fails ?_) rest) _
      refine Fails.bind_left (Reads.bind_fails (a := false) (reads_sees rfl) ?_) _
      rw [if_neg Bool.false_ne_true]
      exact ((fails_keyPath h).bind_left _).bind_left _

/-- Another key is skipped with its value and the comma behind it. -/
theorem reads_columnName_other {key : NamePath} {value : KeyValue} (hkey : key.names ≠ [])
    (hname : key.isWord "name" = false) (hvalue : value.IsSkippable (atDepth n)) (joint : Bool)
    {fuel : Nat} {rest o : List Token} {Q : Option String → Prop}
    (hrest : ((atDepth n).columnName fuel).Reads rest o Q) :
    ((atDepth n).columnName (fuel + 1)).Reads
      (key.tokens ++ (value.tokens ++ .punct ',' joint :: rest)) o Q := by
  have hcomma := EndsItem.comma joint rest
  refine (reads_sees (isEmpty_key hkey _)).bind_eq (reads_if_false rfl ?_)
  refine (reads_keyPath hkey (value.isOperator_eq_false hcomma)).bind_eq ?_
  refine reads_if_false hname (reads_ahead.bind_eq ?_)
  refine (reads_skipValue n _ value _ hvalue ?_ hcomma).bind fun _ _ => ?_
  · rw [Token.sizeAll_append]
    omega
  · refine (reads_sees (b := false) rfl).bind_eq (reads_if_false rfl ?_)
    exact (reads_operator rfl).bind fun _ _ => hrest

/-- There is no name behind the last key. -/
theorem reads_columnName_last {key : NamePath} {value : KeyValue} (hkey : key.names ≠ [])
    (hname : key.isWord "name" = false) (hvalue : value.IsSkippable (atDepth n)) (fuel : Nat) :
    ((atDepth n).columnName (fuel + 1)).Reads (key.tokens ++ value.tokens) [] (· = none) := by
  have hpath := reads_keyPath hkey (value.isOperator_eq_false .nil)
  have hskip := reads_skipValue n (Token.sizeAll value.tokens + 1) value [] hvalue
    (Nat.lt_succ_self _) .nil
  rw [List.append_nil] at hpath hskip
  refine (reads_sees (isEmpty_key hkey _)).bind_eq (reads_if_false rfl ?_)
  refine hpath.bind_eq (reads_if_false hname (reads_ahead.bind_eq ?_))
  refine hskip.bind fun _ _ => (reads_sees (b := true) rfl).bind_eq (reads_if_true rfl ?_)
  exact reads_pure rfl

/-- Whatever a value holds, what is read of it ends where it ends. -/
theorem ahead_of_run_skipValue {value : KeyValue} {rest : List Token} {depth : Nat}
    (hvalue : ∀ joint ts, value = .expr joint ts → (atDepth n).IsExpr ts) (hrest : EndsItem rest)
    (hdepth : Token.sizeAll value.tokens < depth) {c c' : Cursor} {u : Unit}
    (hc : c.ahead = value.tokens ++ rest)
    (hrun : ((atDepth n).skipValue depth).run c = some (u, c')) :
    c'.ahead = rest ∧ ∀ ts, value = .list ts → startsKey ts = true := by
  have hskippable (h : value.IsSkippable (atDepth n)) : c'.ahead = rest := by
    obtain ⟨u', c'', hrun', -, hahead, -⟩ := reads_skipValue n depth value rest h hdepth hrest c hc
    cases hrun.symm.trans hrun'
    exact hahead
  cases value with
  | none => exact ⟨hskippable .none, nofun⟩
  | expr joint ts => exact ⟨hskippable (.expr joint (hvalue joint ts rfl)), nofun⟩
  | list arguments =>
    refine ⟨?_, fun ts hts => ?_⟩
    · obtain ⟨depth, rfl⟩ : ∃ d, depth = d + 1 := ⟨depth - 1, by omega⟩
      obtain ⟨c₁, hc₁, hrun⟩ := Reads.run_of_bind (reads_operator?_false rfl) hc hrun
      rw [if_neg Bool.false_ne_true] at hrun
      obtain ⟨c₂, hc₂, hrun⟩ := Reads.run_of_bind (a := true) (reads_sees rfl) hc₁ hrun
      rw [if_pos rfl] at hrun
      obtain ⟨⟨keys, c₃⟩, hgroup, hrun⟩ := Option.bind_eq_some_iff.mp hrun
      exact (ahead_of_run_guard hrun).trans (ahead_of_run_group hc₂ hgroup)
    · cases hts
      by_contra hstarts
      have hfails := fails_skipValue (g := atDepth n) (Bool.eq_false_iff.mpr hstarts) depth rest
      simp [hfails c hc] at hrun

/-- Where the keys in front of the first name can be skipped, that name is found. -/
theorem reads_columnName_items {items : ColumnItems}
    (hwell : ∀ item ∈ items.toList, item.IsWellFormed (atDepth n))
    (hskip : ∀ item ∈ items.leading, item.IsSkippable (atDepth n)) {fuel : Nat}
    (hfuel : items.toList.length < fuel) :
    ∃ o, ((atDepth n).columnName fuel).Reads items.tokens o (· = items.columnName?) := by
  obtain ⟨fuel, rfl⟩ : ∃ f, fuel = f + 1 := ⟨fuel - 1, by omega⟩
  induction items generalizing fuel with
  | nil =>
    refine ⟨[], Reads.bind_eq (a := true) (reads_sees rfl) ?_⟩
    exact reads_if_true rfl (reads_pure rfl)
  | last item =>
    cases item with
    | name joint literal =>
      obtain ⟨name, hname⟩ := hwell _ List.mem_cons_self
      rw [(ColumnItems.columnName?_of_name _ hname rfl).1]
      exact ⟨[], reads_columnName _ fuel hname []⟩
    | other key value =>
      obtain ⟨hkey, hother, -⟩ := hwell _ List.mem_cons_self
      exact ⟨[], reads_columnName_last hkey hother (hskip _ List.mem_cons_self) fuel⟩
  | more item joint items ih =>
    cases item with
    | name equals literal =>
      obtain ⟨name, hname⟩ := hwell _ List.mem_cons_self
      rw [(ColumnItems.columnName?_of_name _ hname rfl).1]
      exact ⟨_, reads_columnName _ fuel hname (.punct ',' joint :: items.tokens)⟩
    | other key value =>
      obtain ⟨hkey, hother, -⟩ := hwell _ List.mem_cons_self
      have hlength : items.toList.length < fuel := by simpa [ColumnItems.toList] using hfuel
      obtain ⟨fuel, rfl⟩ : ∃ f, fuel = f + 1 := ⟨fuel - 1, by omega⟩
      obtain ⟨o, hrest⟩ := ih (fun item hitem => hwell item (List.mem_cons_of_mem _ hitem))
        (fun item hitem => hskip item (List.mem_cons_of_mem _ hitem)) fuel hlength
      have hstep := reads_columnName_other hkey hother (hskip _ List.mem_cons_self) joint hrest
      refine ⟨o, ?_⟩
      rw [ColumnItems.tokens, ColumnItem.tokens, List.append_assoc]
      exact hstep

/-- A name that is given behind another key is given behind its comma. -/
theorem run_columnName_other {key : NamePath} {value : KeyValue} {rest : List Token}
    (hwell : (ColumnItem.other key value).IsWellFormed (atDepth n)) (hrest : EndsItem rest)
    {fuel : Nat} {c c' : Cursor} {name : String}
    (hc : c.ahead = key.tokens ++ (value.tokens ++ rest))
    (hrun : ((atDepth n).columnName fuel).run c = some (some name, c')) :
    (∀ ts, value = .list ts → startsKey ts = true) ∧
      ∃ joint more d fuel', rest = .punct ',' joint :: more ∧ d.ahead = more ∧
        ((atDepth n).columnName fuel').run d = some (some name, c') := by
  obtain ⟨hkey, hname, hexpr⟩ := hwell
  cases fuel with
  | zero => cases hrun
  | succ fuel =>
    obtain ⟨c₁, hc₁, hrun⟩ := Reads.run_of_bind (reads_sees (isEmpty_key hkey _)) hc hrun
    rw [if_neg Bool.false_ne_true] at hrun
    obtain ⟨c₂, hc₂, hrun⟩ :=
      Reads.run_of_bind (reads_keyPath hkey (value.isOperator_eq_false hrest)) hc₁ hrun
    rw [if_neg (by simp [hname])] at hrun
    obtain ⟨c₃, hc₃, hrun⟩ := Reads.run_of_bind reads_ahead hc₂ hrun
    obtain ⟨⟨_, c₄⟩, hskip, hend⟩ := Option.bind_eq_some_iff.mp hrun
    have hdepth : Token.sizeAll value.tokens < Token.sizeAll (value.tokens ++ rest) + 1 := by
      rw [Token.sizeAll_append]
      omega
    obtain ⟨hc₄, hlist⟩ := ahead_of_run_skipValue hexpr hrest hdepth hc₃ hskip
    refine ⟨hlist, ?_⟩
    rcases hrest with rfl | ⟨joint, more, rfl⟩
    · obtain ⟨_, -, hend⟩ := Reads.run_of_bind (a := true) (reads_sees rfl) hc₄ hend
      cases hend
    · obtain ⟨c₅, hc₅, hend⟩ := Reads.run_of_bind (a := false) (reads_sees rfl) hc₄ hend
      rw [if_neg Bool.false_ne_true] at hend
      have hcomma : (operator ",").Reads (.punct ',' joint :: more) more (· = ()) :=
        (reads_operator rfl).mono fun _ _ => rfl
      obtain ⟨d, hd, hmore⟩ := Reads.run_of_bind hcomma hc₅ hend
      exact ⟨joint, more, d, fuel, rfl, hd, hmore⟩

theorem run_columnName_name {joint : Bool} {literal name name' : String} {rest : List Token}
    (h : stringValue? literal = some name) {fuel : Nat} {c c' : Cursor}
    (hc : c.ahead = nameTokens joint literal rest)
    (hrun : (g.columnName fuel).run c = some (some name', c')) : name' = name := by
  cases fuel with
  | zero => cases hrun
  | succ fuel =>
    obtain ⟨_, _, hrun', rfl, -⟩ := reads_columnName g fuel h rest c hc
    cases hrun.symm.trans hrun'
    rfl

/-- Whatever the lists hold, no other name is given than the first, and none behind a list that
does not begin with a key. -/
theorem columnName_of_run {items : ColumnItems}
    (hwell : ∀ item ∈ items.toList, item.IsWellFormed (atDepth n)) {fuel : Nat} {c c' : Cursor}
    {name : String} (hc : c.ahead = items.tokens)
    (hrun : ((atDepth n).columnName fuel).run c = some (some name, c')) :
    items.columnName? = some name ∧ ∀ item ∈ items.leading, ¬ item.IsStuck := by
  induction items generalizing fuel c with
  | nil =>
    cases fuel with
    | zero => cases hrun
    | succ fuel =>
      obtain ⟨_, -, hrun⟩ := Reads.run_of_bind (a := true) (reads_sees rfl) hc hrun
      cases hrun
  | last item =>
    cases item with
    | name joint literal =>
      obtain ⟨name', hname⟩ := hwell _ List.mem_cons_self
      obtain ⟨hfirst, hleading⟩ :=
        ColumnItems.columnName?_of_name (.last (.name joint literal)) hname rfl
      rw [hfirst, hleading, run_columnName_name hname hc hrun]
      exact ⟨rfl, nofun⟩
    | other key value =>
      have hc : c.ahead = key.tokens ++ (value.tokens ++ []) := by rw [hc, List.append_nil]; rfl
      obtain ⟨-, _, _, _, _, hrest, -⟩ :=
        run_columnName_other (hwell _ List.mem_cons_self) .nil hc hrun
      cases hrest
  | more item joint items ih =>
    cases item with
    | name equals literal =>
      obtain ⟨name', hname⟩ := hwell _ List.mem_cons_self
      obtain ⟨hfirst, hleading⟩ := ColumnItems.columnName?_of_name
        (.more (.name equals literal) joint items) hname rfl
      rw [hfirst, hleading, run_columnName_name hname hc hrun]
      exact ⟨rfl, nofun⟩
    | other key value =>
      have hc : c.ahead = key.tokens ++ (value.tokens ++ .punct ',' joint :: items.tokens) := by
        rw [hc, ColumnItems.tokens, ColumnItem.tokens, List.append_assoc]
      obtain ⟨hlist, _, _, d, fuel', hrest, hd, hrun⟩ :=
        run_columnName_other (hwell _ List.mem_cons_self) (.comma joint _) hc hrun
      cases hrest
      obtain ⟨hfirst, hleading⟩ :=
        ih (fun item hitem => hwell item (List.mem_cons_of_mem _ hitem)) hd hrun
      refine ⟨hfirst, List.forall_mem_cons.mpr ⟨?_, hleading⟩⟩
      cases value with
      | list ts => simp [ColumnItem.IsStuck, hlist ts rfl]
      | _ => exact id

end Grammar

/-- The attribute `#[column(..)]` with these arguments. -/
def columnList (d : Delimiter) (arguments : List Token) : Attribute :=
  ⟨false, .list ⟨false, [.plain "column"]⟩ d arguments⟩

section

variable {arguments : List Token}

theorem startsKey_tokens {key : NamePath} (hkey : key.names ≠ []) (rest : List Token) :
    startsKey (key.tokens ++ rest) = true := by
  obtain ⟨leadingColon, names⟩ := key
  cases names with
  | nil => exact absurd rfl hkey
  | cons i names =>
    rw [NamePath.tokens, joinNames_cons]
    cases leadingColon <;> rfl

/-- What begins with a key is no literal alone. -/
theorem all_string_eq_none (h : startsKey arguments = true) :
    all Parser.string arguments = none := by
  cases arguments with
  | nil => rfl
  | cons t ts =>
    cases t with
    | literal text => cases h
    | _ => rfl

theorem ColumnItems.all_string_eq_none {g : Grammar} {items : ColumnItems}
    (hwell : ∀ item ∈ items.toList, item.IsWellFormed g) :
    all Parser.string items.tokens = none := by
  have hitem (item : ColumnItem) (rest : List Token) (h : item.IsWellFormed g) :
      startsKey (item.tokens ++ rest) = true := by
    cases item with
    | name joint literal => rfl
    | other key value =>
      rw [ColumnItem.tokens, List.append_assoc]
      exact startsKey_tokens h.1 _
  cases items with
  | nil => rfl
  | last item =>
    have hstarts := hitem item [] (hwell item List.mem_cons_self)
    rw [List.append_nil] at hstarts
    exact RowFactory.all_string_eq_none hstarts
  | more item joint items =>
    exact RowFactory.all_string_eq_none (hitem item _ (hwell item List.mem_cons_self))

/-- Keys are read one by one, unless a literal stands alone. -/
theorem columnName?_columnList (d : Delimiter) (h : all Parser.string arguments = none) :
    (columnList d arguments).columnName? =
      (((Grammar.forTokens arguments).columnName (arguments.length + 1)).run
        (.start arguments)).bind (·.1) := by
  simp only [Attribute.columnName?, columnList]
  rw [h]

theorem columnName?_of_reads {d : Delimiter} {o : List Token} {name? : Option String}
    (h : all Parser.string arguments = none)
    (hreads : ((Grammar.forTokens arguments).columnName (arguments.length + 1)).Reads arguments o
      (· = name?)) : (columnList d arguments).columnName? = name? := by
  obtain ⟨_, c, hrun, rfl, -⟩ := hreads (.start arguments) rfl
  rw [columnName?_columnList d h, hrun]
  rfl

theorem ColumnItems.length_le_tokens {g : Grammar} {items : ColumnItems}
    (hwell : ∀ item ∈ items.toList, item.IsWellFormed g) :
    items.toList.length ≤ items.tokens.length := by
  have hitem (item : ColumnItem) (h : item.IsWellFormed g) : 1 ≤ item.tokens.length := by
    cases item with
    | name joint literal => exact Nat.le_add_left 1 _
    | other key value =>
      have hkey := List.length_pos_iff.mpr (NamePath.tokens_ne_nil h.1)
      rw [ColumnItem.tokens, List.length_append]
      omega
  induction items with
  | nil => exact Nat.le_refl 0
  | last item => exact hitem item (hwell item List.mem_cons_self)
  | more item joint items ih =>
    have hrest := ih fun item hitem => hwell item (List.mem_cons_of_mem _ hitem)
    simp only [toList, tokens, List.length_cons, List.length_append]
    omega

end

/-- If the values of the keys in front of it can be skipped, the first name is given. -/
theorem columnName?_of_skippable (d : Delimiter) {items : ColumnItems}
    (hwell : ∀ item ∈ items.toList, item.IsWellFormed (Grammar.forTokens items.tokens))
    (hskip : ∀ item ∈ items.leading, item.IsSkippable (Grammar.forTokens items.tokens)) :
    (columnList d items.tokens).columnName? = items.columnName? := by
  obtain ⟨o, hreads⟩ := Grammar.reads_columnName_items hwell hskip
    (Nat.lt_succ_of_le (ColumnItems.length_le_tokens hwell))
  exact columnName?_of_reads (ColumnItems.all_string_eq_none hwell) hreads

/-- A name that is given is the first, and each list in front of it begins with a key. -/
theorem ColumnItems.columnName?_of_given {d : Delimiter} {items : ColumnItems}
    (hwell : ∀ item ∈ items.toList, item.IsWellFormed (Grammar.forTokens items.tokens))
    {name : String} (h : (columnList d items.tokens).columnName? = some name) :
    items.columnName? = some name ∧ ∀ item ∈ items.leading, ¬ item.IsStuck := by
  rw [columnName?_columnList d (ColumnItems.all_string_eq_none hwell)] at h
  obtain ⟨⟨_, c⟩, hrun, rfl⟩ := Option.bind_eq_some_iff.mp h
  exact Grammar.columnName_of_run hwell rfl hrun

/-- An attribute `column` whose arguments are items gives the first name among them if each list of
tokens in front of it consists of keys. If one of those lists does not begin with a key, it gives no
name, as if there were none. In no case does it give another name. -/
theorem column_items_give_first_name {d : Delimiter} {items : ColumnItems}
    (hwell : ∀ item ∈ items.toList, item.IsWellFormed (Grammar.forTokens items.tokens)) :
    ((∀ item ∈ items.leading, item.IsSkippable (Grammar.forTokens items.tokens)) →
      (columnList d items.tokens).columnName? = items.columnName?) ∧
    ((∃ item ∈ items.leading, item.IsStuck) → (columnList d items.tokens).columnName? = none) ∧
    ((columnList d items.tokens).columnName? = none ∨
      (columnList d items.tokens).columnName? = items.columnName?) := by
  refine ⟨columnName?_of_skippable d hwell, fun ⟨item, hitem, hstuck⟩ => ?_, ?_⟩
  · refine Option.eq_none_iff_forall_ne_some.mpr fun name h => ?_
    exact (ColumnItems.columnName?_of_given hwell h).2 item hitem hstuck
  · cases h : (columnList d items.tokens).columnName? with
    | none => exact .inl rfl
    | some name => exact .inr (ColumnItems.columnName?_of_given hwell h).1.symm

/-- `index = "gin", references(users, name = "no"), name = "owner", varchar(255)`. -/
def ownerItems : ColumnItems :=
  .more (.other ⟨false, [.plain "index"]⟩ (.expr false [.literal "\"gin\""])) false <|
  .more (.other ⟨false, [.plain "references"]⟩ (.list
    [.word "users", .punct ',' false, .word "name", .punct '=' false, .literal "\"no\""])) false <|
  .more (.name false "\"owner\"") false <|
  .last (.other ⟨false, [.plain "varchar"]⟩ (.list [.literal "255"]))

theorem column_items_give_first_name_owner :
    (∀ item ∈ ownerItems.toList, item.IsWellFormed (Grammar.forTokens ownerItems.tokens)) ∧
    (∀ item ∈ ownerItems.leading, item.IsSkippable (Grammar.forTokens ownerItems.tokens)) ∧
    (columnList .paren ownerItems.tokens).columnName? = some "owner" := by
  have hindex := Grammar.isExpr_literal (Token.sizeAll ownerItems.tokens) "\"gin\""
  have hno := Grammar.isExpr_literal (Token.sizeAll ownerItems.tokens) "\"no\""
  have hwell : ∀ item ∈ ownerItems.toList,
      item.IsWellFormed (Grammar.forTokens ownerItems.tokens) := by
    refine List.forall_mem_cons.mpr ⟨⟨List.cons_ne_nil _ _, by decide, ?_⟩, ?_⟩
    · rintro joint ts ⟨⟩
      exact hindex
    refine List.forall_mem_cons.mpr ⟨⟨List.cons_ne_nil _ _, by decide, nofun⟩, ?_⟩
    refine List.forall_mem_cons.mpr ⟨⟨"owner", by decide +kernel⟩, ?_⟩
    exact List.forall_mem_cons.mpr ⟨⟨List.cons_ne_nil _ _, by decide, nofun⟩, nofun⟩
  have hskip : ∀ item ∈ ownerItems.leading,
      item.IsSkippable (Grammar.forTokens ownerItems.tokens) := by
    have hname : stringValue? "\"owner\"" = some "owner" := by decide +kernel
    have hleading : ownerItems.leading = ownerItems.toList.take 2 := by
      simp [ColumnItems.leading, ownerItems, ColumnItems.toList, ColumnItem.columnName?, hname]
    rw [hleading]
    refine List.forall_mem_cons.mpr ⟨.expr false hindex, ?_⟩
    refine List.forall_mem_cons.mpr ⟨.list ?_, nofun⟩
    refine @AreKeys.more _ ⟨false, [.plain "users"]⟩ .none _ (List.cons_ne_nil _ _) .none false ?_
    exact @AreKeys.last _ ⟨false, [.plain "name"]⟩ _ (List.cons_ne_nil _ _) (.expr false hno)
  exact ⟨hwell, hskip, (column_items_give_first_name hwell).1 hskip⟩

/-- `varchar(255), name = "x"`. -/
def varcharItems : ColumnItems :=
  .more (.other ⟨false, [.plain "varchar"]⟩ (.list [.literal "255"])) false
    (.last (.name false "\"x\""))

/-- The list behind `varchar` does not begin with a key, so the name behind it is lost. -/
theorem column_name_lost_behind_varchar :
    (∀ item ∈ varcharItems.toList,
      item.IsWellFormed (Grammar.forTokens varcharItems.tokens)) ∧
    varcharItems.columnName? = some "x" ∧
    (columnList .paren varcharItems.tokens).columnName? = none := by
  refine ⟨?_, by decide +kernel, by decide +kernel⟩
  refine List.forall_mem_cons.mpr ⟨⟨List.cons_ne_nil _ _, rfl, nofun⟩, ?_⟩
  exact List.forall_mem_cons.mpr ⟨⟨"x", by decide +kernel⟩, nofun⟩

end RowFactory
