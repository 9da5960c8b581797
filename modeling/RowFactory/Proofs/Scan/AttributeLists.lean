import RowFactory.Proofs.Mapping.Keys
import RowFactory.Scan.Derive

namespace RowFactory

open RowFactory.Parser

/-- Tokens of items with commas between them, and perhaps one behind the last. -/
inductive CommaList {α : Type} (form : List Token → α → Prop) : List Token → List α → Prop
  | nil : CommaList form [] []
  | last {ts : List Token} {a : α} : form ts a → CommaList form ts [a]
  | more {ts rest : List Token} {a : α} {as : List α} (joint : Bool) :
    form ts a → CommaList form rest as → CommaList form (ts ++ .punct ',' joint :: rest) (a :: as)

/-- The tokens are those of a path. -/
def Grammar.IsPath (g : Grammar) (ts : List Token) (p : Path) : Prop :=
  (g.path false).Reads ts [] (· = p)

/-- The tokens are those of an attribute's content. What stands behind `=` is any expression that
has no attribute of its own in front. -/
inductive Grammar.IsMeta (g : Grammar) : List Token → MetaItem → Prop
  | path {p : NamePath} : p.NamesAttribute → IsMeta g p.tokens (.path p)
  | list {p : NamePath} (d : Delimiter) (arguments : List Token) : p.NamesAttribute →
    IsMeta g (p.tokens ++ [.group d arguments]) (.list p d arguments)
  | value {p : NamePath} {ts : List Token} (joint : Bool) (kind : ExprKind)
      (written : List Token) : p.NamesAttribute → g.IsExpr ts →
    (isOperator "#" ts && isGroup .bracket (ts.drop 1)) = false →
    IsMeta g (p.tokens ++ .punct '=' joint :: ts) (.value p kind written)

/-- The two are the same, or both are values of the same name. -/
inductive MetaItem.SameButValue : MetaItem → MetaItem → Prop
  | refl (m : MetaItem) : SameButValue m m
  | value (p : NamePath) (kind kind' : ExprKind) (v v' : List Token) :
    SameButValue (.value p kind v) (.value p kind' v')

namespace Parser

variable {α β : Type} {p : Parser α}

/-- A list is read where each item is read up to what ends it. -/
theorem reads_commaList {form : List Token → β → Prop} {R : β → α → Prop}
    (hform : ∀ ts b, form ts b → ts ≠ [] ∧ ∀ rest, EndsItem rest → p.Reads (ts ++ rest) rest (R b))
    {ts : List Token} {bs : List β} (h : CommaList form ts bs) :
    (commaList p).Reads ts [] fun (as, _) => List.Forall₂ R bs as := by
  have hitems : ∀ fuel, ts.length < fuel →
      (closedListFrom List.isEmpty "," p fuel).Reads ts [] fun (as, _) =>
        List.Forall₂ R bs as := by
    induction h with
    | nil =>
      intro fuel hfuel
      obtain ⟨fuel, rfl⟩ : ∃ k, fuel = k + 1 := ⟨fuel - 1, by omega⟩
      exact (reads_sees (b := true) rfl).bind_eq (reads_if_true rfl (reads_pure .nil))
    | @last ts b hb =>
      intro fuel hfuel
      obtain ⟨fuel, rfl⟩ : ∃ k, fuel = k + 1 := ⟨fuel - 1, by omega⟩
      obtain ⟨hne, hreads⟩ := hform ts b hb
      have hlast := hreads [] .nil
      rw [List.append_nil] at hlast
      refine (reads_sees (b := false) (by simpa using hne)).bind_eq (reads_if_false rfl ?_)
      refine hlast.bind fun a ha => ?_
      exact (reads_sees (b := true) rfl).bind_eq (reads_if_true rfl (reads_pure (.cons ha .nil)))
    | @more ts rest b bs joint hb _ ih =>
      intro fuel hfuel
      obtain ⟨fuel, rfl⟩ : ∃ k, fuel = k + 1 := ⟨fuel - 1, by omega⟩
      obtain ⟨hne, hreads⟩ := hform ts b hb
      have hrest := ih fuel (by simp at hfuel; omega)
      refine (reads_sees (b := false) (by simp)).bind_eq (reads_if_false rfl ?_)
      refine (hreads _ (.comma joint rest)).bind fun a ha => ?_
      refine (reads_sees (b := false) rfl).bind_eq (reads_if_false rfl ?_)
      refine (reads_operator rfl).bind fun _ _ => hrest.bind fun _ has => ?_
      exact reads_pure (.cons ha has)
  exact reads_ahead.bind_eq ((hitems _ (Nat.lt_succ_self _)).bind fun _ has => reads_pure has)

/-- What is read where the tokens end is read where an item ends. -/
theorem Reads.of_stable {ts rest : List Token} {Q : α → Prop} (hp : ∀ tail, p.Stable tail)
    (h : p.Reads ts [] Q) (hrest : EndsItem rest) : p.Reads (ts ++ rest) rest Q := by
  obtain rfl | ⟨joint, rest, rfl⟩ := hrest
  · rwa [List.append_nil]
  · exact (hp ⟨joint, rest⟩).reads h

theorem Takes.ne_nil (hp : p.Takes) {ts us : List Token} {Q : α → Prop} (h : p.Reads ts us Q) :
    ts ≠ [] := by
  rintro rfl
  obtain ⟨a, c', hrun, -⟩ := h (.start []) rfl
  rw [hp.fails_nil _ rfl] at hrun
  cases hrun

end Parser

namespace Grammar

variable {n : Nat} {ts rest : List Token}

theorem IsPath.reads {p : Path} (h : (atDepth n).IsPath ts p) (hrest : EndsItem rest) :
    ((atDepth n).path false).Reads (ts ++ rest) rest (· = p) :=
  h.of_stable (fun tail => stable_path (stableBefore_atDepth tail n) false) hrest

end Grammar

/-- A derive gives the paths in its arguments. -/
theorem derivePathsOf_eq {arguments : List Token} {paths : List Path}
    (h : CommaList (Grammar.forTokens arguments).IsPath arguments paths) :
    derivePathsOf arguments = paths := by
  have hread : (commaList ((Grammar.forTokens arguments).path false)).Reads arguments []
      fun (paths', _) => List.Forall₂ (fun p p' => p' = p) paths paths' :=
    reads_commaList (fun _ _ hp =>
      ⟨(Grammar.takes_path _ _).ne_nil hp, fun _ => Grammar.IsPath.reads hp⟩) h
  obtain ⟨⟨paths', _⟩, hall, hpaths⟩ := hread.exists_all
  have heq : paths' = paths := by
    rw [← List.forall₂_eq_eq_eq]
    exact hpaths.flip
  rw [derivePathsOf, hall]
  exact heq

namespace Parser

/-- Where a literal stands in front, it is taken whatever follows it. -/
theorem exists_reads_literalValue {ts : List Token} (h : isLiteral ts) :
    ∃ us, ∀ rest, literalValue.Reads (ts ++ rest) (us ++ rest) fun _ => True := by
  have value : ∀ {ts us : List Token}, isLiteral ts →
      (do let _ ← operator? "-"; copy 1).Reads ts us (fun _ => True) →
      literalValue.Reads ts us fun _ => True := fun hliteral hread =>
    (reads_require hliteral).bind fun _ _ => hread.withWritten.bind fun _ _ => reads_pure trivial
  have single : ∀ (t : Token) (us : List Token), isOperator "-" (t :: us) = false →
      (do let _ ← operator? "-"; copy 1).Reads (t :: us) us fun _ => True := fun t us hminus =>
    (reads_operator?_false hminus).bind fun _ _ => reads_copy_one t us
  match ts with
  | [] => cases h
  | .literal text :: us => exact ⟨us, fun rest => value h (single _ _ rfl)⟩
  | .ident i :: us => exact ⟨us, fun rest => value h (single _ _ rfl)⟩
  | .punct c joint :: us =>
    by_cases hc : c = '-'
    · subst hc
      match us with
      | .literal text :: us =>
        refine ⟨us, fun rest => value h ?_⟩
        exact (reads_operator?_true rfl).bind fun _ _ => reads_copy_one _ _
      | [] | .ident _ :: us | .lifetime _ :: us | .punct _ _ :: us | .group _ _ :: us => cases h
    · simp [isLiteral, hc] at h
  | .lifetime i :: us | .group d body :: us => cases h

/-- A literal is taken for itself at the end of the tokens only. -/
theorem attempts_literal (ts : List Token) {rest : List Token} (hrest : EndsItem rest) :
    let alone : Parser (List Token) := do
      let value ← literalValue
      require List.isEmpty
      return value
    (attempt alone).Reads (ts ++ rest) rest (fun a => ∃ v, a = some v) ∨
      (attempt alone).Reads (ts ++ rest) (ts ++ rest) (· = none) := by
  intro alone
  by_cases hliteral : isLiteral ts
  · obtain ⟨us, hread⟩ := exists_reads_literalValue hliteral
    by_cases hend : us ++ rest = []
    · obtain rfl : rest = [] := (List.append_eq_nil_iff.mp hend).2
      have hvalue := hread []
      rw [hend] at hvalue
      have halone : alone.Reads (ts ++ []) [] fun _ => True :=
        hvalue.bind fun _ _ => (reads_require rfl).bind fun _ _ => reads_pure trivial
      refine .inl (halone.attempt.mono fun _ hv => ?_)
      obtain ⟨v, rfl, -⟩ := hv
      exact ⟨v, rfl⟩
    · refine .inr (reads_attempt_none ((hread rest).fails_bind fun _ _ => ?_))
      exact (fails_require (by simpa using hend)).bind_left _
  · have hbehind : isLiteral (ts ++ rest) = false := by
      obtain rfl | ⟨joint, rest, rfl⟩ := hrest
      · simpa using hliteral
      · exact (@isLiteral_behind ⟨joint, rest⟩ ts).trans (by simpa using hliteral)
    exact .inr (reads_attempt_none (((fails_require hbehind).bind_left _).bind_left _))

end Parser

namespace Grammar

variable {g : Grammar} {n : Nat} {p : NamePath} {rest : List Token}

theorem reads_metaRest_path (hrest : EndsItem rest) :
    (g.metaRest p).Reads rest rest (· = .path p) := by
  have hequals : isOperator "=" rest = false := hrest.isOperator_eq_false (by decide)
  refine reads_ahead.bind_eq ?_
  obtain rfl | ⟨joint, rest, rfl⟩ := hrest
  · exact reads_if_false hequals (reads_pure rfl)
  · exact reads_if_false hequals (reads_pure rfl)

/-- Behind `=` stands an expression, be it taken for a literal or not. -/
theorem reads_metaRest_value {ts : List Token} (hexpr : (atDepth n).IsExpr ts)
    (hattr : (isOperator "#" ts && isGroup .bracket (ts.drop 1)) = false) (joint : Bool)
    (hrest : EndsItem rest) :
    ((atDepth n).metaRest p).Reads (.punct '=' joint :: (ts ++ rest)) rest fun m =>
      ∃ kind v, m = .value p kind v := by
  have hexpr := (hexpr.reads hrest).withWritten
  have hattr' : (isOperator "#" (ts ++ rest) && isGroup .bracket ((ts ++ rest).drop 1)) = false := by
    obtain rfl | ⟨joint, rest, rfl⟩ := hrest
    · rwa [List.append_nil]
    · exact (and_drop_behind ⟨joint, rest⟩ ts (f := isOperator "#") (g := isGroup .bracket)
        (isOperator_behind (by decide)) (isGroup_behind _) length_le_of_isOperator).trans hattr
  refine reads_ahead.bind_eq (reads_if_true (by cases joint <;> rfl) ?_)
  refine (reads_operator (by cases joint <;> rfl)).bind fun _ _ => ?_
  obtain hliteral | hnone := attempts_literal ts hrest
  · refine hliteral.bind fun literal hvalue => ?_
    obtain ⟨v, rfl⟩ := hvalue
    exact reads_pure ⟨_, _, rfl⟩
  · refine hnone.bind_eq ?_
    refine (reads_require (by simp only [hattr']; rfl)).bind fun _ _ => ?_
    exact hexpr.bind fun _ _ => reads_pure ⟨_, _, rfl⟩

theorem IsMeta.ne_nil {ts : List Token} {m : MetaItem} (h : g.IsMeta ts m) : ts ≠ [] := by
  have hne : ∀ {p : NamePath} (after : List Token), p.NamesAttribute → p.tokens ++ after ≠ [] := by
    intro p after hp
    have hnames : p.names ≠ [] := by
      obtain rfl | ⟨hnames, -⟩ := hp
      · exact List.cons_ne_nil _ _
      · exact hnames
    simp [NamePath.tokens_ne_nil hnames]
  cases h with
  | path hp => simpa using hne [] hp
  | list d arguments hp => exact hne _ hp
  | value joint kind written hp _ _ => exact hne _ hp

/-- The content of an attribute is read where an item ends, all of it but perhaps the kind of a
value. -/
theorem IsMeta.reads {ts : List Token} {m : MetaItem} (h : (atDepth n).IsMeta ts m)
    (hrest : EndsItem rest) : (atDepth n).metaItem.Reads (ts ++ rest) rest m.SameButValue := by
  cases h with
  | @path p hp =>
    have hcolons : isOperator "::" rest = false := hrest.isOperator_eq_false (by decide)
    exact (reads_metaItem_of_rest hp hcolons (reads_metaRest_path hrest)).mono
      fun _ h => h ▸ .refl _
  | @list p d arguments hp =>
    rw [List.append_assoc]
    exact (reads_metaItem_of_rest hp rfl (reads_metaRest_list d arguments)).mono
      fun _ h => h ▸ .refl _
  | @value p ts joint kind written hp hexpr hattr =>
    rw [List.append_assoc]
    have hvalue := reads_metaRest_value (p := p) hexpr hattr joint hrest
    refine (reads_metaItem_of_rest hp (by cases joint <;> rfl) hvalue).mono fun m hm => ?_
    obtain ⟨kind', v, rfl⟩ := hm
    exact .value p kind kind' written v

end Grammar

/-- The items of a `cfg_attr` are those behind its condition. -/
theorem forall₂_conditionalItems {arguments : List Token} {items : List MetaItem}
    (h : CommaList (Grammar.forTokens arguments).IsMeta arguments items) :
    List.Forall₂ MetaItem.SameButValue (items.drop 1) (conditionalItems arguments) := by
  have hread : (commaList (Grammar.forTokens arguments).metaItem).Reads arguments []
      fun (items', _) => List.Forall₂ MetaItem.SameButValue items items' :=
    reads_commaList (R := MetaItem.SameButValue)
      (fun _ _ hm => ⟨hm.ne_nil, fun _ => Grammar.IsMeta.reads hm⟩) h
  obtain ⟨⟨items', _⟩, hall, hitems⟩ := hread.exists_all
  rw [conditionalItems, hall]
  exact List.forall₂_drop 1 hitems

end RowFactory
