import RowFactory.Proofs.Source.ReadsGenerics
import RowFactory.Proofs.Source.Takes

namespace RowFactory

open RowFactory.Parser

/-- A predicate ends here: a comma or what has the predicates follows. -/
inductive EndsClause : List Token → Prop
  | comma (rest : List Token) : EndsClause (.comma :: rest)
  | brace (body rest : List Token) : EndsClause (.group .brace body :: rest)

/-- The predicate with the arguments in it in the order in which they are written. -/
def WherePredicate.ordered : WherePredicate → WherePredicate
  | .lifetime name bs trailing => .lifetime name bs trailing
  | .type binder ty bs trailing => .type binder ty.ordered (Bound.allOrdered bs) trailing

namespace Grammar

/-- What a predicate is about: a type, perhaps below a binder. -/
def bounded (g : Grammar) : Parser (Option Binder × Ty) := do
  let binder ← g.binder?
  return (binder, ← g.type true)

/-- What a predicate is made of is read back, and a separator trails only where there are bounds. -/
def ReadsPartsOf (g : Grammar) : WherePredicate → Prop
  | .lifetime _ bs trailing => (trailing && !bs.isEmpty) = trailing
  | .type binder ty bs trailing =>
    (∀ rest, g.bounded.Reads (binderTokens binder ++ ty.tokens ++ .punct ':' false :: rest)
      (.punct ':' false :: rest) (· = (binder, ty.ordered))) ∧
    g.ReadsBounds endsPredicate EndsClause bs trailing

/-- Words that a type may begin with. -/
def typeWords : List String :=
  ["for", "fn", "unsafe", "extern", "builtin", "dyn", "impl", "_"] ++ pathKeywords

/-- No type begins like this. -/
structure OpensNoType (ts : List Token) : Prop where
  word : ∀ w ∈ typeWords, isWord w ts = false
  ident : isIdent ts = false
  group : isGroup .paren ts = false ∧ isGroup .bracket ts = false
  operators : ∀ op ∈ ["::", "<", "*", "&", "!"], isOperator op ts = false
  lifetime : isLifetime ts = false

theorem fails_oneType (g : Grammar) (plus : Bool) {ts : List Token} (h : OpensNoType ts) :
    (g.oneType plus).Fails ts := by
  have hop {op : String} (hmem : op ∈ ["::", "<", "*", "&", "!"]) := h.operators op hmem
  have hword {w : String} (hmem : w ∈ typeWords) := h.word w hmem
  have hmarked : (g.markedType plus).Fails ts := by
    refine reads_cursor.fails_bind fun _ _ => ?_
    refine (reads_word?_false (hword (by decide))).bind_fails (fails_if_false rfl ?_)
    refine (reads_sees h.group.2).bind_fails (fails_if_false rfl ?_)
    refine (reads_operator?_false (hop (by decide))).bind_fails (fails_if_false rfl ?_)
    refine (reads_operator?_false (hop (by decide))).bind_fails (fails_if_false rfl ?_)
    refine (reads_operator?_false (hop (by decide))).bind_fails (fails_if_false rfl ?_)
    refine (reads_word?_false (hword (by decide))).bind_fails (fails_if_false rfl ?_)
    refine (reads_word?_false (hword (by decide))).bind_fails (fails_if_false rfl ?_)
    exact (fails_require h.lifetime).bind_left _
  refine reads_cursor.fails_bind fun _ _ => ?_
  refine (reads_ifSees_false (hword (by decide))).bind_fails (reads_ahead.bind_fails ?_)
  refine fails_if_false ?_ (fails_if_false ?_ (fails_if_false rfl (fails_if_false h.group.1 ?_)))
  · simp [startsFunction, hword (w := "fn") (by decide), hword (w := "unsafe") (by decide),
      hword (w := "extern") (by decide)]
  · simp [startsBuiltin, hword (w := "builtin") (by decide)]
  · have hpath : pathKeywords.any (isWord · ts) = false :=
      List.any_eq_false.mpr fun w hw => by simp [h.word w (List.mem_append_right _ hw)]
    refine fails_if_false ?_ hmarked
    simp [startsPath, h.ident, hpath, hop]

/-- A type is not a lifetime alone. -/
theorem fails_oneType_lifetime (g : Grammar) (plus : Bool) (i : Ident) {ts : List Token}
    (h : isOperator "+" ts = false) : (g.oneType plus).Fails (.lifetime i :: ts) := by
  have hbound : (g.oneBound false).Reads (.lifetime i :: ts) ts (· = .lifetime i) :=
    (reads_sees rfl).bind_eq (reads_if_true rfl ((reads_lifetime i).bind_eq (reads_pure rfl)))
  have hbounds : (g.typeBounds true).Fails (.lifetime i :: ts) := by
    refine hbound.bind_fails (reads_ahead.bind_fails ?_)
    rw [if_neg (by simp [h])]
    refine Reads.bind_fails (a := ([], false)) (reads_pure rfl) ?_
    exact (fails_failure ts).bind_left (fun _ => pure ([.lifetime i], false))
  have hobject : (g.typeBounds true >>= fun x => pure (.object false x.1 x.2) :
      Parser Ty).Fails (.lifetime i :: ts) := hbounds.bind_left _
  rintro ⟨ahead, written, altered, unread⟩ rfl
  exact hobject _ rfl

theorem fails_bounded {n : Nat} {ts : List Token} (hfor : isWord "for" ts = false)
    (h : ∀ m, ((atDepth m).oneType true).Fails ts) : (atDepth n).bounded.Fails ts := by
  refine (reads_ifSees_false hfor).bind_fails (Fails.bind_left ?_ _)
  cases n with
  | zero => exact fails_failure ts
  | succ n => exact (h n).writtenAs _

theorem fails_bounded_lifetime {n : Nat} {ts : List Token}
    (h : (isLifetime ts && isOperator ":" (ts.drop 1)) = true) : (atDepth n).bounded.Fails ts := by
  obtain ⟨hlifetime, hcolon⟩ := Bool.and_eq_true_iff.mp h
  match ts with
  | .lifetime i :: us =>
    have hplus : isOperator "+" us = false := by
      match us with
      | .punct c joint :: _ =>
        obtain rfl : ':' = c := by simpa [isOperator, startsOperator] using hcolon
        rfl
      | [] | .ident _ :: _ | .lifetime _ :: _ | .literal _ :: _ | .group _ _ :: _ => rfl
    exact fails_bounded rfl fun m => fails_oneType_lifetime _ _ i hplus

theorem opensNoType_of_endsPredicate {ts : List Token} (h : endsPredicate ts) : OpensNoType ts := by
  match ts with
  | [] => exact ⟨fun _ _ => rfl, rfl, ⟨rfl, rfl⟩, by decide, rfl⟩
  | .group d body :: us =>
    obtain rfl : d = .brace := by cases d <;> first | rfl | cases h
    exact ⟨fun _ _ => rfl, rfl, ⟨rfl, rfl⟩, by simp [isOperator, startsOperator], rfl⟩
  | .punct c joint :: us =>
    refine ⟨fun _ _ => rfl, rfl, ⟨rfl, rfl⟩, fun op hop => ?_, rfl⟩
    refine Bool.eq_false_iff.mpr fun hstarts => ?_
    simp only [List.mem_cons, List.not_mem_nil, or_false] at hop
    obtain rfl | hop := hop
    · obtain rfl : ':' = c := by
        cases joint with
        | false => cases hstarts
        | true => exact of_decide_eq_true (Bool.and_eq_true_iff.mp hstarts).1
      rw [endsPredicate, hstarts] at h
      cases h
    · obtain ⟨d, hd, hchars⟩ : ∃ d ∈ ['<', '*', '&', '!'], op.toList = [d] := by
        rcases hop with rfl | rfl | rfl | rfl <;> exact ⟨_, by decide, rfl⟩
      obtain rfl : d = c := by simpa [isOperator, hchars, startsOperator] using hstarts
      simp only [List.mem_cons, List.not_mem_nil, or_false] at hd
      rcases hd with rfl | rfl | rfl | rfl <;> cases h
  | .ident i :: us | .lifetime i :: us | .literal i :: us => cases h

/-- A predicate is read back. -/
theorem readsItem_predicate {n : Nat} {p : WherePredicate} (h : (atDepth n).ReadsPartsOf p) :
    ReadsItem (atDepth n).predicate endsPredicate EndsClause p.tokens (· = p.ordered) := by
  have hstop {rest : List Token} (hrest : EndsClause rest) : endsPredicate rest = true ∧
      isOperator "+" rest = false := by cases hrest <;> exact ⟨rfl, rfl⟩
  cases p with
  | lifetime name bs trailing =>
    refine ⟨fun rest hrest => ?_, fun rest hrest => rfl⟩
    refine (reads_sees rfl).bind_eq (reads_if_true rfl ((reads_lifetime name).bind_eq ?_))
    refine (reads_operator rfl).bind fun _ _ => ?_
    refine (reads_lifetimes (fun _ _ => rfl) (hstop hrest).1 (hstop hrest).2 bs trailing).bind_eq ?_
    exact reads_pure (congrArg (WherePredicate.lifetime name bs) h)
  | type binder ty bs trailing =>
    obtain ⟨hbounded, hbounds⟩ := h
    have htokens (rest : List Token) : (WherePredicate.type binder ty bs trailing).tokens ++ rest =
        binderTokens binder ++ ty.tokens ++ .punct ':' false ::
          (joinTokens "+" trailing (Bound.parts bs) ++ rest) := by
      simp [WherePredicate.tokens]
    have hnot {ts us : List Token} {Q : Option Binder × Ty → Prop}
        (hread : (atDepth n).bounded.Reads ts us Q) (hfails : (atDepth n).bounded.Fails ts) :
        False := by
      obtain ⟨_, _, hrun, -⟩ := hread (.start ts) rfl
      simp [hfails (.start ts) rfl] at hrun
    refine ⟨fun rest hrest => ?_, fun rest hrest => ?_⟩
    · have hread := hbounded (joinTokens "+" trailing (Bound.parts bs) ++ rest)
      rw [htokens]
      refine (reads_sees (b := false) ?_).bind_eq (reads_if_false rfl ?_)
      · refine Bool.eq_false_iff.mpr fun hlifetime => hnot hread ?_
        exact fails_bounded_lifetime hlifetime
      · have hpredicate : (do
            let x ← (atDepth n).bounded
            operator ":"
            let y ← (atDepth n).bounds endsPredicate
            return .type x.1 x.2 y.1 y.2 : Parser WherePredicate).Reads
            (binderTokens binder ++ ty.tokens ++ .punct ':' false ::
              (joinTokens "+" trailing (Bound.parts bs) ++ rest)) rest
            (· = (WherePredicate.type binder ty bs trailing).ordered) := by
          refine hread.bind_eq ((reads_operator rfl).bind fun _ _ => ?_)
          exact (hbounds rest hrest).bind_eq (reads_pure rfl)
        simp only [bounded, Parser.bind_assoc] at hpredicate
        exact hpredicate
    · have hread := hbounded (joinTokens "+" trailing (Bound.parts bs) ++ rest)
      rw [htokens]
      refine Bool.eq_false_iff.mpr fun hends => hnot hread ?_
      have hopens := opensNoType_of_endsPredicate hends
      exact fails_bounded (hopens.word _ (by decide)) fun m => fails_oneType _ _ hopens

/-- The predicates of a clause are read back; the first must not begin as parameters do. -/
theorem reads_whereTokens {n : Nat} {generics : Generics}
    (hpredicates : ∀ p ∈ generics.predicates, (atDepth n).ReadsPartsOf p)
    (hopens : ∀ p ∈ generics.predicates.head?, ∀ rest, startsGenerics (p.tokens ++ rest) = false)
    {before : Generics} (hbefore : before.predicates = []) (body rest : List Token) :
    ((atDepth n).whereClause before).Reads
      (generics.whereTokens ++ .group .brace body :: rest) (.group .brace body :: rest)
      fun q => q.params = before.params ∧
        q.predicates = generics.predicates.map WherePredicate.ordered := by
  cases hlist : generics.predicates with
  | nil =>
    have htokens : generics.whereTokens = [] := by simp [Generics.whereTokens, hlist]
    rw [htokens]
    exact (reads_sees rfl).bind_eq (reads_if_false rfl (reads_pure ⟨rfl, hbefore⟩))
  | cons p predicates =>
    have htokens : generics.whereTokens ++ .group .brace body :: rest = .word "where" ::
        (joinTokens "," generics.predicatesTrailing
          (generics.predicates.map WherePredicate.tokens) ++ .group .brace body :: rest) := by
      simp [Generics.whereTokens, hlist]
    have hread := reads_openList_join (R := fun p q => q = p.ordered) ","
      generics.predicatesTrailing generics.predicates
      (fun p hp => readsItem_predicate (hpredicates p hp)) (fun ts => .comma ts) (.brace body rest)
      rfl rfl
    have hfirst : startsGenerics (joinTokens "," generics.predicatesTrailing
        (generics.predicates.map WherePredicate.tokens) ++ .group .brace body :: rest) = false := by
      rw [hlist, List.map_cons, joinTokens_cons]
      exact hopens p (by simp [hlist]) _
    rw [htokens, ← hlist]
    refine (reads_sees (by simp [isWord, Token.word])).bind_eq (reads_if_true rfl ?_)
    refine Reads.writtenAs _ ((reads_word "where").bind fun _ _ => ?_)
    refine (reads_require (by simp [hfirst])).bind fun _ _ => ?_
    refine hread.bind fun x h => reads_pure ⟨rfl, ?_⟩
    have hmap : x.1.map id = generics.predicates.map WherePredicate.ordered :=
      map_eq_of_forall₂ h.1
    rwa [List.map_id] at hmap

end Grammar

namespace Path.IsReadable

variable {p : Path} (hp : p.IsReadable) (hplain : p.startsPlain)
include hp hplain

/-- A path as the bound of a predicate. -/
theorem readsBounds_clause (n : Nat) :
    (Grammar.atDepth (n + 1)).ReadsBounds endsPredicate EndsClause [p.bound] false := by
  refine hp.readsBounds hplain n (fun ts h => ?_) fun rest hrest => ?_
  · cases h <;> rfl
  · cases hrest <;> exact ⟨⟨⟨rfl, rfl⟩, rfl, rfl, rfl⟩, rfl⟩

/-- A path as what a predicate is about. -/
theorem readsPartsOf {q : Path} (hq : q.IsReadable) (hqplain : q.startsPlain) (n : Nat) :
    (Grammar.atDepth (n + 1)).ReadsPartsOf
      (.type none (.path none 0 p.leadingColon p.segments) [q.bound] false) := by
  refine ⟨fun rest => ?_, hq.readsBounds_clause hqplain n⟩
  have hends : EndsType (.punct ':' false :: rest) := ⟨⟨rfl, rfl⟩, rfl, rfl, rfl⟩
  have hfor := (hp.startsPath hplain hends.mark).isWord_eq_false (w := "for") (by decide)
  refine (reads_ifSees_false ?_).bind_eq ((hp.reads_type hplain hends n true).bind_eq ?_)
  · exact hfor
  · refine reads_pure ?_
    obtain ⟨leading, segments⟩ := p
    obtain ⟨i, names, rfl, -⟩ := hp
    simp [Ty.ordered, Segment.allOrdered_eq, Segment.ordered]

end Path.IsReadable

end RowFactory
