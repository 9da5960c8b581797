import RowFactory.Proofs.Printed.Attributes
import RowFactory.Proofs.Printed.Paths

namespace RowFactory

open RowFactory.Parser

/-- A path begins with colons or with a name that can be a segment alone. -/
theorem Path.tokens_cases {p : Path}
    (h : ∃ s segments, p.segments = s :: segments ∧ s.name.endsPath) :
    (∃ ts, p.tokens = .punct ':' true :: .punct ':' false :: ts) ∨
      ∃ name ts, name.endsPath ∧ p.tokens = .ident name :: ts := by
  obtain ⟨leading, segments⟩ := p
  obtain ⟨s, segments, rfl, hs⟩ := h
  obtain ⟨ts, hts⟩ := s.exists_tokens_eq
  rw [Path.tokens, Segment.joined_cons, hts]
  cases leading with
  | true => exact .inl ⟨_, rfl⟩
  | false => exact .inr ⟨_, _, hs, rfl⟩

/-- What is written for a trait that is not in parentheses. -/
def traitBoundTokens (optional : Bool) (binder : Option Binder) (p : Path) : List Token :=
  operatorIf optional "?" ++ binderTokens binder ++ p.tokens

namespace Grammar

variable {n k : Nat} {i j rest : List Token}

/-- A trait behind its binder and its mark. -/
def traitAfterMark (g : Grammar) (paren const : Bool) (binder : Option Binder) (marked : Bool) :
    Parser (Option Bound) := do
  guard (const || !marked)
  let optional ← operator? "?"
  let binder ← if optional && binder.isNone then g.binder? else pure binder
  let p ← g.boundPath
  guard (binder.isNone || !optional)
  return if marked then none else some (.trait paren optional binder p.leadingColon p.segments)

theorem traitBound?_eq (g : Grammar) (paren const : Bool) :
    g.traitBound? paren const = (do
      let binder ← g.binder?
      if ← sees (isGroup .bracket) then
        group .bracket (word "const")
        g.traitAfterMark paren const binder true
      else g.traitAfterMark paren const binder (← word? "const")) := rfl

/-- What is read for a trait is read back. -/
structure KeepsTrait (optional : Bool) (binder : Option Binder) (p : Path) (j : List Token) :
    Prop where
  path : KeepsBoundPath p j
  unbound : optional = true → binder = none
  binder : ReadsAgain (·.binder?) (isWord "for" · = false) (binderTokens binder)
    (binderEmbedded binder) binder

theorem keeps_traitBound (hk : (atDepth k).Keeps) {paren const : Bool} {bound : Option Bound}
    (h : ((atDepth k).traitBound? paren const).Gives i bound j) :
    (bound = none ∧ const = true) ∨ ∃ optional binder, ∃ p : Path,
      bound = some (.trait paren optional binder p.leadingColon p.segments) ∧
        KeepsTrait optional binder p j := by
  rw [traitBound?_eq] at h
  obtain ⟨binder, m, hbinder, h⟩ := h.bind
  obtain ⟨marked, m₁, h⟩ : ∃ marked m₁,
      ((atDepth k).traitAfterMark paren const binder marked).Gives m₁ bound j := by
    rcases h.branch with ⟨-, h⟩ | ⟨-, h⟩
    · obtain ⟨_, m₁, -, h⟩ := h.bind
      exact ⟨_, m₁, h⟩
    · obtain ⟨marked, m₁, -, h⟩ := h.bind
      exact ⟨marked, m₁, h⟩
  obtain ⟨hmark, h⟩ := h.guard_bind
  obtain ⟨optional, m₂, -, h⟩ := h.bind
  have hafter {binder : Option Binder} {i m m₃ : List Token}
      (hbinder : (atDepth k).binder?.Gives i binder m)
      (h : (do
        let p ← (atDepth k).boundPath
        guard (binder.isNone || !optional)
        return if marked then none
          else some (.trait paren optional binder p.leadingColon p.segments) :
        Parser (Option Bound)).Gives m₃ bound j) :
      (bound = none ∧ const = true) ∨ ∃ optional binder, ∃ p : Path,
        bound = some (.trait paren optional binder p.leadingColon p.segments) ∧
          KeepsTrait optional binder p j := by
    obtain ⟨p, m₅, hp, h⟩ := h.bind
    obtain ⟨hguard, h⟩ := h.guard_bind
    obtain ⟨rfl, rfl⟩ := h.pure
    cases marked with
    | true => exact .inl ⟨rfl, by simpa using hmark⟩
    | false =>
      refine .inr ⟨optional, binder, p, rfl, keeps_boundPath hk hp, ?_, ?_⟩
      · rintro rfl
        simpa using hguard
      · exact fun n hsize hes rest hrest => keeps_binder hk hbinder hsize hes fun _ => hrest
  rcases h.ite with ⟨-, h⟩ | ⟨-, h⟩
  · obtain ⟨binder', m₃, hbinder', h⟩ := h.bind
    exact hafter hbinder' h
  · exact hafter hbinder h

/-- A trait is read back, whether or not it may be marked. -/
theorem KeepsTrait.reads {optional : Bool} {binder : Option Binder} {p : Path}
    (h : KeepsTrait optional binder p j) (paren const : Bool)
    (hsize : Token.sizeAll (traitBoundTokens optional binder p) ≤ n)
    (hes : ∀ e ∈ binderEmbedded binder ++ Segment.allEmbedded p.segments, e.IsReadBack)
    (hrest : TypeEnds false j rest) :
    ((atDepth n).traitBound? paren const).Reads (traitBoundTokens optional binder p ++ rest) rest
      (· = some (.trait paren optional binder p.leadingColon (Segment.allOrdered p.segments))) := by
  simp only [traitBoundTokens, Token.sizeAll_append] at hsize
  simp only [List.mem_append] at hes
  have hpath := h.path.again n (by omega) (fun e he => hes e (.inr he)) rest hrest
  have hword {w : String} (hw : keywords.contains w ∧ pathKeywords.contains w = false ∧ w ≠ "try") :
      isWord w (p.tokens ++ rest) = false := by
    rcases Path.tokens_cases h.path.first with ⟨ts, hts⟩ | ⟨name, ts, hname, hts⟩
    · rw [hts]
      rfl
    · rw [hts]
      exact isWord_eq_false hw hname _
  have hsigns : isGroup .bracket (p.tokens ++ rest) = false ∧
      isOperator "?" (p.tokens ++ rest) = false := by
    rcases Path.tokens_cases h.path.first with ⟨ts, hts⟩ | ⟨name, ts, -, hts⟩
    · rw [hts]
      exact ⟨rfl, rfl⟩
    · rw [hts]
      exact ⟨rfl, rfl⟩
  have hnone : ((atDepth n).binder?).Reads (p.tokens ++ rest) (p.tokens ++ rest) (· = none) :=
    reads_ifSees_false (hword (by decide))
  have hend : (do
      let p ← (atDepth n).boundPath
      guard (binder.isNone || !optional)
      return if false then none
        else some (.trait paren optional binder p.leadingColon p.segments) :
      Parser (Option Bound)).Reads (p.tokens ++ rest) rest
      (· = some (.trait paren optional binder p.leadingColon (Segment.allOrdered p.segments))) := by
    refine hpath.bind_eq ((reads_guard ?_).bind fun _ _ => reads_pure rfl)
    cases optional with
    | false => simp
    | true => simp [h.unbound rfl]
  rw [traitBound?_eq]
  cases optional with
  | true =>
    obtain rfl := h.unbound rfl
    refine (reads_ifSees_false rfl).bind_eq ((reads_sees rfl).bind_eq (reads_if_false rfl ?_))
    refine (reads_word?_false rfl).bind_eq ((reads_guard (by simp)).bind fun _ _ => ?_)
    exact (reads_operator?_true rfl).bind_eq (reads_if_true rfl (hnone.bind_eq hend))
  | false =>
    have hbinder := h.binder n (by omega) (fun e he => hes e (.inl he)) (p.tokens ++ rest)
      (hword (by decide))
    rw [traitBoundTokens, operatorIf_false, List.nil_append, List.append_assoc]
    refine hbinder.bind_eq ((reads_sees hsigns.1).bind_eq (reads_if_false rfl ?_))
    refine (reads_word?_false (hword (by decide))).bind_eq ?_
    refine (reads_guard (by simp)).bind fun _ _ => ?_
    refine (reads_operator?_false hsigns.2).bind_eq (reads_if_false rfl ?_)
    exact reads_pure_bind hend

/-- What is written for a trait begins as a bound does, but not with a lifetime or a group. -/
theorem KeepsTrait.front {optional : Bool} {binder : Option Binder} {p : Path}
    (h : KeepsTrait optional binder p j) (rest : List Token) :
    startsBound (traitBoundTokens optional binder p ++ rest) = true ∧
      isLifetime (traitBoundTokens optional binder p ++ rest) = false ∧
      isGroup .paren (traitBoundTokens optional binder p ++ rest) = false := by
  cases optional with
  | true => exact ⟨rfl, rfl, rfl⟩
  | false =>
    cases binder with
    | some binder => exact ⟨rfl, rfl, rfl⟩
    | none =>
      rcases Path.tokens_cases h.path.first with ⟨ts, hts⟩ | ⟨name, ts, -, hts⟩
      · rw [traitBoundTokens, hts]
        exact ⟨rfl, rfl, rfl⟩
      · rw [traitBoundTokens, hts]
        exact ⟨rfl, rfl, rfl⟩

theorem tokens_trait (paren optional : Bool) (binder : Option Binder) (p : Path) :
    (Bound.trait paren optional binder p.leadingColon p.segments).tokens =
      if paren then [.group .paren (traitBoundTokens optional binder p)]
      else traitBoundTokens optional binder p := by
  simp [Bound.tokens, traitBoundTokens, Path.tokens]

/-- The bound, or what has been read since `before` where there is none. -/
def carriedBound (before : Cursor) : Option Bound → Parser Bound
  | some b => return b
  | none => return .verbatim (← restoreSince before)

/-- A bound is a lifetime or a trait, unless it is only carried through. -/
theorem gives_oneBound (hk : (atDepth k).Keeps) {const : Bool} {b : Bound}
    (h : ((atDepth k).oneBound const).Gives i b j) :
    (∃ name, b = .lifetime name ∧ i = .lifetime name :: j) ∨
      (∃ paren optional binder, ∃ p : Path, ∃ left,
        b = .trait paren optional binder p.leadingColon p.segments ∧
          KeepsTrait optional binder p left ∧ (paren = false → left = j)) ∨
      const = true ∧ ∃ ts, b = .verbatim ts := by
  rcases h.branch with ⟨-, h⟩ | ⟨-, h⟩
  · obtain ⟨name, hname, rfl⟩ := h.returns
    exact .inl ⟨name, rfl, hname.lifetime⟩
  obtain ⟨before, -, h⟩ := h.cursor_bind
  refine .inr ?_
  have hafter {paren : Bool} {bound : Option Bound} {i left m : List Token}
      (hbound : ((atDepth k).traitBound? paren const).Gives i bound left)
      (hleft : paren = false → left = m)
      (h : (carriedBound before bound).Gives m b j) :
      (∃ paren optional binder, ∃ p : Path, ∃ left,
        b = .trait paren optional binder p.leadingColon p.segments ∧
          KeepsTrait optional binder p left ∧ (paren = false → left = j)) ∨
      const = true ∧ ∃ ts, b = .verbatim ts := by
    rcases keeps_traitBound hk hbound with ⟨rfl, hconst⟩ | ⟨optional, binder, p, rfl, hkept⟩
    · obtain ⟨ts, -, rfl⟩ := h.returns
      exact .inr ⟨hconst, ts, rfl⟩
    · obtain ⟨rfl, rfl⟩ := h.pure
      exact .inl ⟨paren, optional, binder, p, left, rfl, hkept, hleft⟩
  rcases h.branch with ⟨-, h⟩ | ⟨-, h⟩
  · obtain ⟨bound, m, hbound, h⟩ := h.bind
    obtain ⟨body, left, -, hbound⟩ := hbound.group
    exact hafter hbound nofun h
  · obtain ⟨bound, m, hbound, h⟩ := h.bind
    exact hafter hbound (fun _ => rfl) h

/-- A bound is read back. Only one that is carried through begins with a bracket. -/
theorem keeps_oneBound (hk : (atDepth k).Keeps) {const : Bool} {b : Bound}
    (h : ((atDepth k).oneBound const).Gives i b j) :
    b.IsKept (·.oneBound const) (if const then startsOpaqueBound else startsBound) j := by
  have hstarts {ts : List Token} (hts : startsBound ts = true) :
      (if const then startsOpaqueBound else startsBound) ts = true := by
    cases const <;> simp [startsOpaqueBound, hts]
  intro n hsize hes rest hrest
  rcases gives_oneBound hk h with ⟨name, rfl, -⟩ |
    ⟨paren, optional, binder, p, left, rfl, hkept, hleft⟩ | ⟨rfl, ts, rfl⟩
  · refine ⟨(reads_sees rfl).bind_eq (reads_if_true rfl ?_), hstarts rfl⟩
    exact (reads_lifetime name).bind_eq (reads_pure rfl)
  · rw [tokens_trait] at hsize ⊢
    cases paren with
    | true =>
      simp only [if_true, Token.sizeAll, Token.size] at hsize
      have hread := hkept.reads true const (n := n) (by omega) hes typeEnds_nil
      rw [List.append_nil] at hread
      refine ⟨(reads_sees rfl).bind_eq (reads_if_false rfl ?_), hstarts rfl⟩
      refine reads_cursor.bind fun _ _ => (reads_sees rfl).bind_eq (reads_if_true rfl ?_)
      exact (hread.group .paren).bind_eq (reads_pure rfl)
    | false =>
      obtain rfl := hleft rfl
      have hread := hkept.reads false const hsize hes hrest
      obtain ⟨hfront, hlifetime, hparen⟩ := hkept.front rest
      refine ⟨(reads_sees hlifetime).bind_eq (reads_if_false rfl ?_), hstarts hfront⟩
      refine reads_cursor.bind fun _ _ => (reads_sees hparen).bind_eq (reads_if_false rfl ?_)
      exact hread.bind_eq (reads_pure rfl)
  · exact hes (.bound ts) (List.mem_singleton_self _) k i j h n hsize rest hrest

/-- What may be captured: a lifetime, or a name. -/
def captured : Parser (Bool × List Token) := do
  match ← next with
  | .lifetime i => return (true, [.lifetime i])
  | .ident i =>
    guard (!i.isKeyword || i = .plain "Self")
    return (false, [.ident i])
  | _ => failure

theorem readsItem_captured {x : Bool × List Token} (h : captured.Gives i x j) :
    ReadsItem captured (isOperator ">") (fun _ => True) x.2 (· = id x) := by
  have hnext (t : Token) (rest : List Token) : next.Reads (t :: rest) rest (· = t) :=
    reads_of_run fun _ _ _ => ⟨_, _, _, rfl, rfl⟩
  obtain ⟨t, m, -, h⟩ := h.bind
  split at h
  · obtain ⟨rfl, -⟩ := h.pure
    refine ⟨fun rest _ => (hnext _ rest).bind_eq ?_, fun _ _ => rfl⟩
    exact reads_pure rfl
  · obtain ⟨hguard, h⟩ := h.guard_bind
    obtain ⟨rfl, -⟩ := h.pure
    refine ⟨fun rest _ => (hnext _ rest).bind_eq ?_, fun _ _ => rfl⟩
    exact (reads_guard hguard).bind fun _ _ => reads_pure rfl
  · exact absurd h not_gives_failure

theorem capture_eq : capture = (do
    word "use"
    operator "<"
    let (params, trailing) ← closedList (isOperator ">") "," captured
    operator ">"
    return .capture
      (.word "use" :: .punct '<' false :: lifetimesFirst trailing params ++ [.punct '>' false])) :=
  rfl

/-- Captured parameters are read back in the order in which they are written. -/
theorem keeps_capture {b : Bound} (h : capture.Gives i b j) :
    (∃ ts, b.tokens = .word "use" :: ts) ∧
      ∀ rest, capture.Reads (b.tokens ++ rest) rest (· = b.ordered) := by
  rw [capture_eq] at h ⊢
  obtain ⟨_, -, h⟩ := h.word_bind
  obtain ⟨-, h⟩ := h.operator_bind
  obtain ⟨⟨params, trailing⟩, m, hlist, h⟩ := h.bind
  obtain ⟨-, h⟩ := h.operator_bind
  obtain ⟨rfl, -⟩ := h.pure
  obtain ⟨last, hitems, -⟩ := hlist.closedList
  refine ⟨⟨_, rfl⟩, fun rest => ?_⟩
  have hitem : ∀ x ∈ lifetimesAhead (·.1) params, ReadsItem captured (isOperator ">")
      (fun _ => True) x.2 (· = id x) := by
    intro x hx
    obtain ⟨i', m', -, hgives⟩ := hitems.exists_gives (mem_lifetimesAhead.mp hx)
    exact readsItem_captured hgives
  have hlist : (closedList (isOperator ">") "," captured).Reads
      (lifetimesFirst trailing params ++ .punct '>' false :: rest) (.punct '>' false :: rest)
      (· = ((lifetimesAhead (·.1) params).map id,
        commaTrails (·.1) trailing params && !(lifetimesAhead (·.1) params).isEmpty)) := by
    rw [lifetimesFirst_eq]
    exact reads_closedList_map "," _ hitem (fun ts => ⟨trivial, rfl⟩) trivial rfl
  have htokens : lifetimesFirst
        (commaTrails (·.1) trailing params && !(lifetimesAhead (·.1) params).isEmpty)
        ((lifetimesAhead (·.1) params).map id) = lifetimesFirst trailing params := by
    have hempty := List.isEmpty_map (f := (·.2)) (l := lifetimesAhead (·.1) params)
    rw [lifetimesFirst_eq, lifetimesFirst_eq trailing, List.map_id, commaTrails_lifetimesAhead,
      lifetimesAhead_lifetimesAhead, ← hempty, joinTokens_nonempty]
  simp only [Bound.tokens, List.append_assoc, List.cons_append]
  refine (reads_word "use").bind fun _ _ => (reads_operator rfl).bind fun _ _ => ?_
  refine hlist.bind_eq ((reads_operator rfl).bind fun _ _ => reads_pure ?_)
  simp only [htokens]
  rfl

/-- No trait and no lifetime begins with the word that begins captured parameters. -/
theorem fails_oneBound_use (g : Grammar) (const : Bool) (ts : List Token) :
    (g.oneBound const).Fails (.word "use" :: ts) := by
  have hsegment : (g.segment false).Fails (.word "use" :: ts) := by
    refine (reads_sees (b := false) rfl).bind_fails (fails_if_false rfl ?_)
    refine (reads_sees (b := false) rfl).bind_fails (fails_if_false rfl (Fails.bind_left ?_ _))
    exact (reads_anyIdent _).bind_fails ((fails_failure ts).bind_left _)
  have hpath : (g.path false).Fails (.word "use" :: ts) :=
    (reads_operator?_false rfl).bind_fails (hsegment.bind_left _)
  have htrait : (g.traitBound? false const).Fails (.word "use" :: ts) := by
    rw [traitBound?_eq]
    refine (reads_ifSees_false rfl).bind_fails ((reads_sees rfl).bind_fails (fails_if_false rfl ?_))
    refine (reads_word?_false rfl).bind_fails ((reads_guard (by simp)).fails_bind fun _ _ => ?_)
    refine (reads_operator?_false rfl).bind_fails (fails_if_false rfl ?_)
    refine Reads.bind_fails (a := none) (reads_pure rfl) (Fails.bind_left ?_ _)
    exact hpath.withWritten.unwritten.bind_left _
  refine (reads_sees (b := false) rfl).bind_fails (fails_if_false rfl ?_)
  refine reads_cursor.fails_bind fun _ _ => (reads_sees rfl).bind_fails (fails_if_false rfl ?_)
  exact htrait.bind_left _

/-- The bounds of an opaque type are read back. -/
theorem keeps_opaqueBound (hk : (atDepth k).Keeps) {b : Bound}
    (h : (atDepth k).opaqueBound.Gives i b j) : b.IsKept opaqueBound startsOpaqueBound j := by
  intro n hsize hes rest hrest
  rcases h.branch with ⟨-, h⟩ | ⟨-, h⟩
  · obtain ⟨⟨ts, hts⟩, hread⟩ := keeps_capture h
    have huse : isWord "use" (b.tokens ++ rest) = true ∧
        startsOpaqueBound (b.tokens ++ rest) = true := by
      rw [hts]
      exact ⟨rfl, rfl⟩
    exact ⟨(reads_sees huse.1).bind_eq (reads_if_true rfl (hread rest)), huse.2⟩
  · obtain ⟨hread, hstarts⟩ := keeps_oneBound hk h n hsize hes rest hrest
    refine ⟨(reads_sees (Bool.eq_false_iff.mpr fun huse => ?_)).bind_eq (reads_if_false rfl hread),
      hstarts⟩
    refine hread.not_fails ?_
    rw [eq_word_of_isWord huse]
    exact fails_oneBound_use _ _ _

/-- Bounds behind a first one, each after its `+`; without `plus` there are none. -/
def boundsTail (starts : List Token → Bool) (bound : Parser Bound) (plus : Bool) :
    Parser (List Bound × Bool) := do
  if plus && isOperator "+" (← ahead) then
    operator "+"
    let (rest, trailing) ← openList (!starts ·) "+" bound
    return (rest, trailing || rest.isEmpty)
  else return ([], false)

theorem boundsTail_bind {β : Type} (starts : List Token → Bool) (bound : Parser Bound)
    (plus : Bool) (f : List Bound × Bool → Parser β) :
    (boundsTail starts bound plus >>= f) = (do
      if plus && isOperator "+" (← ahead) then
        operator "+"
        let (rest, trailing) ← openList (!starts ·) "+" bound
        f (rest, trailing || rest.isEmpty)
      else f ([], false)) := by
  unfold boundsTail
  rw [Parser.bind_assoc]
  refine congrArg (_ >>= ·) (funext fun ts => ?_)
  split
  · rw [Parser.bind_assoc]
    refine congrArg (_ >>= ·) (funext fun _ => ?_)
    rw [Parser.bind_assoc]
    rfl
  · rfl

theorem boundsOf_eq (starts : List Token → Bool) (bound : Parser Bound) (plus : Bool) :
    boundsOf starts bound plus = (do
      let first ← bound
      let (rest, trailing) ← boundsTail starts bound plus
      guard ((first :: rest).any Bound.isTrait)
      return (first :: rest, trailing)) := by
  unfold boundsOf
  refine congrArg (_ >>= ·) (funext fun first => ?_)
  rw [boundsTail_bind]
  rfl

/-- Where no bound is read and no `+`, nothing is taken. -/
theorem boundsTail_none {starts : List Token → Bool} {bound : Parser Bound} {plus : Bool}
    (h : (boundsTail starts bound plus).Gives i ([], false) j) : j = i := by
  rcases h.ahead_bind.ite with ⟨-, h⟩ | ⟨-, h⟩
  · obtain ⟨⟨more, trailing⟩, -, heq⟩ := h.operator_bind.2.returns
    obtain ⟨rfl, htrailing⟩ : more = [] ∧ false = (trailing || more.isEmpty) := by simpa using heq
    simp at htrailing
  · exact h.pure.2

theorem isTrait_ordered (b : Bound) : b.ordered.isTrait = b.isTrait := by
  cases b <;> rfl

section

variable (bound : Grammar → Parser Bound) {starts : List Token → Bool}
  (hkeeps : ∀ {i b j}, (bound (atDepth k)).Gives i b j → b.IsKept bound starts j)
  (htakes : (bound (atDepth n)).Takes)
  (hstarts : ∀ {j rest}, TypeEnds false j rest → starts rest = true → starts j = true)

include hkeeps htakes hstarts

/-- Further bounds are read back behind the first. -/
theorem keeps_boundsTail {plus : Bool} {bs : List Bound} {trailing : Bool}
    (h : (boundsTail starts (bound (atDepth k)) plus).Gives i (bs, trailing) j)
    (hsize : Token.sizeAll (joinTokens "+" trailing (Bound.parts bs)) ≤ n)
    (hes : ∀ e ∈ Bound.allEmbedded bs, e.IsReadBack) (hrest : TypeEnds false j rest) :
    TypeEnds false i (operatorIf (trailing || !bs.isEmpty) "+" ++
      (joinTokens "+" trailing (Bound.parts bs) ++ rest)) ∧
    (boundsTail starts (bound (atDepth n)) plus).Reads
      (operatorIf (trailing || !bs.isEmpty) "+" ++
        (joinTokens "+" trailing (Bound.parts bs) ++ rest)) rest
      (· = (Bound.allOrdered bs, trailing)) := by
  rcases h.ahead_bind.ite with ⟨hplus, htail⟩ | ⟨hnone, htail⟩
  · obtain ⟨rfl, hi⟩ := Bool.and_eq_true_iff.mp hplus
    obtain ⟨-, htail⟩ := htail.operator_bind
    obtain ⟨⟨bs', trailing'⟩, hlist, heq⟩ := htail.returns
    obtain ⟨rfl, rfl⟩ : bs = bs' ∧ trailing = (trailing' || bs'.isEmpty) := by simpa using heq
    obtain ⟨last, hitems, htrailing⟩ := hlist.openList
    obtain rfl : trailing' = (last && !bs.isEmpty) := htrailing
    have hstop (hlast : last = true) : (!starts rest) = true := by
      have hj := hitems.stops hlast
      simp only [Bool.not_eq_true'] at hj ⊢
      exact Bool.eq_false_iff.mpr fun hseen => by simp [hstarts hrest hseen] at hj
    have hjoin : joinTokens "+" ((last && !bs.isEmpty) || bs.isEmpty) (Bound.parts bs) =
        joinTokens "+" last (bs.map Bound.tokens) := by
      rw [Bound.parts_eq]
      cases bs <;> simp [joinTokens]
    have hmore : ((last && !bs.isEmpty) || bs.isEmpty || !bs.isEmpty) = true := by
      cases bs.isEmpty <;> simp
    rw [hjoin] at hsize ⊢
    rw [Bound.allEmbedded_eq] at hes
    have hitem : ∀ i b m, b ∈ bs → (bound (atDepth k)).Gives i b m → ∀ ts, TypeEnds false m ts →
        (bound (atDepth n)).Reads (b.tokens ++ ts) ts (· = b.ordered) ∧
          (!starts (b.tokens ++ ts)) = false := by
      intro i b m hb hgives ts hts
      have hsmall := Token.sizeAll_le_joinTokens "+" last (List.mem_map_of_mem (f := Bound.tokens) hb)
      obtain ⟨hread, hseen⟩ := hkeeps hgives n (hsmall.trans hsize)
        (fun e he => hes e (List.mem_flatMap_of_mem hb he)) ts hts
      exact ⟨hread, by simp [hseen]⟩
    have hread : (openList (!starts ·) "+" (bound (atDepth n))).Reads
        (joinTokens "+" last (bs.map Bound.tokens) ++ rest) rest
        (· = (bs.map Bound.ordered, last && !bs.isEmpty)) :=
      hitems.reads htakes hitem (fun m ts hm => typeEnds_plus hm rfl) hrest hstop
        fun hlast => hrest.plus_eq_false (hitems.ends hlast)
    rw [hmore, operatorIf_true]
    refine ⟨typeEnds_plus hi rfl, reads_ahead.bind_eq (reads_if_true rfl ?_)⟩
    refine (reads_operator_written "+" _).bind fun _ _ => hread.bind_eq (reads_pure ?_)
    rw [Bound.allOrdered_eq, List.isEmpty_map]
  · obtain ⟨heq, rfl⟩ := htail.pure
    obtain ⟨rfl, rfl⟩ : bs = [] ∧ trailing = false := by simpa using heq
    refine ⟨hrest, reads_ahead.bind_eq (reads_if_false ?_ (reads_pure rfl))⟩
    cases plus with
    | false => rfl
    | true => exact hrest.plus_eq_false (by simpa using hnone)

/-- Bounds of which one is a trait are read back. -/
theorem keeps_boundsOf {plus : Bool} {bs : List Bound} {trailing : Bool}
    (h : (boundsOf starts (bound (atDepth k)) plus).Gives i (bs, trailing) j)
    (hsize : Token.sizeAll (joinTokens "+" trailing (Bound.parts bs)) ≤ n)
    (hes : ∀ e ∈ Bound.allEmbedded bs, e.IsReadBack) (hrest : TypeEnds false j rest) :
    (boundsOf starts (bound (atDepth n)) plus).Reads
        (joinTokens "+" trailing (Bound.parts bs) ++ rest) rest
        (· = (Bound.allOrdered bs, trailing)) ∧
      starts (joinTokens "+" trailing (Bound.parts bs) ++ rest) = true := by
  rw [boundsOf_eq] at h ⊢
  obtain ⟨first, m, hfirst, htail⟩ := h.bind
  obtain ⟨⟨later, trailing'⟩, m', hlater, htail⟩ := htail.bind
  obtain ⟨htrait, htail⟩ := htail.guard_bind
  obtain ⟨heq, rfl⟩ := htail.pure
  obtain ⟨rfl, rfl⟩ : bs = first :: later ∧ trailing = trailing' := by simpa using heq
  rw [Bound.parts] at hsize ⊢
  rw [Bound.allEmbedded] at hes
  simp only [List.mem_append] at hes
  have hjoin := joinTokens_cons "+" trailing first.tokens (Bound.parts later)
  have hsizes := congrArg Token.sizeAll (hjoin [])
  simp only [Token.sizeAll_append, Token.sizeAll, Nat.add_zero] at hsizes
  obtain ⟨hends, hread⟩ := keeps_boundsTail bound hkeeps htakes hstarts hlater (by omega)
    (fun e he => hes e (.inr he)) hrest
  have hempty : (Bound.parts later).isEmpty = later.isEmpty := by
    rw [Bound.parts_eq, List.isEmpty_map]
  rw [hjoin, hempty]
  obtain ⟨hfirst, hopens⟩ := hkeeps hfirst n (by omega) (fun e he => hes e (.inl he)) _ hends
  refine ⟨hfirst.bind_eq (hread.bind_eq ((reads_guard ?_).bind fun _ _ => reads_pure rfl)), hopens⟩
  simpa [Bound.allOrdered_eq, isTrait_ordered] using htrait

end

theorem startsBound_of_typeEnds (h : TypeEnds false j rest) :
    startsBound rest = true → startsBound j = true := h.bound

theorem startsOpaqueBound_of_typeEnds (h : TypeEnds false j rest)
    (hrest : startsOpaqueBound rest = true) : startsOpaqueBound j = true := by
  simp only [startsOpaqueBound, h.bracket, Bool.or_false] at hrest ⊢
  rw [h.bound hrest, Bool.true_or]

theorem keeps_typeBound (hk : (atDepth k).Keeps) {b : Bound}
    (h : ((atDepth k).oneBound false).Gives i b j) :
    b.IsKept (·.oneBound false) startsBound j := by
  simpa using keeps_oneBound hk h

/-- Bounds that follow a type in parentheses, each after its `+`. -/
theorem keeps_moreBounds (hk : (atDepth k).Keeps) {bs : List Bound}
    (h : (atDepth k).moreBounds.Gives i bs j)
    (hsize : Token.sizeAll (bs.flatMap fun b => Token.operator "+" ++ b.tokens) ≤ n)
    (hes : ∀ e ∈ Bound.allEmbedded bs, e.IsReadBack) (hrest : TypeEnds false j rest) :
    (atDepth n).moreBounds.Reads
      ((bs.flatMap fun b => Token.operator "+" ++ b.tokens) ++ rest) rest
      (· = Bound.allOrdered bs) := by
  rw [Bound.allEmbedded_eq] at hes
  rw [Bound.allOrdered_eq]
  have htakes {g : Grammar} : (do operator "+"; g.oneBound false : Parser Bound).Takes :=
    (takes_operator (by decide)).bind_left _
  have hj : isOperator "+" j = false := h.whileSees_ends htakes rfl
  have hend := hrest.plus_eq_false hj
  have hitem : ∀ i b m, b ∈ bs → isOperator "+" i = true →
      (do operator "+"; (atDepth k).oneBound false : Parser Bound).Gives i b m →
      ∀ ts, TypeEnds false m ts →
      (do operator "+"; (atDepth n).oneBound false : Parser Bound).Reads
        ((Token.operator "+" ++ b.tokens) ++ ts) ts (· = b.ordered) ∧
        isOperator "+" ((Token.operator "+" ++ b.tokens) ++ ts) = true := by
    intro i b m hb _ hgives ts hts
    obtain ⟨-, hgives⟩ := hgives.operator_bind
    have hle := Token.sizeAll_le_flatMap hb fun b => Token.operator "+" ++ b.tokens
    rw [Token.sizeAll_append] at hle
    have hread := (keeps_typeBound hk hgives n (by omega)
      (fun e he => hes e (List.mem_flatMap_of_mem hb he)) ts hts).1
    rw [List.append_assoc]
    exact ⟨(reads_operator_written "+" _).bind fun _ _ => hread, rfl⟩
  exact h.whileSees.reads htakes hitem (fun i a m ts hi _ => typeEnds_plus hi rfl) hrest hend

end Grammar

end RowFactory
