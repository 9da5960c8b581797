import RowFactory.Name.QualifiedName
import RowFactory.Proofs.Source.Ensures
import RowFactory.Proofs.Source.Reads
import RowFactory.Source.File

namespace RowFactory

open RowFactory.Parser

/-- Nothing goes on with a path here. -/
structure EndsPath (inExpr : Bool) (ts : List Token) : Prop where
  segment : beforeSegment ts = false
  angle : beforeAngle inExpr ts = false

/-- The names of a path after its first. -/
def laterNames (names : List Ident) : List Token :=
  names.flatMap fun i => Token.operator "::" ++ [.ident i]

theorem joined_plain (i : Ident) (names : List Ident) :
    Segment.joined ((i :: names).map .plain) = .ident i :: laterNames names := by
  induction names generalizing i with
  | nil => rfl
  | cons j names ih =>
    have hrest := ih j
    simp only [List.map_cons, Segment.joined, Segment.tokens] at hrest ⊢
    rw [hrest]
    rfl

/-- A list is no longer than what is written for it, if something is written for each item. -/
theorem length_le_length_flatMap {α β : Type} (form : α → List β) (hform : ∀ a, form a ≠ [])
    (as : List α) : as.length ≤ (as.flatMap form).length := by
  induction as with
  | nil => exact Nat.le_refl 0
  | cons a as ih =>
    have ha := List.length_pos_iff.mpr (hform a)
    simp only [List.flatMap_cons, List.length_append, List.length_cons]
    omega

theorem length_le_laterNames (names : List Ident) (rest : List Token) :
    names.length ≤ (laterNames names ++ rest).length := by
  have hnames := length_le_length_flatMap (fun i => Token.operator "::" ++ [Token.ident i])
    (by simp) names
  simp only [laterNames, List.length_append] at hnames ⊢
  omega

theorem beforeAngle_laterNames {inExpr : Bool} {rest : List Token} (h : EndsPath inExpr rest)
    (names : List Ident) : beforeAngle inExpr (laterNames names ++ rest) = false := by
  cases names with
  | nil => exact h.angle
  | cons i names => cases inExpr <;> rfl

/-- Reserved words that name no place are no part of a path. -/
theorem isWord_eq_false {w : String} (hw : keywords.contains w ∧ pathKeywords.contains w = false ∧
    w ≠ "try") {i : Ident} (hi : i.endsPath) (ts : List Token) : isWord w (.ident i :: ts) = false := by
  simp only [isWord, decide_eq_false_iff_not]
  rintro rfl
  have hmem : w ∈ keywords := by simpa using hw.1
  have hnot : w ∉ pathKeywords := by simpa using hw.2.1
  simp [Ident.endsPath, Ident.isKeyword, Ident.plain, hmem, hnot, hw.2.2] at hi

/-- Only a few reserved words are part of a path as they are. -/
theorem eq_plain_of_endsPath {i : Ident} (h : i.endsPath) :
    i.isKeyword = false ∨ ∃ w ∈ ["Self", "super", "self", "crate", "try"], i = .plain w := by
  have hwords : ∀ w ∈ pathKeywords, w ∈ ["Self", "super", "self", "crate", "try"] := by decide
  obtain ⟨raw, name⟩ := i
  cases raw with
  | true => exact .inl rfl
  | false =>
    simp only [Ident.endsPath, Bool.or_eq_true, Bool.not_eq_true', decide_eq_true_eq] at h
    rcases h with (h | h) | rfl
    · exact .inl h
    · exact .inr ⟨name, hwords name (by simpa using h), rfl⟩
    · exact .inr ⟨"try", by decide, rfl⟩

namespace Grammar

variable {g : Grammar} {inExpr : Bool} {rest : List Token}

/-- A segment behind its name. -/
def segmentEnd (g : Grammar) (inExpr : Bool) (i : Ident) : Parser Segment := do
  if ← sees (beforeAngle inExpr) then
    let turbofish ← operator? "::"
    let (arguments, trailing) ← g.angleArguments
    return .angle i turbofish arguments trailing
  else return .plain i

theorem reads_segment {i : Ident} (hi : i.endsPath) (hrest : beforeAngle inExpr rest = false) :
    (g.segment inExpr).Reads (.ident i :: rest) rest (· = .plain i) := by
  refine (reads_sees rfl).bind_eq (reads_ite (fun _ => ?_) fun hbare => ?_)
  · exact (reads_anyIdent i).bind_eq (reads_pure rfl)
  · refine (reads_sees rfl).bind_eq ?_
    have hend : (g.segmentEnd inExpr i).Reads rest rest (· = .plain i) :=
      (reads_sees hrest).bind_eq (reads_if_false rfl (reads_pure rfl))
    refine reads_ite (fun _ => (reads_anyIdent i).bind_eq hend) fun hself => ?_
    rcases eq_plain_of_endsPath hi with hkeyword | ⟨w, hw, rfl⟩
    · exact (reads_ident hkeyword).bind_eq hend
    · rcases List.mem_cons.mp hw with rfl | hw
      · exact absurd (by simp [isWord]) hself
      · exact absurd (List.any_eq_true.mpr ⟨w, hw, by simp [isWord]⟩) hbare

theorem reads_laterNames {names : List Ident} (hnames : ∀ i ∈ names, i.endsPath)
    (hrest : EndsPath inExpr rest) {fuel : Nat} (hfuel : names.length ≤ fuel) :
    (whileSeesFrom beforeSegment (do operator "::"; g.segment inExpr) fuel).Reads
      (laterNames names ++ rest) rest (· = names.map .plain) := by
  induction names generalizing fuel with
  | nil =>
    cases fuel with
    | zero => exact reads_pure rfl
    | succ fuel =>
      exact (reads_sees hrest.segment).bind_eq (reads_if_false rfl (reads_pure rfl))
  | cons i names ih =>
    cases fuel with
    | zero => cases hfuel
    | succ fuel =>
      have hi := reads_segment (g := g) (hnames i (by simp)) (beforeAngle_laterNames hrest names)
      have hlater := ih (fun j hj => hnames j (by simp [hj])) (Nat.le_of_succ_le_succ hfuel)
      refine (reads_sees rfl).bind_eq (reads_if_true rfl ?_)
      have hnext : (do operator "::"; g.segment inExpr : Parser Segment).Reads
          (laterNames (i :: names) ++ rest) (laterNames names ++ rest) (· = .plain i) :=
        (reads_operator rfl).bind fun _ _ => hi
      exact hnext.bind_eq (hlater.bind_eq (reads_pure rfl))

end Grammar

/-- A path of at least one name, each of which can be a segment as it is. -/
def Path.IsReadable (p : Path) : Prop :=
  ∃ i names, p.segments = (i :: names).map Segment.plain ∧ ∀ j ∈ i :: names, j.endsPath

namespace Grammar

theorem ensures_segment (g : Grammar) (inExpr : Bool) :
    (g.segment inExpr).Ensures (·.name.endsPath) := by
  intro c s c' hc hrun
  rw [segment, run_sees_bind] at hrun
  split at hrun
  case isTrue hbare =>
    obtain ⟨⟨i, c₁⟩, hi, hrun⟩ := Option.bind_eq_some_iff.mp hrun
    cases hrun
    obtain ⟨w, hw, hword⟩ := List.any_eq_true.mp hbare
    have hends : ∀ w ∈ ["super", "self", "crate", "try"], (Ident.plain w).endsPath := by decide
    exact eq_plain_of_isWord hword hi ▸ hends w hw
  case isFalse =>
    have hend : ∀ i : Ident, i.endsPath →
        (g.segmentEnd inExpr i).Ensures (·.name.endsPath) := fun i hi =>
      ensures_bind fun _ => ensures_ite
        (fun _ => ensures_bind fun _ => ensures_bind fun _ => ensures_pure hi)
        fun _ => ensures_pure hi
    rw [run_sees_bind] at hrun
    split at hrun
    case isTrue hself =>
      obtain ⟨⟨i, c₁⟩, hi, hrun⟩ := Option.bind_eq_some_iff.mp hrun
      have hends : i.endsPath := eq_plain_of_isWord hself hi ▸ (by decide)
      exact hend i hends c₁ s c' (hc.of_suffix (anyIdent.takesFront hi)) hrun
    case isFalse =>
      obtain ⟨⟨i, c₁⟩, hi, hrun⟩ := Option.bind_eq_some_iff.mp hrun
      have hends : i.endsPath := by simp [Ident.endsPath, (ensures_ident c i c₁ hc hi).2]
      exact hend i hends c₁ s c' (hc.of_suffix (ident.takesFront hi)) hrun

theorem ensures_path (g : Grammar) (inExpr : Bool) :
    (g.path inExpr).Ensures fun p =>
      ∃ s rest, p.segments = s :: rest ∧ ∀ t ∈ s :: rest, t.name.endsPath := by
  refine ensures_bind fun _ => (ensures_segment g inExpr).bind fun first hfirst => ?_
  have hrest : (whileSees beforeSegment (do operator "::"; g.segment inExpr)).Ensures
      fun rest => ∀ t ∈ rest, t.name.endsPath :=
    (ensures_bind fun _ => ensures_segment g inExpr).whileSees _
  refine hrest.bind fun rest hrest => ensures_pure ⟨first, rest, rfl, ?_⟩
  simpa [hfirst] using hrest

end Grammar

/-- A path that is read from text is of this kind if it has no arguments. -/
theorem Path.isReadable_of_ofText? {source : String} {p : Path} (h : Path.ofText? source = some p)
    (hplain : ∀ s ∈ p.segments, s.hasArguments = false) : p.IsReadable := by
  obtain ⟨ts, htokens, h⟩ := Option.bind_eq_some_iff.mp h
  obtain ⟨⟨q, c⟩, hread, h⟩ := Option.bind_eq_some_iff.mp h
  obtain ⟨-, -, h⟩ := Option.bind_eq_some_iff.mp h
  cases h
  obtain ⟨s, rest, hsegments, hends⟩ := Grammar.ensures_path _ _ (.start ts) p c
    (Token.namesSpelled_of_tokens? htokens) hread
  have hnames : ∀ s ∈ p.segments, s = .plain s.name := by
    intro s hs
    have hbare := hplain s hs
    cases s with
    | plain name => rfl
    | _ => cases hbare
  refine ⟨s.name, rest.map Segment.name, ?_, ?_⟩
  · rw [← List.map_cons, ← hsegments, List.map_map]
    exact (List.map_id _).symm.trans (List.map_congr_left hnames)
  · simpa using hends

/-- The path does not begin with the word `try`, which cannot begin a path. -/
def Path.startsPlain (p : Path) : Bool :=
  p.leadingColon || (p.segments.head?.map Segment.name) != some (.plain "try")

/-- A name alone is a path that can stand anywhere. -/
theorem Path.isReadable_name {i : Ident} (hi : i.isKeyword = false) :
    Path.IsReadable ⟨false, [.plain i]⟩ ∧ Path.startsPlain ⟨false, [.plain i]⟩ := by
  have htry : i ≠ .plain "try" := by
    rintro rfl
    cases hi
  exact ⟨⟨i, [], rfl, by simp [Ident.endsPath, hi]⟩, by simp [startsPlain, Segment.name, htry]⟩

/-- A path of names, the first of which is not the word `try` unless colons stand before it. -/
inductive StartsPath : List Token → Prop where
  | colons (rest : List Token) : StartsPath (.punct ':' true :: .punct ':' false :: rest)
  | name {i : Ident} {rest : List Token} (hi : i.endsPath) (htry : i ≠ .plain "try")
    (hrest : isOperator "#" rest = false) : StartsPath (.ident i :: rest)

namespace StartsPath

variable {ts : List Token} (h : StartsPath ts)
include h

theorem isWord_eq_false {w : String} (hw : keywords.contains w ∧ pathKeywords.contains w = false) :
    isWord w ts = false := by
  cases h with
  | colons => rfl
  | @name i rest hi htry _ =>
    by_cases hwt : w = "try"
    · subst hwt
      simpa [isWord] using htry
    · exact RowFactory.isWord_eq_false ⟨hw.1, hw.2, hwt⟩ hi rest

theorem isOperator_eq_false (op : String) (hop : op.toList.head?.any (· ≠ ':')) :
    isOperator op ts = false := by
  unfold isOperator
  cases hchars : op.toList with
  | nil => simp [hchars] at hop
  | cons c cs =>
    have hc : c ≠ ':' := by simpa [hchars] using hop
    cases h with
    | colons => cases cs <;> simp [startsOperator, hc]
    | name => cases cs <;> simp [startsOperator]

theorem isGroup_eq_false (d : Delimiter) : isGroup d ts = false := by
  cases h <;> rfl

theorem isLifetime_eq_false : isLifetime ts = false := by
  cases h <;> rfl

theorem isLiteral_eq_false : isLiteral ts = false := by
  cases h with
  | colons => rfl
  | @name i rest hi _ _ =>
    have htrue := RowFactory.isWord_eq_false (w := "true") (by decide) hi rest
    have hfalse := RowFactory.isWord_eq_false (w := "false") (by decide) hi rest
    simp only [isWord, decide_eq_false_iff_not] at htrue hfalse
    simp [isLiteral, htrue, hfalse]

theorem startsBuiltin_eq_false : startsBuiltin ts = false := by
  cases h with
  | colons => rfl
  | name _ _ hrest => simp [startsBuiltin, hrest]

theorem beforeOperand_eq_false : beforeOperand ts = false := by
  have hops : ∀ op ∈ ["#", "&", "*", "!", "-"], op.toList.head?.any (· ≠ ':') := by decide
  exact List.any_eq_false.mpr fun op hop => by simp [h.isOperator_eq_false op (hops op hop)]

theorem startsPath_or : (startsPath ts || isOperator "::" ts) = true := by
  cases h with
  | colons => rfl
  | @name i rest hi htry _ =>
    refine Bool.or_eq_true_iff.mpr (.inl (Bool.or_eq_true_iff.mpr ?_))
    rcases eq_plain_of_endsPath hi with hkeyword | ⟨w, hw, rfl⟩
    · exact .inl (by simp [isIdent, hkeyword])
    · refine .inr (List.any_eq_true.mpr ⟨w, ?_, by simp [isWord]⟩)
      simp only [List.mem_cons, List.not_mem_nil, or_false] at hw
      rcases hw with rfl | rfl | rfl | rfl | rfl
      all_goals first | decide | exact absurd rfl htry

/-- A type that begins with a path is one, or goes on with it. -/
theorem reads_oneType {g : Grammar} {plus : Bool} {o : List Token} {Q : Ty → Prop}
    (hpath : (g.pathType plus none).Reads ts o Q) : (g.oneType plus).Reads ts o Q := by
  have hword {w : String} := h.isWord_eq_false (w := w)
  refine reads_cursor.bind fun _ _ => ?_
  refine (reads_ifSees_false (hword (by decide))).bind_eq (reads_ahead.bind_eq ?_)
  refine reads_if_false ?_ (reads_if_false ?_ (reads_if_false rfl (reads_if_false ?_ ?_)))
  · simp [startsFunction, hword (w := "fn") (by decide), hword (w := "unsafe") (by decide),
      hword (w := "extern") (by decide)]
  · exact h.startsBuiltin_eq_false
  · exact h.isGroup_eq_false _
  exact reads_if_true (by simp [h.startsPath_or]) hpath

end StartsPath

namespace Path.IsReadable

variable {p : Path} (h : p.IsReadable) {rest : List Token}
include h

theorem startsPath (hplain : p.startsPlain) (hrest : isOperator "#" rest = false) :
    StartsPath (p.tokens ++ rest) := by
  obtain ⟨i, names, hsegments, hnames⟩ := h
  rw [Path.tokens, hsegments, joined_plain]
  cases hlead : p.leadingColon with
  | true => exact .colons _
  | false =>
    refine .name (hnames i (by simp)) ?_ ?_
    · simpa [Path.startsPlain, hlead, hsegments, Segment.name] using hplain
    · cases names with
      | nil => exact hrest
      | cons j names => rfl

theorem reads_path (g : Grammar) {inExpr : Bool} (hrest : EndsPath inExpr rest) :
    (g.path inExpr).Reads (p.tokens ++ rest) rest (· = p) := by
  obtain ⟨i, names, hsegments, hnames⟩ := h
  have hfirst : (g.segment inExpr).Reads (.ident i :: (laterNames names ++ rest))
      (laterNames names ++ rest) (· = .plain i) :=
    Grammar.reads_segment (hnames i (by simp)) (beforeAngle_laterNames hrest names)
  have hlater : (whileSees beforeSegment (do operator "::"; g.segment inExpr)).Reads
      (laterNames names ++ rest) rest (· = names.map .plain) :=
    reads_ahead.bind_eq (Grammar.reads_laterNames (fun j hj => hnames j (by simp [hj])) hrest
      (length_le_laterNames names rest))
  have htokens : p.tokens ++ rest =
      operatorIf p.leadingColon "::" ++ .ident i :: (laterNames names ++ rest) := by
    rw [Path.tokens, hsegments, joined_plain, List.append_assoc, List.cons_append]
  have hp : p = ⟨p.leadingColon, .plain i :: names.map .plain⟩ := by rw [← List.map_cons, ← hsegments]
  rw [htokens]
  cases hlead : p.leadingColon with
  | true =>
    refine (reads_operator?_true rfl).bind_eq (hfirst.bind_eq (hlater.bind_eq (reads_pure ?_)))
    rw [hp, hlead]
  | false =>
    refine (reads_operator?_false rfl).bind_eq (hfirst.bind_eq (hlater.bind_eq (reads_pure ?_)))
    rw [hp, hlead]

theorem reads_anyPath (hplain : p.startsPlain) (g : Grammar) {inExpr : Bool}
    (hrest : EndsPath inExpr rest) (hhash : isOperator "#" rest = false) :
    (g.anyPath inExpr).Reads (p.tokens ++ rest) rest (· = .path none 0 p.leadingColon p.segments) := by
  have hangle := (h.startsPath hplain hhash).isOperator_eq_false "<" (by decide)
  refine (reads_sees hangle).bind_eq (reads_if_false rfl ?_)
  exact (h.reads_path g hrest).bind_eq (reads_pure rfl)

end Path.IsReadable

/-- Nothing goes on with a type here. -/
structure EndsType (ts : List Token) : Prop extends EndsPath false ts where
  call : isOperator "!" ts = false
  plus : isOperator "+" ts = false
  mark : isOperator "#" ts = false

namespace Path.IsReadable

variable {p : Path} (h : p.IsReadable) (hplain : p.startsPlain) {rest : List Token}
include h hplain

/-- A path stands where a type does. -/
theorem reads_type (hrest : EndsType rest) (depth : Nat) (plus : Bool) :
    ((Grammar.atDepth (depth + 1)).type plus).Reads (p.tokens ++ rest) rest (· = .path none 0 p.leadingColon p.segments) := by
  have hstart := h.startsPath hplain hrest.mark
  refine Reads.writtenAs _ (hstart.reads_oneType ?_)
  refine (h.reads_anyPath hplain _ hrest.toEndsPath hrest.mark).bind_eq (reads_ahead.bind_eq ?_)
  refine reads_if_false (by simp [hrest.call]) (reads_if_false (by simp [hrest.plus]) ?_)
  exact reads_pure rfl

/-- A path stands where a bound of a parameter does, as a trait. -/
theorem reads_bound (hrest : EndsType rest) (hgroup : beforeRound rest = false) (depth : Nat) :
    (Grammar.atDepth (depth + 1)).bound.Reads (p.tokens ++ rest) rest
      (· = .trait false false none p.leadingColon p.segments) := by
  have hstart := h.startsPath hplain hrest.mark
  have hword {w : String} := hstart.isWord_eq_false (w := w)
  have hfor := hword (w := "for") (by decide)
  have hpath : ((Grammar.atDepth depth).boundPath).Reads (p.tokens ++ rest) rest (· = p) := by
    refine ((h.reads_path _ hrest.toEndsPath).withWritten.unwritten).bind ?_
    rintro ⟨q, written⟩ rfl
    refine reads_ahead.bind_eq (reads_if_false (by simp [hgroup]) ?_)
    exact (reads_write _).bind fun _ _ => reads_pure rfl
  refine Reads.writtenAs _ ((reads_sees hstart.isLifetime_eq_false).bind_eq ?_)
  refine reads_if_false rfl (reads_cursor.bind fun _ _ => ?_)
  refine (reads_sees (hstart.isGroup_eq_false _)).bind_eq (reads_if_false rfl ?_)
  have htrait : ((Grammar.atDepth depth).traitBound? false true).Reads (p.tokens ++ rest) rest
      (· = some (.trait false false none p.leadingColon p.segments)) := by
    refine (reads_ifSees_false hfor).bind_eq ?_
    refine (reads_sees (hstart.isGroup_eq_false _)).bind_eq (reads_if_false rfl ?_)
    refine (reads_word?_false (hword (by decide))).bind_eq ?_
    refine (reads_guard (by simp)).bind fun _ _ => ?_
    refine (reads_operator?_false (hstart.isOperator_eq_false _ (by decide))).bind_eq ?_
    refine reads_pure_bind (hpath.bind_eq ?_)
    exact (reads_guard rfl).bind fun _ _ => reads_pure rfl
  exact htrait.bind_eq (reads_pure rfl)

/-- A single parameter in angle brackets, with a path for its bound. -/
theorem reads_boundedParam {name : Ident} (hname : name.isKeyword = false) (depth : Nat) :
    ((Grammar.atDepth (depth + 1)).genericParams).Reads
      (.punct '<' false :: .ident name :: .punct ':' false ::
        (p.tokens ++ .punct '>' false :: rest))
      rest fun _ => True := by
  have hstart : StartsPath (p.tokens ++ .punct '>' false :: rest) := h.startsPath hplain rfl
  have hstop : (isOperator "," (p.tokens ++ .punct '>' false :: rest) ||
      isOperator ">" (p.tokens ++ .punct '>' false :: rest) ||
      isOperator "=" (p.tokens ++ .punct '>' false :: rest)) = false := by
    simp [hstart.isOperator_eq_false "," (by decide), hstart.isOperator_eq_false ">" (by decide),
      hstart.isOperator_eq_false "=" (by decide)]
  have hbound : (Grammar.atDepth (depth + 1)).bound.Reads (p.tokens ++ .punct '>' false :: rest)
      (.punct '>' false :: rest) (· = .trait false false none p.leadingColon p.segments) :=
    h.reads_bound hplain ⟨⟨rfl, rfl⟩, rfl, rfl, rfl⟩ rfl depth
  have htype : ((Grammar.atDepth (depth + 1)).typeParam [] name).Reads
      (.punct ':' false :: (p.tokens ++ .punct '>' false :: rest)) (.punct '>' false :: rest)
      fun _ => True := by
    refine Reads.bind (Q := fun _ => True) (m := .punct '>' false :: rest) ?_ fun _ _ => ?_
    · refine (reads_sees rfl).bind_eq (reads_if_true rfl (Reads.writtenAs _ ?_))
      refine (reads_operator rfl).bind fun _ _ => ?_
      exact (hbound.openList_once hstop rfl).mono fun _ _ => trivial
    · exact (reads_operator?_false rfl).bind_eq (reads_if_false rfl (reads_pure trivial))
  have hparam : ((Grammar.atDepth (depth + 1)).declaredParam).Reads
      (.ident name :: .punct ':' false :: (p.tokens ++ .punct '>' false :: rest))
      (.punct '>' false :: rest) fun _ => True := by
    have hblank := isWord_of_isKeyword_eq_false (w := "_") hname (by decide)
      (o := .punct ':' false :: (p.tokens ++ .punct '>' false :: rest))
    have hconst := isWord_of_isKeyword_eq_false (w := "const") hname (by decide)
      (o := .punct ':' false :: (p.tokens ++ .punct '>' false :: rest))
    refine ((reads_whileSees_none rfl).bind_eq (reads_sees hblank)).peek.bind ?_
    rintro _ ⟨_, rfl, rfl⟩
    refine reads_ite (fun h => by cases h) fun _ => ?_
    refine (reads_whileSees_none rfl).bind_eq ((reads_sees rfl).bind_eq (reads_if_false rfl ?_))
    refine (reads_word?_false hconst).bind_eq (reads_if_false rfl ?_)
    exact (reads_ident hname).bind_eq htype
  have hlist := hparam.withWritten.closedList_once (isOperator ">") "," rfl rfl
  refine (reads_sees rfl).bind_eq (reads_if_true rfl ?_)
  refine Reads.bind (Q := fun _ => True) (m := rest) ?_ fun _ _ => reads_pure trivial
  refine Reads.writtenAs _ ((reads_operator rfl).bind fun _ _ => ?_)
  exact hlist.bind fun _ _ => (reads_operator rfl).bind fun _ _ => reads_pure trivial

/-- A path stands where the value does that is called. -/
theorem reads_callee (g : Grammar) (arguments : List Token) :
    (g.atom true).Reads (p.tokens ++ .group .paren arguments :: rest)
      (.group .paren arguments :: rest) (· = .path) := by
  have hstart : StartsPath (p.tokens ++ .group .paren arguments :: rest) :=
    h.startsPath hplain rfl
  have hword {w : String} := hstart.isWord_eq_false (w := w)
  have hbar := hstart.isOperator_eq_false "|" (by decide)
  refine reads_ahead.bind_eq (reads_if_false hstart.isLiteral_eq_false ?_)
  refine reads_if_false ?_ (reads_if_false ?_ (reads_if_false ?_ (reads_if_false ?_ ?_)))
  · simp [startsAsyncBlock, hword (w := "async") (by decide)]
  · simp [hword (w := "try") (by decide)]
  · simp [startsClosure, startsBinder, hbar,
      hword (w := "move") (by decide), hword (w := "for") (by decide),
      hword (w := "const") (by decide), hword (w := "static") (by decide),
      hword (w := "async") (by decide)]
  · exact hstart.startsBuiltin_eq_false
  refine reads_if_true (by simp [hstart.startsPath_or]) ?_
  refine ((h.reads_anyPath hplain g ⟨rfl, rfl⟩ rfl).writtenAs _).bind_eq (reads_ahead.bind_eq ?_)
  refine reads_if_false ?_ (reads_if_false rfl (reads_pure rfl))
  simp [isOperator, startsOperator]

end Path.IsReadable

end RowFactory
