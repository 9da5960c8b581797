import RowFactory.Proofs.Printed.Arguments

namespace RowFactory

open RowFactory.Parser RowFactory.Grammar

/-- A segment is read back where no arguments follow it, and its name can be a segment alone. -/
structure Segment.IsKept (s : Segment) : Prop where
  again : ReadsAgain (·.segment false) (beforeAngle false · = false) s.tokens s.embedded s.ordered
  name : s.name.endsPath

/-- The segments of a path are read back. -/
structure Path.IsKept (p : Path) : Prop where
  nonempty : p.segments ≠ []
  segments : ∀ s ∈ p.segments, s.IsKept

/-- What is written for the segments of a path behind the first. -/
def laterSegments (segments : List Segment) : List Token :=
  segments.flatMap fun s => Token.operator "::" ++ s.tokens

theorem Segment.joined_cons (s : Segment) (segments : List Segment) :
    Segment.joined (s :: segments) = s.tokens ++ laterSegments segments := by
  induction segments generalizing s with
  | nil => simp [joined, laterSegments]
  | cons t segments ih => simp [joined, ih, laterSegments]

theorem Segment.exists_tokens_eq (s : Segment) : ∃ ts, s.tokens = .ident s.name :: ts := by
  cases s with
  | plain name => exact ⟨[], rfl⟩
  | angle name turbofish arguments trailing =>
    exact ⟨_, by simp only [tokens, List.cons_append]; rfl⟩
  | round name inputs trailing output => exact ⟨_, rfl⟩

/-- The path with the arguments in it in the order in which they are written. -/
def Path.ordered (p : Path) : Path := ⟨p.leadingColon, Segment.allOrdered p.segments⟩

theorem beforeAngle_laterSegments {rest : List Token} (h : beforeAngle false rest = false)
    (segments : List Segment) : beforeAngle false (laterSegments segments ++ rest) = false := by
  cases segments with
  | nil => exact h
  | cons s segments =>
    obtain ⟨ts, hts⟩ := s.exists_tokens_eq
    simp only [laterSegments, List.flatMap_cons, hts]
    rfl

theorem Segment.isKept_plain {name : Ident} (h : name.endsPath) : (Segment.plain name).IsKept where
  again := fun _ _ _ _ hrest => reads_segment h hrest
  name := h

namespace Grammar

variable {n k : Nat} {i j rest ts : List Token}

/-- A segment that takes its name as a name. -/
def namedSegment (g : Grammar) : Parser Segment := do
  if ← sees (isWord "Self") then g.segmentEnd false (← anyIdent)
  else g.segmentEnd false (← ident)

theorem segment_eq (g : Grammar) : g.segment false = (do
    if ← sees isBareSegment then return .plain (← anyIdent)
    else g.namedSegment) := rfl

/-- The name of a segment is known where what follows it is. -/
theorem gives_namedSegment {g : Grammar} {s : Segment} (h : g.namedSegment.Gives i s j) :
    ∃ name m, i = .ident name :: m ∧ name.endsPath ∧ (g.segmentEnd false name).Gives m s j := by
  rcases h.branch with ⟨hself, h⟩ | ⟨-, h⟩
  · obtain ⟨name, m, hname, hend⟩ := h.bind
    obtain rfl := hname.anyIdent
    obtain rfl : name = .plain "Self" := of_decide_eq_true hself
    exact ⟨_, m, rfl, by decide, hend⟩
  · obtain ⟨name, m, hname, hend⟩ := h.bind
    obtain ⟨rfl, hkeyword⟩ := hname.ident
    exact ⟨_, m, rfl, by simp [Ident.endsPath, hkeyword], hend⟩

theorem reads_namedSegment {g : Grammar} {name : Ident} (hname : name.endsPath)
    (hbare : isBareSegment [.ident name] = false) {Q : Segment → Prop}
    (h : (g.segmentEnd false name).Reads ts rest Q) :
    (g.segment false).Reads (.ident name :: ts) rest Q := by
  rw [segment_eq]
  have hseen : isBareSegment (.ident name :: ts) = false := hbare
  refine (reads_sees hseen).bind_eq (reads_if_false rfl ?_)
  rcases eq_plain_of_endsPath hname with hkeyword | ⟨w, hw, rfl⟩
  · refine (reads_sees rfl).bind_eq (reads_ite (fun _ => ?_) fun _ => ?_)
    · exact (reads_anyIdent name).bind_eq h
    · exact (reads_ident hkeyword).bind_eq h
  · rcases List.mem_cons.mp hw with rfl | hw
    · refine (reads_sees (b := true) (by simp [isWord])).bind_eq (reads_if_true rfl ?_)
      exact (reads_anyIdent _).bind_eq h
    · rw [isBareSegment, List.any_eq_true.mpr ⟨w, hw, by simp [isWord]⟩] at hbare
      cases hbare

theorem keeps_segment (hk : (atDepth k).Keeps) {s : Segment}
    (h : ((atDepth k).segment false).Gives i s j) : s.IsKept := by
  rw [segment_eq] at h
  rcases h.branch with ⟨hbare, h⟩ | ⟨hbare, h⟩
  · obtain ⟨name, hname, rfl⟩ := h.returns
    obtain rfl := hname.anyIdent
    obtain ⟨w, hw, hword⟩ := List.any_eq_true.mp hbare
    obtain rfl : name = .plain w := of_decide_eq_true hword
    have hends : ∀ w ∈ ["super", "self", "crate", "try"], (Ident.plain w).endsPath := by decide
    exact Segment.isKept_plain (hends w hw)
  obtain ⟨name, m, rfl, hname, hend⟩ := gives_namedSegment h
  rcases hend.branch with ⟨-, hend⟩ | ⟨-, hend⟩
  · obtain ⟨turbofish, m', -, hend⟩ := hend.bind
    obtain ⟨⟨as, trailing⟩, harguments, rfl⟩ := hend.returns
    refine ⟨fun n hsize hes rest _ => ?_, hname⟩
    simp only [Segment.tokens, Token.sizeAll_append, Token.sizeAll, Token.size] at hsize
    have hread := keeps_angleArguments hk harguments (n := n) (by omega) hes rest
    have hread : ((atDepth n).segmentEnd false name).Reads
        (operatorIf turbofish "::" ++ ([.punct '<' false] ++
          lifetimesFirst trailing (Argument.parts as) ++ [.punct '>' false] ++ rest)) rest
        (· = (Segment.angle name turbofish as trailing).ordered) := by
      cases turbofish with
      | true =>
        refine (reads_sees (b := true) rfl).bind_eq (reads_if_true rfl ?_)
        exact (reads_operator?_written "::" _).bind_eq (hread.bind_eq (reads_pure rfl))
      | false =>
        refine (reads_sees (b := true) rfl).bind_eq (reads_if_true rfl ?_)
        exact (reads_operator?_false rfl).bind_eq (hread.bind_eq (reads_pure rfl))
    simp only [Segment.tokens, List.append_assoc, List.cons_append, List.nil_append] at hread ⊢
    exact reads_namedSegment hname hbare hread
  · obtain ⟨rfl, -⟩ := hend.pure
    exact Segment.isKept_plain hname

/-- Segments behind the first are read back, up to where no more follow. -/
theorem reads_laterSegments (more : List Token → Bool) {segments : List Segment}
    (hmore : ∀ name ts, more (Token.operator "::" ++ .ident name :: ts) = true)
    (h : ∀ s ∈ segments, s.IsKept) (hsize : Token.sizeAll (laterSegments segments) ≤ n)
    (hes : ∀ e ∈ Segment.allEmbedded segments, e.IsReadBack)
    (hrest : beforeAngle false rest = false) (hend : more rest = false) :
    (whileSees more (do operator "::"; (atDepth n).segment false)).Reads
      (laterSegments segments ++ rest) rest (· = segments.map Segment.ordered) := by
  rw [Segment.allEmbedded_eq] at hes
  have hitem : ∀ s ∈ segments, ∀ ts, beforeAngle false ts = false →
      (do operator "::"; (atDepth n).segment false : Parser Segment).Reads
        ((Token.operator "::" ++ s.tokens) ++ ts) ts (· = s.ordered) ∧
      more ((Token.operator "::" ++ s.tokens) ++ ts) = true := by
    intro s hs ts hts
    have hle := Token.sizeAll_le_flatMap hs fun s => Token.operator "::" ++ s.tokens
    have hsmall : Token.sizeAll s.tokens ≤ n := by
      simp only [Token.sizeAll_append] at hle
      exact (Nat.le_of_add_left_le hle).trans hsize
    have hread := (h s hs).again n hsmall (fun e he => hes e (List.mem_flatMap_of_mem hs he)) ts hts
    obtain ⟨us, hus⟩ := s.exists_tokens_eq
    rw [List.append_assoc]
    refine ⟨(reads_operator_written "::" _).bind fun _ _ => hread, ?_⟩
    rw [hus]
    exact hmore _ _
  refine reads_whileSees_map ((takes_operator (by decide)).bind_left _) hitem (fun s hs ts => ?_)
    hrest hend
  obtain ⟨us, hus⟩ := s.exists_tokens_eq
  rw [hus]
  rfl

/-- A path whose segments are read back is read back. -/
theorem reads_path_of_kept {p : Path} (h : p.IsKept) (hsize : Token.sizeAll p.tokens ≤ n)
    (hes : ∀ e ∈ Segment.allEmbedded p.segments, e.IsReadBack) (hrest : EndsPath false rest) :
    ((atDepth n).path false).Reads (p.tokens ++ rest) rest (· = p.ordered) := by
  obtain ⟨leading, segments⟩ := p
  obtain ⟨hne, h⟩ := h
  obtain ⟨s, segments, rfl⟩ := List.exists_cons_of_ne_nil hne
  simp only [Path.tokens, Segment.joined_cons, Token.sizeAll_append] at hsize
  simp only [Segment.allEmbedded, List.mem_append] at hes
  have hfirst := (h s List.mem_cons_self).again n (by omega) (fun e he => hes e (.inl he)) _
    (beforeAngle_laterSegments hrest.angle segments)
  have hlater := reads_laterSegments beforeSegment (fun _ _ => rfl)
    (fun t ht => h t (List.mem_cons_of_mem _ ht)) (n := n) (by omega) (fun e he => hes e (.inr he))
    hrest.angle hrest.segment
  have hpath : (do
      let first ← (atDepth n).segment false
      let rest ← whileSees beforeSegment do operator "::"; (atDepth n).segment false
      return ⟨leading, first :: rest⟩ : Parser Path).Reads
      (s.tokens ++ (laterSegments segments ++ rest)) rest
      (· = Path.ordered ⟨leading, s :: segments⟩) := by
    refine hfirst.bind_eq (hlater.bind_eq (reads_pure ?_))
    rw [Path.ordered, Segment.allOrdered_eq]
    rfl
  rw [Path.tokens, Segment.joined_cons, List.append_assoc, List.append_assoc]
  cases leading with
  | true => exact (reads_operator?_written "::" _).bind_eq hpath
  | false =>
    obtain ⟨us, hus⟩ := s.exists_tokens_eq
    refine (reads_operator?_false ?_).bind_eq hpath
    rw [hus]
    rfl

theorem keeps_laterSegments (hk : (atDepth k).Keeps) {more : List Token → Bool}
    {segments : List Segment}
    (h : (whileSees more (do operator "::"; (atDepth k).segment false)).Gives i segments j) :
    ∀ s ∈ segments, s.IsKept := by
  intro s hs
  obtain ⟨i', m, -, h⟩ := h.whileSees.exists_gives hs
  obtain ⟨-, h⟩ := h.operator_bind
  exact keeps_segment hk h

/-- The segments of a path that has been read are read back. -/
theorem keeps_path (hk : (atDepth k).Keeps) {p : Path} (h : ((atDepth k).path false).Gives i p j) :
    p.IsKept := by
  obtain ⟨leading, m, -, h⟩ := h.bind
  obtain ⟨first, m', hfirst, h⟩ := h.bind
  obtain ⟨segments, hsegments, rfl⟩ := h.returns
  refine ⟨List.cons_ne_nil _ _, fun s hs => ?_⟩
  rcases List.mem_cons.mp hs with rfl | hs
  · exact keeps_segment hk hfirst
  · exact keeps_laterSegments hk hsegments s hs

/-- What the segments name behind a type and, where there is one, a trait of it. -/
def qualified (self : Ty) (trait : Option Path) (segments : List Segment) : Ty :=
  match trait with
  | some t => .path (some self) t.segments.length t.leadingColon (t.segments ++ segments)
  | none => .path (some self) 0 true segments

/-- A qualified path behind its type and trait. -/
def qualifiedEnd (g : Grammar) (self : Ty) (trait : Option Path) : Parser Ty := do
  operator ">"
  operator "::"
  let first ← g.segment false
  let later ← whileSees (isOperator "::") do operator "::"; g.segment false
  return qualified self trait (first :: later)

theorem qualifiedPath_eq (g : Grammar) : g.qualifiedPath false = (do
    operator "<"
    let self ← g.type true
    let trait ← ifSees (isWord "as") do
      word "as"
      g.path false
    g.qualifiedEnd self trait) := by
  unfold qualifiedPath qualifiedEnd
  iterate 3 refine congrArg (_ >>= ·) (funext fun _ => ?_)
  rename_i trait
  cases trait <;> rfl

/-- What is written for the trait of a type in front of its segments. -/
def traitTokens : Option Path → List Token
  | some t => .word "as" :: t.tokens
  | none => []

theorem tokens_qualified (self : Ty) {trait : Option Path} (hne : ∀ t ∈ trait, t.segments ≠ [])
    (segments : List Segment) : (qualified self trait segments).tokens =
      .punct '<' false :: (self.tokens ++ (traitTokens trait ++
        .punct '>' false :: laterSegments segments)) := by
  cases trait with
  | none => simp [qualified, traitTokens, Ty.tokens, Segment.parts_eq, laterSegments, List.flatMap_map]
  | some t =>
    have hlength : t.segments.length ≠ 0 := by simpa using hne t rfl
    have htake : (Segment.parts (t.segments ++ segments)).take t.segments.length =
        t.segments.map Segment.tokens := by
      rw [Segment.parts_eq, List.map_append]
      exact List.take_left' (by simp)
    have hdrop : (Segment.parts (t.segments ++ segments)).drop t.segments.length =
        segments.map Segment.tokens := by
      rw [Segment.parts_eq, List.map_append]
      exact List.drop_left' (by simp)
    simp [qualified, traitTokens, Ty.tokens, htake, hdrop, hlength, Path.tokens, Segment.joined_eq,
      laterSegments, List.flatMap_map]

theorem embedded_qualified (plus : Bool) (self : Ty) (trait : Option Path)
    (segments : List Segment) : (qualified self trait segments).embedded plus =
      self.embedded true ++ ((trait.toList.flatMap fun t => Segment.allEmbedded t.segments) ++
        Segment.allEmbedded segments) := by
  cases trait <;> simp [qualified, Ty.embedded, Segment.allEmbedded_eq]

theorem ordered_qualified (self : Ty) (trait : Option Path) (segments : List Segment) :
    (qualified self trait segments).ordered =
      qualified self.ordered (trait.map Path.ordered) (Segment.allOrdered segments) := by
  cases trait <;> simp [qualified, Ty.ordered, Segment.allOrdered_eq, Path.ordered]

theorem reads_qualifiedEnd (self : Ty) (trait : Option Path) {segments : List Segment}
    (hne : segments ≠ []) (h : ∀ s ∈ segments, s.IsKept)
    (hsize : Token.sizeAll (laterSegments segments) ≤ n)
    (hes : ∀ e ∈ Segment.allEmbedded segments, e.IsReadBack) (hrest : EndsPath false rest)
    (hcolons : isOperator "::" rest = false) :
    ((atDepth n).qualifiedEnd self trait).Reads
      (.punct '>' false :: (laterSegments segments ++ rest)) rest
      (· = qualified self trait (Segment.allOrdered segments)) := by
  obtain ⟨s, segments, rfl⟩ := List.exists_cons_of_ne_nil hne
  have hcons : laterSegments (s :: segments) =
      Token.operator "::" ++ (s.tokens ++ laterSegments segments) := by
    simp [laterSegments]
  simp only [hcons, Token.sizeAll_append] at hsize
  simp only [Segment.allEmbedded, List.mem_append] at hes
  have hfirst := (h s List.mem_cons_self).again n (by omega) (fun e he => hes e (.inl he)) _
    (beforeAngle_laterSegments hrest.angle segments)
  have hlater := reads_laterSegments (isOperator "::") (fun _ _ => rfl)
    (fun t ht => h t (List.mem_cons_of_mem _ ht)) (n := n) (by omega) (fun e he => hes e (.inr he))
    hrest.angle hcolons
  rw [hcons, List.append_assoc, List.append_assoc]
  refine (reads_operator rfl).bind fun _ _ => (reads_operator_written "::" _).bind fun _ _ => ?_
  refine hfirst.bind_eq (hlater.bind_eq (reads_pure ?_))
  rw [Segment.allOrdered_eq]
  rfl

/-- A type in angle brackets is taken for a parameter only if it is a name alone. -/
theorem eq_name_of_startsGenerics {Q : Ty → Prop}
    (hread : ((atDepth n).type true).Reads (ts ++ rest) rest Q)
    (h : startsGenerics (.punct '<' false :: (ts ++ rest)) = true) :
    ∃ name : Ident, name.isKeyword = false ∧ ts = [.ident name] ∧ endsName rest = true := by
  have hangle : isOperator ">" (ts ++ rest) = false :=
    isOperator_eq_false_of_reads (c := '>') hread (by decide)
  have hmark : isOperator "#" (ts ++ rest) = false :=
    isOperator_eq_false_of_reads (c := '#') hread (by decide)
  have hconst := isWord_eq_false_of_reads hread (w := "const") (by decide)
  have hgenerics : (isOperator "<" (.punct '<' false :: (ts ++ rest)) &&
      (isOperator ">" (ts ++ rest) || isOperator "#" (ts ++ rest) || isWord "const" (ts ++ rest) ||
        ((isLifetime (ts ++ rest) || isIdent (ts ++ rest)) &&
          endsName ((ts ++ rest).drop 1)))) = true := h
  rw [hangle, hmark, hconst, Bool.false_or, Bool.false_or, Bool.false_or, Bool.and_eq_true,
    Bool.and_eq_true] at hgenerics
  obtain ⟨-, hopens, hthird⟩ := hgenerics
  generalize hus : ts ++ rest = us at *
  match us with
  | .lifetime name :: us =>
    have hplus : isOperator "+" us = true := by simpa [isLifetime] using isLoneLifetime_eq_false hread
    obtain ⟨joint, us, rfl⟩ := exists_punct_of_isOperator (c := '+') hplus rfl
    cases joint <;> cases hthird
  | .ident name :: us =>
    have hname : name.isKeyword = false := by simpa [isLifetime, isIdent] using hopens
    cases n with
    | zero => exact absurd (fails_failure _) hread.not_fails
    | succ n =>
      have htype := (Path.isReadable_name hname).1.reads_type (Path.isReadable_name hname).2
        (endsType_of_endsName hthird) n true
      obtain rfl : rest = us := hread.left_eq htype
      exact ⟨name, hname, List.append_cancel_right (by simpa using hus), hthird⟩
  | [] | .punct _ _ :: _ | .literal _ :: _ | .group _ _ :: _ => cases hopens

/-- A path that a type qualifies is read back. -/
theorem keeps_qualifiedPath (hk : (atDepth k).Keeps) {ty : Ty}
    (h : ((atDepth k).qualifiedPath false).Gives i ty j) :
    (∃ self depth leading segments, ty = .path (some self) depth leading segments) ∧
    (∀ plus, ty.KeepsFront plus i j) ∧
    ∀ plus, ReadsAgain (·.qualifiedPath false)
      (fun rest => EndsPath false rest ∧ isOperator "::" rest = false) ty.tokens
      (ty.embedded plus) ty.ordered := by
  rw [qualifiedPath_eq] at h
  obtain ⟨hopens, h⟩ := h.operator_bind
  obtain ⟨self, m, hself, h⟩ := h.bind
  have hkept := hk.type hself
  obtain ⟨trait, m', htrait, h⟩ := h.bind
  obtain ⟨hangle, h⟩ := h.operator_bind
  obtain ⟨-, h⟩ := h.operator_bind
  obtain ⟨first, m₁, hfirst, h⟩ := h.bind
  obtain ⟨later, hlater, rfl⟩ := h.returns
  have hsegments : ∀ s ∈ first :: later, s.IsKept := by
    simpa using And.intro (keeps_segment hk hfirst) (keeps_laterSegments hk hlater)
  have htrait : (∀ t ∈ trait, t.IsKept) ∧ (trait = none → m' = m) ∧
      ∀ rest, TypeEnds true m (traitTokens trait ++ .punct '>' false :: rest) := by
    rcases htrait.ifSees with ⟨has, t, ht, rfl⟩ | ⟨-, rfl, rfl⟩
    · obtain ⟨ts, rfl, hpath⟩ := ht.word_bind
      exact ⟨fun t' ht' => Option.some.inj ht' ▸ keeps_path hk hpath, nofun,
        fun rest => typeEnds_as rfl⟩
    · exact ⟨nofun, fun _ => rfl, fun rest => typeEnds_punct (by decide)⟩
  have htokens := tokens_qualified self (fun t ht => (htrait.1 t ht).nonempty) (first :: later)
  refine ⟨?_, fun plus => ⟨?_, ?_, fun name _ => ?_, fun _ hes rest hseen => ?_⟩,
    fun plus n hsize hes rest hrest => ?_⟩
  · cases trait with
    | none => exact ⟨_, _, _, _, rfl⟩
    | some t => exact ⟨_, _, _, _, rfl⟩
  · rw [htokens]
    exact nofun
  · rw [htokens]
    exact nofun
  · rw [htokens]
    exact nofun
  · rw [htokens] at hseen
    rw [embedded_qualified] at hes
    simp only [List.mem_append] at hes
    simp only [List.cons_append, List.append_assoc] at hseen
    have hread := hkept.reads (Nat.lt_succ_self _) (fun e he => hes e (.inl he))
      (htrait.2.2 (laterSegments (first :: later) ++ rest))
    obtain ⟨name, hname, hlone, hends⟩ := eq_name_of_startsGenerics hread hseen
    cases trait with
    | some t => cases hends
    | none =>
      obtain rfl := htrait.2.1 rfl
      obtain ⟨joint, us, rfl⟩ := exists_punct_of_isOperator (c := '<') hopens rfl
      obtain rfl : us = .ident name :: m' := hkept.name name hname hlone
      have hident : isIdent (.ident name :: m') = true := by simpa [isIdent] using hname
      change (isOperator "<" (.punct '<' joint :: .ident name :: m') && (_ ||
        ((_ || isIdent (.ident name :: m')) && endsName m'))) = true
      simp [hopens, hident, endsName, hangle]
  rw [htokens] at hsize
  rw [embedded_qualified] at hes
  simp only [Token.sizeAll_append, Token.sizeAll, Token.size] at hsize
  simp only [List.mem_append] at hes
  have hself := hkept.reads (n := n) (by omega) (fun e he => hes e (.inl he))
    (htrait.2.2 (laterSegments (first :: later) ++ rest))
  have hend := reads_qualifiedEnd self.ordered (trait.map Path.ordered) (n := n)
    (List.cons_ne_nil _ _) hsegments (by omega) (fun e he => hes e (.inr (.inr he))) hrest.1 hrest.2
  change ((atDepth n).qualifiedPath false).Reads _ rest _
  rw [htokens, ordered_qualified, qualifiedPath_eq]
  simp only [List.cons_append, List.append_assoc]
  refine (reads_operator rfl).bind fun _ _ => hself.bind_eq (Reads.bind_eq ?_ hend)
  cases trait with
  | none => exact reads_ifSees_false rfl
  | some t =>
    simp only [traitTokens, Token.sizeAll] at hsize
    have hread := reads_path_of_kept (htrait.1 t rfl) (n := n) (by omega)
      (fun e he => hes e (.inr (.inl (by simpa using he))))
      (⟨rfl, rfl⟩ : EndsPath false (.punct '>' false :: (laterSegments (first :: later) ++ rest)))
    refine (reads_sees (b := true) rfl).bind_eq (reads_if_true rfl ?_)
    exact ((reads_word "as").bind fun _ _ => hread).bind_eq (reads_pure rfl)

/-- A type in a list is read back where a comma follows, or nothing. -/
theorem readsItem_type {ty : Ty} (h : ty.IsKept true i j) (hsize : Token.sizeAll ty.tokens < n)
    (hes : ∀ e ∈ ty.embedded true, e.IsReadBack) :
    ReadsItem ((atDepth n).type true) List.isEmpty EndsFnParam ty.tokens (· = ty.ordered) where
  reads := fun _ hrest => h.reads hsize hes hrest.typeEnds
  goesOn := fun rest hrest => by
    refine Bool.eq_false_iff.mpr fun hempty => (h.reads hsize hes hrest.typeEnds).not_fails ?_
    rw [List.isEmpty_iff.mp hempty]
    exact fails_type true ⟨fun _ _ => rfl, rfl, ⟨rfl, rfl⟩, by decide, rfl⟩

/-- Types with commas between them are read back. -/
theorem keeps_types (hk : (atDepth k).Keeps) {types : List Ty} {trailing : Bool}
    (h : (commaList ((atDepth k).type true)).Gives i (types, trailing) j)
    (hsize : Token.sizeAll (joinTokens "," trailing (Ty.parts types)) < n)
    (hes : ∀ e ∈ Ty.allEmbedded types, e.IsReadBack) :
    (commaList ((atDepth n).type true)).Reads (joinTokens "," trailing (Ty.parts types)) []
      (· = (Ty.allOrdered types, trailing)) := by
  obtain ⟨last, hitems, htrailing⟩ := h.closedList
  obtain rfl : trailing = (last && !types.isEmpty) := htrailing
  rw [Ty.parts_eq] at hsize ⊢
  rw [Ty.allEmbedded_eq] at hes
  have hitem : ∀ ty ∈ types, ReadsItem ((atDepth n).type true) List.isEmpty EndsFnParam ty.tokens
      (· = ty.ordered) := by
    intro ty hty
    obtain ⟨i', m, -, hgives⟩ := hitems.exists_gives hty
    exact readsItem_type (hk.type hgives) (Token.sizeAll_lt_of_mem hsize hty)
      fun e he => hes e (List.mem_flatMap_of_mem hty he)
  have hread := reads_closedList_map "," (last && !types.isEmpty) hitem
    (fun ts => ⟨.comma ts, rfl⟩) .none rfl
  rw [List.append_nil, Bool.and_assoc, Bool.and_self] at hread
  rw [Ty.allOrdered_eq]
  exact hread

theorem keeps_output (hk : (atDepth k).Keeps) {output : Option Ty}
    (h : ((atDepth k).output? false).Gives i output j)
    (hsize : Token.sizeAll (Ty.outputTokens output) ≤ n)
    (hes : ∀ e ∈ Ty.outputEmbedded output, e.IsReadBack) (hrest : TypeEnds false j rest) :
    ((atDepth n).output? false).Reads (Ty.outputTokens output ++ rest) rest
      (· = Ty.outputOrdered output) := by
  rcases h.ifSees with ⟨-, ty, hty, rfl⟩ | ⟨-, rfl, -⟩
  · obtain ⟨-, hty⟩ := hty.operator_bind
    simp only [Ty.outputTokens, Token.sizeAll_append] at hsize
    have harrow : Token.sizeAll (Token.operator "->") = 2 := rfl
    have hread := (hk.type hty).reads (n := n) (by omega) hes hrest
    rw [Ty.outputTokens, List.append_assoc]
    refine (reads_sees (isOperator_operator "->" _)).bind_eq (reads_if_true rfl ?_)
    exact ((reads_operator_written "->" _).bind fun _ _ => hread).bind_eq (reads_pure rfl)
  · exact reads_ifSees_false hrest.arrow

/-- Arguments in parentheses, with their output, are read back. -/
theorem keeps_roundArguments (hk : (atDepth k).Keeps) {inputs : List Ty} {trailing : Bool}
    {output : Option Ty} (h : (atDepth k).roundArguments.Gives i (inputs, trailing, output) j)
    (hsize : Token.sizeAll (.group .paren (joinTokens "," trailing (Ty.parts inputs)) ::
      Ty.outputTokens output) ≤ n)
    (hes : ∀ e ∈ Ty.allEmbedded inputs ++ Ty.outputEmbedded output, e.IsReadBack)
    (hrest : TypeEnds false j rest) :
    (atDepth n).roundArguments.Reads
      (.group .paren (joinTokens "," trailing (Ty.parts inputs)) ::
        (Ty.outputTokens output ++ rest)) rest
      (· = (Ty.allOrdered inputs, trailing, Ty.outputOrdered output)) := by
  obtain ⟨⟨inputs', trailing'⟩, m, hinputs, h⟩ := h.bind
  obtain ⟨output', houtput, heq⟩ := h.returns
  obtain ⟨rfl, rfl, rfl⟩ : inputs = inputs' ∧ trailing = trailing' ∧ output = output' := by
    simpa using heq
  obtain ⟨body, left, rfl, hbody⟩ := hinputs.group
  simp only [Token.sizeAll, Token.size] at hsize
  simp only [List.mem_append] at hes
  have hread := keeps_types hk hbody (n := n) (by omega) fun e he => hes e (.inl he)
  refine (hread.group .paren).bind_eq ?_
  refine (keeps_output hk houtput (by omega) (fun e he => hes e (.inr he)) hrest).bind_eq ?_
  exact reads_pure rfl

theorem tokens_concat_round (leading : Bool) (init : List Segment) (name : Ident)
    (inputs : List Ty) (trailing : Bool) (output : Option Ty) :
    Path.tokens ⟨leading, init ++ [.round name inputs trailing output]⟩ =
      Path.tokens ⟨leading, init ++ [.plain name]⟩ ++
        .group .paren (joinTokens "," trailing (Ty.parts inputs)) :: Ty.outputTokens output := by
  have hjoin (s : Segment) := joinTokens_concat "::" false (init.map Segment.tokens) s.tokens
  simp only [Path.tokens, Segment.joined_eq, List.map_append, List.map_singleton, hjoin]
  simp [Segment.tokens, operatorIf]

/-- What is read for the path of a bound is read back. -/
structure KeepsBoundPath (p : Path) (j : List Token) : Prop where
  first : ∃ s segments, p.segments = s :: segments ∧ s.name.endsPath
  again : ReadsAgain (·.boundPath) (TypeEnds false j) p.tokens (Segment.allEmbedded p.segments)
    p.ordered

/-- A path that ends in arguments in parentheses is read back if it is without them. -/
theorem keepsBoundPath_round (hk : (atDepth k).Keeps) {leading : Bool} {init : List Segment}
    {name : Ident} {inputs : List Ty} {trailing : Bool} {output : Option Ty}
    (hkept : Path.IsKept ⟨leading, init ++ [.plain name]⟩)
    (h : (atDepth k).roundArguments.Gives i (inputs, trailing, output) j) :
    KeepsBoundPath ⟨leading, init ++ [.round name inputs trailing output]⟩ j := by
  refine ⟨?_, fun n hsize hes rest hrest => ?_⟩
  · cases init with
    | nil => exact ⟨_, [], rfl, (hkept.segments (.plain name) (by simp)).name⟩
    | cons s init => exact ⟨s, _, rfl, (hkept.segments s (by simp)).name⟩
  rw [tokens_concat_round, Token.sizeAll_append] at hsize
  rw [Segment.allEmbedded_eq, List.flatMap_append] at hes
  simp only [List.mem_append] at hes
  have hpath := reads_path_of_kept (n := n) hkept (by omega) (fun e he => hes e (.inl ?_))
    (⟨rfl, rfl⟩ : EndsPath false (.group .paren (joinTokens "," trailing (Ty.parts inputs)) ::
      (Ty.outputTokens output ++ rest)))
  · have harguments := keeps_roundArguments hk h (n := n) (by omega) (fun e he => hes e (.inr ?_))
      hrest
    · rw [tokens_concat_round, List.append_assoc, List.cons_append]
      refine hpath.withWritten.unwritten.bind ?_
      rintro ⟨q, written⟩ rfl
      refine reads_ahead.bind_eq (reads_if_true ?_ ((reads_write _).bind fun _ _ => ?_))
      · simp [Path.ordered, Segment.allOrdered_eq, Segment.ordered, endsBare, beforeRound, isGroup]
      refine (reads_operator?_false rfl).unwritten.bind_eq (harguments.bind_eq (reads_pure ?_))
      simp [Path.ordered, Segment.allOrdered_eq, Segment.ordered, giveRound, Segment.name]
    · simpa [Segment.embedded] using he
  · simpa [Segment.allEmbedded_eq, Segment.embedded] using he

theorem keeps_boundPath (hk : (atDepth k).Keeps) {p : Path}
    (h : (atDepth k).boundPath.Gives i p j) : KeepsBoundPath p j := by
  obtain ⟨⟨⟨leading, segments⟩, written⟩, m, hpath, h⟩ := h.bind
  have hkept : Path.IsKept ⟨leading, segments⟩ := keeps_path hk hpath.unwritten.withWritten
  rcases h.ahead_bind.ite with ⟨hround, h⟩ | ⟨-, h⟩
  · obtain ⟨u, m₁, -, h⟩ := h.write_bind.bind
    obtain ⟨⟨inputs, trailing, output⟩, m₂, harguments, h⟩ := h.bind
    obtain ⟨rfl, rfl⟩ := h.pure
    rcases segments.eq_nil_or_concat with rfl | ⟨init, last, rfl⟩
    · exact absurd rfl hkept.nonempty
    have hplain : Path.IsKept ⟨leading, init ++ [.plain last.name]⟩ := by
      refine ⟨by simp, fun s hs => ?_⟩
      rcases List.mem_append.mp hs with hs | hs
      · exact hkept.segments s (by simp [hs])
      · rw [List.mem_singleton.mp hs]
        exact Segment.isKept_plain (hkept.segments last (by simp)).name
    have hround := keepsBoundPath_round hk hplain harguments
    simpa [giveRound] using hround
  · obtain ⟨rfl, rfl⟩ := h.write_bind.pure
    obtain ⟨s, segments, rfl⟩ := List.exists_cons_of_ne_nil hkept.nonempty
    refine ⟨⟨s, segments, rfl, (hkept.segments s (by simp)).name⟩, ?_⟩
    intro n hsize hes rest hrest
    have hread := reads_path_of_kept hkept hsize hes hrest.toEndsPath
    refine hread.withWritten.unwritten.bind ?_
    rintro ⟨q, written⟩ rfl
    refine reads_ahead.bind_eq (reads_if_false (by simp [hrest.round]) ?_)
    exact (reads_write _).bind fun _ _ => reads_pure rfl

/-- A segment begins with its name, and a name alone is all that is taken for it. -/
theorem gives_segment {g : Grammar} {s : Segment} (h : (g.segment false).Gives i s j) :
    ∃ m, i = .ident s.name :: m ∧ ∀ name, s = .plain name → m = j := by
  rw [segment_eq] at h
  rcases h.branch with ⟨-, h⟩ | ⟨-, h⟩
  · obtain ⟨name, hname, rfl⟩ := h.returns
    exact ⟨j, hname.anyIdent, fun _ _ => rfl⟩
  obtain ⟨name, m, rfl, -, hend⟩ := gives_namedSegment h
  rcases hend.branch with ⟨-, hend⟩ | ⟨-, hend⟩
  · obtain ⟨turbofish, m', -, hend⟩ := hend.bind
    obtain ⟨⟨as, trailing⟩, -, rfl⟩ := hend.returns
    exact ⟨m, rfl, nofun⟩
  · obtain ⟨rfl, rfl⟩ := hend.pure
    exact ⟨_, rfl, fun _ _ => rfl⟩

/-- A path begins with colons or with the name of its first segment; a name alone is all that is
taken for it. -/
theorem gives_path {g : Grammar} {p : Path} (h : (g.path false).Gives i p j) :
    (p.leadingColon = true ∧ isOperator "::" i = true ∨
      p.leadingColon = false ∧ ∃ s segments m, p.segments = s :: segments ∧
        i = .ident s.name :: m) ∧
    ∀ name, p = ⟨false, [.plain name]⟩ → i = .ident name :: j := by
  obtain ⟨leading, m, hleading, h⟩ := h.bind
  obtain ⟨first, m₁, hfirst, h⟩ := h.bind
  obtain ⟨segments, hsegments, rfl⟩ := h.returns
  obtain ⟨m₂, hm, hlast⟩ := gives_segment hfirst
  rcases hleading.branch with ⟨hcolons, hleading⟩ | ⟨-, hleading⟩
  · obtain ⟨u, -, rfl⟩ := hleading.returns
    exact ⟨.inl ⟨rfl, hcolons⟩, nofun⟩
  · obtain ⟨rfl, rfl⟩ := hleading.pure
    refine ⟨.inr ⟨rfl, first, segments, m₂, rfl, hm⟩, fun name hp => ?_⟩
    obtain ⟨rfl, rfl⟩ : first = .plain name ∧ segments = [] := by simpa using hp
    cases hsegments.whileSees
    rw [hm, hlast name rfl]
    rfl

/-- A path is qualified by a type or consists of its segments. -/
theorem keeps_anyPath (hk : (atDepth k).Keeps) {ty : Ty}
    (h : ((atDepth k).anyPath false).Gives i ty j) :
    (isOperator "<" i = true ∧ (∃ self depth leading segments,
        ty = .path (some self) depth leading segments) ∧
      (∀ plus, ty.KeepsFront plus i j) ∧
      ∀ plus, ReadsAgain (·.anyPath false)
        (fun rest => EndsPath false rest ∧ isOperator "::" rest = false) ty.tokens
        (ty.embedded plus) ty.ordered) ∨
    ∃ p : Path, ty = .path none 0 p.leadingColon p.segments ∧ p.IsKept ∧
      ((atDepth k).path false).Gives i p j := by
  rcases h.branch with ⟨hangle, h⟩ | ⟨-, h⟩
  · obtain ⟨⟨self, depth, leading, segments, rfl⟩, hfront, hagain⟩ := keeps_qualifiedPath hk h
    refine .inl ⟨hangle, ⟨self, depth, leading, segments, rfl⟩, hfront,
      fun plus n hsize hes rest hrest => ?_⟩
    have hread := hagain plus n hsize hes rest hrest
    exact (reads_sees (by simp [Ty.tokens, isOperator, startsOperator])).bind_eq
      (reads_if_true rfl hread)
  · obtain ⟨p, hp, rfl⟩ := h.returns
    exact .inr ⟨p, rfl, keeps_path hk hp, hp⟩

theorem isOperator_angle_path (p : Path) (hne : p.segments ≠ []) (ts : List Token) :
    isOperator "<" (p.tokens ++ ts) = false := by
  obtain ⟨leading, segments⟩ := p
  obtain ⟨s, segments, rfl⟩ := List.exists_cons_of_ne_nil hne
  obtain ⟨us, hus⟩ := s.exists_tokens_eq
  cases leading <;> simp [Path.tokens, Segment.joined_cons, hus, operatorIf] <;> rfl

theorem reads_anyPath_of_kept {p : Path} (h : p.IsKept) (hsize : Token.sizeAll p.tokens ≤ n)
    (hes : ∀ e ∈ Segment.allEmbedded p.segments, e.IsReadBack) (hrest : EndsPath false rest) :
    ((atDepth n).anyPath false).Reads (p.tokens ++ rest) rest
      (· = .path none 0 p.leadingColon (Segment.allOrdered p.segments)) := by
  refine (reads_sees (isOperator_angle_path p h.nonempty rest)).bind_eq (reads_if_false rfl ?_)
  exact (reads_path_of_kept h hsize hes hrest).bind_eq (reads_pure rfl)

end Grammar

end RowFactory
