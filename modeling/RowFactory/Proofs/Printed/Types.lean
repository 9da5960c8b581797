import RowFactory.Proofs.Printed.Functions
import RowFactory.Proofs.Printed.Parens

namespace RowFactory

open RowFactory.Parser

namespace Grammar

variable {n k : Nat} {i j rest ts : List Token} {plus : Bool}

/-- A type that goes on behind the path of a first bound is made of bounds. -/
def objectOf (binder : Option Binder) (type : Ty) (first : Bound) (more : List Bound)
    (trailing : Bool) : Ty :=
  if more.isEmpty && !trailing then
    if binder.isSome then .object false [first] false else type
  else .object false (first :: more) trailing

/-- A type behind its path. -/
def pathEnd (g : Grammar) (plus : Bool) (binder : Option Binder) (leading : Bool)
    (segments : List Segment) (type : Ty) : Parser Ty := do
  let ts ← ahead
  if isOperator "!" ts && !isOperator "!=" ts && segments.all (!·.hasArguments) then
    let (d, arguments) ← callArguments
    return .call ⟨leading, segments.map Segment.name⟩ d arguments
  else
    let (more, trailing) ← boundsTail startsBound (g.oneBound false) plus
    return objectOf binder type (.trait false false binder leading segments) more trailing

theorem pathType_eq (g : Grammar) (plus : Bool) (binder : Option Binder) :
    g.pathType plus binder = (do
      let type ← g.anyPath false
      match type with
      | .path none _ leading segments => g.pathEnd plus binder leading segments type
      | _ => return type) := by
  unfold pathType pathEnd
  refine congrArg (_ >>= ·) (funext fun type => ?_)
  cases type with
  | path self depth leading segments =>
    cases self with
    | none =>
      refine Parser.ext_run fun c => ?_
      change Parser.run (if _ then _ else _) c = Parser.run (if _ then _ else _) c
      split
      · rfl
      · rw [boundsTail_bind]
        change Parser.run (if _ then _ else _) c = Parser.run (if _ then _ else _) c
        split
        · refine congrArg (Parser.run · c) (congrArg (_ >>= ·) (funext fun _ => ?_))
          refine congrArg (_ >>= ·) (funext fun ⟨more, trailing⟩ => ?_)
          cases more <;> cases trailing <;> rfl
        · cases binder <;> rfl
    | some self => rfl
  | _ => rfl

/-- A path that stands where a type may begin with one does not begin with the word `try`. -/
theorem startsPlain_of_gives {g : Grammar} {p : Path} (h : (g.path false).Gives i p j)
    (hi : (startsPath i || isOperator "::" i) = true) : p.startsPlain = true := by
  rcases (gives_path h).1 with ⟨hleading, -⟩ | ⟨-, s, segments, m, hsegments, rfl⟩
  · simp [Path.startsPlain, hleading]
  · have hname : s.name ≠ .plain "try" := by
      intro htry
      have hnone : (startsPath (.ident (.plain "try") :: m) ||
          isOperator "::" (.ident (.plain "try") :: m)) = false := rfl
      rw [htry, hnone] at hi
      cases hi
    simp [Path.startsPlain, hsegments, hname]

/-- What is written for a path that is kept begins as a path does. -/
theorem startsPath_of_kept {p : Path} (hkept : p.IsKept) (hplain : p.startsPlain = true)
    (hrest : isOperator "#" rest = false) : StartsPath (p.tokens ++ rest) := by
  obtain ⟨leading, segments⟩ := p
  obtain ⟨s, segments, rfl⟩ := List.exists_cons_of_ne_nil hkept.nonempty
  have hname := (hkept.segments s List.mem_cons_self).name
  have hlater : isOperator "#" (laterSegments segments ++ rest) = false := by
    cases segments with
    | nil => exact hrest
    | cons t segments => rfl
  cases leading with
  | true =>
    rw [Path.tokens, operatorIf_true, List.append_assoc]
    exact .colons _
  | false =>
    have htry : s.name ≠ .plain "try" := by simpa [Path.startsPlain] using hplain
    rw [Path.tokens, operatorIf_false, List.nil_append, Segment.joined_cons, List.append_assoc]
    cases s with
    | plain name => exact .name hname htry hlater
    | angle name turbofish arguments trailing =>
      cases turbofish <;> exact .name hname htry rfl
    | round name inputs trailing output => exact .name hname htry rfl

/-- A type that begins with a path, perhaps behind a binder, is read as such. -/
theorem reads_oneType_path {p : Path} {binder : Option Binder} (hkept : p.IsKept)
    (hplain : p.startsPlain = true) (hleading : binder.isSome = true → p.leadingColon = false)
    (hbinder : ReadsAgain (·.binder?) (isWord "for" · = false) (binderTokens binder)
      (binderEmbedded binder) binder)
    (hsize : Token.sizeAll (binderTokens binder ++ p.tokens) ≤ n)
    (hes : ∀ e ∈ binderEmbedded binder ++ Segment.allEmbedded p.segments, e.IsReadBack)
    (hrest : EndsPath false rest) (hmark : isOperator "#" rest = false) {Q : Ty → Prop}
    (h : ((atDepth n).pathEnd plus binder p.leadingColon (Segment.allOrdered p.segments)
      (.path none 0 p.leadingColon (Segment.allOrdered p.segments))).Reads rest j Q) :
    ((atDepth n).oneType plus).Reads (binderTokens binder ++ (p.tokens ++ rest)) j Q := by
  rw [Token.sizeAll_append] at hsize
  simp only [List.mem_append] at hes
  have hstart := startsPath_of_kept hkept hplain hmark
  have hword {w : String} := hstart.isWord_eq_false (w := w)
  have hpath : ((atDepth n).pathType plus binder).Reads (p.tokens ++ rest) j Q := by
    rw [pathType_eq]
    have hread := reads_anyPath_of_kept hkept (n := n) (by omega) (fun e he => hes e (.inr he)) hrest
    exact hread.bind_eq h
  have hread := hbinder n (by omega) (fun e he => hes e (.inl he)) _ (hword (w := "for") (by decide))
  refine reads_cursor.bind fun _ _ => hread.bind_eq (reads_ahead.bind_eq ?_)
  refine reads_if_false ?_ (reads_if_false hstart.startsBuiltin_eq_false ?_)
  · simp [startsFunction, hword (w := "fn") (by decide), hword (w := "unsafe") (by decide),
      hword (w := "extern") (by decide)]
  cases binder with
  | none =>
    refine reads_if_false rfl (reads_if_false (hstart.isGroup_eq_false _) ?_)
    exact reads_if_true (by simp [hstart.startsPath_or]) hpath
  | some binder =>
    refine reads_if_true rfl ((reads_require ?_).bind fun _ _ => hpath)
    have hcolons : isOperator "::" (p.tokens ++ rest) = false := by
      obtain ⟨leading, segments⟩ := p
      obtain rfl : leading = false := hleading rfl
      obtain ⟨s, segments, rfl⟩ := List.exists_cons_of_ne_nil hkept.nonempty
      obtain ⟨us, hus⟩ := s.exists_tokens_eq
      rw [Path.tokens, Segment.joined_cons, hus]
      rfl
    simpa [hcolons] using hstart.startsPath_or

/-- What is written for bounds behind a first one. -/
def tailTokens (more : List Bound) (trailing : Bool) : List Token :=
  operatorIf (trailing || !more.isEmpty) "+" ++ joinTokens "+" trailing (Bound.parts more)

section

variable (binder : Option Binder) (p : Path) (more : List Bound) (trailing : Bool)

/-- The type that goes on behind the path. -/
def pathObject : Ty :=
  objectOf binder (.path none 0 p.leadingColon p.segments)
    (.trait false false binder p.leadingColon p.segments) more trailing

/-- What comes behind the path decides what type it is. -/
theorem pathObject_cases :
    (more = [] ∧ trailing = false ∧ binder = none ∧
      pathObject binder p more trailing = .path none 0 p.leadingColon p.segments) ∨
    (more = [] ∧ trailing = false ∧ pathObject binder p more trailing =
      .object false [.trait false false binder p.leadingColon p.segments] false) ∨
    ((trailing || !more.isEmpty) = true ∧ pathObject binder p more trailing =
      .object false (.trait false false binder p.leadingColon p.segments :: more) trailing) := by
  cases more <;> cases trailing <;> cases binder <;> simp [pathObject, objectOf]

theorem tokens_pathObject : (pathObject binder p more trailing).tokens =
    binderTokens binder ++ (p.tokens ++ tailTokens more trailing) := by
  have hfirst : (Bound.trait false false binder p.leadingColon p.segments).tokens =
      binderTokens binder ++ p.tokens := tokens_trait false false binder p
  have hempty : (Bound.parts more).isEmpty = more.isEmpty := by
    rw [Bound.parts_eq, List.isEmpty_map]
  have hjoin := joinTokens_cons "+" trailing (binderTokens binder ++ p.tokens) (Bound.parts more) []
  rw [List.append_nil, List.append_nil, hempty, List.append_assoc] at hjoin
  rcases pathObject_cases binder p more trailing with ⟨rfl, rfl, rfl, h⟩ | ⟨rfl, rfl, h⟩ | ⟨-, h⟩
  · rw [h]
    exact (List.append_nil _).symm
  · rw [h, Ty.tokens, Bound.parts, hfirst]
    exact hjoin
  · rw [h, Ty.tokens, Bound.parts, hfirst]
    exact hjoin

theorem embedded_pathObject : (pathObject binder p more trailing).embedded plus =
    binderEmbedded binder ++ (Segment.allEmbedded p.segments ++ Bound.allEmbedded more) := by
  rcases pathObject_cases binder p more trailing with
    ⟨rfl, rfl, rfl, h⟩ | ⟨rfl, rfl, h⟩ | ⟨hmore, h⟩ <;>
    simp [h, Ty.embedded, Bound.allEmbedded, Bound.embedded, binderEmbedded]

theorem ordered_pathObject : (pathObject binder p more trailing).ordered =
    pathObject binder p.ordered (Bound.allOrdered more) trailing := by
  cases more <;> cases trailing <;> cases binder <;> rfl

end

/-- A type that can be read in parentheses is a bound there. -/
theorem isKeptInParens_of_type {ty : Ty} {b : Bound}
    (hagain : ReadsAgain (·.oneType true) (TypeEnds true j) ty.tokens b.embedded ty.ordered)
    (hfront : isLifetime ty.tokens = false) (htokens : b.tokens = [.group .paren ty.tokens])
    (hbound : parenBound? ty.ordered = some b.ordered) : b.IsKeptInParens := by
  refine ⟨ty.tokens, htokens, fun n hsize hes => ⟨.paren ty.ordered, ?_, .inr ⟨_, rfl, hbound⟩⟩⟩
  obtain ⟨n, rfl⟩ := Nat.exists_eq_add_one.mpr (Nat.zero_lt_of_lt hsize)
  have hread : ((atDepth (n + 1)).type true).Reads (ty.tokens ++ []) [] (· = ty.ordered) :=
    Reads.writtenAs _ (hagain n (Nat.le_of_lt_succ hsize) hes [] typeEnds_nil)
  have hcontent := reads_parenContent_of_type hread hfront .none
    ((reads_operator?_false rfl).bind_eq
      (reads_if_false rfl (reads_pure (Q := (· = .paren ty.ordered)) rfl)))
  rwa [List.append_nil] at hcontent

/-- Only a path of one name is written as a name. -/
theorem eq_name_of_tokens {p : Path} (hne : p.segments ≠ []) {name : Ident}
    (h : p.tokens ++ ts = [.ident name]) : p = ⟨false, [.plain name]⟩ ∧ ts = [] := by
  obtain ⟨leading, segments⟩ := p
  obtain ⟨s, segments, rfl⟩ := List.exists_cons_of_ne_nil hne
  cases leading with
  | true => cases h
  | false =>
    rw [Path.tokens, operatorIf_false, List.nil_append, Segment.joined_cons] at h
    cases s with
    | plain name' =>
      cases segments with
      | nil => simpa [Segment.tokens, laterSegments] using h
      | cons t segments => cases h
    | angle name' turbofish arguments trailing => cases turbofish <;> cases h
    | round name' inputs trailing output => cases h

section

variable {ty : Ty}

/-- No name, lifetime, binder or qualified path begins here. -/
def beginsOtherwise (ts : List Token) : Bool :=
  !(isIdent ts || isLifetime ts || isWord "for" ts || isOperator "<" ts)

theorem keepsFront_of_otherwise (h : beginsOtherwise ty.tokens = true) :
    ty.KeepsFront plus i j := by
  simp only [beginsOtherwise, Bool.not_eq_true', Bool.or_eq_false_iff] at h
  obtain ⟨⟨⟨hident, hlifetime⟩, hfor⟩, hangle⟩ := h
  refine ⟨by simp [hlifetime], by simp [hfor], fun name hkeyword htokens => ?_, by simp [hangle]⟩
  simp [htokens, isIdent, hkeyword] at hident

theorem keepsFront_of_startsPath (h : StartsPath ty.tokens)
    (hname : ∀ name : Ident, ty.tokens = [.ident name] → i = .ident name :: j) :
    ty.KeepsFront plus i j where
  lifetime := by simp [h.isLifetime_eq_false]
  binder := by simp [h.isWord_eq_false (w := "for") (by decide)]
  name := fun name _ => hname name
  generics := by simp [h.isOperator_eq_false "<" (by decide)]

theorem keepsFront_of_for (h : ∃ us, ty.tokens = .word "for" :: us)
    (hi : isWord "for" i = true) : ty.KeepsFront plus i j := by
  obtain ⟨us, htokens⟩ := h
  refine ⟨?_, fun _ => hi, fun name hkeyword hname => ?_, ?_⟩
  · rw [htokens]
    exact nofun
  · rw [htokens] at hname
    obtain rfl : name = .plain "for" := by
      obtain ⟨hword, -⟩ := List.cons.inj hname
      exact (Token.ident.inj hword).symm
    cases hkeyword
  · rw [htokens]
    exact nofun

end

/-- A type that goes on behind a path is read back. -/
theorem isKept_pathObject (hk : (atDepth k).Keeps) {p : Path} {binder : Option Binder}
    {more : List Bound} {trailing : Bool} {i' m : List Token} (hi' : binder = none → i' = i)
    (hfor : binder.isSome = true → isWord "for" i' = true) (hkept : p.IsKept)
    (hplain : p.startsPlain = true) (hleading : binder.isSome = true → p.leadingColon = false)
    (hbinder : ReadsAgain (·.binder?) (isWord "for" · = false) (binderTokens binder)
      (binderEmbedded binder) binder)
    (hp : ((atDepth k).path false).Gives i p m)
    (h : (boundsTail startsBound ((atDepth k).oneBound false) plus).Gives m (more, trailing) j) :
    (pathObject binder p more trailing).IsKept plus i' j := by
  have htokens := tokens_pathObject binder p more trailing
  have hagain : ReadsAgain (·.oneType plus) (TypeEnds plus j)
      (pathObject binder p more trailing).tokens
      ((pathObject binder p more trailing).embedded plus)
      (pathObject binder p more trailing).ordered := by
    intro n hsize hes rest hrest
    rw [htokens, tailTokens] at hsize
    simp only [Token.sizeAll_append] at hsize
    rw [embedded_pathObject, ← List.append_assoc] at hes
    obtain ⟨hends, htail⟩ := keeps_boundsTail (·.oneBound false) (keeps_typeBound hk)
      (takes_oneBound _ false) startsBound_of_typeEnds h (n := n) (by omega)
      (fun e he => hes e (List.mem_append_right _ he)) hrest.weaken
    rw [htokens, tailTokens]
    simp only [List.append_assoc]
    refine reads_oneType_path hkept hplain hleading hbinder (n := n)
      (by rw [Token.sizeAll_append]; omega)
      (fun e he => hes e (List.mem_append_left _ he)) hends.toEndsPath hends.mark ?_
    refine reads_ahead.bind_eq (reads_if_false (by simp [hends.call]) ?_)
    refine htail.bind_eq (reads_pure ?_)
    rw [ordered_pathObject]
    rfl
  have hstart : StartsPath (p.tokens ++ tailTokens more trailing) := by
    refine startsPath_of_kept hkept hplain ?_
    cases more <;> cases trailing <;> rfl
  have hfront : isLifetime (pathObject binder p more trailing).tokens = false := by
    rw [htokens]
    cases binder with
    | none => exact hstart.isLifetime_eq_false
    | some binder => rfl
  refine ⟨?_, hagain, ?_⟩
  · cases binder with
    | some binder => exact keepsFront_of_for ⟨_, by rw [htokens]; rfl⟩ (hfor rfl)
    | none =>
      refine keepsFront_of_startsPath (by rw [htokens]; exact hstart) fun name hname => ?_
      rw [htokens] at hname
      obtain ⟨rfl, htail⟩ := eq_name_of_tokens hkept.nonempty hname
      obtain ⟨rfl, rfl⟩ : more = [] ∧ trailing = false := by
        cases more <;> cases trailing <;> first | exact ⟨rfl, rfl⟩ | cases htail
      obtain rfl := boundsTail_none h
      rw [hi' rfl]
      exact (gives_path hp).2 name rfl
  · rintro rfl b hb
    obtain ⟨rfl, rfl, rfl⟩ : more = [] ∧ trailing = false ∧
        b = .trait true false binder p.leadingColon p.segments := by
      rcases pathObject_cases binder p more trailing with
        ⟨rfl, rfl, rfl, heq⟩ | ⟨rfl, rfl, heq⟩ | ⟨hmore, heq⟩ <;> rw [heq] at hb
      · exact ⟨rfl, rfl, (Option.some.inj hb).symm⟩
      · exact ⟨rfl, rfl, (Option.some.inj hb).symm⟩
      · cases more with
        | nil =>
          obtain rfl : trailing = true := by simpa using hmore
          cases hb
        | cons c more =>
          rw [parenBound?_object_many] at hb
          cases hb
    have hembedded : (pathObject binder p [] false).embedded true =
        binderEmbedded binder ++ Segment.allEmbedded p.segments := by
      simp [embedded_pathObject, Bound.allEmbedded]
    rw [hembedded] at hagain
    refine isKeptInParens_of_type hagain hfront ?_ ?_
    · rw [tokens_trait, if_pos rfl, htokens]
      exact congrArg (fun ts => [Token.group .paren ts]) (by simp [traitBoundTokens, tailTokens]; rfl)
    · rw [ordered_pathObject]
      cases binder <;> rfl

/-- Segments without arguments are names. -/
theorem exists_names {segments : List Segment} (hne : segments ≠ [])
    (hbare : segments.all (!·.hasArguments) = true) :
    ∃ name names, segments = (name :: names).map .plain := by
  have hplain : segments = (segments.map Segment.name).map .plain := by
    rw [List.map_map]
    refine (List.map_id _).symm.trans (List.map_congr_left fun s hs => ?_)
    have hs := List.all_eq_true.mp hbare s hs
    cases s with
    | plain name => rfl
    | angle | round => cases hs
  obtain ⟨s, segments, rfl⟩ := List.exists_cons_of_ne_nil hne
  exact ⟨s.name, segments.map Segment.name, hplain⟩

/-- A macro in place of a type is read back. -/
theorem isKept_call {p : Path} (hkept : p.IsKept) (hplain : p.startsPlain = true)
    (hbare : p.segments.all (!·.hasArguments) = true) (d : Delimiter) (arguments : List Token) :
    (Ty.call ⟨p.leadingColon, p.segments.map Segment.name⟩ d arguments).IsKept plus i j := by
  obtain ⟨leading, segments⟩ := p
  obtain ⟨name, names, rfl⟩ := exists_names hkept.nonempty hbare
  have hmap : ((name :: names).map Segment.plain).map Segment.name = name :: names := by
    simp [Segment.name, Function.comp_def]
  have hordered : Segment.allOrdered ((name :: names).map .plain) = (name :: names).map .plain := by
    simp [Segment.allOrdered_eq, Segment.ordered, Function.comp_def]
  have htokens : (Ty.call ⟨leading, name :: names⟩ d arguments).tokens =
      Path.tokens ⟨leading, (name :: names).map .plain⟩ ++ [.punct '!' false, .group d arguments] := by
    rw [Ty.tokens, Path.tokens, joined_plain, NamePath.tokens, joinNames_cons]
    rfl
  rw [hmap]
  have hstart := startsPath_of_kept hkept hplain
    (rfl : isOperator "#" [.punct '!' false, .group d arguments] = false)
  rw [← htokens] at hstart
  refine ⟨keepsFront_of_startsPath hstart ?_, fun n hsize hes rest hrest => ?_,
    fun _ b hb => by simp [parenBound?] at hb⟩
  · intro name hname
    have hlength := congrArg List.length hname
    rw [htokens, List.length_append] at hlength
    simp at hlength
  · rw [htokens, Token.sizeAll_append] at hsize
    rw [htokens, List.append_assoc]
    have hbinder : ReadsAgain (·.binder?) (isWord "for" · = false) (binderTokens none)
        (binderEmbedded none) none := fun n _ _ rest hrest => reads_ifSees_false hrest
    refine reads_oneType_path (n := n) hkept hplain (fun hsome => by cases hsome) hbinder ?_ ?_
      ⟨rfl, rfl⟩ rfl ?_
    · rw [binderTokens, List.nil_append]
      omega
    · simp [binderEmbedded, Segment.allEmbedded_eq, Segment.embedded]
    · have hcall : callArguments.Reads (.punct '!' false :: .group d arguments :: rest) rest
          (· = (d, arguments)) :=
        (reads_operator rfl).bind fun _ _ => reads_of_run fun _ _ _ => ⟨_, _, _, rfl, rfl⟩
      rw [hordered]
      refine reads_ahead.bind_eq (reads_if_true ?_ (hcall.bind_eq (reads_pure ?_)))
      · simp [isOperator, startsOperator, Segment.hasArguments]
      · rw [hmap]
        rfl

/-- A type that begins with a path is read back. -/
theorem keeps_pathType (hk : (atDepth k).Keeps) {binder : Option Binder} {i' : List Token} {ty : Ty}
    (hi' : binder = none → i' = i) (hfor : binder.isSome = true → isWord "for" i' = true)
    (hi : (startsPath i || (binder.isNone && (isOperator "::" i || isOperator "<" i))) = true)
    (hbinder : ReadsAgain (·.binder?) (isWord "for" · = false) (binderTokens binder)
      (binderEmbedded binder) binder)
    (h : ((atDepth k).pathType plus binder).Gives i ty j) : ty.IsKept plus i' j := by
  rw [pathType_eq] at h
  obtain ⟨type, m, htype, h⟩ := h.bind
  rcases keeps_anyPath hk htype with
    ⟨hangle, ⟨self, depth, leading, segments, rfl⟩, hstart, hagain⟩ | ⟨p, rfl, hkept, hp⟩
  · obtain ⟨rfl, rfl⟩ := h.pure
    obtain ⟨ts, hts⟩ : ∃ ts, (Ty.path (some self) depth leading segments).tokens =
        .punct '<' false :: ts := by
      simp [Ty.tokens]
    refine ⟨?_, fun n hsize hes rest hrest => ?_, nofun⟩
    · cases binder with
      | none =>
        obtain rfl := hi' rfl
        exact hstart plus
      | some b =>
        obtain ⟨joint, us, rfl⟩ := exists_punct_of_isOperator (c := '<') hangle rfl
        cases hi
    · have hread := hagain plus n hsize hes rest ⟨hrest.toEndsPath, hrest.colons⟩
      have hpath : ((atDepth n).pathType plus none).Reads
          ((Ty.path (some self) depth leading segments).tokens ++ rest) rest
          (· = (Ty.path (some self) depth leading segments).ordered) := by
        rw [pathType_eq]
        exact hread.bind_eq (reads_pure rfl)
      rw [hts] at hpath ⊢
      refine reads_cursor.bind fun _ _ => (reads_ifSees_false rfl).bind_eq (reads_ahead.bind_eq ?_)
      exact reads_if_false rfl (reads_if_false rfl (reads_if_false rfl (reads_if_false rfl
        (reads_if_true rfl hpath))))
  have hfront : (startsPath i || isOperator "::" i) = true ∧
      (binder.isSome = true → p.leadingColon = false) := by
    rcases (gives_path hp).1 with ⟨-, hcolons⟩ | ⟨hleading, s, segments, m', -, rfl⟩
    · refine ⟨by simp [hcolons], fun hsome => ?_⟩
      obtain ⟨joint, us, rfl⟩ := exists_punct_of_isOperator (c := ':') hcolons rfl
      have hnone : startsPath (.punct ':' joint :: us) = false := rfl
      simp [hnone, Option.isNone_eq_false_iff.mpr hsome] at hi
    · refine ⟨?_, fun _ => hleading⟩
      have hnone : (isOperator "::" (.ident s.name :: m') || isOperator "<" (.ident s.name :: m')) =
          false := rfl
      rw [hnone, Bool.and_false, Bool.or_false] at hi
      rw [hi]
      rfl
  have hplain := startsPlain_of_gives hp hfront.1
  rcases h.ahead_bind.ite with ⟨hcall, h⟩ | ⟨-, h⟩
  · obtain ⟨⟨d, arguments⟩, m', -, h⟩ := h.bind
    obtain ⟨rfl, -⟩ := h.pure
    exact isKept_call hkept hplain (Bool.and_eq_true_iff.mp hcall).2 d arguments
  · obtain ⟨⟨more, trailing⟩, hmore, rfl⟩ := h.returns
    exact isKept_pathObject hk hi' hfor hkept hplain hfront.2 hbinder hp hmore

/-- A literal is read back as the size of an array. -/
theorem reads_size_literal {v : List Token} (h : isLoneLiteral v = true) :
    (withWritten (atDepth (n + 1)).anyExpr).Reads v [] (·.2 = v) := by
  refine (reads_withWritten_of_run (Q := fun _ => True) v fun altered unread => ?_).mono
    fun x hx => hx.2
  obtain ⟨text, rfl⟩ | ⟨name, rfl, rfl | rfl⟩ | ⟨text, rfl, -⟩ := isLoneLiteral_cases h <;>
    exact ⟨_, altered, rfl, trivial⟩

/-- Neither a binder, a function type, a parenthesis nor a path begins here. -/
def startsMarked (ts : List Token) : Bool :=
  !(isWord "for" ts || startsFunction ts || startsBuiltin ts || isGroup .paren ts ||
    (startsPath ts || isOperator "::" ts || isOperator "<" ts))

theorem reads_oneType_marked {g : Grammar} (hts : startsMarked ts = true) {Q : Ty → Prop}
    (h : (g.markedType plus).Reads ts rest Q) : (g.oneType plus).Reads ts rest Q := by
  simp only [startsMarked, Bool.not_eq_true', Bool.or_eq_false_iff] at hts
  obtain ⟨⟨⟨⟨hfor, hfunction⟩, hbuiltin⟩, hparen⟩, ⟨hpath, hcolons⟩, hangle⟩ := hts
  refine reads_cursor.bind fun _ _ => (reads_ifSees_false hfor).bind_eq (reads_ahead.bind_eq ?_)
  refine reads_if_false hfunction (reads_if_false hbuiltin (reads_if_false rfl ?_))
  exact reads_if_false hparen (reads_if_false (by simp [hpath, hcolons, hangle]) h)

/-- A slice or an array is read back. -/
theorem keeps_bracketType (hk : (atDepth k).Keeps) {ty : Ty}
    (h : ((atDepth k).bracketType).Gives i ty j) : ty.IsKept plus i j := by
  obtain ⟨body, left, rfl, hbody⟩ := h.group
  obtain ⟨element, m, helement, hafter⟩ := hbody.bind
  have hkept := hk.type helement
  have in_brackets {ty : Ty} (content : List Token) (htokens : ty.tokens = [.group .bracket content])
      (hbound : parenBound? ty = none)
      (hread : ∀ n, Token.sizeAll content < n → (∀ e ∈ ty.embedded plus, e.IsReadBack) →
        (do
          let element ← (atDepth n).type true
          if ← operator? ";" then
            let length ← withWritten (atDepth n).anyExpr
            return .array element length.2
          else return .slice element : Parser Ty).Reads content [] (· = ty.ordered)) :
      ty.IsKept plus (.group .bracket body :: j) j := by
    refine ⟨keepsFront_of_otherwise (by rw [htokens]; rfl), fun n hsize hes rest _ => ?_,
      fun _ b hb => by simp [hbound] at hb⟩
    · rw [htokens] at hsize ⊢
      simp only [Token.sizeAll, Token.size] at hsize
      refine reads_oneType_marked rfl (reads_cursor.bind fun _ _ => ?_)
      refine (reads_word?_false rfl).bind_eq (reads_if_false rfl ?_)
      refine (reads_sees rfl).bind_eq (reads_if_true rfl ?_)
      exact (hread n (by omega) hes).group .bracket
  rcases hafter.operator?_bind with ⟨-, h⟩ | ⟨-, h⟩
  · obtain ⟨⟨kind, size⟩, hsize, rfl⟩ := h.returns
    refine in_brackets (element.tokens ++ [.punct ';' false] ++ size) (by simp [Ty.tokens]) rfl
      fun n hsize hes => ?_
    simp only [Token.sizeAll_append, Token.sizeAll, Token.size] at hsize
    simp only [Ty.embedded, List.mem_append] at hes
    have hread := hkept.reads (n := n) (by omega) (fun e he => hes e (.inl he))
      (typeEnds_punct (c := ';') (by decide) : TypeEnds true _ (.punct ';' false :: size))
    have hlength : (withWritten (atDepth n).anyExpr).Reads size [] (·.2 = size) := by
      cases hlone : isLoneLiteral size with
      | true =>
        obtain ⟨n, rfl⟩ := Nat.exists_eq_add_one.mpr (Nat.zero_lt_of_lt hsize)
        exact reads_size_literal hlone
      | false =>
        simp only [hlone, Bool.false_eq_true, if_false, List.mem_singleton] at hes
        exact hes (.size size) (.inr rfl) n (by omega)
    simp only [List.append_assoc, List.cons_append, List.nil_append]
    refine hread.bind_eq ((reads_operator?_true rfl).bind_eq (reads_if_true rfl ?_))
    refine hlength.bind ?_
    rintro ⟨kind, ts⟩ rfl
    exact reads_pure rfl
  · obtain ⟨rfl, -⟩ := h.pure
    refine in_brackets element.tokens rfl rfl fun n hsize hes => ?_
    have hread := hkept.reads hsize hes typeEnds_nil
    rw [List.append_nil] at hread
    exact hread.bind_eq ((reads_operator?_false rfl).bind_eq (reads_if_false rfl (reads_pure rfl)))

/-- Bounds do not begin with a star. -/
theorem isOperator_star_eq_false (h : startsBound ts = true) : isOperator "*" ts = false := by
  refine Bool.eq_false_iff.mpr fun hstar => ?_
  obtain ⟨joint, us, rfl⟩ := exists_punct_of_isOperator (c := '*') hstar rfl
  have hopens : startsOpaqueBound (.punct '*' joint :: us) = true := by
    rw [startsOpaqueBound, h, Bool.true_or]
  rcases startsOpaqueBound_punct hopens with hc | ⟨hc, -⟩ <;> cases hc

/-- A type that is only carried through is read back where that is assumed of it. -/
theorem isKept_verbatim {us : List Token} (h : ((atDepth k).oneType plus).Gives i (.verbatim us) j)
    (hus : i = us ++ j) (hangle : isOperator "<" i = false) :
    (Ty.verbatim us).IsKept plus i j := by
  have htest {test : List Token → Bool} (hnil : test [] = false)
      (hcons : ∀ t ts ts', test (t :: ts) = test (t :: ts')) (hseen : test us = true) :
      test i = true := by
    rw [hus]
    cases us with
    | nil => simp [hnil] at hseen
    | cons t us => exact (hcons t _ us).trans hseen
  refine ⟨⟨htest rfl fun t _ _ => by cases t <;> rfl, htest rfl fun t _ _ => by cases t <;> rfl,
    fun name _ htokens => ?_, fun hseen => ?_⟩, fun n hsize hes rest hrest => ?_, nofun⟩
  · obtain rfl : us = [.ident name] := htokens
    exact hus
  · have hi := htest rfl (fun t _ _ => by cases t <;> rfl) hseen
    rw [hangle] at hi
    cases hi
  · exact hes (.type plus us) (List.mem_singleton_self _) k i j h n hsize rest hrest

/-- A trait object is read back behind its word. -/
theorem isKept_dyn (hk : (atDepth k).Keeps) {bs : List Bound} {trailing : Bool} {m : List Token}
    (h : ((atDepth k).typeBounds plus).Gives m (bs, trailing) j) :
    (Ty.object true bs trailing).IsKept plus i j := by
  refine ⟨keepsFront_of_otherwise rfl, fun n hsize hes rest hrest => ?_, by simp [parenBound?]⟩
  simp only [Ty.tokens, wordIf, if_true, Token.sizeAll_append, Token.sizeAll] at hsize
  obtain ⟨hread, hopens⟩ := keeps_typeBounds hk h (n := n) (by omega) hes hrest.weaken
  refine reads_oneType_marked rfl (reads_cursor.bind fun _ _ => ?_)
  refine (reads_word?_true "dyn").bind_eq (reads_if_true rfl ?_)
  refine (reads_operator?_false (isOperator_star_eq_false hopens)).bind_eq ?_
  exact hread.bind_eq (reads_if_false rfl (reads_pure rfl))

/-- An opaque type is read back behind its word. -/
theorem isKept_impl (hk : (atDepth k).Keeps) {bs : List Bound} {trailing : Bool} {m : List Token}
    (h : (boundsOf startsOpaqueBound (atDepth k).opaqueBound plus).Gives m (bs, trailing) j) :
    (Ty.impl bs trailing).IsKept plus i j := by
  refine ⟨keepsFront_of_otherwise rfl, fun n hsize hes rest hrest => ?_, nofun⟩
  simp only [Ty.tokens, Token.sizeAll] at hsize
  obtain ⟨hread, -⟩ := keeps_boundsOf opaqueBound (keeps_opaqueBound hk) (takes_opaqueBound _)
    startsOpaqueBound_of_typeEnds h (n := n) (by omega) hes hrest.weaken
  refine reads_oneType_marked rfl (reads_cursor.bind fun _ _ => ?_)
  refine (reads_word?_false rfl).bind_eq (reads_if_false rfl ?_)
  refine (reads_sees rfl).bind_eq (reads_if_false rfl ?_)
  refine (reads_operator?_false rfl).bind_eq (reads_if_false rfl ?_)
  refine (reads_operator?_false rfl).bind_eq (reads_if_false rfl ?_)
  refine (reads_operator?_false rfl).bind_eq (reads_if_false rfl ?_)
  refine (reads_word?_true "impl").bind_eq (reads_if_true rfl ?_)
  exact hread.bind_eq (reads_pure rfl)

theorem isKept_pointer (hk : (atDepth k).Keeps) {mutable : Bool} {target : Ty} {m : List Token}
    (h : ((atDepth k).type false).Gives m target j) :
    (Ty.pointer mutable target).IsKept plus i j := by
  refine ⟨keepsFront_of_otherwise rfl, fun n hsize hes rest hrest => ?_, nofun⟩
  simp only [Ty.tokens, Token.sizeAll, Token.size] at hsize
  have hread := (hk.type h).reads (n := n) (by omega) hes hrest.weaken
  refine reads_oneType_marked rfl (reads_cursor.bind fun _ _ => ?_)
  refine (reads_word?_false rfl).bind_eq (reads_if_false rfl ?_)
  refine (reads_sees rfl).bind_eq (reads_if_false rfl ?_)
  refine (reads_operator?_true rfl).bind_eq (reads_if_true rfl ?_)
  cases mutable with
  | true =>
    refine (reads_word?_true "mut").bind_eq (reads_if_false rfl ?_)
    exact hread.bind_eq (reads_pure rfl)
  | false =>
    refine (reads_word?_false rfl).bind_eq (reads_if_true rfl ?_)
    exact (reads_word "const").bind fun _ _ => hread.bind_eq (reads_pure rfl)

/-- A reference is read back; its target begins with a lifetime only behind one, or behind `mut`. -/
theorem isKept_reference (hk : (atDepth k).Keeps) {lifetime : Option Ident} {mutable : Bool}
    {target : Ty} {m : List Token} (h : ((atDepth k).type false).Gives m target j)
    (hm : lifetime = none → mutable = false → isLifetime m = false) :
    (Ty.reference lifetime mutable target).IsKept plus i j := by
  have hkept := hk.type h
  refine ⟨keepsFront_of_otherwise rfl, fun n hsize hes rest hrest => ?_, nofun⟩
  simp only [Ty.tokens, List.cons_append, Token.sizeAll, Token.size, Token.sizeAll_append] at hsize
  have hread := hkept.reads (n := n) (by omega) hes hrest.weaken
  have hafter : (do
      let mutable ← word? "mut"
      return .reference lifetime mutable (← (atDepth n).type false) : Parser Ty).Reads
      (wordIf mutable "mut" ++ (target.tokens ++ rest)) rest
      (· = .reference lifetime mutable target.ordered) := by
    cases mutable with
    | true => exact (reads_word?_true "mut").bind_eq (hread.bind_eq (reads_pure rfl))
    | false =>
      have hmut := isWord_eq_false_of_reads hread (w := "mut") (by decide)
      exact (reads_word?_false hmut).bind_eq (hread.bind_eq (reads_pure rfl))
  simp only [Ty.tokens, List.cons_append, List.append_assoc]
  refine reads_oneType_marked rfl (reads_cursor.bind fun _ _ => ?_)
  refine (reads_word?_false rfl).bind_eq (reads_if_false rfl ?_)
  refine (reads_sees rfl).bind_eq (reads_if_false rfl ?_)
  refine (reads_operator?_false rfl).bind_eq (reads_if_false rfl ?_)
  refine (reads_operator?_true rfl).bind_eq (reads_if_true rfl ?_)
  cases lifetime with
  | some name =>
    refine Reads.bind_eq (a := some name) ?_ hafter
    exact (reads_sees rfl).bind_eq (reads_if_true rfl ((reads_lifetime name).bind_eq (reads_pure rfl)))
  | none =>
    refine (reads_ifSees_false ?_).bind_eq hafter
    cases mutable with
    | true => rfl
    | false =>
      have hfront : isLifetime target.tokens = false :=
        Bool.eq_false_iff.mpr fun hseen => by simp [hkept.lifetime hseen] at hm
      have hread := hkept.reads (n := n) (by omega) hes typeEnds_nil
      obtain ⟨t, us, hts⟩ := exists_cons_of_reads_type hread .none
      rw [hts] at hfront ⊢
      cases t <;> first | rfl | cases hfront

theorem isKept_never : Ty.never.IsKept plus i j := by
  refine ⟨keepsFront_of_otherwise rfl, fun n _ _ rest _ => ?_, nofun⟩
  refine reads_oneType_marked rfl (reads_cursor.bind fun _ _ => ?_)
  refine (reads_word?_false rfl).bind_eq (reads_if_false rfl ?_)
  refine (reads_sees rfl).bind_eq (reads_if_false rfl ?_)
  refine (reads_operator?_false rfl).bind_eq (reads_if_false rfl ?_)
  refine (reads_operator?_false rfl).bind_eq (reads_if_false rfl ?_)
  exact (reads_operator?_true rfl).bind_eq (reads_if_true rfl (reads_pure rfl))

/-- Bounds that begin with a lifetime are read back. -/
theorem isKept_lifetimeObject (hk : (atDepth k).Keeps) {bs : List Bound} {trailing : Bool}
    (h : ((atDepth k).typeBounds true).Gives i (bs, trailing) j) (hi : isLifetime i = true) :
    (Ty.object false bs trailing).IsKept plus i j := by
  obtain ⟨name, b, later, rfl⟩ := gives_typeBounds_lifetime h hi
  have hfront : ∃ ts, (Ty.object false (.lifetime name :: b :: later) trailing).tokens =
      .lifetime name :: ts := ⟨_, rfl⟩
  obtain ⟨ts, hts⟩ := hfront
  refine ⟨⟨fun _ => hi, ?_, fun name _ => ?_, ?_⟩, fun n hsize hes rest hrest => ?_,
    fun _ b' hb => by simp [parenBound?_object_many] at hb⟩
  · rw [hts]
    exact nofun
  · rw [hts]
    exact nofun
  · rw [hts]
    exact nofun
  obtain ⟨hread, -⟩ := keeps_typeBounds hk h hsize hes hrest.weaken
  have htokens : (Ty.object false (.lifetime name :: b :: later) trailing).tokens =
      joinTokens "+" trailing (Bound.parts (.lifetime name :: b :: later)) := rfl
  rw [← htokens, hts] at hread
  rw [hts]
  refine reads_oneType_marked rfl (reads_cursor.bind fun _ _ => ?_)
  refine (reads_word?_false rfl).bind_eq (reads_if_false rfl ?_)
  refine (reads_sees rfl).bind_eq (reads_if_false rfl ?_)
  refine (reads_operator?_false rfl).bind_eq (reads_if_false rfl ?_)
  refine (reads_operator?_false rfl).bind_eq (reads_if_false rfl ?_)
  refine (reads_operator?_false rfl).bind_eq (reads_if_false rfl ?_)
  refine (reads_word?_false rfl).bind_eq (reads_if_false rfl ?_)
  refine (reads_word?_false rfl).bind_eq (reads_if_false rfl ?_)
  exact (reads_require rfl).bind fun _ _ => hread.bind_eq (reads_pure rfl)

/-- A type that begins with an operator or a word of its own is read back. -/
theorem keeps_markedType (hk : (atDepth k).Keeps) {ty : Ty}
    (hone : ((atDepth k).oneType plus).Gives i ty j) (h : ((atDepth k).markedType plus).Gives i ty j) :
    ty.IsKept plus i j := by
  obtain ⟨before, hbefore, h⟩ := h.cursor_bind
  rcases h.word?_bind with ⟨m, hm, h⟩ | ⟨-, h⟩
  · obtain ⟨starred, m₁, hstarred, h⟩ := h.bind
    obtain ⟨⟨bs, trailing⟩, m₂, hbounds, h⟩ := h.bind
    rcases h.ite with ⟨-, h⟩ | ⟨-, h⟩
    · obtain ⟨us, hus, rfl⟩ := h.returns
      have htaken : m₂ <:+ before.ahead := by
        rw [hbefore, hm]
        exact (hbounds.suffix.trans hstarred.suffix).trans (List.suffix_cons _ _)
      exact isKept_verbatim hone (hbefore ▸ hus.restoreSince htaken) (by rw [hm]; rfl)
    · obtain ⟨rfl, rfl⟩ := h.pure
      exact isKept_dyn hk hbounds
  rcases h.branch with ⟨-, h⟩ | ⟨-, h⟩
  · exact keeps_bracketType hk h
  rcases h.operator?_bind with ⟨-, h⟩ | ⟨-, h⟩
  · obtain ⟨mutable, m, -, h⟩ := h.bind
    obtain ⟨m₁, h⟩ : ∃ m₁, (do return .pointer mutable (← (atDepth k).type false) : Parser Ty).Gives
        m₁ ty j := by
      rcases h.ite with ⟨-, h⟩ | ⟨-, h⟩
      · obtain ⟨m₁, -, h⟩ := h.word_bind
        exact ⟨m₁, h⟩
      · exact ⟨m, h⟩
    obtain ⟨target, htarget, rfl⟩ := h.returns
    exact isKept_pointer hk htarget
  rcases h.operator?_bind with ⟨-, h⟩ | ⟨-, h⟩
  · obtain ⟨lifetime, m, hlifetime, h⟩ := h.bind
    obtain ⟨mutable, m₁, hmutable, h⟩ := h.bind
    obtain ⟨target, htarget, rfl⟩ := h.returns
    refine isKept_reference hk htarget ?_
    rintro rfl rfl
    rcases hlifetime.ifSees with ⟨-, x, -, hx⟩ | ⟨hnone, -, rfl⟩
    · cases hx
    · rcases hmutable.branch with ⟨-, hmutable⟩ | ⟨-, hmutable⟩
      · obtain ⟨_, -, htrue⟩ := hmutable.returns
        cases htrue
      · rw [hmutable.pure.2]
        exact hnone
  rcases h.operator?_bind with ⟨-, h⟩ | ⟨-, h⟩
  · obtain ⟨rfl, -⟩ := h.pure
    exact isKept_never
  rcases h.word?_bind with ⟨m, -, h⟩ | ⟨-, h⟩
  · obtain ⟨⟨bs, trailing⟩, hbounds, rfl⟩ := h.returns
    exact isKept_impl hk hbounds
  rcases h.word?_bind with ⟨m, -, h⟩ | ⟨-, h⟩
  · obtain ⟨rfl, -⟩ := h.pure
    exact ⟨keepsFront_of_otherwise rfl, fun n _ _ rest _ => reads_infer _ plus rest, nofun⟩
  obtain ⟨hlifetime, h⟩ := h.require_bind
  obtain ⟨⟨bs, trailing⟩, hbounds, rfl⟩ := h.returns
  exact isKept_lifetimeObject hk hbounds hlifetime

/-- A function type is read back. -/
theorem isKept_function (hk : (atDepth k).Keeps) {binder : Option Binder} {ty : Ty} {m : List Token}
    (hfor : binder.isSome = true → isWord "for" i = true)
    (hbinder : ReadsAgain (·.binder?) (isWord "for" · = false) (binderTokens binder)
      (binderEmbedded binder) binder)
    (h : ((atDepth k).functionType binder).Gives m ty j) : ty.IsKept plus i j := by
  obtain ⟨hbound, ts, htokens, hopens, hmem, hread⟩ := keeps_functionType hk plus h
  have hword (rest : List Token) : ∃ w ∈ ["fn", "unsafe", "extern"],
      ts ++ rest = .word w :: (ts ++ rest).drop 1 := by
    obtain ⟨w, hw, hseen⟩ := List.any_eq_true.mp (hopens rest)
    exact ⟨w, hw, eq_word_of_isWord hseen⟩
  refine ⟨?_, fun n hsize hes rest hrest => ?_, fun _ b hb => by simp [hbound] at hb⟩
  · cases binder with
    | some binder => exact keepsFront_of_for ⟨_, by rw [htokens]; rfl⟩ (hfor rfl)
    | none =>
      have hwords : ∀ w ∈ ["fn", "unsafe", "extern"], ∀ us,
          beginsOtherwise (.word w :: us) = true := by
        simp only [List.mem_cons, List.not_mem_nil, or_false]
        rintro w (rfl | rfl | rfl) us <;> rfl
      obtain ⟨w, hw, hts⟩ := hword []
      refine keepsFront_of_otherwise ?_
      rw [htokens, binderTokens, List.nil_append, ← List.append_nil ts, hts]
      exact hwords w hw _
  · rw [htokens, Token.sizeAll_append] at hsize
    rw [htokens, List.append_assoc]
    have hnone : isWord "for" (ts ++ rest) = false := by
      obtain ⟨w, hw, hts⟩ := hword rest
      have hother : ∀ w ∈ ["fn", "unsafe", "extern"], w ≠ "for" := by decide
      rw [hts]
      simpa [isWord, Token.word, Ident.plain] using hother w hw
    refine reads_cursor.bind fun _ _ => ?_
    refine (hbinder n (by omega) (fun e he => hes e (hmem e he)) _ hnone).bind_eq ?_
    exact reads_ahead.bind_eq (reads_if_true (hopens rest) (hread n (by omega) hes rest hrest.weaken))

/-- A type is read back. -/
theorem keeps_oneType (hk : (atDepth k).Keeps) {ty : Ty}
    (hone : ((atDepth k).oneType plus).Gives i ty j) : ty.IsKept plus i j := by
  obtain ⟨before, hbefore, h⟩ := hone.cursor_bind
  obtain ⟨binder, m, hbinder, h⟩ := h.bind
  have hagain : ReadsAgain (·.binder?) (isWord "for" · = false) (binderTokens binder)
      (binderEmbedded binder) binder :=
    fun n hsize hes rest hrest => keeps_binder hk hbinder hsize hes fun _ => hrest
  have hfront : (binder.isSome = true ∧ isWord "for" i = true) ∨ (binder = none ∧ i = m) := by
    rcases hbinder.ifSees with ⟨hseen, b, -, rfl⟩ | ⟨-, rfl, rfl⟩
    · exact .inl ⟨rfl, hseen⟩
    · exact .inr ⟨rfl, rfl⟩
  have hfor : binder.isSome = true → isWord "for" i = true := by
    rcases hfront with ⟨-, hseen⟩ | ⟨rfl, -⟩
    · exact fun _ => hseen
    · exact nofun
  rcases h.ahead_bind.ite with ⟨-, h⟩ | ⟨-, h⟩
  · exact isKept_function hk hfor hagain h
  rcases h.ite with ⟨hword, h⟩ | ⟨-, h⟩
  · obtain ⟨_, m₁, hbuiltin, h⟩ := h.bind
    obtain ⟨us, hus, rfl⟩ := h.returns
    have htaken : m₁ <:+ before.ahead := by
      rw [hbefore]
      exact hbuiltin.suffix.trans hbinder.suffix
    refine isKept_verbatim hone (hbefore ▸ hus.restoreSince htaken) ?_
    rcases hfront with ⟨-, hseen⟩ | ⟨-, rfl⟩
    · rw [eq_word_of_isWord hseen]
      rfl
    · rw [eq_word_of_isWord (Bool.and_eq_true_iff.mp hword).1]
      rfl
  rcases h.ite with ⟨hsome, h⟩ | ⟨hnone, hbare⟩
  · obtain ⟨hpath, h⟩ := h.require_bind
    refine keeps_pathType hk ?_ hfor ?_ hagain h
    · rintro rfl
      cases hsome
    · rw [hpath]
      rfl
  obtain ⟨rfl, rfl⟩ : binder = none ∧ i = m := by
    rcases hfront with ⟨hsome, -⟩ | hfront
    · exact absurd hsome hnone
    · exact hfront
  rcases hbare.ite with ⟨-, hparen⟩ | ⟨-, hother⟩
  · obtain ⟨⟨content, us, hts⟩, hread, hbound⟩ := keeps_parenType hk hparen
    refine ⟨keepsFront_of_otherwise (by rw [hts]; rfl), fun n hsize hes rest hrest => ?_,
      fun _ => hbound⟩
    have hparen := hread n hsize hes rest hrest
    rw [hts] at hparen ⊢
    refine reads_cursor.bind fun _ _ => (reads_ifSees_false rfl).bind_eq (reads_ahead.bind_eq ?_)
    exact reads_if_false rfl (reads_if_false rfl (reads_if_false rfl (reads_if_true rfl hparen)))
  rcases hother.ite with ⟨hpath, hother⟩ | ⟨-, hother⟩
  · refine keeps_pathType hk (fun _ => rfl) hfor ?_ hagain hother
    simpa [Bool.or_assoc] using hpath
  · exact keeps_markedType hk hone hother

/-- At every depth, what is read of types is read back. -/
theorem keeps_atDepth (k : Nat) : (atDepth k).Keeps := by
  induction k with
  | zero => exact ⟨fun h => absurd h not_gives_failure, fun h => absurd h not_gives_failure,
      fun h => absurd h not_gives_failure⟩
  | succ k ih =>
    exact ⟨fun h => keeps_oneType ih h.writtenAs, fun h => keeps_oneBound ih h.writtenAs,
      fun h => keeps_genericLifetime h⟩

end Grammar

end RowFactory
