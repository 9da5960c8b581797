import RowFactory.Name.ModulePath
import RowFactory.Proofs.Name.HintName

namespace RowFactory

section Words

variable {w : List Char}

theorem splitColons_append (rest : List Char) (h : ':' ∉ w) :
    splitColons (w ++ ':' :: ':' :: rest) = w :: splitColons rest := by
  induction w with
  | nil => simp [splitColons]
  | cons c w ih =>
    have hc : c ≠ ':' := fun hc => h (by simp [hc])
    have hrest := ih fun hmem => h (List.mem_cons_of_mem c hmem)
    cases w with
    | nil => simp [splitColons, hc]
    | cons d w =>
      rw [List.cons_append, List.cons_append, splitColons, ← List.cons_append, hrest]
      simp [hc]

theorem splitColons_of_not_mem (h : ':' ∉ w) : splitColons w = [w] := by
  induction w with
  | nil => rfl
  | cons c w ih =>
    have hc : c ≠ ':' := fun hc => h (by simp [hc])
    have hrest := ih fun hmem => h (List.mem_cons_of_mem c hmem)
    cases w with
    | nil => rfl
    | cons d w =>
      rw [splitColons, hrest]
      simp [hc]

/-- Words without colons are read back from a text in which they are joined. -/
theorem splitColons_intercalate {ws : List (List Char)} (hne : ws ≠ [])
    (h : ∀ w ∈ ws, ':' ∉ w) : splitColons ("::".toList.intercalate ws) = ws := by
  induction ws with
  | nil => exact absurd rfl hne
  | cons w rest ih =>
    cases rest with
    | nil => simpa [List.intercalate] using splitColons_of_not_mem (h w (by simp))
    | cons v rest =>
      have hrest := ih (by simp) fun w hw => h w (List.mem_cons_of_mem _ hw)
      have hjoined : "::".toList.intercalate (w :: v :: rest) =
          w ++ ':' :: ':' :: "::".toList.intercalate (v :: rest) := by simp [List.intercalate]
      rw [hjoined, splitColons_append _ (h w (by simp)), hrest]

theorem trimBlank_of_blank (h : ∀ c ∈ w, isBlank c) : trimBlank w = [] := by
  have hdrop : w.dropWhile isBlank = [] := List.dropWhile_eq_nil_iff.mpr h
  simp [trimBlank, hdrop]

theorem dropWhile_isBlank_append {before : List Char} (hbefore : ∀ c ∈ before, isBlank c)
    (hw : ∀ c ∈ w.head?, isBlank c = false) : (before ++ w).dropWhile isBlank = w := by
  rw [List.dropWhile_append_of_pos hbefore]
  cases w with
  | nil => rfl
  | cons c cs => simp [hw c rfl]

/-- Blanks around a word are dropped, and no more. -/
theorem trimBlank_append {before after : List Char} (hbefore : ∀ c ∈ before, isBlank c)
    (hw : ∀ c ∈ w, isBlank c = false) (hafter : ∀ c ∈ after, isBlank c) :
    trimBlank (before ++ w ++ after) = w := by
  cases w with
  | nil =>
    rw [List.append_nil]
    exact trimBlank_of_blank fun c hc => (List.mem_append.mp hc).elim (hbefore c) (hafter c)
  | cons d ds =>
    have hfront : (before ++ (d :: ds ++ after)).dropWhile isBlank = d :: ds ++ after :=
      dropWhile_isBlank_append hbefore (by simpa using hw d (by simp))
    have hback : ((d :: ds ++ after).reverse).dropWhile isBlank = (d :: ds).reverse := by
      rw [List.reverse_append]
      refine dropWhile_isBlank_append (by simpa using hafter) fun c hc => hw c ?_
      exact List.mem_reverse.mp (List.mem_of_mem_head? hc)
    rw [trimBlank, List.append_assoc, hfront, hback, List.reverse_reverse]

end Words

/-- The marks of a raw name, any number of them. -/
def rawMarks (n : Nat) : List Char := (List.replicate n "r#".toList).flatten

/-- A word for a name: the name, raw or not, and blanks around it. -/
def SpellsName (name : String) (word : List Char) : Prop :=
  ∃ before marks after, (∀ c ∈ before, isBlank c) ∧ (∀ c ∈ after, isBlank c) ∧
    word = before ++ (rawMarks marks ++ name.toList) ++ after

/-- Words for the names in their order, and among them any number of words for no name. -/
inductive SpellsNames : List String → List (List Char) → Prop
  | nil : SpellsNames [] []
  | blank {names : List String} {word : List Char} {words : List (List Char)} :
    SpellsName "" word → SpellsNames names words → SpellsNames names (word :: words)
  | name {name : String} {names : List String} {word : List Char} {words : List (List Char)} :
    SpellsName name word → SpellsNames names words → SpellsNames (name :: names) (word :: words)

/-- A text for the names: words for them with `::` between. -/
def Spells (names : List String) (text : String) : Prop :=
  ∃ words, SpellsNames names words ∧ text.toList = "::".toList.intercalate words

variable {name : String} {names : List String} {word : List Char} {words : List (List Char)}

theorem isIdentifier_of_mem_keywords (h : name ∈ keywords) : isIdentifier name.toList := by
  have hall : keywords.all fun word => isIdentifier word.toList := by decide +kernel
  exact List.all_eq_true.mp hall name h

theorem isBlank_eq_false {c : Char} (h : isIdentifierContinue c) : isBlank c = false := by
  have hblank := isTokenBlank_eq_false h
  simp only [isTokenBlank, Bool.or_eq_false_iff] at hblank
  exact hblank.1.1

theorem isIdentifierContinue_of_mem {name : String} (h : isIdentifier name.toList) {c : Char}
    (hc : c ∈ name.toList) : isIdentifierContinue c := by
  cases hcontinue : isIdentifierContinue c with
  | true => rfl
  | false => exact absurd hc (not_mem_of_isIdentifier h hcontinue)

theorem dropRawMarks_eq_self {cs : List Char} (h : '#' ∉ cs) : dropRawMarks cs = cs := by
  unfold dropRawMarks
  split
  next cs => exact absurd (by simp) h
  next => rfl

theorem dropRawMarks_rawMarks_append (n : Nat) (cs : List Char) :
    dropRawMarks (rawMarks n ++ cs) = dropRawMarks cs := by
  induction n with
  | zero => rfl
  | succ n ih => exact ih

theorem mem_rawMarks {n : Nat} {c : Char} (h : c ∈ rawMarks n) : c = 'r' ∨ c = '#' := by
  obtain ⟨mark, hmark, hc⟩ := List.mem_flatten.mp h
  rw [List.eq_of_mem_replicate hmark] at hc
  simpa using hc

/-- The name is what is left of a word. -/
theorem SpellsName.read (h : SpellsName name word)
    (hname : ∀ c ∈ name.toList, isIdentifierContinue c) :
    dropRawMarks (trimBlank word) = name.toList := by
  obtain ⟨before, marks, after, hbefore, hafter, rfl⟩ := h
  have hhash : '#' ∉ name.toList := fun hmem => absurd (hname _ hmem) (by decide)
  have hword : ∀ c ∈ rawMarks marks ++ name.toList, isBlank c = false := by
    intro c hc
    rcases List.mem_append.mp hc with hc | hc
    · rcases mem_rawMarks hc with rfl | rfl <;> decide
    · exact isBlank_eq_false (hname c hc)
  rw [trimBlank_append hbefore hword hafter, dropRawMarks_rawMarks_append,
    dropRawMarks_eq_self hhash]

theorem SpellsName.not_mem_colon (h : SpellsName name word)
    (hname : ∀ c ∈ name.toList, isIdentifierContinue c) : ':' ∉ word := by
  obtain ⟨before, marks, after, hbefore, hafter, rfl⟩ := h
  have hblank : isBlank ':' = false := by decide
  simp only [List.mem_append, not_or]
  refine ⟨⟨fun hc => ?_, fun hc => ?_, fun hc => ?_⟩, fun hc => ?_⟩
  · simp [hbefore _ hc] at hblank
  · simpa using mem_rawMarks hc
  · exact absurd (hname _ hc) (by decide)
  · simp [hafter _ hc] at hblank

theorem SpellsNames.read (h : SpellsNames names words)
    (hnames : ∀ name ∈ names, isIdentifier name.toList) :
    (((words.map trimBlank).map dropRawMarks).filter (!·.isEmpty)).map String.ofList = names := by
  induction h with
  | nil => rfl
  | blank hword _ ih =>
    have hnone := hword.read (by simp)
    simpa [hnone] using ih hnames
  | @name name names word words hword _ ih =>
    have hname := hnames name (by simp)
    have hread := hword.read fun c hc => isIdentifierContinue_of_mem hname hc
    have hfull : name.toList.isEmpty = false := by
      cases hcs : name.toList with
      | nil => simp [hcs, isIdentifier] at hname
      | cons c cs => rfl
    have hrest := ih fun other hother => hnames other (List.mem_cons_of_mem _ hother)
    simp only [List.map_cons, hread, List.filter_cons, hfull, Bool.not_false, ↓reduceIte,
      String.ofList_toList, hrest]

theorem SpellsNames.not_mem_colon (h : SpellsNames names words)
    (hnames : ∀ name ∈ names, isIdentifier name.toList) : ∀ word ∈ words, ':' ∉ word := by
  induction h with
  | nil => simp
  | blank hword _ ih => exact List.forall_mem_cons.mpr ⟨hword.not_mem_colon (by simp), ih hnames⟩
  | @name name names word words hword _ ih =>
    have hname := hnames name (by simp)
    exact List.forall_mem_cons.mpr
      ⟨hword.not_mem_colon fun c hc => isIdentifierContinue_of_mem hname hc,
        ih fun other hother => hnames other (List.mem_cons_of_mem _ hother)⟩

/-- Names that are written as they are, or raw. -/
theorem spells_idents (names : List Ident) :
    Spells (names.map (·.name)) ("::".intercalate (names.map Ident.text)) := by
  refine ⟨(names.map Ident.text).map String.toList, ?_, String.toList_intercalate⟩
  induction names with
  | nil => exact .nil
  | cons i names ih =>
    refine .name ⟨[], if i.raw then 1 else 0, [], by simp, by simp, ?_⟩ ih
    cases hraw : i.raw <;> simp [Ident.text, rawMarks, hraw]

namespace ModulePath

variable {text : String}

/-- The path is that of the names, whatever the spelling. -/
theorem ofText_of_spells (h : Spells names text)
    (hnames : ∀ name ∈ names, isIdentifier name.toList) : ofText text = anchored names := by
  obtain ⟨words, hwords, htext⟩ := h
  have hcolons := hwords.not_mem_colon hnames
  have hread := hwords.read hnames
  rw [ofText, pathWords, htext]
  cases words with
  | nil => cases hwords; rfl
  | cons word words => rw [splitColons_intercalate (by simp) hcolons, hread]

/-- The text of a path spells its names. -/
theorem spells_text (m : ModulePath) : Spells m.segments m.text := by
  have hnames : (m.segments.map Ident.plain).map (·.name) = m.segments := by
    simp [Ident.plain, Function.comp_def]
  have htexts : (m.segments.map Ident.plain).map Ident.text = m.segments := by
    simp [Ident.plain, Ident.text, Function.comp_def]
  have hspells := spells_idents (m.segments.map Ident.plain)
  rwa [hnames, htexts] at hspells

theorem segments_anchored (names : List String) : (anchored names).segments =
    if names.head? = some "crate" then names else "crate" :: names := by
  unfold anchored
  split <;> rfl

theorem anchored_segments_anchored (names : List String) :
    anchored (anchored names).segments = anchored names := by
  have hhead : (anchored names).segments.head? = some "crate" := by
    rw [segments_anchored]
    split <;> simp_all
  rw [anchored, if_pos hhead]

theorem parent?_child {m : ModulePath} (h : m.isEmpty = false) (name : String) :
    (m.child name).parent? = some m := by
  have hlength : 0 < m.segments.length := by
    cases hm : m.segments with
    | nil => simp [isEmpty, hm] at h
    | cons first rest => simp
  have hlong : ¬ (m.child name).segments.length < 2 := by
    simp only [child, List.length_append, List.length_singleton]
    omega
  rw [parent?, if_neg hlong]
  simp [child]

end ModulePath

/-- Let names be identifiers or reserved words. However they are spelled in a text, the path that
the text names has just these names, behind `crate` unless they begin with it, and the path's own
text names it again. Any path but the empty one is the parent of its children. -/
theorem spellings_name_one_path :
    (∀ (names : List String) (text : String),
      (∀ name ∈ names, isIdentifier name.toList ∨ name ∈ keywords) → Spells names text →
      (ModulePath.ofText text).segments =
        (if names.head? = some "crate" then names else "crate" :: names) ∧
      ModulePath.ofText (ModulePath.ofText text).text = ModulePath.ofText text) ∧
    ∀ (m : ModulePath) (name : String), m.isEmpty = false → (m.child name).parent? = some m := by
  refine ⟨fun names text hwords h => ?_, fun m name h => ModulePath.parent?_child h name⟩
  have hnames : ∀ name ∈ names, isIdentifier name.toList := fun name hname =>
    (hwords name hname).elim id isIdentifier_of_mem_keywords
  have hpath := ModulePath.ofText_of_spells h hnames
  have hsegments : ∀ name ∈ (ModulePath.anchored names).segments, isIdentifier name.toList := by
    rw [ModulePath.segments_anchored]
    split
    · exact hnames
    · exact List.forall_mem_cons.mpr ⟨by decide, hnames⟩
  refine ⟨by rw [hpath, ModulePath.segments_anchored], ?_⟩
  rw [hpath, ModulePath.ofText_of_spells (ModulePath.spells_text _) hsegments,
    ModulePath.anchored_segments_anchored]

/-- A reserved word that is marked as raw, among blanks and more separators than needed. -/
theorem spellings_name_one_path_raw :
    let names := ["type", "größe"]
    let text := "::\tr#type :: ::größe::"
    (∀ name ∈ names, isIdentifier name.toList ∨ name ∈ keywords) ∧ Spells names text ∧
      (ModulePath.ofText text).segments = ["crate", "type", "größe"] ∧
      ModulePath.ofText (ModulePath.ofText text).text = ModulePath.ofText text ∧
      (ModulePath.ofText text).isEmpty = false ∧
      ((ModulePath.ofText text).child "row").parent? = some (ModulePath.ofText text) := by
  intro names text
  have hwords : ∀ name ∈ names, isIdentifier name.toList ∨ name ∈ keywords := by decide +kernel
  have hblank : ∀ {word : List Char}, word.all isBlank → SpellsName "" word := fun h =>
    ⟨_, 0, [], by simpa using h, by simp, by simp [rawMarks]⟩
  have hspells : Spells names text := by
    refine ⟨[[], "\tr#type ".toList, " ".toList, "größe".toList, []], ?_, by decide +kernel⟩
    have htype : SpellsName "type" "\tr#type ".toList :=
      ⟨['\t'], 1, [' '], forall_mem_of_all rfl, forall_mem_of_all rfl, rfl⟩
    have hsize : SpellsName "größe" "größe".toList := ⟨[], 0, [], by simp, by simp, rfl⟩
    exact .blank (hblank rfl) (.name htype
      (.blank (hblank rfl) (.name hsize (.blank (hblank rfl) .nil))))
  obtain ⟨hsegments, hagain⟩ := spellings_name_one_path.1 names text hwords hspells
  have hfull : (ModulePath.ofText text).isEmpty = false := by
    rw [ModulePath.isEmpty, hsegments]
    rfl
  exact ⟨hwords, hspells, hsegments, hagain, hfull, spellings_name_one_path.2 _ "row" hfull⟩

end RowFactory
