import RowFactory.Proofs.Name.ModuleText
import RowFactory.Proofs.Scan.Provenance

namespace RowFactory

/-- A name in the text of a path, with the blanks around it. -/
structure SpacedName where
  before : String
  name : Ident
  after : String

namespace SpacedName

def text (s : SpacedName) : String := s.before ++ s.name.text ++ s.after

structure IsSpelled (s : SpacedName) : Prop where
  before : ∀ c ∈ s.before.toList, isBlank c
  name : isIdentifier s.name.name.toList
  after : ∀ c ∈ s.after.toList, isBlank c

end SpacedName

/-- The text of a path. If it begins with `::`, `lead` is what stands in front of that. -/
def spacedText (lead : Option String) (names : List SpacedName) : String :=
  "::".intercalate (lead.toList ++ names.map SpacedName.text)

theorem toList_text_ne_nil {i : Ident} (h : isIdentifier i.name.toList) : i.text.toList ≠ [] := by
  have hname : i.name.toList ≠ [] := by
    intro hnil
    rw [hnil] at h
    cases h
  unfold Ident.text
  split
  · simp
  · exact hname

/-- Only a raw name differs from its text. -/
theorem text_eq_name_iff {i : Ident} : i.text = i.name ↔ i.raw = false := by
  unfold Ident.text
  cases i.raw with
  | false => simp
  | true =>
    refine iff_of_false (fun h => ?_) (by simp)
    have hlength := congrArg String.length h
    simp at hlength

namespace SpacedName.IsSpelled

variable {s : SpacedName}

theorem colon_not_mem (h : s.IsSpelled) : ':' ∉ s.text.toList := by
  have hblank : isBlank ':' = false := by decide
  intro hmem
  rw [SpacedName.text, String.toList_append, String.toList_append, List.append_assoc,
    List.mem_append, List.mem_append] at hmem
  rcases hmem with hmem | hmem | hmem
  · simpa [hblank] using h.before ':' hmem
  · exact (mem_text h.name hmem).1 rfl
  · simpa [hblank] using h.after ':' hmem

theorem trimBlank_text (h : s.IsSpelled) : trimBlank s.text.toList = s.name.text.toList := by
  rw [SpacedName.text, String.toList_append, String.toList_append]
  exact trimBlank_append h.before (fun c hc => (mem_text h.name hc).2) h.after

end SpacedName.IsSpelled

section

variable {lead : Option String} {names : List SpacedName}

/-- The marker is the names in the text, those that are raw with their `r#`. -/
theorem markerSegments_spacedText (hlead : ∀ w ∈ lead, ∀ c ∈ w.toList, isBlank c)
    (hne : names ≠ []) (hnames : ∀ s ∈ names, s.IsSpelled) :
    markerSegments (spacedText lead names) = names.map (·.name.text) := by
  have hcolons : ∀ w ∈ (lead.toList ++ names.map SpacedName.text).map String.toList, ':' ∉ w := by
    rintro cs hcs hcolon
    obtain ⟨w, hw, rfl⟩ := List.mem_map.mp hcs
    rcases List.mem_append.mp hw with hw | hw
    · have hblank := hlead w (Option.mem_toList.mp hw) ':' hcolon
      revert hblank
      decide
    · obtain ⟨s, hs, rfl⟩ := List.mem_map.mp hw
      exact (hnames s hs).colon_not_mem hcolon
  have hfront : (lead.toList.map fun w => trimBlank w.toList).filter (!·.isEmpty) = [] := by
    refine List.filter_eq_nil_iff.mpr fun w hw => ?_
    obtain ⟨v, hv, rfl⟩ := List.mem_map.mp hw
    simp [trimBlank_of_blank (hlead v (Option.mem_toList.mp hv))]
  have hwords : names.map (fun s => trimBlank s.text.toList) =
      names.map (·.name.text.toList) :=
    List.map_congr_left fun s hs => (hnames s hs).trimBlank_text
  have hfull : (names.map (·.name.text.toList)).filter (!·.isEmpty) =
      names.map (·.name.text.toList) := by
    refine List.filter_eq_self.mpr fun w hw => ?_
    obtain ⟨s, hs, rfl⟩ := List.mem_map.mp hw
    simpa using toList_text_ne_nil (hnames s hs).name
  rw [markerSegments, pathWords, spacedText, String.toList_intercalate,
    splitColons_intercalate (by simp [hne]) hcolons, List.map_map, List.map_append,
    List.filter_append, List.map_map]
  simp only [Function.comp_def]
  rw [hfront, hwords, List.nil_append, hfull, List.map_map]
  simp [Function.comp_def]

/-- The settings with the one marker that a text gives. -/
def Config.markedBy (text : String) : Config := Config.withoutMarkers.withMarker text

theorem markers_markedBy {text : String} (h : markerSegments text ≠ []) :
    (Config.markedBy text).markers = [markerSegments text] := by
  simp [Config.markedBy, Config.withMarker, Config.withoutMarkers, h]

end

theorem resolve_leadingColon {scopes : Scopes} {m : ModulePath} {path : WrittenPath}
    (hcolon : path.leadingColon = true) (hne : path.segments ≠ []) :
    scopes.resolve m path = [path.segments] := by
  obtain ⟨first, rest, hp⟩ := List.exists_cons_of_ne_nil hne
  have hmoves : scopes.movesOf (.written m path .any) = [.find path.segments] := by
    simp [Scopes.movesOf, hp, hcolon]
  refine Scopes.resolve_eq_singleton fun found => ?_
  rw [Scopes.reaches_iff_of_single hmoves, Scopes.leads_find]

/-- A struct whose path is found among the markers is discovered, or another of its name is. -/
theorem discovers_of_mem_resolve {units : List SourceUnit} {config : Config}
    {d : ModulePath × StructItem} (hd : d ∈ declaredStructs units) {p : Path}
    (hp : p ∈ derivePaths d.2.attrs) {marker : List String}
    (hfound : marker ∈ (Scopes.ofUnits units).resolve d.1 p.written)
    (hmarker : marker ∈ config.markers) :
    ∃ types, (discover units config).run .never = (.ok types, []) ∧
      declaredName d ∈ types.map (·.name) := by
  obtain ⟨hrun, hmarked, _, hfirst, _⟩ := discover_eq_firstMarkedStructs units config
  refine ⟨_, hrun, ?_⟩
  obtain ⟨d', hd', hname⟩ := hfirst d ((hmarked d).mpr ⟨hd, p, hp, marker, hfound, hmarker⟩)
  rw [List.map_map]
  exact List.mem_map.mpr ⟨d', hd', hname⟩

/-- A struct that derives the path in the text, behind a `::`, is marked by the text exactly if no
name in the text is raw; then it is discovered. With a raw name in it, a text marks nothing unless
some name itself begins with `r#`. -/
theorem marker_text_matches_plain_names {lead : Option String} {names : List SpacedName}
    (hlead : ∀ w ∈ lead, ∀ c ∈ w.toList, isBlank c) (hne : names ≠ [])
    (hnames : ∀ s ∈ names, s.IsSpelled) (units : List SourceUnit)
    {d : ModulePath × StructItem} (hd : d ∈ declaredStructs units) :
    (∀ p ∈ derivePaths d.2.attrs, p.leadingColon = true →
      p.segments.map (·.name.name) = names.map (·.name.name) →
      (((Scopes.ofUnits units).resolve d.1 p.written).any
          (Config.markedBy (spacedText lead names)).isMarker ↔
        ∀ s ∈ names, s.name.raw = false) ∧
      ((∀ s ∈ names, s.name.raw = false) →
        ∃ types, (discover units (.markedBy (spacedText lead names))).run .never =
            (.ok types, []) ∧ declaredName d ∈ types.map (·.name))) ∧
    (carriesMarker (.ofUnits units) (.markedBy (spacedText lead names)) d.1 d.2 →
      ∀ s ∈ names, s.name.text ∈ d.1.segments ∨
        (∃ p ∈ derivePaths d.2.attrs, s.name.text ∈ p.written.segments) ∨
        (Scopes.ofUnits units).Mentions s.name.text) := by
  have hmarker := markerSegments_spacedText hlead hne hnames
  have hmarkers : (Config.markedBy (spacedText lead names)).markers =
      [names.map (·.name.text)] := by
    rw [markers_markedBy (by simpa [hmarker] using hne), hmarker]
  have hplain : names.map (·.name.name) = names.map (·.name.text) ↔
      ∀ s ∈ names, s.name.raw = false := by
    rw [List.map_inj_left]
    exact forall₂_congr fun s _ => eq_comm.trans text_eq_name_iff
  refine ⟨fun p hp hcolon hpath => ?_, fun hcarries s hs => ?_⟩
  · have hresolve : (Scopes.ofUnits units).resolve d.1 p.written = [names.map (·.name.name)] := by
      rw [← hpath]
      refine resolve_leadingColon hcolon fun hnil => hne ?_
      have hlength := congrArg List.length (hpath.symm.trans hnil)
      simpa using hlength
    refine ⟨?_, fun hraw => ?_⟩
    · rw [hresolve, ← hplain]
      simp [Config.isMarker, hmarkers]
    · have hfound : names.map (·.name.text) ∈ (Scopes.ofUnits units).resolve d.1 p.written := by
        rw [hresolve, hplain.mpr hraw]
        exact List.mem_singleton_self _
      exact discovers_of_mem_resolve hd hp hfound (by simp [hmarkers])
  · obtain ⟨p, hp, found, hfound, hmem⟩ := carriesMarker_iff.mp hcarries
    obtain rfl : found = names.map (·.name.text) := by simpa [hmarkers] using hmem
    have hmentions := Scopes.mentions_of_mem_resolve hfound s.name.text
      (List.mem_map_of_mem (f := (·.name.text)) hs)
    rw [List.mem_append, or_assoc] at hmentions
    exact hmentions.imp_right (.imp_left fun hpath => ⟨p, hp, hpath⟩)

/-- A unit in which `Customer` derives the path of the names, behind a `::`. -/
def derivesFromRoot (names : List Ident) : SourceUnit :=
  ⟨.root, [.struct { derivingStruct "Customer" "" with
    attrs := [⟨false, .list ⟨false, [.plain "derive"]⟩ .paren
      (Path.tokens ⟨true, names.map .plain⟩)⟩] }]⟩

/-- The text ` :: my_orm ::Mapped`. -/
def ormMarker : List SpacedName := [⟨" ", .plain "my_orm", " "⟩, ⟨"", .plain "Mapped", ""⟩]

theorem marker_text_matches_plain_names_orm :
    spacedText (some " ") ormMarker = " :: my_orm ::Mapped" ∧ (∀ s ∈ ormMarker, s.IsSpelled) ∧
      ∃ types, (discover [derivesFromRoot [.plain "my_orm", .plain "Mapped"]]
          (.markedBy " :: my_orm ::Mapped")).run .never = (.ok types, []) ∧
        ⟨.root, .plain "Customer"⟩ ∈ types.map (·.name) := by
  have htext : spacedText (some " ") ormMarker = " :: my_orm ::Mapped" := by decide +kernel
  have hblank : ∀ c ∈ " ".toList, isBlank c := List.all_eq_true.mp (by decide)
  have hnone : ∀ c ∈ "".toList, isBlank c := List.all_eq_true.mp (by decide)
  have hlead : ∀ w ∈ some " ", ∀ c ∈ w.toList, isBlank c := by
    rintro _ ⟨⟩
    exact hblank
  have hspelled : ∀ s ∈ ormMarker, s.IsSpelled := by
    intro s hs
    obtain rfl | rfl : s = ⟨" ", .plain "my_orm", " "⟩ ∨ s = ⟨"", .plain "Mapped", ""⟩ := by
      simpa [ormMarker] using hs
    · exact ⟨hblank, by decide, hblank⟩
    · exact ⟨hnone, by decide, hnone⟩
  obtain ⟨d, hd, hname, hpaths⟩ : ∃ d ∈ declaredStructs
      [derivesFromRoot [.plain "my_orm", .plain "Mapped"]],
      declaredName d = ⟨.root, .plain "Customer"⟩ ∧
        (derivePaths d.2.attrs).map (fun p => (p.leadingColon, p.segments.map (·.name.name))) =
          [(true, ["my_orm", "Mapped"])] :=
    ⟨_, .head _, rfl, by decide +kernel⟩
  obtain ⟨p, hp, hpath⟩ := List.map_eq_singleton_iff.mp hpaths
  obtain ⟨hcolon, hsegments⟩ := Prod.mk.inj hpath
  have hmatches := (marker_text_matches_plain_names hlead (by simp [ormMarker]) hspelled _ hd).1 p
    (by simp [hp]) hcolon hsegments
  rw [htext, hname] at hmatches
  exact ⟨htext, hspelled, hmatches.2 (by decide)⟩

/-- A struct that derives `::a::r#type` is not found by the marker `a::r#type`, but is by
`a::type`. -/
theorem raw_marker_matches_nothing :
    spacedText none [⟨"", .plain "a", ""⟩, ⟨"", ⟨true, "type"⟩, ""⟩] = "a::r#type" ∧
      namesFound [derivesFromRoot [.plain "a", ⟨true, "type"⟩]] (.markedBy "a::r#type") = [] ∧
      namesFound [derivesFromRoot [.plain "a", ⟨true, "type"⟩]] (.markedBy "a::type") =
        ["crate::Customer"] := by
  decide +kernel

end RowFactory
