import RowFactory.Output.Writer
import RowFactory.Proofs.Output.FileTree

namespace RowFactory

open FileTree

/-- The other tree has the files with their texts, and nothing else about it is different. -/
structure FileTree.Written (t : FileTree) (files : List (String × String)) (t' : FileTree) :
    Prop where
  content? : ∀ x ∈ files, t'.content? x.1 = some x.2.toUTF8
  locate : ∀ path, (∀ x ∈ files, t.Apart x.1 path) → t'.locate path = t.locate path
  node? : ∀ place, (∀ x ∈ files, t.place? x.1 ≠ some place) → t'.node? place = t.node? place
  directory_iff : ∀ place, t'.node? place = some .directory ↔ t.node? place = some .directory

theorem FileTree.written_nil (t : FileTree) : t.Written [] t :=
  ⟨by simp, fun _ _ => rfl, fun _ _ => rfl, fun _ => .rfl⟩

/-- One file more, to which no path leads that leads to one of the others. -/
theorem FileTree.Holding.written_cons {t t' u : FileTree} {place : Place} {path text : String}
    {files : List (String × String)} (h : t.Holding place text.toUTF8 t')
    (hplace : t.place? path = some place) (hapart : ∀ x ∈ files, t.Apart path x.1)
    (hwritten : t'.Written files u) : t.Written ((path, text) :: files) u := by
  have hapart' : ∀ q, (∀ x ∈ files, t.Apart x.1 q) → ∀ x ∈ files, t'.Apart x.1 q := by
    intro q hq x hx p
    rw [h.place?, h.place?]
    exact hq x hx p
  have hself : ∀ x ∈ files, t.Apart x.1 path := by
    intro x hx p hp hpath
    exact hapart x hx p hpath hp
  constructor
  case content? =>
    intro x hx
    rcases List.mem_cons.mp hx with rfl | hx
    · rw [FileTree.content?, hwritten.locate _ (hapart' _ hself)]
      exact h.content? hplace
    · exact hwritten.content? x hx
  case locate =>
    intro q hq
    rw [hwritten.locate q (hapart' q fun x hx => hq x (by simp [hx]))]
    exact h.locate_of_ne (hq (path, text) (by simp) place hplace)
  case node? =>
    intro p hp
    have hne : p ≠ place := by
      rintro rfl
      exact hp (path, text) (by simp) hplace
    rw [hwritten.node? p fun x hx => h.place? x.1 ▸ hp x (by simp [hx]), h.node?, if_neg hne]
  case directory_iff =>
    intro p
    rw [hwritten.directory_iff, h.directory_iff]

/-- The files have their texts already, so none is touched. -/
theorem updateAll_of_content? {t : FileTree} {files : List (String × String)}
    (h : ∀ x ∈ files, t.content? x.1 = some x.2.toUTF8) :
    updateAll t files = (⟨files.map fun x => (x.1, .unchanged), none⟩, t) := by
  induction files with
  | nil => rfl
  | cons x rest ih =>
    rw [updateAll, update?_of_content? (h x (by simp))]
    simp only [ih fun y hy => h y (by simp [hy]), List.map_cons]

/-- Files for which there is room are given their texts one after another. -/
theorem exists_updateAll {t : FileTree} {files : List (String × String)}
    (hapart : files.Pairwise fun x y => t.Apart x.1 y.1) (hroom : ∀ x ∈ files, t.HasRoom x.1) :
    ∃ t', updateAll t files = (⟨files.map fun x => (x.1, t.touch x.1 x.2), none⟩, t') ∧
      t.Written files t' := by
  induction files generalizing t with
  | nil => exact ⟨t, rfl, t.written_nil⟩
  | cons x rest ih =>
    obtain ⟨hfirst, hrest⟩ := List.pairwise_cons.mp hapart
    obtain ⟨place, t₁, hplace, hupdate, hholding⟩ := exists_update? (hroom x (by simp)) x.2
    have hlocate : ∀ y ∈ rest, t₁.locate y.1 = t.locate y.1 := fun y hy =>
      hholding.locate_of_ne (hfirst y hy place hplace)
    have hroom' : ∀ y ∈ rest, t₁.HasRoom y.1 := by
      intro y hy
      have hy' := hroom y (by simp [hy])
      rwa [HasRoom, FileTree.place?, FileTree.content?, ← hlocate y hy] at hy'
    have hapart' : rest.Pairwise fun y z => t₁.Apart y.1 z.1 := by
      refine hrest.imp fun {y z} hyz p => ?_
      rw [hholding.place?, hholding.place?]
      exact hyz p
    have htouch : rest.map (fun y => (y.1, t₁.touch y.1 y.2)) =
        rest.map fun y => (y.1, t.touch y.1 y.2) := by
      refine List.map_congr_left fun y hy => ?_
      rw [touch, touch, FileTree.content?, hlocate y hy, ← FileTree.content?]
    obtain ⟨t', hrun, hwritten⟩ := ih hapart' hroom'
    refine ⟨t', ?_, hholding.written_cons hplace hfirst hwritten⟩
    rw [updateAll, hupdate]
    simp only [hrun, htouch, List.map_cons]

theorem updateAll_append {t t' : FileTree} {files : List (String × String)}
    {touched : List (String × Touch)} (h : updateAll t files = (⟨touched, none⟩, t'))
    (rest : List (String × String)) :
    updateAll t (files ++ rest) =
      (⟨touched ++ (updateAll t' rest).1.touched, (updateAll t' rest).1.failed⟩,
        (updateAll t' rest).2) := by
  induction files generalizing t touched with
  | nil =>
    cases h
    rfl
  | cons x files ih =>
    rw [updateAll] at h
    rw [List.cons_append, updateAll]
    split at h
    case h_1 => cases h
    case h_2 touch t₁ hupdate =>
      cases hrun : updateAll t₁ files with
      | mk report u =>
        simp only [hrun] at h
        obtain ⟨touched', failed⟩ := report
        cases h
        simp only [ih hrun, List.cons_append]

/-- Nothing behind a file that holds no text is looked at. -/
theorem updateAll_of_not_isValidUTF8 {t : FileTree} {x : String × String} {content : ByteArray}
    (h : t.content? x.1 = some content) (hcontent : ¬ content.IsValidUTF8)
    (rest : List (String × String)) : updateAll t (x :: rest) = (⟨[], some x.1⟩, t) := by
  rw [updateAll, update?_of_not_isValidUTF8 h hcontent]

/-- Apart from the given places, the trees have the same files. -/
def FileTree.SameFilesBut (t : FileTree) (places : List Place) (t' : FileTree) : Prop :=
  ∀ place ∉ places, ∀ content,
    t'.node? place = some (.file content) ↔ t.node? place = some (.file content)

/-- The places of the files that are written. -/
def FileTree.places (t : FileTree) (files : List (String × String)) : List Place :=
  files.filterMap fun x => t.place? x.1

theorem FileTree.Written.sameFilesBut {t t' u : FileTree} {files : List (String × String)}
    (h : t'.Written files u) (hextends : t.Extends t') :
    t.SameFilesBut (t'.places files) u := by
  intro place hplace content
  have hnode : u.node? place = t'.node? place := by
    refine h.node? place fun x hx heq => hplace ?_
    exact List.mem_filterMap.mpr ⟨x, hx, heq⟩
  rw [hnode]
  exact ⟨hextends.file, hextends.node?⟩

theorem mem_targets_of_mem (w : Writer) {artifacts : List Artifact} {a : Artifact}
    (h : a ∈ artifacts) : (joinPath w.directory a.hint, a.source) ∈ w.targets artifacts :=
  List.mem_append_left _ (List.mem_map_of_mem h)

theorem mem_targets_of_index {w : Writer} (artifacts : List Artifact) {name : String}
    (h : w.index = some name) :
    (joinPath w.directory name, indexText (artifacts.map (·.hint))) ∈ w.targets artifacts := by
  refine List.mem_append_right _ ?_
  rw [h]
  exact List.mem_singleton_self _

/-- The names of the files to write. -/
def Writer.names (w : Writer) (artifacts : List Artifact) : List String :=
  artifacts.map (·.hint) ++ w.index.toList

theorem map_fst_targets_eq (w : Writer) (artifacts : List Artifact) :
    (w.targets artifacts).map (·.1) = (w.names artifacts).map (joinPath w.directory) := by
  rw [Writer.targets, Writer.names]
  cases w.index <;> simp

/-- Names without a slash lead to different files if they are different. -/
theorem targets_apart (t : FileTree) {w : Writer} {artifacts : List Artifact}
    (hplain : ∀ name ∈ w.names artifacts, isPlainName name)
    (hdistinct : (w.names artifacts).Nodup) :
    (w.targets artifacts).Pairwise fun x y => t.Apart x.1 y.1 := by
  have hnames : ((w.names artifacts).map (joinPath w.directory)).Pairwise t.Apart := by
    refine List.pairwise_map.mpr (List.Pairwise.imp_of_mem (fun hx hy hne => ?_) hdistinct)
    exact t.apart_joinPath w.directory (hplain _ hx) (hplain _ hy) hne
  rw [← map_fst_targets_eq] at hnames
  exact List.pairwise_map.mp hnames

/-- Once the directory is there, and if the targets lead to different files, the artifacts and the
index are given their texts in this order. Where there is room for all of them, all hold their texts
afterwards, no other file has changed, those that had their texts are reported as untouched, and a
second run touches none. Where one holds no text, writing fails there: those before it are given
their texts, and neither it nor any other is touched. -/
theorem write_gives_targets_their_texts (w : Writer) (artifacts : List Artifact)
    {t t' : FileTree} (hdirectory : t.makeDirectories w.directory = (t', true))
    (hapart : (w.targets artifacts).Pairwise fun x y => t'.Apart x.1 y.1) :
    ((∀ x ∈ w.targets artifacts, t'.HasRoom x.1) →
      ∃ final, w.write artifacts t =
          (⟨(w.targets artifacts).map fun x => (x.1, t'.touch x.1 x.2), none⟩, final) ∧
        (∀ a ∈ artifacts,
          final.content? (joinPath w.directory a.hint) = some a.source.toUTF8) ∧
        (∀ name ∈ w.index, final.content? (joinPath w.directory name) =
          some (indexText (artifacts.map (·.hint))).toUTF8) ∧
        t.SameFilesBut (t'.places (w.targets artifacts)) final ∧
        w.write artifacts final =
          (⟨(w.targets artifacts).map fun x => (x.1, .unchanged), none⟩, final)) ∧
    ∀ before x after content, w.targets artifacts = before ++ x :: after →
      (∀ y ∈ before, t'.HasRoom y.1) → t'.content? x.1 = some content → ¬ content.IsValidUTF8 →
      ∃ final, w.write artifacts t =
          (⟨before.map fun y => (y.1, t'.touch y.1 y.2), some x.1⟩, final) ∧
        (∀ y ∈ before, final.content? y.1 = some y.2.toUTF8) ∧
        (∀ y ∈ x :: after, final.content? y.1 = t'.content? y.1) ∧
        t.SameFilesBut (t'.places before) final := by
  have hextends : t.Extends t' := by
    have h := t.extends_makeDirectories w.directory
    rwa [hdirectory] at h
  have hwrite : w.write artifacts t = updateAll t' (w.targets artifacts) := by
    rw [Writer.write, hdirectory]
  constructor
  · intro hroom
    obtain ⟨final, hrun, hwritten⟩ := exists_updateAll hapart hroom
    have hagain : final.makeDirectories w.directory = (final, true) :=
      makeDirectories_again hdirectory fun q hq => (hwritten.directory_iff q).mpr hq
    refine ⟨final, hwrite.trans hrun, ?_, ?_, hwritten.sameFilesBut hextends, ?_⟩
    · intro a ha
      have hsource := hwritten.content? _ (mem_targets_of_mem w ha)
      exact hsource
    · intro name hname
      have hindex := hwritten.content? _ (mem_targets_of_index artifacts hname)
      exact hindex
    · rw [Writer.write, hagain]
      exact updateAll_of_content? hwritten.content?
  · intro before x after content hsplit hroom hcontent htext
    rw [hsplit] at hwrite hapart
    obtain ⟨hbefore, -, hcross⟩ := List.pairwise_append.mp hapart
    obtain ⟨final, hrun, hwritten⟩ := exists_updateAll hbefore hroom
    have huntouched : ∀ y ∈ x :: after, final.content? y.1 = t'.content? y.1 := by
      intro y hy
      rw [FileTree.content?, hwritten.locate y.1 fun z hz => hcross z hz y hy]
      rfl
    have hfails :=
      updateAll_of_not_isValidUTF8 ((huntouched x (by simp)).trans hcontent) htext after
    refine ⟨final, ?_, hwritten.content?, huntouched, hwritten.sameFilesBut hextends⟩
    rw [hwrite, updateAll_append hrun, hfails, List.append_nil]

/-- The artifact of a type that does not matter. -/
def plainArtifact (hint source : String) : Artifact := ⟨⟨⟨["crate"]⟩, .plain "A"⟩, hint, source⟩

/-- A directory with the given files. -/
def treeOf (files : List (String × ByteArray)) : FileTree :=
  files.foldl (fun t (name, content) => t.set ["out", name] (.file content))
    (FileTree.empty.set ["out"] .directory)

/-- The first file has its text, the second has another, and there is no index; in the other tree
the second file holds a byte that begins no character. -/
theorem write_gives_targets_their_texts_again :
    let w := Writer.into "out"
    let artifacts := [plainArtifact "x" "a", plainArtifact "y" "b"]
    let t := treeOf [("x", "a".toUTF8), ("y", "c".toUTF8), ("z", ⟨#[255]⟩)]
    let u := treeOf [("x", "c".toUTF8), ("y", ⟨#[255]⟩)]
    (t.makeDirectories "out" = (t, true) ∧ (∀ x ∈ w.targets artifacts, t.HasRoom x.1) ∧
      ∃ final, w.write artifacts t =
          (⟨[("out/x", .unchanged), ("out/y", .written), ("out/rowmap.rs", .written)], none⟩,
            final) ∧
        w.write artifacts final =
          (⟨[("out/x", .unchanged), ("out/y", .unchanged), ("out/rowmap.rs", .unchanged)], none⟩,
            final)) ∧
    u.makeDirectories "out" = (u, true) ∧ u.HasRoom "out/x" ∧
      u.content? "out/y" = some ⟨#[255]⟩ ∧ ¬ ByteArray.IsValidUTF8 ⟨#[255]⟩ ∧
      ∃ final, w.write artifacts u = (⟨[("out/x", .written)], some "out/y"⟩, final) ∧
        final.content? "out/x" = some "a".toUTF8 ∧ final.content? "out/rowmap.rs" = none := by
  intro w artifacts t u
  have hapart (t : FileTree) : (w.targets artifacts).Pairwise fun x y => t.Apart x.1 y.1 :=
    targets_apart t (by decide +kernel) (by decide +kernel)
  constructor
  · have hdirectory : t.makeDirectories "out" = (t, true) := by rfl
    have hroom : ∀ x ∈ w.targets artifacts, t.HasRoom x.1 := by decide +kernel
    obtain ⟨final, hrun, -, -, -, hagain⟩ :=
      (write_gives_targets_their_texts w artifacts hdirectory (hapart t)).1 hroom
    have htouched : (w.targets artifacts).map (fun x => (x.1, t.touch x.1 x.2)) =
        [("out/x", .unchanged), ("out/y", .written), ("out/rowmap.rs", .written)] := by
      decide +kernel
    have huntouched : (w.targets artifacts).map (fun x => (x.1, Touch.unchanged)) =
        [("out/x", .unchanged), ("out/y", .unchanged), ("out/rowmap.rs", .unchanged)] := by
      decide +kernel
    exact ⟨hdirectory, hroom, final, htouched ▸ hrun, huntouched ▸ hagain⟩
  · have hdirectory : u.makeDirectories "out" = (u, true) := by rfl
    have hroom : u.HasRoom "out/x" := by decide +kernel
    have hcontent : u.content? "out/y" = some ⟨#[255]⟩ := by decide +kernel
    have hinvalid : ¬ ByteArray.IsValidUTF8 ⟨#[255]⟩ := by decide +kernel
    have htargets : w.targets artifacts =
        [("out/x", "a")] ++ ("out/y", "b") :: [("out/rowmap.rs", indexText ["x", "y"])] := by
      decide +kernel
    obtain ⟨final, hrun, htext, hlater, -⟩ :=
      (write_gives_targets_their_texts w artifacts hdirectory (hapart u)).2 _ _ _ _ htargets
        (by simpa using hroom) hcontent hinvalid
    have htouched : u.touch "out/x" "a" = .written := by decide +kernel
    have hindex : u.content? "out/rowmap.rs" = none := by decide +kernel
    have hfirst := htext ("out/x", "a") (by simp)
    have hlast := hlater ("out/rowmap.rs", indexText ["x", "y"]) (by simp)
    rw [List.map_singleton, htouched] at hrun
    exact ⟨hdirectory, hroom, hcontent, hinvalid, final, hrun, hfirst, hlast.trans hindex⟩

/-- Names that are different may still lead to one file. It then holds the text of the last of them,
and is written twice each time. -/
theorem write_two_spellings_of_one_file :
    let w := Writer.into "out"
    let artifacts := [plainArtifact "x" "a", plainArtifact "./x" "b"]
    let (report, final) := w.write artifacts FileTree.empty
    (w.names artifacts).Nodup ∧ report.failed = none ∧
      final.content? (joinPath w.directory "x") ≠ some "a".toUTF8 ∧
      (w.write artifacts final).1.written = 2 := by
  decide +kernel

end RowFactory
