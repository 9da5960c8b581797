import RowFactory.Output.FileTree

namespace RowFactory

namespace Location

/-- The place of the file that is there or can be made. -/
def place? : Location → Option Place
  | .file place _ | .vacant place => some place
  | .directory | .nowhere => none

/-- What the file holds that is there. -/
def content? : Location → Option ByteArray
  | .file _ content => some content
  | _ => none

/-- The location once a file has been written at a place. -/
def withFile (place : Place) (content : ByteArray) (l : Location) : Location :=
  if l.place? = some place then .file place content else l

@[simp] theorem place?_withFile (place : Place) (content : ByteArray) (l : Location) :
    (l.withFile place content).place? = l.place? := by
  unfold withFile
  split
  case isTrue h => exact h.symm
  case isFalse => rfl

theorem withFile_of_ne {place : Place} {l : Location} (h : l.place? ≠ some place)
    (content : ByteArray) : l.withFile place content = l :=
  if_neg h

end Location

namespace FileTree

variable {t t' u : FileTree} {path text : String} {place : Place} {content : ByteArray}

/-- The place of the file that the path leads to, or could lead to. -/
def place? (t : FileTree) (path : String) : Option Place := (t.locate path).place?

/-- What the file holds that the path leads to. -/
def content? (t : FileTree) (path : String) : Option ByteArray := (t.locate path).content?

/-- The path leads to a vacancy, or to a file that holds text. -/
def HasRoom (t : FileTree) (path : String) : Prop :=
  (t.place? path).isSome ∧ ∀ content ∈ t.content? path, content.IsValidUTF8

instance (t : FileTree) (path : String) : Decidable (t.HasRoom path) :=
  inferInstanceAs (Decidable (_ ∧ _))

/-- What has to be done for the path's file to hold the text. -/
def touch (t : FileTree) (path text : String) : Touch :=
  if (t.content? path).bind String.fromUTF8? = some text then .unchanged else .written

/-- No file is what both paths lead to. -/
def Apart (t : FileTree) (path path' : String) : Prop :=
  ∀ place, t.place? path = some place → t.place? path' ≠ some place

theorem node?_set (t : FileTree) (place q : Place) (n : FileNode) :
    (t.set place n).node? q = if q = place then some n else t.node? q := by
  simp [node?, set, Std.TreeMap.getElem?_insert, eq_comm (a := q)]

/-- A file is at the place where the walk found it, and nothing is where it found a vacancy. -/
def Finds (t : FileTree) : Location → Prop
  | .file place content => t.node? place = some (.file content)
  | .vacant place => t.node? place = none
  | .directory | .nowhere => True

theorem finds_walk (t : FileTree) (here : Place) (names : List String) :
    t.Finds (t.walk here names) := by
  induction names generalizing here with
  | nil => trivial
  | cons name rest ih =>
    rw [walk]
    split
    case isTrue => exact ih here
    split
    case isTrue =>
      split
      case isTrue => trivial
      case isFalse => exact ih here.dropLast
    split
    case isTrue => trivial
    dsimp only
    split
    case h_1 => exact ih _
    case h_2 hnode =>
      split
      case isTrue => exact hnode
      case isFalse => trivial
    case h_3 hnode =>
      split
      case isTrue => exact hnode
      case isFalse => trivial

theorem node?_of_locate_eq_file (h : t.locate path = .file place content) :
    t.node? place = some (.file content) := by
  have hfinds := t.finds_walk [] (pathNames path)
  rwa [← locate, h] at hfinds

theorem node?_of_locate_eq_vacant (h : t.locate path = .vacant place) : t.node? place = none := by
  have hfinds := t.finds_walk [] (pathNames path)
  rwa [← locate, h] at hfinds

theorem exists_locate_of_content? (h : t.content? path = some content) :
    ∃ place, t.locate path = .file place content := by
  unfold content? at h
  generalize t.locate path = l at h ⊢
  cases l <;> cases h
  exact ⟨_, rfl⟩

/-- What may be the name of a file in any directory. -/
def isPlainName (name : String) : Bool :=
  !name.toList.contains '/' && !staysInPlace name && name != ".."

theorem exists_pathNames_joinPath (directory : String) {name : String} (h : isPlainName name) :
    ∃ names, pathNames (joinPath directory name) = names ++ [name] := by
  simp only [isPlainName, Bool.and_eq_true, Bool.not_eq_true', List.contains_eq_mem,
    decide_eq_false_iff_not] at h
  have hslash := h.1.1
  have hname : pathNames name = [name] := by
    simp [pathNames, List.splitOn_eq_singleton hslash]
  have hhead : name.toList.head? ≠ some '/' := fun hhead => hslash (List.mem_of_head? hhead)
  have hjoined (before : List Char) :
      ∃ names, pathNames (String.ofList (before ++ '/' :: name.toList)) = names ++ [name] := by
    refine ⟨(before.splitOn '/').map String.ofList, ?_⟩
    simp [pathNames, List.splitOn_append_cons_self, List.splitOn_eq_singleton hslash]
  unfold joinPath
  by_cases hempty : directory.isEmpty
  · exact ⟨[], by simp [hempty, hname]⟩
  · rw [if_neg (by simp [hhead, hempty])]
    split
    case isTrue hlast =>
      obtain ⟨before, hbefore⟩ := List.getLast?_eq_some_iff.mp hlast
      have hpath : directory ++ name = String.ofList (before ++ '/' :: name.toList) := by
        simp [← String.toList_inj, hbefore]
      exact hpath ▸ hjoined before
    case isFalse =>
      have hpath : directory ++ "/" ++ name =
          String.ofList (directory.toList ++ '/' :: name.toList) := by
        simp [← String.toList_inj]
      exact hpath ▸ hjoined directory.toList

/-- A path that ends in the name of a file leads to a place of that name, if to any. -/
theorem getLast?_of_walk {names : List String} {here : Place} {name : String}
    (hname : isPlainName name) (h : (t.walk here (names ++ [name])).place? = some place) :
    place.getLast? = some name := by
  simp only [isPlainName, Bool.and_eq_true, Bool.not_eq_true', bne_iff_ne] at hname
  induction names generalizing here with
  | nil =>
    rw [List.nil_append, walk, if_neg (by simp [hname]), if_neg hname.2] at h
    split at h
    case isTrue => cases h
    dsimp only at h
    split at h <;> cases h <;> simp
  | cons first rest ih =>
    rw [List.cons_append, walk] at h
    split at h
    case isTrue => exact ih h
    split at h
    case isTrue =>
      split at h
      case isTrue => cases h
      case isFalse => exact ih h
    split at h
    case isTrue => cases h
    dsimp only at h
    split at h
    case h_1 => exact ih h
    case h_2 => simp [Location.place?] at h
    case h_3 => simp [Location.place?] at h

/-- Different names in one directory are different files. -/
theorem apart_joinPath (t : FileTree) (directory : String) {name name' : String}
    (h : isPlainName name) (h' : isPlainName name') (hne : name ≠ name') :
    t.Apart (joinPath directory name) (joinPath directory name') := by
  intro place hplace hplace'
  obtain ⟨names, hnames⟩ := exists_pathNames_joinPath directory h
  obtain ⟨names', hnames'⟩ := exists_pathNames_joinPath directory h'
  rw [place?, locate, hnames] at hplace
  rw [place?, locate, hnames'] at hplace'
  have hlast := getLast?_of_walk h hplace
  rw [getLast?_of_walk h' hplace'] at hlast
  exact hne (Option.some.inj hlast).symm

/-- The other tree has a file with the content at the place, where no directory was, and is the same
everywhere else. -/
structure Holding (t : FileTree) (place : Place) (content : ByteArray) (t' : FileTree) : Prop where
  free : t.node? place ≠ some .directory
  node? : ∀ q, t'.node? q = if q = place then some (.file content) else t.node? q

/-- A path goes on behind a place only if a directory is there, so a file at a place that is none
changes nothing for the paths that lead elsewhere. -/
theorem Holding.walk (h : t.Holding place content t') (here : Place) (names : List String) :
    t'.walk here names = (t.walk here names).withFile place content := by
  induction names generalizing here with
  | nil => rfl
  | cons name rest ih =>
    rw [FileTree.walk, FileTree.walk]
    split
    case isTrue => exact ih here
    split
    case isTrue =>
      split
      case isTrue => rfl
      case isFalse => exact ih here.dropLast
    split
    case isTrue => rfl
    dsimp only
    rw [h.node?]
    by_cases hplace : here ++ [name] = place
    · have hfree := h.free
      rw [if_pos hplace, hplace]
      cases hnode : t.node? place with
      | none => cases rest <;> simp [Location.withFile, Location.place?]
      | some n =>
        cases n with
        | directory => exact absurd hnode hfree
        | file old => cases rest <;> simp [Location.withFile, Location.place?]
    · rw [if_neg hplace]
      split
      case h_1 => exact ih (here ++ [name])
      case h_2 => cases rest <;> simp [Location.withFile, Location.place?, hplace]
      case h_3 => cases rest <;> simp [Location.withFile, Location.place?, hplace]

theorem Holding.locate (h : t.Holding place content t') (path : String) :
    t'.locate path = (t.locate path).withFile place content :=
  h.walk [] (pathNames path)

theorem Holding.place? (h : t.Holding place content t') (path : String) :
    t'.place? path = t.place? path := by
  rw [FileTree.place?, h.locate, Location.place?_withFile]
  rfl

theorem Holding.content? (h : t.Holding place content t') (hpath : t.place? path = some place) :
    t'.content? path = some content := by
  have hplace : (t.locate path).place? = some place := hpath
  rw [FileTree.content?, h.locate, Location.withFile, if_pos hplace]
  rfl

theorem Holding.locate_of_ne (h : t.Holding place content t') (hpath : t.place? path ≠ some place) :
    t'.locate path = t.locate path := by
  rw [h.locate, Location.withFile_of_ne hpath]

theorem Holding.directory_iff (h : t.Holding place content t') (q : Place) :
    t'.node? q = some .directory ↔ t.node? q = some .directory := by
  rw [h.node?]
  split
  case isTrue hq =>
    subst hq
    exact ⟨nofun, fun hdirectory => absurd hdirectory h.free⟩
  case isFalse => rfl

theorem holding_set (hfree : t.node? place ≠ some .directory) (content : ByteArray) :
    t.Holding place content (t.set place (.file content)) :=
  ⟨hfree, fun q => t.node?_set place q _⟩

theorem holding_self (hnode : t.node? place = some (.file content)) :
    t.Holding place content t := by
  refine ⟨by simp [hnode], fun q => ?_⟩
  split
  case isTrue hq => rw [hq, hnode]
  case isFalse => rfl

/-- A file for which there is room is given the text, and is written only if it has another. -/
theorem exists_update? (h : t.HasRoom path) (text : String) :
    ∃ place t', t.place? path = some place ∧ t.update? path text = some (t.touch path text, t') ∧
      t.Holding place text.toUTF8 t' := by
  unfold HasRoom place? content? at h
  unfold place? touch content? update?
  cases hlocate : t.locate path with
  | directory => simp [hlocate, Location.place?] at h
  | nowhere => simp [hlocate, Location.place?] at h
  | vacant place =>
    have hnode := node?_of_locate_eq_vacant hlocate
    exact ⟨place, _, rfl, rfl, holding_set (by simp [hnode]) _⟩
  | file place content =>
    have hnode := node?_of_locate_eq_file hlocate
    rw [hlocate] at h
    have hvalid : content.IsValidUTF8 := h.2 content rfl
    have htext : String.fromUTF8? content = some (String.fromUTF8 content hvalid) := dif_pos hvalid
    by_cases hsame : String.fromUTF8 content hvalid = text
    · subst hsame
      refine ⟨place, t, rfl, ?_, holding_self hnode⟩
      simp [htext, Location.content?]
    · refine ⟨place, _, rfl, ?_, holding_set (by simp [hnode]) _⟩
      simp [htext, Location.content?, hsame]

theorem update?_of_content? (h : t.content? path = some text.toUTF8) :
    t.update? path text = some (.unchanged, t) := by
  have htext : String.fromUTF8? text.toUTF8 = some text := dif_pos text.isValidUTF8
  obtain ⟨place, hlocate⟩ := exists_locate_of_content? h
  simp only [update?, hlocate, htext, Option.map_some, if_true]

/-- A file that holds no text is an obstacle. -/
theorem update?_of_not_isValidUTF8 (h : t.content? path = some content)
    (hcontent : ¬ content.IsValidUTF8) (text : String) : t.update? path text = none := by
  have htext : String.fromUTF8? content = none := dif_neg hcontent
  obtain ⟨place, hlocate⟩ := exists_locate_of_content? h
  simp only [update?, hlocate, htext, Option.map_none]

/-- All that the tree has, the other has too, and of files no others. -/
structure Extends (t t' : FileTree) : Prop where
  node? : ∀ {q n}, t.node? q = some n → t'.node? q = some n
  file : ∀ {q content}, t'.node? q = some (.file content) → t.node? q = some (.file content)

theorem Extends.refl (t : FileTree) : t.Extends t := ⟨id, id⟩

theorem Extends.trans (h : t.Extends t') (h' : t'.Extends u) : t.Extends u :=
  ⟨fun hq => h'.node? (h.node? hq), fun hq => h.file (h'.file hq)⟩

theorem extends_set_directory (h : t.node? place = none) :
    t.Extends (t.set place .directory) := by
  constructor
  · intro q n hq
    have hne : q ≠ place := by
      rintro rfl
      simp [h] at hq
    rw [node?_set, if_neg hne, hq]
  · intro q content hq
    rw [node?_set] at hq
    split at hq
    case isTrue => cases hq
    case isFalse => exact hq

/-- Making directories changes nothing that is there, and makes no files. -/
theorem extends_makeAlong (t : FileTree) (here : Place) (names : List String) :
    t.Extends (t.makeAlong here names).1 := by
  induction names generalizing t here with
  | nil => exact .refl t
  | cons name rest ih =>
    rw [makeAlong]
    split
    case isTrue => exact ih t here
    split
    case isTrue =>
      split
      case isTrue => exact .refl t
      case isFalse => exact ih t here.dropLast
    split
    case isTrue => exact .refl t
    dsimp only
    split
    case h_1 => exact ih t _
    case h_2 => exact .refl t
    case h_3 hnode => exact (extends_set_directory hnode).trans (ih _ _)

theorem extends_makeDirectories (t : FileTree) (path : String) :
    t.Extends (t.makeDirectories path).1 := by
  unfold makeDirectories
  split
  case isTrue => exact .refl t
  case isFalse => exact t.extends_makeAlong [] _

/-- Where all directories of a tree are in which the path has been made, nothing is left to make. -/
theorem makeAlong_again {here : Place} {names : List String}
    (h : t.makeAlong here names = (t', true))
    (hu : ∀ q, t'.node? q = some .directory → u.node? q = some .directory) :
    u.makeAlong here names = (u, true) := by
  induction names generalizing t here with
  | nil => rfl
  | cons name rest ih =>
    rw [makeAlong] at h ⊢
    split at h
    case isTrue hstays =>
      rw [if_pos hstays]
      exact ih h
    case isFalse hstays =>
    rw [if_neg hstays]
    split at h
    case isTrue hup =>
      rw [if_pos hup]
      split at h
      case isTrue => cases h
      case isFalse hroot =>
        rw [if_neg hroot]
        exact ih h
    case isFalse hup =>
    rw [if_neg hup]
    split at h
    case isTrue => cases h
    case isFalse hname =>
    rw [if_neg hname]
    dsimp only at h ⊢
    have hnext (v : FileTree) (hv : v.node? (here ++ [name]) = some .directory)
        (hmade : v.makeAlong (here ++ [name]) rest = (t', true)) :
        u.node? (here ++ [name]) = some .directory := by
      refine hu _ ?_
      have hextends := v.extends_makeAlong (here ++ [name]) rest
      rw [hmade] at hextends
      exact hextends.node? hv
    split at h
    case h_1 hnode =>
      simp only [hnext t hnode h]
      exact ih h
    case h_2 => cases h
    case h_3 =>
      simp only [hnext _ (by simp [node?_set]) h]
      exact ih h

theorem makeDirectories_again (h : t.makeDirectories path = (t', true))
    (hu : ∀ q, t'.node? q = some .directory → u.node? q = some .directory) :
    u.makeDirectories path = (u, true) := by
  unfold makeDirectories at h ⊢
  split at h
  case isTrue => cases h
  case isFalse hname =>
    rw [if_neg hname]
    exact makeAlong_again h hu

end FileTree

end RowFactory
