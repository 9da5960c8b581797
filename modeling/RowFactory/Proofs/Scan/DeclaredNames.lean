import RowFactory.Proofs.Scan.Discovery
import RowFactory.Proofs.Source.ItemNames

namespace RowFactory

mutual

theorem wellNamed_of_mem_structsWithin {item : Item} {names : List String} (hitem : item.WellNamed)
    (hnames : ∀ n ∈ names, IsModuleName n) {d : List String × StructItem}
    (hd : d ∈ item.structsWithin names) : (∀ n ∈ d.1, IsModuleName n) ∧ d.2.WellNamed := by
  match item, hitem with
  | .struct item, hitem =>
    obtain rfl := List.mem_singleton.mp hd
    exact ⟨hnames, hitem⟩
  | .module n (some content), hitem =>
    refine wellNamed_of_mem_structsWithinAll hitem.2 (fun m hm => ?_) hd
    rcases List.mem_append.mp hm with hm | hm
    · exact hnames m hm
    · obtain rfl := List.mem_singleton.mp hm
      exact hitem.1
  | .module _ none, _ | .use _ _, _ | .externCrate _ _, _ | .inherentImpl _ _, _ | .named _, _
  | .unnamed, _ | .verbatim, _ => cases hd

theorem wellNamed_of_mem_structsWithinAll {items : List Item} {names : List String}
    (hitems : Item.AllWellNamed items) (hnames : ∀ n ∈ names, IsModuleName n)
    {d : List String × StructItem} (hd : d ∈ Item.structsWithinAll names items) :
    (∀ n ∈ d.1, IsModuleName n) ∧ d.2.WellNamed := by
  match items, hitems with
  | [], _ => cases hd
  | i :: rest, hitems =>
    rcases List.mem_append.mp hd with hd | hd
    · exact wellNamed_of_mem_structsWithin hitems.1 hnames hd
    · exact wellNamed_of_mem_structsWithinAll hitems.2 hnames hd

end

/-- The units of texts that are given with the texts of their modules, if all of them are read. -/
def SourceUnit.ofTexts? (texts : List (String × String)) : Option (List SourceUnit) :=
  texts.mapM fun (module, source) => SourceUnit.ofText? (.ofText module) source

theorem exists_text_of_mem {texts : List (String × String)} {units : List SourceUnit}
    (h : SourceUnit.ofTexts? texts = some units) {u : SourceUnit} (hu : u ∈ units) :
    ∃ x ∈ texts, u.module = .ofText x.1 ∧ itemsOfText? x.2 = some u.items := by
  induction texts generalizing units with
  | nil =>
    cases h
    cases hu
  | cons x texts ih =>
    rw [SourceUnit.ofTexts?, List.mapM_cons] at h
    obtain ⟨v, hv, h⟩ := Option.bind_eq_some_iff.mp h
    obtain ⟨rest, hrest, heq⟩ := Option.bind_eq_some_iff.mp h
    cases heq
    rcases List.mem_cons.mp hu with rfl | hu
    · obtain ⟨items, hitems, rfl⟩ := Option.map_eq_some_iff.mp hv
      exact ⟨x, by simp, rfl, hitems⟩
    · obtain ⟨y, hy, hread⟩ := ih hrest hu
      exact ⟨y, List.mem_cons_of_mem x hy, hread⟩

/-- A struct in the text of a unit stands in the unit's module or below it, in modules whose names
can be written. -/
theorem wellNamed_of_mem_declaredStructs {texts : List (String × String)} {units : List SourceUnit}
    (hunits : SourceUnit.ofTexts? texts = some units) {d : ModulePath × StructItem}
    (hd : d ∈ declaredStructs units) :
    d.2.WellNamed ∧ ∃ x ∈ texts, ∃ names,
      d.1.segments = (ModulePath.ofText x.1).segments ++ names ∧ ∀ n ∈ names, IsModuleName n := by
  obtain ⟨u, hu, hd⟩ := List.mem_flatMap.mp hd
  obtain ⟨⟨names, item⟩, hmem, rfl⟩ := List.mem_map.mp hd
  obtain ⟨x, hx, hmodule, hitems⟩ := exists_text_of_mem hunits hu
  obtain ⟨hnames, hitem⟩ :=
    wellNamed_of_mem_structsWithinAll (allWellNamed_of_itemsOfText? hitems) (by simp) hmem
  exact ⟨hitem, x, hx, names, by rw [← hmodule]; rfl, hnames⟩

theorem mem_of_mem_eraseDupsBy {α : Type} {r : α → α → Bool} {xs : List α} {a : α}
    (h : a ∈ xs.eraseDupsBy r) : a ∈ xs := by
  match xs with
  | [] => simp at h
  | b :: rest =>
    rw [List.eraseDupsBy_cons] at h
    rcases List.mem_cons.mp h with rfl | h
    · exact List.mem_cons_self
    · exact List.mem_cons_of_mem b (List.mem_filter.mp (mem_of_mem_eraseDupsBy h)).1
termination_by xs.length
decreasing_by
  have := List.length_filter_le (fun c => r c b = false) rest
  simp only [List.length_cons]
  omega

theorem mem_declaredStructs_of_first {units : List SourceUnit} {config : Config}
    {d : ModulePath × StructItem} (hd : d ∈ firstMarkedStructs units config) :
    d ∈ declaredStructs units :=
  (List.mem_filter.mp (mem_of_mem_eraseDupsBy hd)).1

end RowFactory
