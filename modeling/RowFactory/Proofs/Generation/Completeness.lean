import RowFactory.Proofs.Factory.OfStruct
import RowFactory.Proofs.Factory.Printable
import RowFactory.Proofs.Generation.Outcome
import RowFactory.Proofs.Name.ModuleText
import RowFactory.Proofs.Name.PathText
import RowFactory.Proofs.Scan.DeclaredNames

namespace RowFactory

/-- No field that is mapped is a blank, and the parameters do not begin with one. -/
structure StructItem.HasNames (s : StructItem) : Prop where
  fields : ∀ b ∈ fieldBindings s.fields.toList, b.field ≠ .plain "_"
  params : s.generics.opensBlank = false

instance (s : StructItem) : Decidable s.HasNames :=
  decidable_of_iff ((∀ b ∈ fieldBindings s.fields.toList, b.field ≠ .plain "_") ∧
    s.generics.opensBlank = false) ⟨fun h => ⟨h.1, h.2⟩, fun h => ⟨h.fields, h.params⟩⟩

/-- The printer writes on one line, or what it writes can be read: the runtime's path where a path
begins, the names of each type, and what stands in its parameters and predicates and is not taken
apart. -/
def Printer.CanWrite (printer : Printer) (config : Config) (structs : List StructItem) : Prop :=
  printer = .compact ∨ printer = .pretty ∧ config.runtime.startsPlain ∧
    ∀ s ∈ structs, s.HasNames ∧ ∀ e ∈ s.generics.embedded, e.IsReadBack

theorem isPrintable_structFactory {s : StructItem} {runtime target : Path} {names : List Ident}
    (hs : s.WellNamed) (hnames : s.HasNames) (hes : ∀ e ∈ s.generics.embedded, e.IsReadBack)
    (hruntime : runtime.IsReadable) (hplain : runtime.startsPlain) (htarget : target.IsReadable)
    (htargetPlain : target.startsPlain)
    (hsegments : target.segments = (names ++ [s.name]).map .plain) :
    (structFactory s runtime target).isPrintable := by
  have hfields : ∀ a ∈ (structFactory s runtime target).assignments, a.field.isKeyword = false := by
    intro a ha
    obtain ⟨b, hb, rfl⟩ := List.mem_map.mp ha
    obtain ⟨x, hx, hbinding⟩ := mem_fieldBindings.mp hb
    obtain ⟨-, hkeyword | hblank⟩ := hs.fields x hx b.field (name_of_binding? hbinding).1
    · exact hkeyword
    · exact absurd hblank (hnames.fields b hb)
  have hhead := reads_implHead_structFactory hs.read hs.params hs.name.2 hes hnames.params hruntime
    hplain htarget htargetPlain hsegments (Nat.le_refl _)
  rw [Factory.isPrintable, Factory.items?_eq hruntime hplain hfields hhead]
  rfl

variable {texts : List (String × String)} {units : List SourceUnit} {config : Config}
  {printer : Printer}

/-- Every type is referred to by a path below the root. -/
theorem exists_path_of_mem (hunits : SourceUnit.ofTexts? texts = some units)
    (hmodules : ∀ x ∈ texts, ∃ rooted names, x.1 = moduleText rooted names ∧
      ∀ i ∈ names, i.MayBeRaw)
    {d : ModulePath × StructItem} (hd : d ∈ declaredStructs units) :
    ∃ target names, (declaredName d).path? = .ok target ∧ target.IsReadable ∧
      target.startsPlain ∧ target.segments = (names ++ [d.2.name]).map .plain := by
  obtain ⟨hitem, x, hx, names, hsegments, hnames⟩ := wellNamed_of_mem_declaredStructs hunits hd
  obtain ⟨rooted, modules, htext, hmodules⟩ := hmodules x hx
  rw [htext, ofText_moduleText rooted hmodules] at hsegments
  have hall : ∀ name ∈ d.1.segments, IsModuleName name := by
    rw [hsegments]
    simp only [List.cons_append, List.mem_cons, List.mem_append, List.mem_map]
    rintro name (rfl | ⟨i, hi, rfl⟩ | hname)
    · decide
    · exact isModuleName_of_mayBeRaw (hmodules i hi)
    · exact hnames name hname
  have hpath := QualifiedName.path?_eq_ok (n := declaredName d) hall hitem.name
  obtain ⟨htarget, hplain, names, hnames⟩ := QualifiedName.isReadable_of_path? hpath hitem.name.2
  exact ⟨_, names, hpath, htarget, hplain, hnames⟩

theorem forall₂_of_forall_exists {α β : Type} {r : α → β → Prop} {as : List α}
    (h : ∀ a ∈ as, ∃ b, r a b) : ∃ bs, List.Forall₂ r as bs := by
  induction as with
  | nil => exact ⟨[], .nil⟩
  | cons a as ih =>
    obtain ⟨b, hb⟩ := h a (by simp)
    obtain ⟨bs, hbs⟩ := ih fun c hc => h c (by simp [hc])
    exact ⟨b :: bs, .cons hb hbs⟩

theorem exists_emits {d : ModulePath × StructItem} {target : Path}
    (hpath : (declaredName d).path? = .ok target)
    (hprint : printer = .compact ∨
      printer = .pretty ∧ (structFactory d.2 config.runtime target).isPrintable)
    (sightings : List Sighting) :
    ∃ a, Emits config printer (annotate sightings d.1 d.2) a := by
  have hfactory : Factory.ofType? (annotate sightings d.1 d.2)
      (annotate sightings d.1 d.2).bindings config.runtime =
      .ok (structFactory d.2 config.runtime target) := by
    rw [annotate, ofType?_ofStruct]
    exact congrArg (Except.map (structFactory d.2 config.runtime)) hpath
  have htext : ∃ text, printer.print (structFactory d.2 config.runtime target) = .ok text := by
    obtain rfl | ⟨rfl, hprintable⟩ := hprint
    · exact ⟨_, rfl⟩
    · exact ⟨_, if_pos hprintable⟩
  obtain ⟨text, htext⟩ := htext
  exact ⟨_, by rw [Emits, emit, hfactory]; simp only [htext]; rfl⟩

/-- The failure of a generation over several lines for the given texts and runtime. -/
def failureOf? (texts : List (String × String)) (runtime : String) : Option GenerationError := do
  let units ← SourceUnit.ofTexts? texts
  let path ← Path.ofText? runtime
  match generate units (Config.default.withRuntime path) .pretty with
  | .ok _ => none
  | .error e => return e

end RowFactory
