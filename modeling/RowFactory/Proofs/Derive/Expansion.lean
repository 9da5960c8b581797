import RowFactory.Derive.Expansion
import RowFactory.Proofs.Factory.OfStruct
import RowFactory.Proofs.Name.QualifiedName

namespace RowFactory

open RowFactory.Parser

/-- The attribute `#[rowmap(crate = ..)]` with a literal. -/
def runtimeAttribute (literal : String) : Attribute :=
  ⟨false, .list ⟨false, [.plain "rowmap"]⟩ .paren
    [.word "crate", .punct '=' false, .literal literal]⟩

def Attribute.isAboutRuntime (a : Attribute) : Prop := a.content.name.joined = "rowmap"

/-- Where the attributes of a struct say that the runtime is: one of them names it in a string that
reads as its path, or none of them speaks of it. -/
inductive RuntimeNamed : List Attribute → Path → Prop
  | usual {attrs : List Attribute} (none : ∀ a ∈ attrs, ¬a.isAboutRuntime) :
    RuntimeNamed attrs defaultRuntime
  | named {before after : List Attribute} {literal content : String} {runtime : Path}
    (only : ∀ a ∈ before ++ after, ¬a.isAboutRuntime)
    (value : stringValue? literal = some content) (reads : Path.ofText? content = some runtime) :
    RuntimeNamed (before ++ runtimeAttribute literal :: after) runtime

theorem foldl_addAttribute_of_not_isAboutRuntime {attrs : List Attribute}
    (h : ∀ a ∈ attrs, ¬a.isAboutRuntime) (s : RuntimeState) :
    attrs.foldl RuntimeState.addAttribute s = s := by
  induction attrs generalizing s with
  | nil => rfl
  | cons a rest ih =>
    have ha : (a.content.name.joined != "rowmap") = true := by
      simpa [Attribute.isAboutRuntime] using h a (by simp)
    rw [List.foldl_cons, ih fun b hb => h b (by simp [hb])]
    simp [RuntimeState.addAttribute, ha]

theorem addAttribute_runtimeAttribute {literal content : String} {runtime : Path}
    (hv : stringValue? literal = some content) (hr : Path.ofText? content = some runtime) :
    RuntimeState.start.addAttribute (runtimeAttribute literal) = ⟨true, some runtime, []⟩ := by
  have hitem : runtimeOfItem (.value ⟨false, [.plain "crate"]⟩ .literal [.literal literal]) =
      .ok runtime := by
    simp [runtimeOfItem, runtimeOfValue, runtimeOfLiteral, hv, hr]
  change RuntimeState.start.addItem
    (.key (.value ⟨false, [.plain "crate"]⟩ .literal [.literal literal])) = _
  have hkey : (MetaItem.value ⟨false, [.plain "crate"]⟩ .literal
      [.literal literal]).name.joined = runtimeKey := rfl
  simp [RuntimeState.addItem, hkey, hitem, RuntimeState.start]

theorem runtimeOfAttributes_eq {attrs : List Attribute} {runtime : Path}
    (h : RuntimeNamed attrs runtime) : runtimeOfAttributes attrs = .ok runtime := by
  unfold runtimeOfAttributes
  cases h with
  | usual hnone => rw [foldl_addAttribute_of_not_isAboutRuntime hnone]; rfl
  | @named before after literal content runtime honly hv hr =>
    have hbefore : before.foldl RuntimeState.addAttribute .start = .start :=
      foldl_addAttribute_of_not_isAboutRuntime (fun a ha => honly a (by simp [ha])) .start
    have hafter : after.foldl RuntimeState.addAttribute ⟨true, some runtime, []⟩ = _ :=
      foldl_addAttribute_of_not_isAboutRuntime (fun a ha => honly a (by simp [ha])) _
    rw [List.foldl_append, List.foldl_cons, hbefore, addAttribute_runtimeAttribute hv hr, hafter]
    rfl

theorem expand_struct {s : StructItem} {runtime : Path} (h : RuntimeNamed s.attrs runtime) :
    expand (.struct s) =
      ((QualifiedName.path? ⟨⟨[]⟩, s.name⟩).map (structFactory s runtime)).mapError .name := by
  simp only [expand, runtimeOfAttributes_eq h, ofType?_ofStruct]
  rfl

/-- Both ways to a factory write the same tokens before the type's name and behind it, whatever
`impl` blocks the scan has found: the derive writes the bare identifier, the scan the path from the
crate's root. Where one of them fails the other fails too, since the identifier is a reserved
word. -/
theorem expand_agrees_with_scan {s : StructItem} {config : Config} {modules : List String}
    (hruntime : RuntimeNamed s.attrs config.runtime)
    (hmodules : ∀ name ∈ modules, IsModuleName name) :
    if s.name.endsPath then
      ∃ f before after, expand (.struct s) = .ok f ∧
        f.tokens = before ++ [Token.word "for"] ++ [Token.ident s.name] ++ after ∧
        ∀ impls : List ImplItem,
          let t := AnnotatedType.ofStruct ⟨"crate" :: modules⟩ s impls
          ∃ bindings g, (bindMembers t.members).run .never = (.ok bindings, []) ∧
            Factory.ofType? t bindings config.runtime = .ok g ∧
            g.tokens = before ++ [Token.word "for"] ++
              (⟨false, (("crate" :: modules).map moduleIdent ++ [s.name]).map .plain⟩ : Path).tokens
              ++ after
    else
      expand (.struct s) = .error (.name (.reserved s.name)) ∧
        ∀ impls : List ImplItem,
          let t := AnnotatedType.ofStruct ⟨"crate" :: modules⟩ s impls
          ∃ bindings, (bindMembers t.members).run .never = (.ok bindings, []) ∧
            Factory.ofType? t bindings config.runtime = .error (.reserved s.name) := by
  have hcrate : IsModuleName "crate" := by decide
  have hplace : ∀ name ∈ "crate" :: modules, IsModuleName name := by
    simpa [hcrate] using hmodules
  have hderive : QualifiedName.path? ⟨⟨[]⟩, s.name⟩ = _ := QualifiedName.path?_eq (by simp)
  have hscan : QualifiedName.path? ⟨⟨"crate" :: modules⟩, s.name⟩ = _ :=
    QualifiedName.path?_eq hplace
  have hbindings (impls : List ImplItem) :=
    (yields_bindMembers (AnnotatedType.ofStruct ⟨"crate" :: modules⟩ s impls).members).run
  have hfactory (impls : List ImplItem) :=
    ofType?_ofStruct ⟨"crate" :: modules⟩ s impls config.runtime
  split
  case isTrue hname =>
    simp only [if_pos hname] at hderive hscan
    let f := structFactory s config.runtime ⟨false, [.plain s.name]⟩
    let g := structFactory s config.runtime
      ⟨false, (("crate" :: modules).map moduleIdent ++ [s.name]).map .plain⟩
    refine ⟨f, f.tokensBefore, f.tokensAfter, ?_, ?_, fun impls => ⟨_, g, hbindings impls, ?_, ?_⟩⟩
    · rw [expand_struct hruntime, hderive]
      rfl
    · rw [f.tokens_eq]
      rfl
    · exact (hfactory impls).trans (by rw [hscan]; rfl)
    · exact g.tokens_eq
  case isFalse hname =>
    simp only [if_neg hname] at hderive hscan
    refine ⟨?_, fun impls => ⟨_, hbindings impls, ?_⟩⟩
    · rw [expand_struct hruntime, hderive]
      rfl
    · exact (hfactory impls).trans (by rw [hscan]; rfl)

/-- `#[rowmap(crate = "crate::db")] struct User { pub id: i64 }`. -/
def userStruct : StructItem :=
  { attrs := [runtimeAttribute "\x22crate::db\x22"]
    visibility := .inherited
    name := .plain "User"
    generics := .none
    fields := .named [⟨[], .anyone, some (.plain "id"), plainTy "i64"⟩] }

/-- The runtime that the attribute of `userStruct` names. -/
@[irreducible]
def userRuntime : Path := (Path.ofText? "crate::db").get (by decide +kernel)

theorem ofText?_userRuntime : Path.ofText? "crate::db" = some userRuntime := by
  rw [userRuntime, Option.some_get]

/-- The scan of `crate::model` with the same runtime. -/
theorem expand_agrees_with_scan_user :
    let t := AnnotatedType.ofStruct ⟨["crate", "model"]⟩ userStruct []
    RuntimeNamed userStruct.attrs (Config.default.withRuntime userRuntime).runtime ∧
      (∀ name ∈ ["model"], IsModuleName name) ∧
      ∃ f g before after bindings, expand (.struct userStruct) = .ok f ∧
        (bindMembers t.members).run .never = (.ok bindings, []) ∧
        Factory.ofType? t bindings userRuntime = .ok g ∧
        f.tokens = before ++ [Token.word "for"] ++ [Token.word "User"] ++ after ∧
        g.tokens = before ++ [Token.word "for"] ++
          (⟨false, ["crate", "model", "User"].map fun n => .plain (.plain n)⟩ : Path).tokens ++
            after := by
  have hvalue : stringValue? "\x22crate::db\x22" = some "crate::db" := by decide +kernel
  have hnamed : RuntimeNamed ([] ++ runtimeAttribute "\x22crate::db\x22" :: []) userRuntime :=
    .named (by simp) hvalue ofText?_userRuntime
  have hruntime : RuntimeNamed userStruct.attrs (Config.default.withRuntime userRuntime).runtime :=
    hnamed
  have hmodules : ∀ name ∈ ["model"], IsModuleName name := by decide
  have hname : userStruct.name.endsPath = true := by decide
  have hplace : ("crate" :: ["model"]).map moduleIdent = [.plain "crate", .plain "model"] := by
    decide
  have hagree := expand_agrees_with_scan hruntime hmodules
  rw [if_pos hname, hplace] at hagree
  obtain ⟨f, before, after, hf, htokens, hscan⟩ := hagree
  obtain ⟨bindings, g, hbindings, hg, hpath⟩ := hscan []
  exact ⟨hruntime, hmodules, f, g, before, after, bindings, hf, hbindings, hg, htokens, hpath⟩

end RowFactory
