import RowFactory.Factory.Basic
import RowFactory.Proofs.Mapping.Binding

namespace RowFactory

def ColumnBinding.assignment (b : ColumnBinding) : Assignment := ⟨b.field, b.column⟩

/-- The factory of a struct whose type is referred to by the given path. -/
def structFactory (s : StructItem) (runtime target : Path) : Factory :=
  ⟨target, s.generics, runtime, (fieldBindings s.fields.toList).map ColumnBinding.assignment⟩

theorem ofType?_ofStruct (m : ModulePath) (s : StructItem) (impls : List ImplItem)
    (runtime : Path) :
    Factory.ofType? (.ofStruct m s impls) (AnnotatedType.ofStruct m s impls).bindings runtime =
      (QualifiedName.path? ⟨m, s.name⟩).map (structFactory s runtime) := by
  rw [bindings_ofStruct]
  unfold Factory.ofType?
  cases h : QualifiedName.path? ⟨m, s.name⟩ <;>
    simp [AnnotatedType.ofStruct, h, structFactory, ColumnBinding.assignment, Except.map, bind,
      Except.bind, pure, Except.pure]

theorem assignments_of_ofType? {m : ModulePath} {s : StructItem} {impls : List ImplItem}
    {runtime : Path} {f : Factory}
    (h : Factory.ofType? (.ofStruct m s impls) (AnnotatedType.ofStruct m s impls).bindings
      runtime = .ok f) :
    f.assignments = (fieldBindings s.fields.toList).map ColumnBinding.assignment := by
  rw [ofType?_ofStruct] at h
  cases hpath : QualifiedName.path? ⟨m, s.name⟩ with
  | error e => simp [hpath, Except.map] at h
  | ok target =>
    obtain rfl : structFactory s runtime target = f := by simpa [hpath, Except.map] using h
    rfl

/-- What stands before `for` and the type's name in a factory. -/
def Factory.tokensBefore (f : Factory) : List Token :=
  [Token.punct '#' false, .group .bracket [Token.word "automatically_derived"], .word "impl"] ++
    f.implGenerics.declarationTokens ++ (f.below ["FromRow"]).tokens

/-- What stands behind the type's name in a factory. -/
def Factory.tokensAfter (f : Factory) : List Token :=
  f.implGenerics.argumentTokens ++ f.implGenerics.whereTokens ++
    [Token.group .brace (f.signatureTokens ++ [Token.group .brace f.bodyTokens])]

theorem Factory.tokens_eq (f : Factory) :
    f.tokens = f.tokensBefore ++ [Token.word "for"] ++ f.target.tokens ++ f.tokensAfter := by
  simp only [tokens, tokensBefore, tokensAfter, List.append_assoc]

end RowFactory
