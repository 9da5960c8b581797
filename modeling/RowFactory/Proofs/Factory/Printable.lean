import RowFactory.Proofs.Factory.Header

namespace RowFactory

open RowFactory.Parser

theorem ImplHead.Declares.item_eq {head : ImplHead} {f : Factory} (h : head.Declares f)
    (items : List ImplItem) : head.item .inherited items = .unnamed := by
  simp [item, h.trait, h.target, Path.ty]

namespace Factory

variable {f : Factory} (hruntime : f.runtime.IsReadable) (hplain : f.runtime.startsPlain)
  (hfields : ∀ a ∈ f.assignments, a.field.isKeyword = false) {k : Nat}
  (hhead : (Grammar.atDepth (k + 4)).implHead.Reads (f.headTokens ++ [f.braces]) [f.braces]
    (·.Declares f))

include hruntime hplain hfields hhead

theorem reads_block :
    ((Grammar.atDepth (k + 4)).implBlock .inherited).Reads (f.headTokens ++ [f.braces]) []
      (· = .unnamed) := by
  have hitems : ((Grammar.atDepth (k + 4)).bracedAll (Grammar.atDepth (k + 4)).implItem).Reads
      [f.braces] [] fun _ => True := by
    have hfunction := reads_function hruntime hplain k hfields
    refine Reads.group _ ((reads_whileSees_none rfl).bind_eq ?_)
    exact (hfunction.whileSees_once rfl rfl).mono fun _ _ => trivial
  rw [Grammar.implBlock_eq]
  exact hhead.bind fun head h => hitems.bind fun items _ => reads_pure (h.item_eq items)

theorem reads_item :
    ((Grammar.atDepth (k + 4)).oneItem).Reads f.tokens [] (· = .unnamed) := by
  have hblock := reads_block hruntime hplain hfields hhead
  have hattribute : ((Grammar.atDepth (k + 4)).outerAttribute).Reads f.tokens
      (f.headTokens ++ [f.braces]) fun _ => True := by
    rw [tokens_eq_head]
    refine reads_of_run fun _ _ unread => ?_
    cases unread <;> exact ⟨_, _, _, rfl, trivial⟩
  rw [tokens_eq_head] at hattribute ⊢
  refine reads_cursor.bind fun _ _ => (hattribute.whileSees_once rfl rfl).bind fun attrs _ => ?_
  have hrest : ((Grammar.atDepth (k + 4)).itemRest attrs .inherited).Reads
      (f.headTokens ++ [f.braces]) [] (· = .unnamed) := reads_ahead.bind_eq hblock
  refine (reads_visibility rfl).bind_eq (hrest.bind_eq ?_)
  exact reads_pure rfl

omit hhead in
/-- The tokens of a factory are those of a source file with one item if its header is read back. -/
theorem items?_eq (hhead : (Grammar.atDepth (Token.sizeAll f.tokens)).implHead.Reads
    (f.headTokens ++ [f.braces]) [f.braces] (·.Declares f)) : f.items? = some [.unnamed] := by
  obtain ⟨k, hk⟩ := Nat.exists_eq_add_of_le' f.four_le_sizeAll_tokens
  rw [hk] at hhead
  have hitem := reads_item hruntime hplain hfields hhead
  have hfile : (do
      let _ ← (Grammar.forTokens f.tokens).innerAttributes
      (Grammar.forTokens f.tokens).items : Parser (List Item)).Reads f.tokens []
      (· = [.unnamed]) := by
    rw [Grammar.forTokens, hk]
    rw [tokens_eq_head] at hitem ⊢
    refine (reads_whileSees_none rfl).bind_eq ((hitem.whileSees_once rfl rfl).mono ?_)
    rintro _ ⟨_, rfl, rfl⟩
    rfl
  obtain ⟨_, hall, rfl⟩ := hfile.exists_all
  exact hall

end Factory

end RowFactory
