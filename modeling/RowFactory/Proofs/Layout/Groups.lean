import RowFactory.Layout.TypeLayout
import RowFactory.Proofs.Layout.Writing

namespace RowFactory

/-- None of the gaps is dropped at the end of a group. -/
def Firm (ps : List Piece) : Prop := ∀ g, .gap g ∈ ps → g.optional = false

section Firm

variable {ps qs : List Piece}

@[simp] theorem firm_nil : Firm [] := by simp [Firm]

@[simp] theorem firm_word_cons {s : String} : Firm (.word s :: ps) ↔ Firm ps := by simp [Firm]

@[simp] theorem firm_gap_cons {g : Gap} :
    Firm (.gap g :: ps) ↔ g.optional = false ∧ Firm ps := by
  simp only [Firm, List.mem_cons, Piece.gap.injEq]
  exact ⟨fun h => ⟨h g (.inl rfl), fun g' hg' => h g' (.inr hg')⟩,
    fun ⟨hg, hps⟩ g' hg' => hg'.elim (fun heq => heq ▸ hg) (hps g')⟩

@[simp] theorem firm_enter_cons {offset : Int} {consistent : Bool} :
    Firm (.enter offset consistent :: ps) ↔ Firm ps := by simp [Firm]

@[simp] theorem firm_leave_cons : Firm (.leave :: ps) ↔ Firm ps := by simp [Firm]

@[simp] theorem firm_append : Firm (ps ++ qs) ↔ Firm ps ∧ Firm qs := by
  simp only [Firm, List.mem_append]
  exact ⟨fun h => ⟨fun g hg => h g (.inl hg), fun g hg => h g (.inr hg)⟩,
    fun ⟨hps, hqs⟩ g hg => hg.elim (hps g) (hqs g)⟩

@[simp] theorem firm_words (words : List String) : Firm (words.map .word) := by
  simp [Firm]

theorem group_eq (offset : Int) (consistent : Bool) (hfirm : Firm ps) (hmore : ∀ g, ps ≠ [.gap g]) :
    Piece.group offset consistent ps = .enter offset consistent :: ps ++ [Piece.leave] := by
  unfold Piece.group
  split
  next g => exact absurd rfl (hmore g)
  next =>
    split
    next g hlast => simp [hfirm g (List.mem_of_getLast? hlast)]
    next => rfl

end Firm

namespace Piece

@[simp] theorem commaItems_singleton (closing : Gap) (item : List Piece) :
    commaItems closing [item] = item ++ [gap closing] := rfl

@[simp] theorem commaItems_cons_cons (closing : Gap) (item next : List Piece)
    (rest : List (List Piece)) :
    commaItems closing (item :: next :: rest) =
      item ++ [word ",", gap .blank] ++ commaItems closing (next :: rest) := rfl

end Piece

namespace Stroke

@[simp] theorem ofPieces_append (ps qs : List Piece) : ofPieces (ps ++ qs) = ofPieces ps ++ ofPieces qs := by
  induction ps with
  | nil => rfl
  | cons p ps ih => cases p <;> simp [ofPieces, ih]

end Stroke

end RowFactory
