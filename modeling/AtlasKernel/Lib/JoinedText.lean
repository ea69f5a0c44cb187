import AtlasKernel.Lib.Text
import Mathlib.Data.List.Induction

/-! Pieces joined by a separator. Where the last pieces are free of it they can be told apart
from behind, and a first one from the front, whatever stands between them. -/
namespace AtlasKernel.Lib
variable {α : Type*} {sep : α}

/-- Every piece behind the first one has the separator in front. -/
def joined (sep : α) (front : List α) (pieces : List (List α)) : List α :=
  front ++ pieces.flatMap (sep :: ·)

@[simp] theorem joined_nil (front : List α) : joined sep front [] = front := List.append_nil front

theorem joined_append (front : List α) (pieces pieces' : List (List α)) :
    joined sep front (pieces ++ pieces') = joined sep (joined sep front pieces) pieces' := by
  rw [joined, joined, joined, List.flatMap_append, List.append_assoc]

theorem joined_concat (front : List α) (pieces : List (List α)) (piece : List α) :
    joined sep front (pieces ++ [piece]) = joined sep front pieces ++ sep :: piece := by
  rw [joined_append, joined, List.flatMap_singleton]

theorem joined_cons (front piece : List α) (pieces : List (List α)) :
    joined sep front (piece :: pieces) = front ++ sep :: joined sep piece pieces := by
  rw [joined, joined, List.flatMap_cons, List.cons_append]

/-- As many pieces from behind. -/
theorem joined_inj_behind {front front' : List α} {pieces pieces' : List (List α)}
    (hlen : pieces.length = pieces'.length) (hpieces : ∀ piece ∈ pieces ++ pieces', sep ∉ piece)
    (h : joined sep front pieces = joined sep front' pieces') : front = front' ∧ pieces = pieces' := by
  induction pieces using List.reverseRecOn generalizing pieces' with
  | nil =>
    obtain rfl := List.eq_nil_of_length_eq_zero hlen.symm
    rw [joined_nil, joined_nil] at h
    exact ⟨h,rfl⟩
  | append_singleton pieces piece ih =>
    obtain rfl | ⟨pieces',piece',rfl⟩ := List.eq_nil_or_concat pieces'
    · simp at hlen
    · have hlast : sep ∉ piece := hpieces piece (by simp)
      have hlast' : sep ∉ piece' := hpieces piece' (by simp)
      rw [List.concat_eq_append, joined_concat, joined_concat] at h
      obtain ⟨hjoined,rfl⟩ := after_eq hlast hlast' h
      obtain ⟨hfront,rfl⟩ := ih (by simpa using hlen)
        (fun piece hmem => hpieces piece (by
          rcases List.mem_append.mp hmem with hmem | hmem <;> simp [hmem])) hjoined
      exact ⟨hfront,(List.concat_eq_append ..).symm⟩

/-- The first piece. -/
theorem joined_inj_front {front front' piece piece' : List α} {pieces pieces' : List (List α)}
    (hfront : sep ∉ front) (hfront' : sep ∉ front')
    (h : joined sep front (piece :: pieces) = joined sep front' (piece' :: pieces')) :
    front = front' ∧ joined sep piece pieces = joined sep piece' pieces' := by
  rw [joined_cons, joined_cons] at h
  exact until_eq hfront hfront' h

end AtlasKernel.Lib
