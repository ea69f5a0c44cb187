import Mathlib.Data.List.Basic

/-! A part of a list, with the positions where it begins and ends. -/
namespace AtlasKernel.Lib
variable {α : Type*} {list part inner : List α} {start stop i j : Nat}

/-- `part` stands in `list` from `start` on and ends before `stop`. -/
def Subslice (list : List α) (start stop : Nat) (part : List α) : Prop :=
  ∃ before after, list = before ++ part ++ after ∧ before.length = start ∧
    start + part.length = stop

theorem Subslice.length (h : Subslice list start stop part) : start + part.length = stop := by
  obtain ⟨_,_,_,_,hstop⟩ := h
  exact hstop

theorem Subslice.inside (h : Subslice list start stop part) : stop ≤ list.length := by
  obtain ⟨before,after,rfl,rfl,rfl⟩ := h
  simp only [List.length_append]
  omega

/-- A slice that is in bounds. -/
theorem subslice_of_le (hstart : start ≤ stop) (hstop : stop ≤ list.length) :
    Subslice list start stop ((list.take stop).drop start) := by
  refine ⟨list.take start,list.drop stop,?_,?_,?_⟩
  · have htake : list.take start = (list.take stop).take start := by
      rw [List.take_take, Nat.min_eq_left hstart]
    rw [htake, List.take_append_drop, List.take_append_drop]
  · rw [List.length_take, Nat.min_eq_left (by omega)]
  · rw [List.length_drop, List.length_take, Nat.min_eq_left hstop]
    omega

/-- Positions in a part are positions in the whole, moved by where the part begins. -/
theorem Subslice.nest (h : Subslice list start stop part) (hinner : Subslice part i j inner) :
    Subslice list (start + i) (start + j) inner := by
  obtain ⟨before,after,rfl,rfl,rfl⟩ := h
  obtain ⟨front,back,rfl,rfl,rfl⟩ := hinner
  refine ⟨before++front,back++after,?_,?_,?_⟩
  · simp only [List.append_assoc]
  · rw [List.length_append]
  · omega

theorem Subslice.getD (h : Subslice list start stop part) (hi : start + i < stop) (d : α) :
    part.getD i d = list.getD (start + i) d := by
  obtain ⟨before,after,rfl,rfl,rfl⟩ := h
  have hpart : i < part.length := by omega
  rw [List.getD_eq_getElem?_getD, List.getD_eq_getElem?_getD, List.append_assoc,
    List.getElem?_append_right (Nat.le_add_right _ _), Nat.add_sub_cancel_left,
    List.getElem?_append_left hpart]

end AtlasKernel.Lib
