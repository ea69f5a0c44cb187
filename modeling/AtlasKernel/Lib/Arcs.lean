import Mathlib.Data.List.Basic
import Mathlib.Data.List.Count

/-! Values with shared owners. An allocation goes by its address and has a strong count; a
weak pointer is an address. The count is right if it is the number of the owners. -/
namespace AtlasKernel.Lib
variable {α : Type*}

/-- The strong count of each allocation, and its value. -/
structure Arcs (α : Type*) where
  cells : List (Nat × α)
deriving DecidableEq, Repr

namespace Arcs

def empty : Arcs α := ⟨[]⟩

def strong (s : Arcs α) (a : Nat) : Nat := (s.cells[a]?).elim 0 Prod.fst

def value (s : Arcs α) (a : Nat) : Option α := (s.cells[a]?).map Prod.snd

/-- How many there have been. -/
def size (s : Arcs α) : Nat := s.cells.length

def new (s : Arcs α) (x : α) : Arcs α × Nat := (⟨s.cells ++ [(1, x)]⟩, s.size)

def clone (s : Arcs α) (a : Nat) : Arcs α :=
  match s.cells[a]? with
  | some (n, x) => ⟨s.cells.set a (n + 1, x)⟩
  | none => s

/-- What is changed behind a lock. -/
def update (s : Arcs α) (a : Nat) (f : α → α) : Arcs α :=
  match s.cells[a]? with
  | some (n, x) => ⟨s.cells.set a (n, f x)⟩
  | none => s

/-- One owner less; the last one drops the value. -/
def drop (s : Arcs α) (a : Nat) : Arcs α × Option α :=
  match s.cells[a]? with
  | some (n + 1, x) => (⟨s.cells.set a (n, x)⟩, if n = 0 then some x else none)
  | _ => (s, none)

/-- What a weak pointer upgrades to. -/
def upgrade (s : Arcs α) (entry : Option Nat) : Option Nat := entry.filter (0 < s.strong ·)

variable {s : Arcs α} {a : Nat}

theorem lt_size_of_strong (h : 0 < s.strong a) : a < s.size := by
  refine Nat.lt_of_not_le fun hle => ?_
  rw [strong, List.getElem?_eq_none_iff.mpr hle] at h
  exact absurd h (Nat.lt_irrefl 0)

/-- A value with more owners is not dropped. -/
theorem drop_shared (h : 2 ≤ s.strong a) : (s.drop a).2 = none := by
  rw [strong] at h
  rw [drop]
  split
  case h_1 n x hcell =>
    rw [hcell] at h
    exact if_neg (Nat.ne_of_gt (Nat.lt_of_succ_lt_succ h))
  case h_2 => rfl

theorem update_self {x : α} {f : α → α} (h : s.value a = some x) (hf : f x = x) : s.update a f = s := by
  rw [value] at h
  rw [update]
  split
  case h_1 n y hcell =>
    rw [hcell, Option.map_some] at h
    obtain rfl : y = x := Option.some.inj h
    obtain ⟨hlt,hget⟩ := List.getElem?_eq_some_iff.mp hcell
    rw [hf, ← hget, List.set_getElem_self]
  case h_2 => rfl

theorem getElem?_set_cells {n m : Nat} {x y : α} (h : s.cells[a]? = some (n, x)) (b : Nat) :
    (s.cells.set a (m, y))[b]? = if a = b then some (m, y) else s.cells[b]? := by
  obtain ⟨hlt,_⟩ := List.getElem?_eq_some_iff.mp h
  by_cases hb : a = b
  · subst hb
    rw [if_pos rfl, List.getElem?_set_self hlt]
  · rw [if_neg hb, List.getElem?_set_ne hb]

@[simp] theorem size_new (x : α) : (s.new x).1.size = s.size + 1 := by
  dsimp only [new, size]
  rw [List.length_append]
  rfl

@[simp] theorem size_clone : (s.clone a).size = s.size := by
  rw [clone]
  split
  · exact List.length_set
  · rfl

@[simp] theorem size_drop : (s.drop a).1.size = s.size := by
  rw [drop]
  split
  · exact List.length_set
  · rfl

theorem strong_new (x : α) (b : Nat) :
    (s.new x).1.strong b = s.strong b + if s.size = b then 1 else 0 := by
  dsimp only [new, strong]
  rcases Nat.lt_trichotomy b s.size with hlt | heq | hgt
  · rw [List.getElem?_append_left hlt, if_neg (Nat.ne_of_gt hlt), Nat.add_zero]
  · subst heq
    have hend : s.cells[s.size]? = none := List.getElem?_eq_none_iff.mpr (Nat.le_refl _)
    have hnew : (s.cells ++ [(1, x)])[s.size]? = some (1, x) := List.getElem?_concat_length ..
    rw [hend, hnew, if_pos rfl]
    rfl
  · have hlong : (s.cells ++ [(1, x)]).length ≤ b := by
      rw [List.length_append]
      exact hgt
    rw [List.getElem?_eq_none_iff.mpr (Nat.le_of_lt hgt), List.getElem?_eq_none_iff.mpr hlong,
      if_neg (Nat.ne_of_lt hgt), Nat.add_zero]

theorem strong_clone (h : a < s.size) (b : Nat) :
    (s.clone a).strong b = s.strong b + if a = b then 1 else 0 := by
  obtain ⟨⟨n,x⟩,hcell⟩ : ∃ c, s.cells[a]? = some c := ⟨_, List.getElem?_eq_getElem h⟩
  rw [clone, hcell]
  dsimp only [strong]
  rw [getElem?_set_cells hcell]
  split
  case isTrue heq =>
    rw [← heq, hcell]
    rfl
  case isFalse => rfl

/-- A second owner of what has just been made. -/
theorem strong_new_clone (s : Arcs α) (x : α) : 2 ≤ ((s.new x).1.clone s.size).strong s.size := by
  rw [strong_clone (by rw [size_new]; exact Nat.lt_succ_self _), strong_new, if_pos rfl]
  omega

theorem strong_update (f : α → α) (b : Nat) : (s.update a f).strong b = s.strong b := by
  rw [update]
  split
  case h_1 n x hcell =>
    dsimp only [strong]
    rw [getElem?_set_cells hcell]
    split
    case isTrue heq =>
      rw [← heq, hcell]
      rfl
    case isFalse => rfl
  case h_2 => rfl

theorem strong_drop (h : 0 < s.strong a) (b : Nat) :
    (s.drop a).1.strong b + (if a = b then 1 else 0) = s.strong b := by
  rw [strong] at h
  rw [drop]
  split
  case h_1 n x hcell =>
    dsimp only [strong]
    rw [getElem?_set_cells hcell]
    split
    case isTrue heq =>
      rw [← heq, hcell]
      rfl
    case isFalse => rfl
  case h_2 hcell =>
    cases hc : s.cells[a]? with
    | none =>
      rw [hc] at h
      exact absurd h (Nat.lt_irrefl 0)
    | some c =>
      obtain ⟨n,x⟩ := c
      rw [hc] at h
      cases n with
      | zero => exact absurd h (Nat.lt_irrefl 0)
      | succ n => exact (hcell n x hc).elim

theorem value_new (x : α) (b : Nat) :
    (s.new x).1.value b = if s.size = b then some x else s.value b := by
  dsimp only [new, value]
  rcases Nat.lt_trichotomy b s.size with hlt | heq | hgt
  · rw [List.getElem?_append_left hlt, if_neg (Nat.ne_of_gt hlt)]
  · subst heq
    have hnew : (s.cells ++ [(1, x)])[s.size]? = some (1, x) := List.getElem?_concat_length ..
    rw [hnew, if_pos rfl]
    rfl
  · have hlong : (s.cells ++ [(1, x)]).length ≤ b := by
      rw [List.length_append]
      exact hgt
    rw [List.getElem?_eq_none_iff.mpr hlong, if_neg (Nat.ne_of_lt hgt),
      List.getElem?_eq_none_iff.mpr (Nat.le_of_lt hgt)]

theorem value_new_old {x y : α} (h : s.value a = some y) : (s.new x).1.value a = some y := by
  have hne : s.size ≠ a := by
    rintro rfl
    have hend : s.cells[s.size]? = none := List.getElem?_eq_none_iff.mpr (Nat.le_refl _)
    rw [value, hend] at h
    cases h
  rw [value_new, if_neg hne, h]

@[simp] theorem value_clone (b : Nat) : (s.clone a).value b = s.value b := by
  rw [clone]
  split
  case h_1 n x hcell =>
    dsimp only [value]
    rw [getElem?_set_cells hcell]
    split
    case isTrue heq =>
      rw [← heq, hcell]
      rfl
    case isFalse => rfl
  case h_2 => rfl

@[simp] theorem value_drop (b : Nat) : (s.drop a).1.value b = s.value b := by
  rw [drop]
  split
  case h_1 n x hcell =>
    dsimp only [value]
    rw [getElem?_set_cells hcell]
    split
    case isTrue heq =>
      rw [← heq, hcell]
      rfl
    case isFalse => rfl
  case h_2 => rfl

/-! ## Owners -/

/-- Every strong count is the number of owners. -/
def Counted (s : Arcs α) (owners : List Nat) : Prop := ∀ a, s.strong a = owners.count a

variable {owners : List Nat}

theorem Counted.empty : Counted (empty : Arcs α) [] := fun _ => rfl

theorem Counted.new (h : Counted s owners) (x : α) : Counted (s.new x).1 (s.size :: owners) := by
  intro b
  rw [strong_new, h b, List.count_cons]
  simp only [beq_iff_eq]

theorem Counted.clone (h : Counted s owners) (ha : a ∈ owners) : Counted (s.clone a) (a :: owners) := by
  intro b
  have hpos : 0 < s.strong a := by
    rw [h a]
    exact List.count_pos_iff.mpr ha
  rw [strong_clone (lt_size_of_strong hpos), h b, List.count_cons]
  simp only [beq_iff_eq]

theorem Counted.update (h : Counted s owners) (f : α → α) : Counted (s.update a f) owners :=
  fun b => (strong_update f b).trans (h b)

theorem Counted.shared (h : Counted s (a :: owners)) (ha : a ∈ owners) : (s.drop a).2 = none := by
  refine drop_shared ?_
  have hpos := List.count_pos_iff.mpr ha
  rw [h a, List.count_cons_self]
  omega

theorem Counted.drop (h : Counted s (a :: owners)) : Counted (s.drop a).1 owners := by
  intro b
  have hpos : 0 < s.strong a := by
    rw [h a]
    exact List.count_pos_iff.mpr List.mem_cons_self
  have hdrop := strong_drop hpos b
  rw [h b, List.count_cons] at hdrop
  simp only [beq_iff_eq] at hdrop
  exact Nat.add_right_cancel hdrop

/-- A weak pointer upgrades exactly if there is an owner. -/
theorem Counted.upgrade (h : Counted s owners) (a : Nat) :
    s.upgrade (some a) = if a ∈ owners then some a else none := by
  rw [Arcs.upgrade, Option.filter_some, h a]
  simp only [decide_eq_true_eq, List.count_pos_iff]

theorem Counted.upgrade_nil (h : Counted s []) (entry : Option Nat) : s.upgrade entry = none := by
  cases entry with
  | none => rfl
  | some a => exact h.upgrade a

end Arcs
end AtlasKernel.Lib
