import Mathlib.Data.List.Basic
import Mathlib.Tactic.Ring

/-! A whole that is cut into pieces, and the places in which the pieces are gathered, in whatever
order they come and however often. -/
namespace AtlasKernel.Lib
variable {α : Type*}

/-! ## Cutting -/

/-- `usize::div_ceil` -/
def divCeil (n size : Nat) : Nat := n / size + if n % size = 0 then 0 else 1

/-- `slice::chunks` -/
def chunksOf (size : Nat) (whole : List α) : List (List α) :=
  (List.range (divCeil whole.length size)).map fun i => (whole.drop (i * size)).take size

theorem divCeil_le_iff {n size k : Nat} (hsize : 0 < size) : divCeil n size ≤ k ↔ n ≤ k * size := by
  have hdiv := Nat.div_add_mod n size
  have hmod := Nat.mod_lt n hsize
  rw [divCeil]
  split_ifs with hzero
  · rw [hzero, Nat.add_zero] at hdiv
    rw [Nat.add_zero, ← Nat.mul_le_mul_left_iff hsize, hdiv, Nat.mul_comm]
  · rw [Nat.add_one_le_iff, Nat.div_lt_iff_lt_mul hsize]
    constructor
    · exact Nat.le_of_lt
    · intro hle
      refine lt_of_le_of_ne hle fun heq => hzero ?_
      rw [heq, Nat.mul_mod_left]

theorem lt_divCeil_iff {n size k : Nat} (hsize : 0 < size) : k < divCeil n size ↔ k * size < n := by
  rw [← not_iff_not, Nat.not_lt, Nat.not_lt, divCeil_le_iff hsize]

@[simp] theorem chunksOf_length (size : Nat) (whole : List α) :
    (chunksOf size whole).length = divCeil whole.length size := by
  rw [chunksOf, List.length_map, List.length_range]

theorem chunksOf_flatten {size : Nat} (hsize : 0 < size) (whole : List α) :
    (chunksOf size whole).flatten = whole := by
  have htake : ∀ k, ((List.range k).map fun i => (whole.drop (i * size)).take size).flatten =
      whole.take (k * size) := by
    intro k
    induction k with
    | zero => rw [Nat.zero_mul]; rfl
    | succ k ih =>
      rw [List.range_succ, List.map_append, List.flatten_append, ih, List.map_singleton,
        List.flatten_singleton, Nat.succ_mul, List.take_add]
  rw [chunksOf, htake]
  exact List.take_of_length_le ((divCeil_le_iff hsize).mp (Nat.le_refl _))

theorem length_le_of_mem_chunksOf {size : Nat} {whole piece : List α} (h : piece ∈ chunksOf size whole) :
    piece.length ≤ size := by
  rw [chunksOf] at h
  obtain ⟨i,_,rfl⟩ := List.mem_map.mp h
  exact List.length_take_le _ _

/-! ## Gathering -/

/-- The pieces that have been seen, each in its place. -/
def gathered (pieces : List α) (seen : List Nat) : List (Option α) :=
  pieces.mapIdx fun i piece => if i ∈ seen then some piece else none

variable {pieces : List α} {seen : List Nat}

@[simp] theorem gathered_length (pieces : List α) (seen : List Nat) :
    (gathered pieces seen).length = pieces.length := List.length_mapIdx

theorem getElem?_gathered (pieces : List α) (seen : List Nat) (i : Nat) :
    (gathered pieces seen)[i]? = pieces[i]?.map fun piece => if i ∈ seen then some piece else none := by
  rw [gathered, List.getElem?_mapIdx]

theorem gathered_nil (pieces : List α) : gathered pieces [] = List.replicate pieces.length none := by
  apply List.ext_getElem?
  intro i
  rw [getElem?_gathered, List.getElem?_replicate]
  by_cases hi : i < pieces.length
  · rw [if_pos hi, List.getElem?_eq_getElem hi, Option.map_some, if_neg List.not_mem_nil]
  · rw [if_neg hi, List.getElem?_eq_none (Nat.not_lt.mp hi), Option.map_none]

theorem gathered_set {i : Nat} {piece : α} (h : pieces[i]? = some piece) :
    (gathered pieces seen).set i (some piece) = gathered pieces (i :: seen) := by
  apply List.ext_getElem?
  intro j
  have hlen : (gathered pieces seen).length = pieces.length := gathered_length _ _
  rw [List.getElem?_set, hlen, getElem?_gathered, getElem?_gathered]
  by_cases hij : i = j
  · subst hij
    have hi : i < pieces.length := (List.getElem?_eq_some_iff.mp h).1
    rw [if_pos rfl, if_pos hi, h, Option.map_some, if_pos List.mem_cons_self]
  · rw [if_neg hij]
    simp [Ne.symm hij]

/-- What has been seen before changes nothing. -/
theorem gathered_cons_of_mem {i : Nat} (h : i ∈ seen) :
    gathered pieces (i :: seen) = gathered pieces seen := by
  have hmem : ∀ j, j ∈ i :: seen ↔ j ∈ seen := fun j =>
    ⟨fun hj => (List.mem_cons.mp hj).elim (fun heq => heq ▸ h) id,List.mem_cons_of_mem i⟩
  simp only [gathered, hmem]

/-- All pieces have been seen. -/
def AllSeen (count : Nat) (seen : List Nat) : Prop := ∀ i < count, i ∈ seen

instance (count : Nat) (seen : List Nat) : Decidable (AllSeen count seen) := by
  unfold AllSeen
  infer_instance

theorem gathered_all (h : AllSeen pieces.length seen) : gathered pieces seen = pieces.map some := by
  apply List.ext_getElem?
  intro i
  rw [getElem?_gathered, List.getElem?_map]
  cases hi : pieces[i]? with
  | none => rfl
  | some piece =>
    rw [Option.map_some, Option.map_some, if_pos (h i (List.getElem?_eq_some_iff.mp hi).1)]

/-! ## Counting -/

theorem countP_set_some {slots : List (Option α)} {i : Nat} (h : slots[i]? = some none) (a : α) :
    (slots.set i (some a)).countP Option.isSome = slots.countP Option.isSome + 1 := by
  induction slots generalizing i with
  | nil => cases h
  | cons slot slots ih =>
    cases i with
    | zero =>
      cases h
      rw [List.set_cons_zero, List.countP_cons, List.countP_cons]
      rfl
    | succ i =>
      rw [List.set_cons_succ, List.countP_cons, List.countP_cons, ih h]
      omega

/-- As many pieces as there are places are all of them. -/
theorem countP_gathered_iff :
    (gathered pieces seen).countP Option.isSome = pieces.length ↔ AllSeen pieces.length seen := by
  rw [← gathered_length pieces seen, List.countP_eq_length, gathered_length]
  constructor
  · intro hall i hi
    have hget : (gathered pieces seen)[i]? = some (if i ∈ seen then some pieces[i] else none) := by
      rw [getElem?_gathered, List.getElem?_eq_getElem hi]
      rfl
    have hsome := hall _ (List.mem_of_getElem? hget)
    by_contra hnot
    rw [if_neg hnot] at hsome
    cases hsome
  · intro hall slot hslot
    rw [gathered_all hall] at hslot
    obtain ⟨piece,_,rfl⟩ := List.mem_map.mp hslot
    rfl

/-- No place is empty when as many are filled as there are. -/
theorem filled {slots : List (Option α)} (h : slots.countP Option.isSome = slots.length) :
    slots = (slots.filterMap id).map some := by
  rw [List.countP_eq_length] at h
  induction slots with
  | nil => rfl
  | cons slot slots ih =>
    obtain ⟨hslot,hslots⟩ := List.forall_mem_cons.mp h
    obtain ⟨a,rfl⟩ := Option.isSome_iff_exists.mp hslot
    have hcons : (some a :: slots).filterMap id = a :: slots.filterMap id :=
      List.filterMap_cons_some rfl
    rw [hcons, List.map_cons, ← ih hslots]

/-- `collect::<Option<Vec<_>>>` -/
def collect (slots : List (Option α)) : Option (List α) := slots.mapM id

theorem collect_map_some (pieces : List α) : collect (pieces.map some) = some pieces := by
  induction pieces with
  | nil => rfl
  | cons piece pieces ih =>
    rw [collect] at ih ⊢
    rw [List.map_cons, List.mapM_cons, ih]
    rfl

theorem collect_eq_some_iff {slots : List (Option α)} : collect slots = some pieces ↔
    slots = pieces.map some := by
  constructor
  · intro h
    induction slots generalizing pieces with
    | nil =>
      cases h
      rfl
    | cons slot slots ih =>
      rw [collect, List.mapM_cons] at h
      cases slot with
      | none => cases h
      | some piece =>
        cases hrest : slots.mapM id with
        | none =>
          rw [hrest] at h
          cases h
        | some rest =>
          rw [hrest] at h
          cases h
          rw [ih hrest, List.map_cons]
  · rintro rfl
    exact collect_map_some pieces

end AtlasKernel.Lib
