import Mathlib.Data.List.Basic

/-! Cipher feedback over whole blocks: a block is mixed with what the block function makes of
the last block of ciphertext. The last block may be cut short. -/
namespace AtlasKernel.Lib
variable {α : Type*} {n : Nat}

def firstBlock (data : List α) (h : n ≤ data.length) : Vector α n :=
  ⟨(data.take n).toArray, by simp [h]⟩

@[simp] theorem firstBlock_toList (data : List α) (h : n ≤ data.length) :
    (firstBlock data h).toList = data.take n := rfl

section
variable (mix : α → α → α) (block : Vector α n → Vector α n)

def cipherFeedback (encrypt : Bool) (feedback : Vector α n) (data : List α) : List α :=
  if h : 0 < n ∧ n ≤ data.length then
    let input := firstBlock data h.2
    let output := Vector.zipWith mix input (block feedback)
    output.toList ++ cipherFeedback encrypt (if encrypt then output else input) (data.drop n)
  else List.zipWith mix data (block feedback).toList
termination_by data.length
decreasing_by
  rw [List.length_drop]
  omega

variable {mix block}

/-- Mixing twice with the same block changes nothing. -/
theorem zipWith_zipWith (hmix : ∀ a k, mix (mix a k) k = a) (data key : List α)
    (h : data.length ≤ key.length) : List.zipWith mix (List.zipWith mix data key) key = data := by
  induction data generalizing key with
  | nil => rfl
  | cons a data ih =>
    cases key with
    | nil => exact absurd h (Nat.not_succ_le_zero _)
    | cons k key =>
      rw [List.zipWith_cons_cons, List.zipWith_cons_cons, hmix,
        ih key (Nat.le_of_succ_le_succ h)]

theorem cipherFeedback_block (hpos : 0 < n) (encrypt : Bool) (feedback input : Vector α n)
    (data : List α) :
    cipherFeedback mix block encrypt feedback (input.toList ++ data) =
      (Vector.zipWith mix input (block feedback)).toList ++
        cipherFeedback mix block encrypt
          (if encrypt then Vector.zipWith mix input (block feedback) else input) data := by
  have hlen : input.toList.length = n := Vector.length_toList
  have hle : n ≤ (input.toList ++ data).length := by
    rw [List.length_append, hlen]
    exact Nat.le_add_right n _
  have hfirst : firstBlock (input.toList ++ data) hle = input := by
    refine Vector.toList_inj.mp ?_
    rw [firstBlock_toList, List.take_left' hlen]
  rw [cipherFeedback, dif_pos ⟨hpos,hle⟩, hfirst, List.drop_left' hlen]

theorem cipherFeedback_short (encrypt : Bool) (feedback : Vector α n) {data : List α}
    (h : data.length < n) :
    cipherFeedback mix block encrypt feedback data =
      List.zipWith mix data (block feedback).toList := by
  rw [cipherFeedback, dif_neg fun hwhole => Nat.not_le.mpr h hwhole.2]

/-- Decrypting undoes encrypting, whatever the block function. -/
theorem cipherFeedback_inverse (hpos : 0 < n) (hmix : ∀ a k, mix (mix a k) k = a)
    (feedback : Vector α n) (data : List α) :
    cipherFeedback mix block false feedback (cipherFeedback mix block true feedback data) = data := by
  induction hlength : data.length using Nat.strongRecOn generalizing feedback data with
  | ind length ih =>
    by_cases hlong : n ≤ data.length
    · obtain ⟨input,rest,rfl⟩ : ∃ (input : Vector α n) (rest : List α), data = input.toList ++ rest :=
        ⟨firstBlock data hlong,data.drop n,(List.take_append_drop n data).symm⟩
      have hshorter : rest.length < length := by
        rw [← hlength, List.length_append, Vector.length_toList]
        omega
      have hback : Vector.zipWith mix (Vector.zipWith mix input (block feedback)) (block feedback) =
          input := by
        refine Vector.toList_inj.mp ?_
        rw [Vector.toList_zipWith, Vector.toList_zipWith]
        refine zipWith_zipWith hmix _ _ (Nat.le_of_eq ?_)
        rw [Vector.length_toList, Vector.length_toList]
      rw [cipherFeedback_block hpos, cipherFeedback_block hpos, hback]
      exact congrArg (input.toList ++ ·) (ih _ hshorter _ rest rfl)
    · have hshort := Nat.not_le.mp hlong
      have hcut : (List.zipWith mix data (block feedback).toList).length < n := by
        rw [List.length_zipWith, Vector.length_toList]
        omega
      rw [cipherFeedback_short true feedback hshort, cipherFeedback_short false feedback hcut]
      exact zipWith_zipWith hmix _ _ (by rw [Vector.length_toList]; omega)

end

end AtlasKernel.Lib
