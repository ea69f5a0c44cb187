import AtlasKernel.Lib.Bytes
import Mathlib.Data.List.Infix

/-! Indexing and subtraction that panic when they are out of bounds: `none` is the panic. In
bounds each is the operation that does not check. -/
namespace AtlasKernel.Lib

/-- `bytes[i]` -/
def byteAt? (bytes : Bytes) (i : Nat) : Option UInt8 := bytes[i]?

/-- `u16::from_be_bytes([bytes[i], bytes[i + 1]])` -/
def be16At? (bytes : Bytes) (i : Nat) : Option Nat := do
  let hi ← byteAt? bytes i
  let lo ← byteAt? bytes (i + 1)
  return ofBe16 hi lo

/-- `u16::from_le_bytes([bytes[i], bytes[i + 1]])` -/
def le16At? (bytes : Bytes) (i : Nat) : Option Nat := do
  let lo ← byteAt? bytes i
  let hi ← byteAt? bytes (i + 1)
  return ofBe16 hi lo

/-- `&bytes[i..j]` -/
def slice? (bytes : Bytes) (i j : Nat) : Option Bytes :=
  if i ≤ j ∧ j ≤ bytes.length then some (slice bytes i j) else none

/-- `&bytes[i..]` -/
def sliceFrom? (bytes : Bytes) (i : Nat) : Option Bytes :=
  if i ≤ bytes.length then some (bytes.drop i) else none

/-- `bytes` with `data` from `i` on -/
def overwrite (bytes : Bytes) (i : Nat) (data : Bytes) : Bytes :=
  bytes.take i ++ data ++ bytes.drop (i + data.length)

/-- `bytes[i..i + data.len()].copy_from_slice(data)` -/
def overwrite? (bytes : Bytes) (i : Nat) (data : Bytes) : Option Bytes :=
  if i + data.length ≤ bytes.length then some (overwrite bytes i data) else none

/-- `bytes.copy_within(i..j, dest)`: the slice is read before anything is written. -/
def copyWithin? (bytes : Bytes) (i j dest : Nat) : Option Bytes := do
  overwrite? bytes dest (← slice? bytes i j)

/-- `a - b` -/
def sub? (a b : Nat) : Option Nat := if b ≤ a then some (a - b) else none

/-- `a % b` -/
def mod? (a b : Nat) : Option Nat := if b = 0 then none else some (a % b)

variable {bytes data : Bytes} {i j : Nat}

theorem byteAt?_eq (h : i < bytes.length) : byteAt? bytes i = some (byteAt bytes i) := by
  rw [byteAt?, byteAt, List.getElem?_eq_getElem h, List.getD_eq_getElem _ _ h]

theorem byteAt?_none (h : bytes.length ≤ i) : byteAt? bytes i = none := List.getElem?_eq_none h

theorem be16At?_eq (h : i + 1 < bytes.length) : be16At? bytes i = some (be16At bytes i) := by
  rw [be16At?, byteAt?_eq h, byteAt?_eq (Nat.lt_of_succ_lt h)]
  rfl

theorem le16At?_eq (h : i + 1 < bytes.length) : le16At? bytes i = some (le16At bytes i) := by
  rw [le16At?, byteAt?_eq h, byteAt?_eq (Nat.lt_of_succ_lt h)]
  rfl

theorem slice?_eq (hij : i ≤ j) (hj : j ≤ bytes.length) : slice? bytes i j = some (slice bytes i j) :=
  if_pos ⟨hij,hj⟩

theorem slice?_none (h : j < i ∨ bytes.length < j) : slice? bytes i j = none := by
  rw [slice?, if_neg]
  omega

theorem sliceFrom?_eq (h : i ≤ bytes.length) : sliceFrom? bytes i = some (bytes.drop i) := if_pos h

theorem overwrite?_eq (h : i + data.length ≤ bytes.length) :
    overwrite? bytes i data = some (overwrite bytes i data) := if_pos h

theorem copyWithin?_eq {dest : Nat} (hij : i ≤ j) (hj : j ≤ bytes.length)
    (hdest : dest + (j - i) ≤ bytes.length) :
    copyWithin? bytes i j dest = some (overwrite bytes dest (slice bytes i j)) := by
  have hlen : (slice bytes i j).length = j - i := by rw [slice_length, Nat.min_eq_left hj]
  rw [copyWithin?, slice?_eq hij hj]
  exact overwrite?_eq (by rw [hlen]; exact hdest)

theorem slice?_zero (h : i ≤ bytes.length) : slice? bytes 0 i = some (bytes.take i) :=
  slice?_eq (Nat.zero_le i) h

theorem sub?_eq {a b : Nat} (h : b ≤ a) : sub? a b = some (a - b) := if_pos h

theorem mod?_eq {a b : Nat} (h : 0 < b) : mod? a b = some (a % b) := if_neg (Nat.ne_of_gt h)

/-! ## Overwriting -/

theorem overwrite_length (h : i + data.length ≤ bytes.length) :
    (overwrite bytes i data).length = bytes.length := by
  rw [overwrite, List.length_append, List.length_append, List.length_take, List.length_drop]
  omega

theorem overwrite_take (h : j ≤ i) (hi : i ≤ bytes.length) :
    (overwrite bytes i data).take j = bytes.take j := by
  have hlen : j ≤ (bytes.take i).length := by
    rw [List.length_take]
    omega
  rw [overwrite, List.append_assoc, List.take_append_of_le_length hlen, List.take_take,
    Nat.min_eq_left h]

theorem overwrite_drop (h : i + data.length ≤ j) (hi : i ≤ bytes.length) :
    (overwrite bytes i data).drop j = bytes.drop j := by
  have hlen : (bytes.take i ++ data).length = i + data.length := by
    rw [List.length_append, List.length_take, Nat.min_eq_left hi]
  rw [overwrite, List.drop_append, List.drop_eq_nil_of_le (by rw [hlen]; exact h), List.nil_append,
    hlen, List.drop_drop]
  congr 1
  omega

/-- What has been written can be read again. -/
theorem slice_overwrite (hi : i ≤ bytes.length) :
    slice (overwrite bytes i data) i (i + data.length) = data := by
  have hlen : (bytes.take i).length = i := by rw [List.length_take, Nat.min_eq_left hi]
  have hmiddle := slice_middle (bytes.take i) data (bytes.drop (i + data.length))
  rw [hlen, ← List.append_assoc] at hmiddle
  exact hmiddle

/-- Only the last of what is written in one place stays. -/
theorem overwrite_overwrite {data' : Bytes} (h : data'.length = data.length)
    (hi : i + data.length ≤ bytes.length) :
    overwrite (overwrite bytes i data) i data' = overwrite bytes i data' := by
  rw [overwrite, overwrite_take (Nat.le_refl i) (by omega), h, overwrite_drop (Nat.le_refl _)
    (by omega), overwrite, h]

/-- Two slices, one behind the other. -/
theorem slice_append_slice {k : Nat} (hij : i ≤ j) (hjk : j ≤ k) :
    slice bytes i j ++ slice bytes j k = slice bytes i k := by
  rw [slice, slice, slice, List.drop_take, List.drop_take, List.drop_take]
  have hsum : k - i = (j - i) + (k - j) := by omega
  have hdrop : bytes.drop j = (bytes.drop i).drop (j - i) := by
    rw [List.drop_drop]
    congr 1
    omega
  rw [hsum, hdrop, ← List.take_add]

end AtlasKernel.Lib
