import AtlasKernel.Lib.Checked
import AtlasKernel.Lib.Net

/-! Numbers by their leading bits: octets in network order, and the mask that keeps the first
bits of a number. -/
namespace AtlasKernel.Lib

/-- Bit `i` of octets, the highest bit of the first octet being bit 0. -/
def octetBit (octets : Bytes) (i : Nat) : Bool := (byteAt octets (i / 8)).toNat.testBit (7 - i % 8)

theorem ofOctets_concat (octets : Bytes) (b : UInt8) :
    ofOctets (octets ++ [b]) = ofOctets octets * 256 + b.toNat := by
  rw [ofOctets, List.foldl_append]
  rfl

/-- Octets in network order are the bits of a number, from the highest on. -/
theorem testBit_ofOctets (octets : Bytes) {i : Nat} (h : i < 8 * octets.length) :
    (ofOctets octets).testBit (8 * octets.length - 1 - i) = octetBit octets i := by
  induction octets using List.reverseRecOn with
  | nil => cases h
  | append_singleton octets b ih =>
    have hbyte := b.toNat_lt
    have hsum : ofOctets (octets ++ [b]) = 2 ^ 8 * ofOctets octets + b.toNat := by
      rw [ofOctets_concat]
      omega
    rw [List.length_append, List.length_singleton] at h ⊢
    rw [hsum, Nat.testBit_two_pow_mul_add _ hbyte, octetBit]
    by_cases hfront : i < 8 * octets.length
    · have hindex : 8 * (octets.length + 1) - 1 - i - 8 = 8 * octets.length - 1 - i := by omega
      rw [if_neg (by omega), hindex, ih hfront, octetBit, byteAt_append (by omega)]
    · have hlast : i / 8 = octets.length := by omega
      have hindex : 8 * (octets.length + 1) - 1 - i = 7 - i % 8 := by omega
      have hb : byteAt (octets ++ [b]) octets.length = b := by
        have happend := byteAt_append_right octets [b] 0
        exact happend
      rw [if_pos (by omega), hindex, hlast, hb]

theorem getMsbD_ofOctets {w i : Nat} {octets : Bytes} (hw : w = 8 * octets.length) (hi : i < w) :
    (BitVec.ofNat w (ofOctets octets)).getMsbD i = octetBit octets i := by
  subst hw
  rw [BitVec.getMsbD_eq_getLsbD, BitVec.getLsbD_ofNat, decide_eq_true hi,
    decide_eq_true (show 8 * octets.length - 1 - i < 8 * octets.length by omega), Bool.true_and,
    Bool.true_and, testBit_ofOctets octets hi]

/-! ## Masks -/

section Masks
variable {w length : Nat}

/-- `x << amount`, which panics where nothing of `x` would be left. -/
def shl? (x : BitVec w) (amount : Nat) : Option (BitVec w) :=
  if amount < w then some (x <<< amount) else none

/-- The mask of a network, as the source computes it:
`if prefix == 0 { 0 } else { MAX << (width - prefix) }`. -/
def networkMask? (w length : Nat) : Option (BitVec w) :=
  if length = 0 then some 0
  else do shl? (BitVec.allOnes w) (← sub? w length)

/-- `ip & mask == base & mask` -/
def sameNetwork? (length : Nat) (ip base : BitVec w) : Option Bool := do
  let mask ← networkMask? w length
  return ip &&& mask = base &&& mask

/-- For every length there is room for, the shift is by less than the width. -/
theorem networkMask?_eq (h : length ≤ w) :
    networkMask? w length =
      some (if length = 0 then 0 else BitVec.allOnes w <<< (w - length)) := by
  rw [networkMask?]
  by_cases hzero : length = 0
  · rw [if_pos hzero, if_pos hzero]
  · have hshift : shl? (BitVec.allOnes w) (w - length) = some (BitVec.allOnes w <<< (w - length)) :=
      if_pos (by omega)
    rw [if_neg hzero, if_neg hzero, sub?_eq h, Option.bind_eq_bind, Option.bind_some, hshift]

theorem sameNetwork?_eq (h : length ≤ w) (ip base : BitVec w) :
    sameNetwork? length ip base = some (sameNetwork length ip base) := by
  rw [sameNetwork?, networkMask?_eq h]
  rfl

/-- With the guard in front, no length makes the shift overflow. -/
theorem sameNetwork?_guarded (length : Nat) (ip base : BitVec w) :
    (if length ≤ w then sameNetwork? length ip base else some false) =
      some (decide (length ≤ w) && sameNetwork length ip base) := by
  by_cases h : length ≤ w
  · rw [if_pos h, sameNetwork?_eq h, decide_eq_true h, Bool.true_and]
  · rw [if_neg h, decide_eq_false h, Bool.false_and]

/-- Numbers are in one network if they have the same leading bits. -/
theorem sameNetwork_bits (h : length ≤ w) (ip base : BitVec w) :
    sameNetwork length ip base = true ↔ ∀ i < length, ip.getMsbD i = base.getMsbD i := by
  have hbit : ∀ x : BitVec w, ∀ i < length,
      x.getMsbD i = (x.toNat / 2 ^ (w - length)).testBit (length - 1 - i) := by
    intro x i hi
    have hindex : length - 1 - i + (w - length) = w - 1 - i := by omega
    rw [Nat.testBit_div_two_pow, hindex, BitVec.testBit_toNat, BitVec.getMsbD_eq_getLsbD,
      decide_eq_true (by omega), Bool.true_and]
  rw [sameNetwork_iff]
  constructor
  · intro heq i hi
    rw [hbit ip i hi, hbit base i hi, heq]
  · intro hbits
    have hlt : ∀ x : BitVec w, x.toNat / 2 ^ (w - length) < 2 ^ length := by
      intro x
      rw [Nat.div_lt_iff_lt_mul (Nat.two_pow_pos _), ← Nat.pow_add, Nat.add_sub_cancel' h]
      exact x.isLt
    refine Nat.eq_of_testBit_eq fun j => ?_
    by_cases hj : j < length
    · have hindex : length - 1 - (length - 1 - j) = j := by omega
      have hsame := hbits (length - 1 - j) (by omega)
      rw [hbit ip _ (by omega), hbit base _ (by omega), hindex] at hsame
      exact hsame
    · have hpow : 2 ^ length ≤ 2 ^ j := Nat.pow_le_pow_right (by decide) (not_lt.mp hj)
      rw [Nat.testBit_lt_two_pow (Nat.lt_of_lt_of_le (hlt ip) hpow),
        Nat.testBit_lt_two_pow (Nat.lt_of_lt_of_le (hlt base) hpow)]

end Masks

end AtlasKernel.Lib
