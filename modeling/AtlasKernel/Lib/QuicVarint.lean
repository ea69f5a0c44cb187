import AtlasKernel.Lib.Bytes
import Mathlib.Tactic.IntervalCases

/-! Numbers of variable length, whose first two bits say whether they take one byte, two, four or
eight. A number has a form of each width that it fits in; the writer takes the shortest and the
reader takes any. -/
namespace AtlasKernel.Lib

/-! ## Big-endian numbers of any width -/

def bigEndian : Bytes → Nat
  | [] => 0
  | b :: bs => b.toNat * 256 ^ bs.length + bigEndian bs

def bigEndianBytes : Nat → Nat → Bytes
  | 0, _ => []
  | k + 1, n => UInt8.ofNat (n / 256 ^ k) :: bigEndianBytes k n

@[simp] theorem bigEndianBytes_length (k n : Nat) : (bigEndianBytes k n).length = k := by
  induction k with
  | zero => rfl
  | succ k ih => rw [bigEndianBytes, List.length_cons, ih]

theorem bigEndian_lt (bytes : Bytes) : bigEndian bytes < 256 ^ bytes.length := by
  induction bytes with
  | nil => exact Nat.one_pos
  | cons b bs ih =>
    have hb : b.toNat + 1 ≤ 256 := b.toNat_lt
    calc
      bigEndian (b :: bs) < b.toNat * 256 ^ bs.length + 256 ^ bs.length := Nat.add_lt_add_left ih _
      _ = (b.toNat + 1) * 256 ^ bs.length := (Nat.succ_mul _ _).symm
      _ ≤ 256 * 256 ^ bs.length := Nat.mul_le_mul_right _ hb
      _ = 256 ^ (b :: bs).length := (Nat.pow_succ').symm

theorem bigEndian_bytes (k n : Nat) : bigEndian (bigEndianBytes k n) = n % 256 ^ k := by
  induction k with
  | zero => rw [Nat.pow_zero, Nat.mod_one]; rfl
  | succ k ih =>
    have hsplit : n % 256 ^ (k + 1) = n % 256 ^ k + 256 ^ k * (n / 256 ^ k % 256) := by
      rw [Nat.pow_succ, Nat.mod_mul]
    rw [bigEndianBytes, bigEndian, bigEndianBytes_length, ih, UInt8.toNat_ofNat', hsplit,
      Nat.add_comm, Nat.mul_comm]

/-- Only what fits into the bytes is written. -/
theorem bigEndianBytes_add (k c n : Nat) :
    bigEndianBytes k (c * 256 ^ k + n) = bigEndianBytes k n := by
  induction k generalizing c with
  | zero => rfl
  | succ k ih =>
    have hmul : c * 256 ^ (k + 1) = c * 256 * 256 ^ k := by rw [Nat.pow_succ', Nat.mul_assoc]
    have hdiv : (c * 256 * 256 ^ k + n) / 256 ^ k = n / 256 ^ k + c * 256 := by
      rw [Nat.add_comm, Nat.add_mul_div_right _ _ (Nat.pow_pos (by decide))]
    rw [bigEndianBytes, bigEndianBytes, hmul, ih, hdiv]
    congr 1
    exact UInt8.toNat_inj.mp (by simp)

theorem bytes_bigEndian (bytes : Bytes) : bigEndianBytes bytes.length (bigEndian bytes) = bytes := by
  induction bytes with
  | nil => rfl
  | cons b bs ih =>
    have hdiv : (b.toNat * 256 ^ bs.length + bigEndian bs) / 256 ^ bs.length = b.toNat := by
      rw [Nat.add_comm, Nat.add_mul_div_right _ _ (Nat.pow_pos (by decide)),
        Nat.div_eq_of_lt (bigEndian_lt bs), Nat.zero_add]
    rw [List.length_cons, bigEndianBytes, bigEndian, hdiv, UInt8.ofNat_toNat, bigEndianBytes_add, ih]

/-! ## Forms -/

/-- The bits that a form of the tag has for its number. -/
def varintBits (tag : Nat) : Nat := 8 * 2 ^ tag - 2

def varintForm (tag v : Nat) : Bytes := bigEndianBytes (2 ^ tag) (tag * 2 ^ varintBits tag + v)

@[simp] theorem varintForm_length (tag v : Nat) : (varintForm tag v).length = 2 ^ tag :=
  bigEndianBytes_length _ _

def putVarint (v : Nat) : Bytes :=
  if v ≤ 63 then [UInt8.ofNat v]
  else if v ≤ 16383 then bigEndianBytes 2 ((v &&& 0x3FFF) ||| 0x4000)
  else if v ≤ 1073741823 then bigEndianBytes 4 ((v &&& 0x3FFFFFFF) ||| 0x80000000)
  else bigEndianBytes 8 ((v &&& 0x3FFFFFFFFFFFFFFF) ||| 0xC000000000000000)

def varintLen (v : Nat) : Nat :=
  if v ≤ 63 then 1 else if v ≤ 16383 then 2 else if v ≤ 1073741823 then 4 else 8

def readVarint : Bytes → Option (Nat × Bytes)
  | [] => none
  | first :: rest =>
    let input := first :: rest
    let tag := (first >>> 6).toNat
    let len := if tag = 0 then 1 else if tag = 1 then 2 else if tag = 2 then 4 else 8
    if input.length < len then none
    else
      let raw := bigEndian (input.take len)
      let value := if tag = 0 then raw &&& 0x3f else if tag = 1 then raw &&& 0x3fff
        else if tag = 2 then raw &&& 0x3fffffff else raw &&& 0x3fffffffffffffff
      some (value, input.drop len)

@[simp] theorem putVarint_length (v : Nat) : (putVarint v).length = varintLen v := by
  rw [putVarint, varintLen]
  split_ifs <;> simp

/-- A mark above the bits of the number. -/
theorem marked (v bits mark : Nat) :
    (v &&& (2 ^ bits - 1)) ||| (2 ^ bits * mark) = mark * 2 ^ bits + v % 2 ^ bits := by
  rw [Nat.and_two_pow_sub_one_eq_mod, Nat.or_comm,
    ← Nat.two_pow_add_eq_or_of_lt (Nat.mod_lt _ (Nat.two_pow_pos bits)), Nat.mul_comm]

theorem readVarint_cons (first : UInt8) (rest : Bytes) :
    let tag := first.toNat / 64
    readVarint (first :: rest) = if (first :: rest).length < 2 ^ tag then none
      else some (bigEndian ((first :: rest).take (2 ^ tag)) % 2 ^ varintBits tag,
        (first :: rest).drop (2 ^ tag)) := by
  intro tag
  have htag : (first >>> 6).toNat = tag := by
    rw [UInt8.toNat_shiftRight]
    exact Nat.shiftRight_eq_div_pow _ 6
  have hlt : tag < 4 := Nat.div_lt_of_lt_mul first.toNat_lt
  have hmask : ∀ n bits, n &&& (2 ^ bits - 1) = n % 2 ^ bits := fun n bits =>
    Nat.and_two_pow_sub_one_eq_mod n bits
  rw [readVarint, htag]
  interval_cases htagv : tag
  · exact if_congr Iff.rfl rfl (congrArg _ (Prod.ext (hmask _ 6) rfl))
  · exact if_congr Iff.rfl rfl (congrArg _ (Prod.ext (hmask _ 14) rfl))
  · exact if_congr Iff.rfl rfl (congrArg _ (Prod.ext (hmask _ 30) rfl))
  · exact if_congr Iff.rfl rfl (congrArg _ (Prod.ext (hmask _ 62) rfl))

/-! ## Reading and writing -/

/-- Two bits and the bits of the number fill the bytes. -/
theorem varint_fits {tag v : Nat} (htag : tag < 4) (hv : v < 2 ^ varintBits tag) :
    tag * 2 ^ varintBits tag + v < 256 ^ 2 ^ tag := by
  rw [varintBits] at hv ⊢
  interval_cases tag <;> norm_num at hv ⊢ <;> omega

/-- The tag is read from the first byte, as from the whole number. -/
theorem bigEndian_div {tag : Nat} {first : UInt8} {rest : Bytes} (htag : tag < 4)
    (hlen : (first :: rest).length = 2 ^ tag) :
    bigEndian (first :: rest) / 2 ^ varintBits tag = first.toNat / 64 := by
  have hrest := bigEndian_lt rest
  have hlength : rest.length = 2 ^ tag - 1 := by rw [← hlen]; rfl
  rw [bigEndian, varintBits]
  rw [hlength] at hrest ⊢
  interval_cases tag <;> norm_num at hrest ⊢ <;> omega

theorem bigEndian_form {tag v : Nat} (htag : tag < 4) (hv : v < 2 ^ varintBits tag) :
    bigEndian (varintForm tag v) = tag * 2 ^ varintBits tag + v := by
  rw [varintForm, bigEndian_bytes, Nat.mod_eq_of_lt (varint_fits htag hv)]

theorem readVarint_eq_some_iff {input rest : Bytes} {v : Nat} :
    readVarint input = some (v, rest) ↔
      ∃ tag < 4, v < 2 ^ varintBits tag ∧ input = varintForm tag v ++ rest := by
  constructor
  · intro h
    cases input with
    | nil => cases h
    | cons first tail =>
      rw [readVarint_cons] at h
      have htag : first.toNat / 64 < 4 := Nat.div_lt_of_lt_mul first.toNat_lt
      generalize hdiv : first.toNat / 64 = tag at h htag
      split at h
      · cases h
      next hlen =>
        cases h
        refine ⟨tag,htag,Nat.mod_lt _ (Nat.two_pow_pos _),?_⟩
        have htake : ((first :: tail).take (2 ^ tag)).length = 2 ^ tag :=
          List.length_take_of_le (Nat.not_lt.mp hlen)
        generalize hbytes : (first :: tail).take (2 ^ tag) = bytes at htake ⊢
        have hsplit : bytes ++ (first :: tail).drop (2 ^ tag) = first :: tail := by
          rw [← hbytes, List.take_append_drop]
        cases bytes with
        | nil => exact absurd htake.symm (Nat.two_pow_pos tag).ne'
        | cons b bs =>
          obtain ⟨rfl,_⟩ := List.cons.inj hsplit
          have hvalue := bigEndian_div htag htake
          rw [hdiv] at hvalue
          have hwhole : tag * 2 ^ varintBits tag + bigEndian (b :: bs) % 2 ^ varintBits tag =
              bigEndian (b :: bs) := by
            have hdivmod := Nat.div_add_mod' (bigEndian (b :: bs)) (2 ^ varintBits tag)
            rwa [hvalue] at hdivmod
          rw [varintForm, hwhole, ← htake, bytes_bigEndian, htake]
          exact hsplit.symm
  · rintro ⟨tag,htag,hv,rfl⟩
    have hlen := varintForm_length tag v
    have hvalue := bigEndian_form htag hv
    cases hform : varintForm tag v with
    | nil =>
      rw [hform] at hlen
      exact absurd hlen.symm (Nat.two_pow_pos tag).ne'
    | cons first bs =>
      rw [hform] at hlen hvalue
      have hdiv : first.toNat / 64 = tag := by
        rw [← bigEndian_div htag hlen, hvalue, Nat.add_comm,
          Nat.add_mul_div_right _ _ (Nat.two_pow_pos _), Nat.div_eq_of_lt hv, Nat.zero_add]
      have htake : (first :: (bs ++ rest)).take (2 ^ tag) = first :: bs := by
        rw [← List.cons_append, List.take_append_of_le_length hlen.ge, ← hlen, List.take_length]
      have hdrop : (first :: (bs ++ rest)).drop (2 ^ tag) = rest := by
        rw [← List.cons_append, ← hlen, List.drop_left]
      have henough : ¬ (first :: (bs ++ rest)).length < 2 ^ tag := by
        rw [← List.cons_append, List.length_append, hlen]
        exact Nat.not_lt.mpr (Nat.le_add_right _ _)
      rw [List.cons_append, readVarint_cons, hdiv, if_neg henough, htake, hdrop, hvalue, Nat.add_comm, Nat.add_mul_mod_self_right,
        Nat.mod_eq_of_lt hv]

/-- The writer takes the shortest form. -/
theorem putVarint_form {v : Nat} (h : v < 2 ^ 62) :
    ∃ tag < 4, v < 2 ^ varintBits tag ∧ putVarint v = varintForm tag v ∧
      ∀ tag', v < 2 ^ varintBits tag' → tag ≤ tag' := by
  have hleast : ∀ tag < 4, (∀ tag' < tag, 2 ^ varintBits tag' ≤ v) →
      ∀ tag', v < 2 ^ varintBits tag' → tag ≤ tag' := fun tag _ hall tag' hv =>
    Nat.not_lt.mp fun hlt => Nat.not_lt.mpr (hall tag' hlt) hv
  have hmark : ∀ tag bits, varintBits tag = bits → v < 2 ^ bits →
      (v &&& (2 ^ bits - 1)) ||| (2 ^ bits * tag) = tag * 2 ^ varintBits tag + v := by
    rintro tag _ rfl hv
    rw [marked, Nat.mod_eq_of_lt hv]
  rw [putVarint]
  by_cases h6 : v ≤ 63
  · refine ⟨0,by decide,Nat.lt_succ_of_le h6,?_,fun _ _ => Nat.zero_le _⟩
    rw [if_pos h6, varintForm, Nat.zero_mul, Nat.zero_add]
    simp [bigEndianBytes]
  · have h6' : 2 ^ varintBits 0 ≤ v := Nat.not_le.mp h6
    rw [if_neg h6]
    by_cases h14 : v ≤ 16383
    · have hv : v < 2 ^ 14 := Nat.lt_succ_of_le h14
      refine ⟨1,by decide,hv,?_,hleast 1 (by decide) fun tag' hlt => ?_⟩
      · rw [if_pos h14]
        exact congrArg (bigEndianBytes 2) (hmark 1 14 rfl hv)
      · interval_cases tag'
        exact h6'
    · have h14' : 2 ^ varintBits 1 ≤ v := Nat.not_le.mp h14
      rw [if_neg h14]
      by_cases h30 : v ≤ 1073741823
      · have hv : v < 2 ^ 30 := Nat.lt_succ_of_le h30
        refine ⟨2,by decide,hv,?_,hleast 2 (by decide) fun tag' hlt => ?_⟩
        · rw [if_pos h30]
          exact congrArg (bigEndianBytes 4) (hmark 2 30 rfl hv)
        · interval_cases tag'
          · exact h6'
          · exact h14'
      · have h30' : 2 ^ varintBits 2 ≤ v := Nat.not_le.mp h30
        refine ⟨3,by decide,h,?_,hleast 3 (by decide) fun tag' hlt => ?_⟩
        · rw [if_neg h30]
          exact congrArg (bigEndianBytes 8) (hmark 3 62 rfl h)
        · interval_cases tag'
          · exact h6'
          · exact h14'
          · exact h30'

end AtlasKernel.Lib
