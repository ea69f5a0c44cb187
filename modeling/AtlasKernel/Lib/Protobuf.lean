import AtlasKernel.Lib.Bytes
import Mathlib.Algebra.Order.Ring.Nat

/-! Protocol buffers as bytes: numbers in base 128, and the fields of a message. -/
namespace AtlasKernel.Lib.Protobuf

/-! ## Base 128 -/

/-- The number whose digits end within so many bytes, and how many there are. The least digit
comes first, and every byte but the last is marked. -/
def readDigits : Nat → Bytes → Option (Nat × Nat)
  | 0, _ => none
  | _ + 1, [] => none
  | places + 1, byte :: data =>
    if byte.toNat < 128 then some (byte.toNat, 1)
    else (readDigits places data).map fun r => (byte.toNat % 128 + 128 * r.1, r.2 + 1)

def writeDigits (n : Nat) : Bytes :=
  if n < 128 then [UInt8.ofNat n]
  else UInt8.ofNat (n % 128 + 128) :: writeDigits (n / 128)

theorem readDigits_writeDigits {places n : Nat} (h : n < 128 ^ (places + 1)) (rest : Bytes) :
    readDigits (places + 1) (writeDigits n ++ rest) = some (n,(writeDigits n).length) := by
  induction places generalizing n with
  | zero =>
    have hlt : n < 128 := by simpa using h
    have hbyte : (UInt8.ofNat n).toNat = n := by
      rw [UInt8.toNat_ofNat']
      omega
    simp [writeDigits, hlt, readDigits, hbyte]
  | succ places ih =>
    rw [writeDigits]
    split
    case isTrue hlt =>
      have hbyte : (UInt8.ofNat n).toNat = n := by
        rw [UInt8.toNat_ofNat']
        omega
      simp [readDigits, hbyte, hlt]
    case isFalse hle =>
      have hbyte : (UInt8.ofNat (n % 128 + 128)).toNat = n % 128 + 128 := by
        rw [UInt8.toNat_ofNat']
        omega
      have hrest : n / 128 < 128 ^ (places + 1) := by
        apply Nat.div_lt_of_lt_mul
        rwa [Nat.pow_succ'] at h
      rw [List.cons_append, readDigits, hbyte, if_neg (by omega), ih hrest]
      simp only [Option.map_some, List.length_cons, Option.some.injEq, Prod.mk.injEq, and_true]
      omega

theorem writeDigits_length {places n : Nat} (h : n < 128 ^ (places + 1)) :
    (writeDigits n).length ≤ places + 1 := by
  induction places generalizing n with
  | zero =>
    have hlt : n < 128 := by simpa using h
    simp [writeDigits, hlt]
  | succ places ih =>
    rw [writeDigits]
    split
    case isTrue => simp
    case isFalse =>
      apply Nat.succ_le_succ
      apply ih
      apply Nat.div_lt_of_lt_mul
      rwa [Nat.pow_succ'] at h

/-- So many digits hold no larger number. -/
theorem readDigits_bound {places : Nat} {data : Bytes} {r : Nat × Nat}
    (h : readDigits places data = some r) : 0 < r.2 ∧ r.2 ≤ data.length ∧ r.1 < 128 ^ r.2 := by
  induction places, data using readDigits.induct generalizing r with
  | case1 => simp [readDigits] at h
  | case2 => simp [readDigits] at h
  | case3 places byte data hlt =>
    simp only [readDigits, if_pos hlt, Option.some.injEq] at h
    subst h
    simpa using hlt
  | case4 places byte data hle ih =>
    rw [readDigits, if_neg hle, Option.map_eq_some_iff] at h
    obtain ⟨more,hmore,rfl⟩ := h
    have hbound := ih hmore
    simp only [List.length_cons, Nat.pow_succ]
    omega

/-! ## Fields -/

/-- At most ten digits, on 64 bits. -/
def readVarint (data : Bytes) : Option (Nat × Nat) :=
  (readDigits 10 data).map fun r => (r.1 % 18446744073709551616, r.2)

theorem readVarint_bound {data : Bytes} {r : Nat × Nat} (h : readVarint data = some r) :
    0 < r.2 ∧ r.2 ≤ data.length ∧ r.1 < 18446744073709551616 ∧ r.1 < 128 ^ r.2 := by
  rw [readVarint, Option.map_eq_some_iff] at h
  obtain ⟨digits,hread,rfl⟩ := h
  have hbound := readDigits_bound hread
  have hmod := Nat.mod_le digits.1 18446744073709551616
  exact ⟨hbound.1, hbound.2.1, Nat.mod_lt _ (by decide), hmod.trans_lt hbound.2.2⟩

theorem readVarint_writeDigits {n : Nat} (h : n < 18446744073709551616) (rest : Bytes) :
    readVarint (writeDigits n ++ rest) = some (n,(writeDigits n).length) := by
  have hdigits : n < 128 ^ (9 + 1) := h.trans (by decide)
  rw [readVarint, readDigits_writeDigits hdigits, Option.map_some, Nat.mod_eq_of_lt h]

inductive Value where
  | varint (n : Nat)
  | fixed64 (bytes : Bytes)
  | bytes (bytes : Bytes)
  | fixed32 (bytes : Bytes)
deriving DecidableEq, Repr

structure Field where
  number : Nat
  value : Value
deriving DecidableEq, Repr

/-- So many bytes from the front, if they are there. -/
def takeBytes (n : Nat) (data : Bytes) : Option Bytes :=
  if n ≤ data.length then some (data.take n) else none

theorem takeBytes_append (bytes rest : Bytes) :
    takeBytes bytes.length (bytes ++ rest) = some bytes := by
  simp [takeBytes]

theorem takeBytes_length {n : Nat} {data bytes : Bytes} (h : takeBytes n data = some bytes) :
    n ≤ data.length ∧ bytes.length = n := by
  rw [takeBytes, Option.ite_none_right_eq_some] at h
  obtain ⟨hle,htake⟩ := h
  cases htake
  exact ⟨hle, by simp [hle]⟩

/-- The value of a field by its wire type, and its length. The groups, types 3 and 4, which
newer messages do not have, count as malformed. -/
def readValue (wireType : Nat) (data : Bytes) : Option (Value × Nat) :=
  match wireType with
  | 0 => (readVarint data).map fun r => (.varint r.1, r.2)
  | 1 => (takeBytes 8 data).map fun bytes => (.fixed64 bytes, 8)
  | 2 => (readVarint data).bind fun r =>
    (takeBytes r.1 (data.drop r.2)).map fun bytes => (.bytes bytes, r.2 + r.1)
  | 5 => (takeBytes 4 data).map fun bytes => (.fixed32 bytes, 4)
  | _ => none

def readField (data : Bytes) : Option (Field × Nat) :=
  (readVarint data).bind fun key =>
    (readValue (key.1 % 8) (data.drop key.2)).map fun r => (⟨key.1 / 8, r.1⟩, key.2 + r.2)

theorem readField_cons {key : UInt8} (h : key.toNat < 128) (data : Bytes) :
    readField (key :: data) =
      (readValue (key.toNat % 8) data).map fun r => (⟨key.toNat / 8, r.1⟩, 1 + r.2) := by
  have hkey : readVarint (key :: data) = some (key.toNat,1) := by
    rw [readVarint, readDigits, if_pos h, Option.map_some, Nat.mod_eq_of_lt (h.trans (by decide))]
  rw [readField, hkey]
  rfl

def readFields : Nat → Bytes → List Field
  | 0, _ => []
  | count + 1, data =>
    match readField data with
    | none => []
    | some (field, len) => field :: readFields count (data.drop len)

/-- The fields of a message, up to the first that is malformed. -/
def fields (message : Bytes) : List Field := readFields message.length message

theorem fields_head (message : Bytes) :
    (fields message).head? = (readField message).map Prod.fst := by
  cases message with
  | nil => rfl
  | cons key data =>
    rw [fields, List.length_cons, readFields]
    cases readField (key :: data) with
    | none => rfl
    | some r => rfl

example : fields [0x08, 0x96, 0x01, 0x12, 0x02, 0x68, 0x69, 0x12, 0x00] =
    [⟨1, .varint 150⟩, ⟨2, .bytes [0x68, 0x69]⟩, ⟨2, .bytes []⟩] := by decide

end AtlasKernel.Lib.Protobuf
