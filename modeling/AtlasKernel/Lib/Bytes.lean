import Mathlib.Data.List.GetD

/-! Numbers and text as bytes, and the fields of a frame. A number that does not fit its
field is written modulo the field, as the cast does it. -/
namespace AtlasKernel.Lib

abbrev Bytes := List UInt8

/-- `(n as u16).to_be_bytes()` -/
def be16 (n : Nat) : Bytes := [UInt8.ofNat (n / 256), UInt8.ofNat n]

def be32 (n : Nat) : Bytes := be16 (n / 65536) ++ be16 n

/-- `u16::from_be_bytes([hi, lo]) as usize` -/
def ofBe16 (hi lo : UInt8) : Nat := hi.toNat * 256 + lo.toNat

@[simp] theorem be16_length (n : Nat) : (be16 n).length = 2 := rfl

theorem ofBe16_be16 (n : Nat) :
    ofBe16 (UInt8.ofNat (n / 256)) (UInt8.ofNat n) = n % 65536 := by
  simp only [ofBe16, UInt8.toNat_ofNat']
  omega

theorem ofBe16_of_lt {n : Nat} (h : n < 65536) :
    ofBe16 (UInt8.ofNat (n / 256)) (UInt8.ofNat n) = n := by
  rw [ofBe16_be16, Nat.mod_eq_of_lt h]

theorem ofBe16_zero : ofBe16 0 0 = 0 := by decide

theorem ofBe16_lt (hi lo : UInt8) : ofBe16 hi lo < 65536 := by
  have h₁ := hi.toNat_lt
  have h₂ := lo.toNat_lt
  simp only [ofBe16]
  omega

/-! ## Little endian -/

def le16 (n : Nat) : Bytes := [UInt8.ofNat n, UInt8.ofNat (n / 256)]

def le32 (n : Nat) : Bytes := le16 n ++ le16 (n / 65536)

@[simp] theorem le16_length (n : Nat) : (le16 n).length = 2 := rfl
@[simp] theorem le32_length (n : Nat) : (le32 n).length = 4 := rfl
@[simp] theorem be32_length (n : Nat) : (be32 n).length = 4 := rfl

/-! ## Fields -/

/-- `bytes[i]`, where the code has made sure that it is there. -/
def byteAt (bytes : Bytes) (i : Nat) : UInt8 := bytes.getD i 0

/-- `&bytes[i..j]` -/
def slice (bytes : Bytes) (i j : Nat) : Bytes := (bytes.take j).drop i

def be16At (bytes : Bytes) (i : Nat) : Nat := ofBe16 (byteAt bytes i) (byteAt bytes (i + 1))
def be32At (bytes : Bytes) (i : Nat) : Nat := be16At bytes i * 65536 + be16At bytes (i + 2)
def le16At (bytes : Bytes) (i : Nat) : Nat := ofBe16 (byteAt bytes (i + 1)) (byteAt bytes i)
def le32At (bytes : Bytes) (i : Nat) : Nat := le16At bytes i + 65536 * le16At bytes (i + 2)

theorem take_eq_map_byteAt {bytes : Bytes} {n : Nat} (h : n ≤ bytes.length) :
    bytes.take n = (List.range n).map (byteAt bytes) := by
  induction n with
  | zero => rfl
  | succ n ih =>
    have hn : n < bytes.length := h
    rw [List.take_add_one, ih (Nat.le_of_lt hn), List.range_succ, List.map_append,
      List.getElem?_eq_getElem hn, List.map_singleton, byteAt, List.getD_eq_getElem _ _ hn]
    rfl

theorem byteAt_append {as : Bytes} {i : Nat} (h : i < as.length) (bs : Bytes) :
    byteAt (as ++ bs) i = byteAt as i := by
  rw [byteAt, byteAt, List.getD_append _ _ _ _ h]

theorem byteAt_append_right (as bs : Bytes) (i : Nat) :
    byteAt (as ++ bs) (as.length + i) = byteAt bs i := by
  rw [byteAt, byteAt, List.getD_append_right _ _ _ _ (Nat.le_add_right ..), Nat.add_sub_cancel_left]

theorem byteAt_take {as : Bytes} {i n : Nat} (h : i < n) : byteAt (as.take n) i = byteAt as i := by
  simp [byteAt, List.getD_eq_getElem?_getD, h]

theorem be32At_append {as : Bytes} {i : Nat} (h : i + 3 < as.length) (bs : Bytes) :
    be32At (as ++ bs) i = be32At as i := by
  have h₀ : i < as.length := by omega
  have h₁ : i + 1 < as.length := by omega
  have h₂ : i + 2 < as.length := by omega
  simp only [be32At, be16At, byteAt_append, h₀, h₁, h₂, h]

theorem be16At_take {as : Bytes} {i n : Nat} (h : i + 1 < n) :
    be16At (as.take n) i = be16At as i := by
  rw [be16At, be16At, byteAt_take h, byteAt_take (Nat.lt_of_succ_lt h)]

theorem le16At_take {as : Bytes} {i n : Nat} (h : i + 1 < n) :
    le16At (as.take n) i = le16At as i := by
  rw [le16At, le16At, byteAt_take h, byteAt_take (Nat.lt_of_succ_lt h)]

theorem be16At_lt (as : Bytes) (i : Nat) : be16At as i < 65536 := ofBe16_lt _ _

theorem le16At_lt (as : Bytes) (i : Nat) : le16At as i < 65536 := ofBe16_lt _ _

@[simp] theorem byteAt_zero (b : UInt8) (bs : Bytes) : byteAt (b :: bs) 0 = b := rfl
@[simp] theorem byteAt_succ (b : UInt8) (bs : Bytes) (i : Nat) :
    byteAt (b :: bs) (i + 1) = byteAt bs i := rfl

/-- A field that was written is read back modulo its size. -/
theorem be16At_be16 (n : Nat) (bs : Bytes) : be16At (be16 n ++ bs) 0 = n % 65536 := ofBe16_be16 n

theorem le16At_le16 (n : Nat) (bs : Bytes) : le16At (le16 n ++ bs) 0 = n % 65536 := ofBe16_be16 n

theorem le16At_append_right (as bs : Bytes) (i : Nat) :
    le16At (as ++ bs) (as.length + i) = le16At bs i := by
  rw [le16At, le16At, byteAt_append_right, Nat.add_assoc, byteAt_append_right]

theorem be16At_append_right (as bs : Bytes) (i : Nat) :
    be16At (as ++ bs) (as.length + i) = be16At bs i := by
  rw [be16At, be16At, byteAt_append_right, Nat.add_assoc, byteAt_append_right]

theorem le32At_append_right (as bs : Bytes) (i : Nat) :
    le32At (as ++ bs) (as.length + i) = le32At bs i := by
  rw [le32At, le32At, le16At_append_right, Nat.add_assoc, le16At_append_right]

theorem le32At_le32 (n : Nat) (bs : Bytes) : le32At (le32 n ++ bs) 0 = n % 4294967296 := by
  have h₁ : le16At (le32 n ++ bs) 0 = n % 65536 := ofBe16_be16 n
  have h₂ : le16At (le32 n ++ bs) 2 = n / 65536 % 65536 := ofBe16_be16 (n / 65536)
  rw [le32At, Nat.zero_add, h₁, h₂]
  omega

theorem be32At_be32 (n : Nat) (bs : Bytes) : be32At (be32 n ++ bs) 0 = n % 4294967296 := by
  have h₁ : be16At (be32 n ++ bs) 0 = n / 65536 % 65536 := ofBe16_be16 (n / 65536)
  have h₂ : be16At (be32 n ++ bs) 2 = n % 65536 := ofBe16_be16 n
  rw [be32At, Nat.zero_add, h₁, h₂]
  omega

/-- A field that was read is written back as it was. -/
theorem be16_ofBe16 (hi lo : UInt8) : be16 (ofBe16 hi lo) = [hi, lo] := by
  have h₁ := hi.toNat_lt
  have h₂ := lo.toNat_lt
  have hhi : ofBe16 hi lo / 256 = hi.toNat := by
    rw [ofBe16]
    omega
  have hlo : UInt8.ofNat (ofBe16 hi lo) = lo := by
    apply UInt8.toNat_inj.mp
    rw [ofBe16, UInt8.toNat_ofNat']
    omega
  rw [be16, hhi, hlo, UInt8.ofNat_toNat]

theorem be16_mod (n : Nat) : be16 (n % 65536) = be16 n := by
  have hhi : UInt8.ofNat (n % 65536 / 256) = UInt8.ofNat (n / 256) := by
    apply UInt8.toNat_inj.mp
    rw [UInt8.toNat_ofNat', UInt8.toNat_ofNat']
    omega
  have hlo : UInt8.ofNat (n % 65536) = UInt8.ofNat n := by
    apply UInt8.toNat_inj.mp
    rw [UInt8.toNat_ofNat', UInt8.toNat_ofNat']
    omega
  rw [be16, be16, hhi, hlo]

theorem be32_be32At (a b c d : UInt8) (bs : Bytes) :
    be32 (be32At (a :: b :: c :: d :: bs) 0) = [a, b, c, d] := by
  have h := ofBe16_lt c d
  have heq : be32At (a :: b :: c :: d :: bs) 0 = ofBe16 a b * 65536 + ofBe16 c d := rfl
  have hhi : (ofBe16 a b * 65536 + ofBe16 c d) / 65536 = ofBe16 a b := by omega
  have hlo : (ofBe16 a b * 65536 + ofBe16 c d) % 65536 = ofBe16 c d := by omega
  rw [heq, be32, hhi, ← be16_mod (_ + _), hlo, be16_ofBe16, be16_ofBe16]
  rfl

theorem be32At_lt (bytes : Bytes) (i : Nat) : be32At bytes i < 4294967296 := by
  have h₁ := be16At_lt bytes i
  have h₂ := be16At_lt bytes (i + 2)
  rw [be32At]
  omega

theorem slice_append_right (as bs : Bytes) (i j : Nat) :
    slice (as ++ bs) (as.length + i) (as.length + j) = slice bs i j := by
  rw [slice, slice, List.take_length_add_append, List.drop_length_add_append]

/-- What stands between a front and an end. -/
theorem slice_middle (as bs cs : Bytes) :
    slice (as ++ (bs ++ cs)) as.length (as.length + bs.length) = bs := by
  rw [slice, List.take_length_add_append, List.take_left, List.drop_left]

/-- A number read from its two bytes, wherever they stand. -/
theorem be16At_middle (as : Bytes) {n : Nat} (h : n < 65536) (bs : Bytes) :
    be16At (as ++ (be16 n ++ bs)) as.length = n := by
  have hright := be16At_append_right as (be16 n ++ bs) 0
  rw [Nat.add_zero] at hright
  rw [hright, be16At_be16, Nat.mod_eq_of_lt h]

theorem slice_take {bs : Bytes} {i j n : Nat} (h : j ≤ n) : slice (bs.take n) i j = slice bs i j := by
  rw [slice, slice, List.take_take, Nat.min_eq_left h]

theorem slice_length (bs : Bytes) (i j : Nat) : (slice bs i j).length = min j bs.length - i := by
  rw [slice, List.length_drop, List.length_take]

/-! ## The first exception in a list -/

theorem exists_first {α : Type*} {p : α → Prop} {l : List α} (h : ¬ ∀ x ∈ l, p x) :
    ∃ before x after, l = before ++ x :: after ∧ (∀ y ∈ before, p y) ∧ ¬ p x := by
  induction l with
  | nil => exact absurd (fun x hx => absurd hx List.not_mem_nil) h
  | cons x l ih =>
    by_cases hx : p x
    · have hmore : ¬ ∀ y ∈ l, p y := fun hall => h (List.forall_mem_cons.mpr ⟨hx,hall⟩)
      obtain ⟨before,y,after,rfl,hbefore,hy⟩ := ih hmore
      exact ⟨x :: before,y,after,rfl,List.forall_mem_cons.mpr ⟨hx,hbefore⟩,hy⟩
    · exact ⟨[],x,l,rfl,fun y hy => absurd hy List.not_mem_nil,hx⟩

/-! ## Text -/

/-- The Unicode property `White_Space`. -/
def isWhitespace (c : Char) : Bool :=
  c.toNat ∈ [0x09, 0x0a, 0x0b, 0x0c, 0x0d, 0x20, 0x85, 0xa0, 0x1680, 0x2028, 0x2029, 0x202f,
    0x205f, 0x3000] || (0x2000 ≤ c.toNat && c.toNat ≤ 0x200a)

/-- `str::trim` -/
def trim (text : List Char) : List Char :=
  ((text.dropWhile isWhitespace).reverse.dropWhile isWhitespace).reverse

/-- `str::as_bytes` -/
def utf8 (text : List Char) : Bytes := text.flatMap String.utf8EncodeChar

def isAsciiDigit (b : UInt8) : Bool := 0x30 ≤ b && b ≤ 0x39

end AtlasKernel.Lib
