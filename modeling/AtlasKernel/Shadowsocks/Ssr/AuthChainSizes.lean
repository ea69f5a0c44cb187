import AtlasKernel.Shadowsocks.Ssr.Stream

/-! The padding lengths of auth_chain: the generator, the size lists of the variants, and
the length drawn for a frame. Source: `shadowsocks/ssr/protocol/auth_chain.rs`. -/
namespace AtlasKernel.Shadowsocks.Ssr
open AtlasKernel.Lib

/-! ## The generator -/

structure XorShift128Plus where
  state0 : UInt64
  state1 : UInt64
deriving DecidableEq, Repr

/-- Eight bytes from `i` on; what is missing is zero. -/
def le64At (bytes : Bytes) (i : Nat) : UInt64 :=
  UInt64.ofNat (le32At bytes i + 4294967296 * le32At bytes (i + 4))

namespace XorShift128Plus

def default : XorShift128Plus := ⟨0, 0⟩

def next (random : XorShift128Plus) : UInt64 × XorShift128Plus :=
  let x := random.state0
  let y := random.state1
  let x := x ^^^ (x <<< 23)
  let x := x ^^^ (y ^^^ (x >>> 17) ^^^ (y >>> 26))
  (x + y, ⟨y, x⟩)

/-- `random.next() as usize % n` -/
def below (random : XorShift128Plus) (n : Nat) : Nat × XorShift128Plus :=
  (random.next.1.toNat % n, random.next.2)

def initFromBin (data : Bytes) : XorShift128Plus :=
  let full := data.take 16
  ⟨le64At full 0, le64At full 8⟩

def initFromBinAndLength (data : Bytes) (len : Nat) : XorShift128Plus :=
  let full := le16 len ++ (data.take 16).drop 2
  let random : XorShift128Plus := ⟨le64At full 0, le64At full 8⟩
  random.next.2.next.2.next.2.next.2

end XorShift128Plus

/-! ## The size lists -/

/-- A size list as the codec keeps it. -/
structure SizeList where
  sizes : List Nat
  sorted : sizes.Pairwise (· ≤ ·)
  small : ∀ size ∈ sizes, size < 1440
deriving Repr

namespace SizeList

def empty : SizeList := ⟨[], .nil, nofun⟩

/-- `sort_unstable` -/
def ofSizes (sizes : List Nat) (small : ∀ size ∈ sizes, size < 1440) : SizeList where
  sizes := sizes.mergeSort (fun a b => decide (a ≤ b))
  sorted := by
    have h := @List.pairwise_mergeSort _ (fun a b : Nat => decide (a ≤ b))
      (fun a b c hab hbc => by
        simp only [decide_eq_true_eq] at *
        exact Nat.le_trans hab hbc)
      (fun a b => by
        simp only [Bool.or_eq_true, decide_eq_true_eq]
        exact Nat.le_total a b) sizes
    exact h.imp fun hab => of_decide_eq_true hab
  small size h := small size (List.mem_mergeSort.mp h)

/-- `next % 2340 % 2040 % 1440` -/
def drawSize (random : XorShift128Plus) : Nat × XorShift128Plus :=
  (random.next.1.toNat % 2340 % 2040 % 1440, random.next.2)

theorem drawSize_lt (random : XorShift128Plus) : (drawSize random).1 < 1440 :=
  Nat.mod_lt _ (by decide)

def drawSizes (random : XorShift128Plus) : Nat → List Nat × XorShift128Plus
  | 0 => ([], random)
  | length + 1 =>
    let size := drawSize random
    let sizes := drawSizes size.2 length
    (size.1 :: sizes.1, sizes.2)

theorem drawSizes_lt (random : XorShift128Plus) (length : Nat) :
    ∀ size ∈ (drawSizes random length).1, size < 1440 := by
  induction length generalizing random with
  | zero => exact fun _ h => absurd h List.not_mem_nil
  | succ length ih => exact List.forall_mem_cons.mpr ⟨drawSize_lt random, ih _⟩

def draw (random : XorShift128Plus) (length : Nat) : SizeList × XorShift128Plus :=
  (ofSizes (drawSizes random length).1 (drawSizes_lt random length), (drawSizes random length).2)

def push (list : SizeList) (size : Nat) (h : size < 1440) : SizeList :=
  ofSizes (list.sizes ++ [size]) (by
    rw [List.forall_mem_append, List.forall_mem_singleton]
    exact ⟨list.small, h⟩)

theorem push_length (list : SizeList) (size : Nat) (h : size < 1440) :
    (list.push size h).sizes.length = list.sizes.length + 1 := by
  rw [push, ofSizes, (List.mergeSort_perm _ _).length_eq, List.length_append]
  rfl

/-- `last().copied().unwrap_or_default()` -/
def last (list : SizeList) : Nat := list.sizes.getLastD 0

def patchDataSizeHighWater (list : SizeList) (random : XorShift128Plus) : SizeList :=
  if list.last < 1300 ∧ list.sizes.length < 64 then
    patchDataSizeHighWater (list.push (drawSize random).1 (drawSize_lt random))
      (drawSize random).2
  else list
termination_by 64 - list.sizes.length
decreasing_by
  rw [push_length]
  omega

/-- `partition_point(|value| *value < bound)` -/
def partitionPoint (list : SizeList) (bound : Nat) : Nat :=
  (list.sizes.takeWhile (· < bound)).length

def get (list : SizeList) (pos : Nat) : Nat := list.sizes.getD pos 0

theorem get_small (list : SizeList) (pos : Nat) : list.get pos < 1440 := by
  rw [get, List.getD_eq_getElem?_getD]
  cases h : list.sizes[pos]? with
  | none => exact Nat.zero_lt_succ _
  | some size => exact list.small size (List.mem_of_getElem? h)

end SizeList

inductive AuthChainVariant where
  | A
  | B
  | C
  | D
  | E
  | F
deriving DecidableEq, Repr

def initDataSizeB (key : Bytes) : SizeList × SizeList :=
  let length := (XorShift128Plus.initFromBin key).next
  let list := SizeList.draw length.2 (length.1.toNat % 8 + 4)
  let length2 := list.2.next
  let list2 := SizeList.draw length2.2 (length2.1.toNat % 16 + 8)
  (list.1, list2.1)

def initDataSizeC (patchHighWater : Bool) (key : Bytes) : SizeList × SizeList :=
  let length := (XorShift128Plus.initFromBin key).next
  let list := SizeList.draw length.2 (length.1.toNat % 24 + 12)
  (if patchHighWater then list.1.patchDataSizeHighWater list.2 else list.1, SizeList.empty)

/-- `time_key.to_be_bytes()` of the timestamp in intervals, over the first bytes of the key. -/
def authChainFDataSizeKey (key : Bytes) (interval : Nat) (timestamp : UInt32) : Bytes :=
  let timeKey := timestamp.toNat / interval
  let timeKey := be32 (timeKey / 4294967296) ++ be32 timeKey
  List.zipWith (· ^^^ ·) key (timeKey ++ List.replicate (key.length - 8) 0)

/-- The lists `AuthChainCodec::new` sets up. -/
def dataSizeLists (variant : AuthChainVariant) (key : Bytes) (interval : Nat)
    (timestamp : UInt32) : SizeList × SizeList :=
  match variant with
  | .A => (.empty, .empty)
  | .B => initDataSizeB key
  | .C => initDataSizeC false key
  | .D | .E => initDataSizeC true key
  | .F => initDataSizeC true (authChainFDataSizeKey key interval timestamp)

/-! ## The length of the padding -/

/-- Variant and size lists of a codec, equal on both sides of a connection. -/
structure PaddingProfile where
  variant : AuthChainVariant
  list : SizeList
  list2 : SizeList
deriving Repr

def randLenAfterInitialized (len : Nat) (random : XorShift128Plus) : Nat × XorShift128Plus :=
  if 1300 < len then random.below 31
  else if 900 < len then random.below 127
  else if 400 < len then random.below 521
  else random.below 1021

def randLenA (len : Nat) (hash : Bytes) (random : XorShift128Plus) : Nat × XorShift128Plus :=
  if 1440 < len then (0, random)
  else randLenAfterInitialized len (.initFromBinAndLength hash len)

namespace PaddingProfile
variable (p : PaddingProfile)

/-- `rand_len_b`, from the second list on. -/
def randLenB2 (len : Nat) (random : XorShift128Plus) : Nat × XorShift128Plus :=
  let pos := p.list2.partitionPoint (len + 4)
  if p.list2.sizes ≠ [] then
    let (offset, random) := random.below p.list2.sizes.length
    let finalPos := pos + offset
    if finalPos < p.list2.sizes.length then (p.list2.get finalPos - (len + 4), random)
    else if finalPos < pos + (p.list2.sizes.length - 1) then (0, random)
    else randLenAfterInitialized len random
  else randLenAfterInitialized len random

def randLenB (len : Nat) (hash : Bytes) (random : XorShift128Plus) : Nat × XorShift128Plus :=
  if 1440 ≤ len then (0, random)
  else
    let random := XorShift128Plus.initFromBinAndLength hash len
    let pos := p.list.partitionPoint (len + 4)
    if p.list.sizes ≠ [] then
      let (offset, random) := random.below p.list.sizes.length
      let finalPos := pos + offset
      if finalPos < p.list.sizes.length then (p.list.get finalPos - (len + 4), random)
      else p.randLenB2 len random
    else p.randLenB2 len random

/-- The common end of `rand_len_c` and `rand_len_d`. -/
def randLenFromList (otherSize : Nat) (random : XorShift128Plus) : Nat × XorShift128Plus :=
  let pos := p.list.partitionPoint otherSize
  if p.list.sizes.length ≤ pos then (0, random)
  else
    let (offset, random) := random.below (p.list.sizes.length - pos)
    (p.list.get (pos + offset) - otherSize, random)

def randLenC (len : Nat) (hash : Bytes) : Nat × XorShift128Plus :=
  let random := XorShift128Plus.initFromBinAndLength hash len
  if p.list.last ≤ len + 4 then randLenAfterInitialized len random
  else p.randLenFromList (len + 4) random

def randLenD (len : Nat) (hash : Bytes) (random : XorShift128Plus) : Nat × XorShift128Plus :=
  if p.list.last ≤ len + 4 then (0, random)
  else p.randLenFromList (len + 4) (.initFromBinAndLength hash len)

def randLenE (len : Nat) (hash : Bytes) : Nat × XorShift128Plus :=
  let random := XorShift128Plus.initFromBinAndLength hash len
  if p.list.last ≤ len + 4 then (0, random)
  else (p.list.get (p.list.partitionPoint (len + 4)) - (len + 4), random)

def randLen (len : Nat) (hash : Bytes) (random : XorShift128Plus) : Nat × XorShift128Plus :=
  match p.variant with
  | .A => randLenA len hash random
  | .B => p.randLenB len hash random
  | .C => p.randLenC len hash
  | .D | .F => p.randLenD len hash random
  | .E => p.randLenE len hash

variable {p : PaddingProfile}

/-- A draw either leaves the generator alone and is zero, or starts the generator anew. -/
theorem randLen_cases (p : PaddingProfile) (len : Nat) (hash : Bytes) :
    (∀ random, p.randLen len hash random = (0, random)) ∨
      ∃ r, ∀ random, p.randLen len hash random = r := by
  simp only [randLen]
  cases p.variant with
  | A =>
    simp only [randLenA]
    by_cases h : 1440 < len
    · exact .inl fun random => if_pos h
    · exact .inr ⟨_, fun random => if_neg h⟩
  | B =>
    simp only [randLenB]
    by_cases h : 1440 ≤ len
    · exact .inl fun random => if_pos h
    · exact .inr ⟨_, fun random => if_neg h⟩
  | C => exact .inr ⟨_, fun random => rfl⟩
  | D | F =>
    simp only [randLenD]
    by_cases h : p.list.last ≤ len + 4
    · exact .inl fun random => if_pos h
    · exact .inr ⟨_, fun random => if_neg h⟩
  | E => exact .inr ⟨_, fun random => rfl⟩

/-- Drawing once more for the same frame gives the same. -/
theorem randLen_again (p : PaddingProfile) (len : Nat) (hash : Bytes) (random : XorShift128Plus) :
    p.randLen len hash (p.randLen len hash random).2 = p.randLen len hash random := by
  rcases p.randLen_cases len hash with h | ⟨r,h⟩
  · rw [h random]
    exact h random
  · rw [h, h]

theorem below_lt (random : XorShift128Plus) {n : Nat} (h : 0 < n) : (random.below n).1 < n :=
  Nat.mod_lt _ h

theorem after_initialized_bound (len : Nat) (random : XorShift128Plus) (h : len ≤ 2800) :
    len + (randLenAfterInitialized len random).1 < 4096 := by
  have h31 := below_lt random (n := 31) (by decide)
  have h127 := below_lt random (n := 127) (by decide)
  have h521 := below_lt random (n := 521) (by decide)
  have h1021 := below_lt random (n := 1021) (by decide)
  rw [randLenAfterInitialized]
  split
  · omega
  split
  · omega
  split <;> omega

theorem list_bound (list : SizeList) (pos : Nat) {len : Nat} (h : len ≤ 2800) :
    len + (list.get pos - (len + 4)) < 4096 := by
  have hsmall := list.get_small pos
  omega

theorem randLenB2_bound (len : Nat) (random : XorShift128Plus) (h : len ≤ 2800) :
    len + (p.randLenB2 len random).1 < 4096 := by
  simp only [randLenB2]
  split
  · split
    · exact list_bound _ _ h
    split
    · omega
    · exact after_initialized_bound len _ h
  · exact after_initialized_bound len _ h

theorem fromList_bound (len : Nat) (random : XorShift128Plus) (h : len ≤ 2800) :
    len + (p.randLenFromList (len + 4) random).1 < 4096 := by
  simp only [randLenFromList]
  split
  · omega
  · exact list_bound _ _ h

/-- A frame of what `encode` hands to `pack_data` stays below the limit of the decoder. -/
theorem randLen_bound (p : PaddingProfile) (len : Nat) (hash : Bytes) (random : XorShift128Plus)
    (h : len ≤ 2800) : len + (p.randLen len hash random).1 < 4096 := by
  rw [randLen]
  cases p.variant with
  | A =>
    simp only [randLenA]
    split
    · omega
    · exact after_initialized_bound len _ h
  | B =>
    simp only [randLenB]
    split
    · omega
    split
    · split
      · exact list_bound _ _ h
      · exact randLenB2_bound len _ h
    · exact randLenB2_bound len _ h
  | C =>
    simp only [randLenC]
    split
    · exact after_initialized_bound len _ h
    · exact fromList_bound len _ h
  | D | F =>
    simp only [randLenD]
    split
    · omega
    · exact fromList_bound len _ h
  | E =>
    simp only [randLenE]
    split
    · omega
    · exact list_bound _ _ h

end PaddingProfile

def randStartPos (len : Nat) (random : XorShift128Plus) : Nat × XorShift128Plus :=
  if len = 0 then (0, random)
  else (random.next.1.toNat % 8589934609 % len, random.next.2)

theorem randStartPos_le (len : Nat) (random : XorShift128Plus) :
    (randStartPos len random).1 ≤ len := by
  rw [randStartPos]
  split
  · exact Nat.zero_le _
  · exact Nat.le_of_lt (Nat.mod_lt _ (by omega))

end AtlasKernel.Shadowsocks.Ssr
