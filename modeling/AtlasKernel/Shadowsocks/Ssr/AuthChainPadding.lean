import AtlasKernel.Shadowsocks.Ssr.AuthChainTurn
import AtlasKernel.Shadowsocks.Ssr.Udp

/-! The size lists as `AuthChainCodec::new` sets them up, loop by loop and with every index and
division checked, and the bound on a frame of what `encode` packs.
Source: `shadowsocks/ssr/protocol/auth_chain.rs`. -/
namespace AtlasKernel.Shadowsocks.Ssr
open AtlasKernel.Lib

/-! ## The key of the lists -/

namespace XorShift128Plus

def initFromBin? (data : Bytes) : Option XorShift128Plus := do
  let full := List.replicate 16 (0 : UInt8)
  let take := min data.length 16
  let full ← overwrite? full 0 (← slice? data 0 take)
  return ⟨← le64At? full 0, ← le64At? full 8⟩

theorem initFromBin?_eq (data : Bytes) : initFromBin? data = some (initFromBin data) := by
  have hfront : data.take (min data.length 16) = data.take 16 := by
    rw [Nat.min_comm, ← List.take_eq_take_min]
  have hlen : (data.take 16).length ≤ 16 := List.length_take_le 16 data
  simp only [initFromBin?, initFromBin, slice?_zero (Nat.min_le_left data.length 16), hfront,
    Option.bind_eq_bind, Option.bind_some]
  generalize data.take 16 = front at hlen ⊢
  have hlong : (front ++ List.replicate (16 - front.length) (0 : UInt8)).length = 16 := by
    rw [List.length_append, List.length_replicate]
    omega
  simp only [overwrite?_zeros hlen, Option.bind_some, le64At?_eq (Nat.le_trans (show 0 + 8 ≤ 16 by decide)
    (Nat.le_of_eq hlong.symm)), le64At?_eq (Nat.le_of_eq hlong.symm), le64At_zeros]
  rfl

end XorShift128Plus

/-- `a / b` -/
def div? (a b : Nat) : Option Nat := if b = 0 then none else some (a / b)

theorem div?_eq {a b : Nat} (h : 0 < b) : div? a b = some (a / b) := if_neg (Nat.ne_of_gt h)

/-- `out[idx] ^= value` for some values, from `idx` on. -/
def xorFrom? (out : Bytes) (idx : Nat) : Bytes → Option Bytes
  | [] => some out
  | value :: values => do
    let byte ← byteAt? out idx
    xorFrom? (out.set idx (byte ^^^ value)) (idx + 1) values

def authChainFDataSizeKey? (key : Bytes) (interval : Nat) (timestamp : UInt32) : Option Bytes := do
  let timeKey ← div? timestamp.toNat interval
  let timeKey := be32 (timeKey / 4294967296) ++ be32 timeKey
  xorFrom? key 0 (timeKey.take (min key.length 8))

theorem zipWith_xor_zeros (bytes : Bytes) :
    List.zipWith (· ^^^ ·) bytes (List.replicate bytes.length 0) = bytes := by
  induction bytes with
  | nil => rfl
  | cons byte bytes ih =>
    simpa [List.replicate_succ] using ih

theorem xorFrom?_eq (front back values : Bytes) (h : values.length ≤ back.length) :
    xorFrom? (front ++ back) front.length values =
      some (front ++ List.zipWith (· ^^^ ·) back
        (values ++ List.replicate (back.length - values.length) 0)) := by
  induction values generalizing front back with
  | nil =>
    rw [xorFrom?, List.nil_append, List.length_nil, Nat.sub_zero, zipWith_xor_zeros]
  | cons value values ih =>
    cases back with
    | nil => simp at h
    | cons byte back =>
      have hbyte : byteAt? (front ++ byte :: back) front.length = some byte := by
        simp [byteAt?]
      have hset : (front ++ byte :: back).set front.length (byte ^^^ value) =
          (front ++ [byte ^^^ value]) ++ back := by
        simp
      have hnext : front.length + 1 = (front ++ [byte ^^^ value]).length := by simp
      rw [xorFrom?, hbyte]
      simp only [Option.bind_eq_bind, Option.bind_some]
      rw [hset, hnext, ih _ _ (Nat.le_of_succ_le_succ h)]
      simp

theorem authChainFDataSizeKey?_eq (key : Bytes) {interval : Nat} (h : 0 < interval)
    (timestamp : UInt32) :
    authChainFDataSizeKey? key interval timestamp =
      some (authChainFDataSizeKey key interval timestamp) := by
  rw [authChainFDataSizeKey?, div?_eq h, authChainFDataSizeKey]
  simp only [Option.bind_eq_bind, Option.bind_some]
  generalize htime : be32 (timestamp.toNat / interval / 4294967296) ++
    be32 (timestamp.toNat / interval) = timeKey
  have hlen : timeKey.length = 8 := by rw [← htime, List.length_append, be32_length, be32_length]
  have hshort : (timeKey.take (min key.length 8)).length = min key.length 8 := by
    rw [List.length_take, hlen]
    omega
  have hxor := xorFrom?_eq [] key (timeKey.take (min key.length 8)) (by omega)
  rw [List.nil_append, List.length_nil, List.nil_append, hshort] at hxor
  rw [hxor]
  by_cases hkey : 8 ≤ key.length
  · rw [Nat.min_eq_right hkey, List.take_of_length_le (by omega)]
  · -- a short key ends the zip, and nothing is behind it
    have hmin : min key.length 8 = key.length := by omega
    have hsub : key.length - 8 = 0 := by omega
    rw [hmin, Nat.sub_self, hsub, List.replicate_zero, List.append_nil, List.append_nil]
    congr 1
    apply List.ext_getElem?
    intro i
    rw [List.getElem?_zipWith, List.getElem?_zipWith, List.getElem?_take]
    by_cases hi : i < key.length
    · rw [if_pos hi]
    · rw [List.getElem?_eq_none (Nat.not_lt.mp hi)]

theorem authChainFInterval_pos (protocolParam : List Char) : 0 < Udp.authChainFInterval protocolParam := by
  rw [Udp.authChainFInterval]
  split
  · split
    · assumption
    · decide
  · decide

/-! ## The loops -/

/-- `sort_unstable` of numbers -/
def sortUnstable (sizes : List Nat) : List Nat := sizes.mergeSort (fun a b => decide (a ≤ b))

/-- `while length > 0`: one size is drawn and pushed in each turn. -/
def pushSizes (sizes : List Nat) (random : XorShift128Plus) : Nat → List Nat × XorShift128Plus
  | 0 => (sizes, random)
  | length + 1 =>
    let (size, random) := SizeList.drawSize random
    pushSizes (sizes ++ [size]) random length

/-- The loop of `patch_data_size_high_water`, in at most so many turns. -/
def patchSizes : Nat → List Nat → XorShift128Plus → Ending (List Nat)
  | 0, _, _ => .unfinished
  | turns + 1, sizes, random =>
    if sizes.getLastD 0 < 1300 ∧ sizes.length < 64 then
      let (size, random) := SizeList.drawSize random
      patchSizes turns (sortUnstable (sizes ++ [size])) random
    else .done sizes

def initDataSizeB? (key : Bytes) : Option (List Nat × List Nat) := do
  let random ← XorShift128Plus.initFromBin? key
  let (length, random) := random.below 8
  let (sizes, random) := pushSizes [] random (length + 4)
  let (length, random) := random.below 16
  let (sizes2, _) := pushSizes [] random (length + 8)
  return (sortUnstable sizes, sortUnstable sizes2)

def initDataSizeC? (turns : Nat) (patchHighWater : Bool) (key : Bytes) :
    Ending (List Nat × List Nat) :=
  match XorShift128Plus.initFromBin? key with
  | none => .panicked
  | some random =>
    let (length, random) := random.below 24
    let (sizes, random) := pushSizes [] random (length + 12)
    if patchHighWater then (patchSizes turns (sortUnstable sizes) random).map (·, [])
    else .done (sortUnstable sizes, [])

/-- The lists that `AuthChainCodec::new` leaves in the codec. -/
def newSizes (turns : Nat) (variant : AuthChainVariant) (key : Bytes) (protocolParam : List Char)
    (timestamp : UInt32) : Ending (List Nat × List Nat) :=
  match variant with
  | .A => .done ([], [])
  | .B =>
    match initDataSizeB? key with
    | none => .panicked
    | some lists => .done lists
  | .C => initDataSizeC? turns false key
  | .D | .E => initDataSizeC? turns true key
  | .F =>
    match authChainFDataSizeKey? key (Udp.authChainFInterval protocolParam) timestamp with
    | none => .panicked
    | some key => initDataSizeC? turns true key

theorem pushSizes_eq (sizes : List Nat) (random : XorShift128Plus) (length : Nat) :
    pushSizes sizes random length =
      (sizes ++ (SizeList.drawSizes random length).1, (SizeList.drawSizes random length).2) := by
  induction length generalizing sizes random with
  | zero => simp [pushSizes, SizeList.drawSizes]
  | succ length ih =>
    rw [pushSizes, SizeList.drawSizes]
    simp [ih]

/-- The loop ends: it pushes as long as there are less than 64 sizes. -/
theorem patchSizes_done {turns : Nat} (list : SizeList) (random : XorShift128Plus)
    (h : 64 < list.sizes.length + turns) (hle : list.sizes.length ≤ 64) :
    patchSizes turns list.sizes random = .done (list.patchDataSizeHighWater random).sizes := by
  induction turns generalizing list random with
  | zero => omega
  | succ turns ih =>
    rw [patchSizes, SizeList.patchDataSizeHighWater]
    by_cases hpush : list.sizes.getLastD 0 < 1300 ∧ list.sizes.length < 64
    · have hlen := list.push_length _ (SizeList.drawSize_lt random)
      rw [if_pos hpush, if_pos (show list.last < 1300 ∧ list.sizes.length < 64 from hpush)]
      have hnext := ih (list.push _ (SizeList.drawSize_lt random)) (SizeList.drawSize random).2
        (by omega) (by omega)
      exact hnext
    · rw [if_neg hpush, if_neg (show ¬ (list.last < 1300 ∧ list.sizes.length < 64) from hpush)]

namespace SizeList

theorem drawSizes_length (random : XorShift128Plus) (length : Nat) :
    (drawSizes random length).1.length = length := by
  induction length generalizing random with
  | zero => rfl
  | succ length ih =>
    rw [drawSizes]
    simp [ih]

theorem draw_length (random : XorShift128Plus) (length : Nat) :
    (draw random length).1.sizes.length = length := by
  rw [draw, ofSizes, (List.mergeSort_perm _ _).length_eq, drawSizes_length]

/-- The loop on sizes that have been drawn and sorted. -/
theorem patchSizes_draw {turns length : Nat} (random : XorShift128Plus) (h : 64 < length + turns)
    (hle : length ≤ 64) :
    patchSizes turns (sortUnstable (drawSizes random length).1) (drawSizes random length).2 =
      .done ((draw random length).1.patchDataSizeHighWater (draw random length).2).sizes := by
  have hlen := draw_length random length
  exact patchSizes_done (draw random length).1 (draw random length).2 (by omega) (by omega)

/-- Where the loop ends there is a large size, or there are 64. -/
theorem patch_ends (list : SizeList) (random : XorShift128Plus) (h : list.sizes.length ≤ 64) :
    (1300 ≤ (list.patchDataSizeHighWater random).last ∨
      (list.patchDataSizeHighWater random).sizes.length = 64) ∧
    list.sizes.length ≤ (list.patchDataSizeHighWater random).sizes.length ∧
    (list.patchDataSizeHighWater random).sizes.length ≤ 64 := by
  induction list, random using patchDataSizeHighWater.induct with
  | case1 list random hpush ih =>
    have hlen := list.push_length _ (drawSize_lt random)
    rw [patchDataSizeHighWater, if_pos hpush]
    obtain ⟨hend,hmore,hmost⟩ := ih (by omega)
    exact ⟨hend,by omega,hmost⟩
  | case2 list random hpush =>
    rw [patchDataSizeHighWater, if_neg hpush]
    exact ⟨by omega,Nat.le_refl _,h⟩

/-- A search for the first size that is large enough divides the list. -/
theorem partitionPoint_divides (list : SizeList) (bound : Nat) :
    (∀ size ∈ list.sizes.take (list.partitionPoint bound), size < bound) ∧
      ∀ size ∈ list.sizes.drop (list.partitionPoint bound), bound ≤ size := by
  have hsorted := list.sorted
  rw [partitionPoint]
  generalize list.sizes = sizes at hsorted ⊢
  induction sizes with
  | nil => simp
  | cons size sizes ih =>
    obtain ⟨hfirst,hrest⟩ := List.pairwise_cons.mp hsorted
    by_cases hsize : size < bound
    · simpa [List.takeWhile_cons, hsize] using ih hrest
    · have hle := Nat.not_lt.mp hsize
      rw [List.takeWhile_cons_of_neg (by simpa using hsize), List.length_nil, List.take_zero,
        List.drop_zero, List.forall_mem_cons]
      exact ⟨fun _ h => absurd h List.not_mem_nil,hle,fun size' h => Nat.le_trans hle (hfirst size' h)⟩

end SizeList

/-! ## The codec -/

theorem initDataSizeB?_eq (key : Bytes) :
    initDataSizeB? key = some ((initDataSizeB key).1.sizes, (initDataSizeB key).2.sizes) := by
  rw [initDataSizeB?, XorShift128Plus.initFromBin?_eq]
  simp only [Option.bind_eq_bind, Option.bind_some, pushSizes_eq, List.nil_append, initDataSizeB,
    XorShift128Plus.below, SizeList.draw, SizeList.ofSizes, sortUnstable]
  rfl

theorem initDataSizeC?_done {turns : Nat} (h : 64 ≤ turns) (patchHighWater : Bool) (key : Bytes) :
    initDataSizeC? turns patchHighWater key =
      .done ((initDataSizeC patchHighWater key).1.sizes, (initDataSizeC patchHighWater key).2.sizes) := by
  rw [initDataSizeC?, XorShift128Plus.initFromBin?_eq]
  simp only [pushSizes_eq, List.nil_append, initDataSizeC, XorShift128Plus.below]
  cases patchHighWater with
  | false => simp [SizeList.draw, SizeList.ofSizes, sortUnstable, SizeList.empty]
  | true =>
    have hlow := Nat.mod_lt (XorShift128Plus.initFromBin key).next.1.toNat (show 0 < 24 by decide)
    simp only [if_true]
    rw [SizeList.patchSizes_draw _ (by omega) (by omega)]
    simp [Ending.map, SizeList.empty]

/-- `new` returns, with the sizes of the codec. -/
theorem newSizes_done {turns : Nat} (h : 64 ≤ turns) (variant : AuthChainVariant) (key : Bytes)
    (protocolParam : List Char) (timestamp : UInt32) :
    newSizes turns variant key protocolParam timestamp =
      .done ((dataSizeLists variant key (Udp.authChainFInterval protocolParam) timestamp).1.sizes,
        (dataSizeLists variant key (Udp.authChainFInterval protocolParam) timestamp).2.sizes) := by
  cases variant with
  | A => rfl
  | B =>
    rw [newSizes, initDataSizeB?_eq]
    rfl
  | C => exact initDataSizeC?_done h false key
  | D | E => exact initDataSizeC?_done h true key
  | F =>
    rw [newSizes, authChainFDataSizeKey?_eq key (authChainFInterval_pos protocolParam)]
    exact initDataSizeC?_done h true _

/-- What the variants find in their lists: sizes, in order; and the loop over the large sizes
has come to its end. -/
structure ListsReady (variant : AuthChainVariant) (list list2 : List Nat) : Prop where
  sorted : list.Pairwise (· ≤ ·) ∧ list2.Pairwise (· ≤ ·)
  nonempty : variant ≠ .A → list ≠ []
  nonempty2 : variant = .B → list2 ≠ []
  highWater : variant = .D ∨ variant = .E ∨ variant = .F →
    (1300 ≤ list.getLastD 0 ∨ list.length = 64) ∧ list.length ≤ 64

theorem initDataSizeC_ready (patchHighWater : Bool) (key : Bytes) :
    (initDataSizeC patchHighWater key).1.sizes ≠ [] ∧
      (patchHighWater = true → (1300 ≤ (initDataSizeC patchHighWater key).1.last ∨
        (initDataSizeC patchHighWater key).1.sizes.length = 64) ∧
        (initDataSizeC patchHighWater key).1.sizes.length ≤ 64) := by
  have hlow := Nat.mod_lt (XorShift128Plus.initFromBin key).next.1.toNat (show 0 < 24 by decide)
  have hlen := SizeList.draw_length (XorShift128Plus.initFromBin key).next.2
    ((XorShift128Plus.initFromBin key).next.1.toNat % 24 + 12)
  rw [initDataSizeC]
  dsimp only
  generalize SizeList.draw (XorShift128Plus.initFromBin key).next.2
    ((XorShift128Plus.initFromBin key).next.1.toNat % 24 + 12) = drawn at hlen
  have hends := drawn.1.patch_ends drawn.2 (by omega)
  cases patchHighWater with
  | false =>
    rw [if_neg (by decide)]
    refine ⟨?_,fun h => by cases h⟩
    apply List.ne_nil_of_length_pos
    omega
  | true =>
    rw [if_pos rfl]
    refine ⟨?_,fun _ => ⟨hends.1,hends.2.2⟩⟩
    apply List.ne_nil_of_length_pos
    omega

theorem dataSizeLists_ready (variant : AuthChainVariant) (key : Bytes) (interval : Nat)
    (timestamp : UInt32) :
    ListsReady variant (dataSizeLists variant key interval timestamp).1.sizes
      (dataSizeLists variant key interval timestamp).2.sizes where
  sorted := ⟨SizeList.sorted _,SizeList.sorted _⟩
  nonempty h := by
    cases variant with
    | A => exact absurd rfl h
    | B =>
      apply List.ne_nil_of_length_pos
      rw [dataSizeLists, initDataSizeB, SizeList.draw_length]
      exact Nat.zero_lt_succ _
    | C => exact (initDataSizeC_ready false key).1
    | D | E => exact (initDataSizeC_ready true key).1
    | F => exact (initDataSizeC_ready true _).1
  nonempty2 h := by
    subst h
    apply List.ne_nil_of_length_pos
    rw [dataSizeLists, initDataSizeB, SizeList.draw_length]
    exact Nat.zero_lt_succ _
  highWater h := by
    rcases h with rfl | rfl | rfl
    · exact (initDataSizeC_ready true key).2 rfl
    · exact (initDataSizeC_ready true key).2 rfl
    · exact (initDataSizeC_ready true _).2 rfl

/-! ## What is packed -/

namespace AuthChainCodec
variable {ρ : Type}

/-- `AuthChainCodec::new`: `draw` is what is drawn and read from the clock. -/
def ofParam (key iv : Bytes) (protocolParam : List Char) (draw : Udp.CodecDraw)
    (variant : AuthChainVariant) : AuthChainCodec ρ :=
  let user := Udp.SsrUserData.authChain draw.userId key protocolParam
  .new key iv user.userKey user.userId draw.connectionId variant
    (Udp.authChainFInterval protocolParam) draw.timestamp

def udpRandLen? (s : AuthChainCodec ρ) (hash : Bytes) (client : Bool) :
    Option (Nat × AuthChainCodec ρ) := do
  let random ← XorShift128Plus.initFromBin? hash
  let (randLen, random) ← random.below? 127
  return (randLen, if client then { s with randomClient := random } else { s with randomServer := random })

theorem udpRandLen?_eq (s : AuthChainCodec ρ) (hash : Bytes) (client : Bool) :
    s.udpRandLen? hash client = some (Udp.AuthChainCodec.udpRandLen s hash client) := by
  rw [udpRandLen?, XorShift128Plus.initFromBin?_eq]
  simp only [Option.bind_eq_bind, Option.bind_some]
  rw [XorShift128Plus.below?_eq _ (by decide)]
  rfl

/-- What goes with the head. -/
def headPiece (draw : Draw) (payload : Bytes) : Piece :=
  ⟨payload.take (getAuthSha1V4DataLen draw payload), authLen_piece draw payload⟩

/-- What one `encode` hands to `pack_data`, frame by frame. -/
def packed (s : AuthChainCodec ρ) (d : Draws) (payload : Bytes) : List (Draw × Piece) :=
  if s.sentHeader then pieces d payload
  else
    (d.auth, headPiece d.head payload) ::
      pieces d (payload.drop (getAuthSha1V4DataLen d.head payload))

theorem encode_packed (crypto : ChainCrypto ρ) (s : AuthChainCodec ρ) (d : Draws) (payload : Bytes) :
    (s.encode crypto d payload).1 =
      if s.sentHeader then (s.packPieces crypto (s.packed d payload)).1
      else (s.packAuthHeader crypto d.head).1 ++
        ((s.packAuthHeader crypto d.head).2.packPieces crypto (s.packed d payload)).1 := by
  rw [encode, packed]
  split <;> rfl

/-- The head of a frame that says so much data goes on, on the other side. -/
theorem head_accepts {receiver : AuthChainCodec ρ} {front : Bytes}
    (h : receiver.dataLen front ≤ 2800) : ∃ n receiver', receiver.head front = (.ok n, receiver') := by
  have hbound := receiver.profile.randLen_bound (receiver.dataLen front)
    (hashBytes receiver.lastServerHash) receiver.randomServer h
  rw [head]
  dsimp only
  rw [if_neg (Nat.not_le.mpr hbound)]
  exact ⟨_,_,rfl⟩

end AuthChainCodec

/-- The padding of auth_chain, for every variant, key, parameter, hash and generator. `new` comes
to its end with sizes that are there and in order, so that every search divides a list; a length
is drawn for every payload without a panic; and the frames of `encode` stay below the limit of
the decoder, which takes their heads. -/
theorem auth_chain_padding {ρ : Type} (crypto : ChainCrypto ρ) :
    (∀ variant key iv protocolParam draw,
      let s : AuthChainCodec ρ := .ofParam key iv protocolParam draw variant
      (∀ turns, 64 ≤ turns → newSizes turns variant key protocolParam draw.timestamp =
        .done (s.profile.list.sizes, s.profile.list2.sizes)) ∧
      ListsReady variant s.profile.list.sizes s.profile.list2.sizes) ∧
    (∀ (list : SizeList) bound,
      (∀ size ∈ list.sizes.take (list.partitionPoint bound), size < bound) ∧
        ∀ size ∈ list.sizes.drop (list.partitionPoint bound), bound ≤ size) ∧
    (∀ (p : PaddingProfile) len hash random,
      p.randLen? len hash random = some (p.randLen len hash random)) ∧
    (∀ (s : AuthChainCodec ρ) hash client,
      s.udpRandLen? hash client = some (Udp.AuthChainCodec.udpRandLen s hash client)) ∧
    (∀ len random, randStartPos? len random = some (randStartPos len random) ∧
      (randStartPos len random).1 ≤ len) ∧
    ∀ (s : AuthChainCodec ρ) d payload,
      ((s.encode crypto d payload).1 =
        if s.sentHeader then (s.packPieces crypto (s.packed d payload)).1
        else (s.packAuthHeader crypto d.head).1 ++
          ((s.packAuthHeader crypto d.head).2.packPieces crypto (s.packed d payload)).1) ∧
      ∀ item ∈ s.packed d payload, item.2.1.length ≤ 2800 ∧
        (∀ (p : PaddingProfile) hash random,
          item.2.1.length + (p.randLen item.2.1.length hash random).1 < 4096) ∧
        ∀ (receiver : AuthChainCodec ρ) front, receiver.dataLen front = item.2.1.length →
          ∃ n receiver', receiver.head front = (.ok n, receiver') := by
  refine ⟨?_,SizeList.partitionPoint_divides,PaddingProfile.randLen?_eq,
    AuthChainCodec.udpRandLen?_eq,?_,?_⟩
  · intro variant key iv protocolParam draw
    refine ⟨?_,dataSizeLists_ready variant key _ draw.timestamp⟩
    intro turns hturns
    exact newSizes_done hturns variant key protocolParam draw.timestamp
  · intro len random
    exact ⟨randStartPos?_eq len random,randStartPos_le len random⟩
  · intro s d payload
    refine ⟨AuthChainCodec.encode_packed crypto s d payload,?_⟩
    intro item hitem
    refine ⟨item.2.2,?_,?_⟩
    · intro p hash random
      exact p.randLen_bound item.2.1.length hash random item.2.2
    · intro receiver front hdata
      apply AuthChainCodec.head_accepts
      rw [hdata]
      exact item.2.2

end AtlasKernel.Shadowsocks.Ssr
