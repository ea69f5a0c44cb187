import AtlasKernel.Lib.Checked
import AtlasKernel.Shadowsocks.ShadowTlsHandover

/-! The first write of a ShadowTLS version 3 handshake: the session id of the ClientHello is
drawn anew, and its end signs the record. Source: `shadow_tls_v3_patch_client_hello` in
`shadowsocks/transport.rs`. -/
namespace AtlasKernel.Shadowsocks
open AtlasKernel.Lib
variable {η : Type*}

/-- `random` is what `fill_bytes` draws; the buffer is returned with the result. -/
def shadowTlsV3PatchClientHello (env : ShadowTlsEnv η) (password : Bytes) (random : Vector UInt8 28)
    (record : Bytes) : Option (Except String Unit × Bytes) :=
  if record.length < 5 then some (.ok (), record)
  else do
    if (← byteAt? record 0) ≠ 0x16 then return (.ok (), record)
    let recordLen ← be16At? record 3
    if record.length < 5 + recordLen then return (.ok (), record)
    if (← byteAt? record 5) ≠ 0x01 then return (.ok (), record)
    let payloadStart := 5
    let sessionLenOffset := payloadStart + 38
    if record.length ≤ sessionLenOffset then
      return (.error "ShadowTLS v3 ClientHello is too short", record)
    let sessionLen := (← byteAt? record sessionLenOffset).toNat
    if sessionLen ≠ 32 then
      return (.error "ShadowTLS v3 requires a 32-byte TLS session id", record)
    let sessionStart := sessionLenOffset + 1
    let sessionEnd := sessionStart + sessionLen
    if record.length < sessionEnd then
      return (.error "ShadowTLS v3 ClientHello session id is truncated", record)
    let record ← overwrite? record sessionStart random.toList
    let record ← overwrite? record (sessionStart + 28) [0, 0, 0, 0]
    let hmac := env.newFromSlice password
    let hmac := env.mac.update hmac (← slice? record payloadStart sessionStart)
    let hmac := env.mac.update hmac (← slice? record sessionStart sessionEnd)
    let hmac := env.mac.update hmac (← slice? record sessionEnd (payloadStart + recordLen))
    let record ← overwrite? record (sessionStart + 28) (env.mac.first4 hmac)
    return (.ok (), record)

/-! ## What is changed -/

/-- A buffer that begins with the header of a handshake record and holds as much as that
declares. -/
def WholeHandshakeRecord (record : Bytes) : Prop :=
  5 ≤ record.length ∧ byteAt record 0 = 0x16 ∧ 5 + be16At record 3 ≤ record.length

/-- The header alone, or a ClientHello with a session id that the declared length ends before. -/
def DeclaredTooShort (record : Bytes) : Prop :=
  WholeHandshakeRecord record ∧ (record.length = 5 ∨
    byteAt record 5 = 0x01 ∧ 76 ≤ record.length ∧ (byteAt record 43).toNat = 32 ∧
      be16At record 3 < 71)

instance (record : Bytes) : Decidable (DeclaredTooShort record) := by
  unfold DeclaredTooShort WholeHandshakeRecord
  infer_instance

/-- The body of the record with the end of its session id zeroed. -/
def unsignedBody (record : Bytes) : Bytes :=
  slice (overwrite record 72 [0, 0, 0, 0]) 5 (5 + be16At record 3)

/-- Nothing but the session id is other than it was, and its end is the HMAC of the record's
body, absorbed piece by piece, with that end zeroed. -/
structure SignedHello (env : ShadowTlsEnv η) (password record patched : Bytes) : Prop where
  length : patched.length = record.length
  before : patched.take 44 = record.take 44
  after : patched.drop 76 = record.drop 76
  signed : ∃ pieces : List Bytes, pieces.flatten = unsignedBody patched ∧
    slice patched 72 76 = env.mac.first4 (pieces.foldl env.mac.update (env.newFromSlice password))

/-- A digest that absorbs pieces as it absorbs the whole has absorbed the whole body. -/
theorem SignedHello.digest {env : ShadowTlsEnv η} {password record patched : Bytes}
    (h : SignedHello env password record patched) (hnil : ∀ s, env.mac.update s [] = s)
    (happend : ∀ s a b, env.mac.update (env.mac.update s a) b = env.mac.update s (a ++ b)) :
    slice patched 72 76 =
      env.mac.first4 (env.mac.update (env.newFromSlice password) (unsignedBody patched)) := by
  obtain ⟨pieces,hbody,hsigned⟩ := h.signed
  rw [hsigned, ← hbody]
  congr 1
  generalize env.newFromSlice password = s
  clear hbody hsigned
  induction pieces generalizing s with
  | nil => exact (hnil s).symm
  | cons piece pieces ih => rw [List.foldl_cons, ih, happend, List.flatten_cons]

/-- The call returns, and what it changes it signs. -/
def PatchesHello (env : ShadowTlsEnv η) (password record : Bytes) :
    Option (Except String Unit × Bytes) → Prop
  | none => False
  | some r => r.2 ≠ record → SignedHello env password record r.2

variable {env : ShadowTlsEnv η} {password record : Bytes} {random : Vector UInt8 28}

/-- The buffer when it is signed. -/
def drawnHello (random : Vector UInt8 28) (record : Bytes) : Bytes :=
  overwrite (overwrite record 44 random.toList) 72 [0, 0, 0, 0]

/-- The three slices that are absorbed. -/
def helloPieces (random : Vector UInt8 28) (record : Bytes) : List Bytes :=
  [slice (drawnHello random record) 5 44, slice (drawnHello random record) 44 76,
    slice (drawnHello random record) 76 (5 + be16At record 3)]

def signedHello (env : ShadowTlsEnv η) (password : Bytes) (random : Vector UInt8 28)
    (record : Bytes) : Bytes :=
  overwrite (drawnHello random record) 72
    (env.mac.first4 ((helloPieces random record).foldl env.mac.update (env.newFromSlice password)))

theorem patch_signs (h : WholeHandshakeRecord record) (hhello : byteAt record 5 = 0x01)
    (hsession : (byteAt record 43).toNat = 32) (hlong : 76 ≤ record.length) :
    shadowTlsV3PatchClientHello env password random record =
      if be16At record 3 < 71 then none
      else some (.ok (), signedHello env password random record) := by
  obtain ⟨_,hfirst,hwhole⟩ := h
  have hrandom : random.toList.length = 28 := Vector.length_toList
  have hdrawn : (overwrite record 44 random.toList).length = record.length :=
    overwrite_length (by omega)
  have hzeroed : (drawnHello random record).length = record.length :=
    (overwrite_length (by rw [hdrawn]; exact hlong)).trans hdrawn
  rw [shadowTlsV3PatchClientHello, if_neg (by omega), byteAt?_eq (by omega), hfirst]
  simp only [Option.bind_some, Option.bind_eq_bind, Option.pure_def, ne_eq, not_true_eq_false,
    if_false]
  rw [be16At?_eq (by omega), Option.bind_some, if_neg (by omega), byteAt?_eq (by omega),
    Option.bind_some, hhello, if_neg (by decide), if_neg (by omega), byteAt?_eq (by omega),
    Option.bind_some, hsession, if_neg (by decide), if_neg (by omega), overwrite?_eq (by omega),
    Option.bind_some, overwrite?_eq (by rw [hdrawn]; exact hlong), Option.bind_some]
  change ((slice? (drawnHello random record) 5 44).bind _) = _
  rw [slice?_eq (by decide) (by omega), Option.bind_some]
  change ((slice? (drawnHello random record) 44 76).bind _) = _
  rw [slice?_eq (by decide) (by omega), Option.bind_some]
  change ((slice? (drawnHello random record) 76 (5 + be16At record 3)).bind _) = _
  split
  case isTrue hshort => rw [slice?_none (.inl (by omega)), Option.bind_none]
  case isFalse =>
    rw [slice?_eq (by omega) (by omega), Option.bind_some, overwrite?_eq, Option.bind_some]
    · rfl
    · rw [Hmac.first4_length]
      exact hlong.trans hzeroed.ge

/-- A buffer that is not signed is returned as it was, unless there is no byte after the
header. -/
theorem patch_returns (h : ¬ (WholeHandshakeRecord record ∧ byteAt record 5 = 0x01 ∧
    (byteAt record 43).toNat = 32 ∧ 76 ≤ record.length))
    (hfive : ¬ (WholeHandshakeRecord record ∧ record.length = 5)) :
    ∃ result, shadowTlsV3PatchClientHello env password random record = some (result, record) := by
  rw [shadowTlsV3PatchClientHello]
  by_cases hhead : record.length < 5
  · exact ⟨_,if_pos hhead⟩
  rw [if_neg hhead, byteAt?_eq (by omega)]
  simp only [Option.bind_some, Option.bind_eq_bind, Option.pure_def]
  by_cases hfirst : byteAt record 0 = 0x16
  case neg => exact ⟨_,if_pos hfirst⟩
  rw [if_neg (not_not_intro hfirst), be16At?_eq (by omega), Option.bind_some]
  by_cases hwhole : record.length < 5 + be16At record 3
  · exact ⟨_,if_pos hwhole⟩
  have hrecord : WholeHandshakeRecord record := ⟨Nat.not_lt.mp hhead,hfirst,Nat.not_lt.mp hwhole⟩
  have hbody : record.length ≠ 5 := fun heq => hfive ⟨hrecord,heq⟩
  rw [if_neg hwhole, byteAt?_eq (by omega), Option.bind_some]
  by_cases hhello : byteAt record 5 = 0x01
  case neg => exact ⟨_,if_pos hhello⟩
  rw [if_neg (not_not_intro hhello)]
  by_cases hshort : record.length ≤ 5 + 38
  · exact ⟨_,if_pos hshort⟩
  rw [if_neg hshort, byteAt?_eq (by omega), Option.bind_some]
  by_cases hsession : (byteAt record (5 + 38)).toNat = 32
  case neg => exact ⟨_,if_pos hsession⟩
  rw [if_neg (not_not_intro hsession), if_pos]
  · exact ⟨_,rfl⟩
  · rw [hsession]
    exact Nat.not_le.mp fun hlong => h ⟨hrecord,hhello,hsession,hlong⟩

theorem signedHello_signed (hlong : 76 ≤ record.length) (hbody : 71 ≤ be16At record 3)
    (hwhole : 5 + be16At record 3 ≤ record.length) :
    SignedHello env password record (signedHello env password random record) := by
  have hrandom : random.toList.length = 28 := Vector.length_toList
  have hdrawn : (overwrite record 44 random.toList).length = record.length :=
    overwrite_length (by omega)
  have hzeroed : (drawnHello random record).length = record.length :=
    (overwrite_length (by rw [hdrawn]; exact hlong)).trans hdrawn
  have hbefore : ∀ n, n ≤ 44 → (signedHello env password random record).take n = record.take n := by
    intro n hn
    rw [signedHello, overwrite_take (by omega) (by omega), drawnHello,
      overwrite_take (by omega) (by omega), overwrite_take hn (by omega)]
  constructor
  · rw [signedHello, overwrite_length]
    · exact hzeroed
    · rw [Hmac.first4_length]
      omega
  · exact hbefore 44 (Nat.le_refl _)
  · rw [signedHello, overwrite_drop (by rw [Hmac.first4_length]) (by omega), drawnHello,
      overwrite_drop (by simp) (by omega), overwrite_drop (by omega) (by omega)]
  · refine ⟨helloPieces random record,?_,?_⟩
    · have hlength : be16At (signedHello env password random record) 3 = be16At record 3 := by
        rw [← be16At_take (by decide : 3 + 1 < 5), hbefore 5 (by decide), be16At_take (by decide)]
      have hunsigned : overwrite (signedHello env password random record) 72 [0, 0, 0, 0] =
          drawnHello random record := by
        rw [signedHello, overwrite_overwrite (by rw [Hmac.first4_length]; rfl)
          (by rw [Hmac.first4_length]; omega), drawnHello, overwrite_overwrite rfl]
        rw [hdrawn]
        exact hlong
      rw [unsignedBody, hlength, hunsigned, helloPieces, List.flatten_cons, List.flatten_cons,
        List.flatten_singleton, slice_append_slice (by decide) (by omega),
        slice_append_slice (by decide) (by omega)]
    · have hread := @slice_overwrite (drawnHello random record)
        (env.mac.first4 ((helloPieces random record).foldl env.mac.update
          (env.newFromSlice password))) 72 (by omega)
      rw [Hmac.first4_length] at hread
      exact hread

theorem patch_declaredTooShort (h : DeclaredTooShort record) :
    shadowTlsV3PatchClientHello env password random record = none := by
  obtain ⟨hrecord,hfive | ⟨hhello,hlong,hsession,hdeclared⟩⟩ := h
  · obtain ⟨hhead,hfirst,hwhole⟩ := hrecord
    rw [shadowTlsV3PatchClientHello, if_neg (by omega), byteAt?_eq (by omega), hfirst]
    simp only [Option.bind_some, Option.bind_eq_bind, ne_eq, not_true_eq_false, if_false]
    rw [be16At?_eq (by omega), Option.bind_some, if_neg (by omega), byteAt?_none (by omega)]
    rfl
  · rw [patch_signs hrecord hhello hsession hlong, if_pos hdeclared]

/-- The patch returns, and signs what it changes, exactly if the buffer is not a handshake
record's header alone and its declared length does not end before the session id does. -/
theorem patch_client_hello_iff (env : ShadowTlsEnv η) (password record : Bytes) :
    (∀ random, PatchesHello env password record
      (shadowTlsV3PatchClientHello env password random record)) ↔ ¬ DeclaredTooShort record := by
  constructor
  · intro h hshort
    have hreturns := h (Vector.replicate 28 0)
    rw [patch_declaredTooShort hshort] at hreturns
    exact hreturns
  · intro h random
    by_cases hsigns : WholeHandshakeRecord record ∧ byteAt record 5 = 0x01 ∧
        (byteAt record 43).toNat = 32 ∧ 76 ≤ record.length
    · obtain ⟨hrecord,hhello,hsession,hlong⟩ := hsigns
      have hbody : ¬ be16At record 3 < 71 :=
        fun hlt => h ⟨hrecord,.inr ⟨hhello,hlong,hsession,hlt⟩⟩
      rw [patch_signs hrecord hhello hsession hlong, if_neg hbody]
      exact fun _ => signedHello_signed hlong (Nat.not_lt.mp hbody) hrecord.2.2
    · obtain ⟨result,hreturns⟩ := @patch_returns _ env password _ random hsigns
        fun hfive => h ⟨hfive.1,.inl hfive.2⟩
      rw [hreturns]
      exact fun hne => absurd rfl hne

/-- A digest that signs nothing. -/
def silentEnv : ShadowTlsEnv Unit :=
  ⟨⟨fun _ _ => (), fun _ => Vector.replicate 20 0⟩, fun _ => (), fun _ => Vector.replicate 32 0⟩

/-- A ClientHello whose header declares 70 bytes. -/
def shortHello : Bytes :=
  [0x16, 3, 1, 0, 70, 1] ++ List.replicate 37 0 ++ [32] ++ List.replicate 32 0

theorem patch_client_hello_panics :
    ¬ PatchesHello silentEnv [] [0x16, 3, 1, 0, 0] (shadowTlsV3PatchClientHello silentEnv []
      (Vector.replicate 28 7) [0x16, 3, 1, 0, 0]) ∧
    ¬ PatchesHello silentEnv [] shortHello (shadowTlsV3PatchClientHello silentEnv []
      (Vector.replicate 28 7) shortHello) := by
  constructor
  · rw [patch_declaredTooShort (by decide)]
    exact not_false
  · rw [patch_declaredTooShort (by decide)]
    exact not_false

end AtlasKernel.Shadowsocks
