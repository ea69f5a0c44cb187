import AtlasKernel.Lib.Bytes

/-! The TLS client hello, read as a peer reads it: every vector has its length in front,
and every length must take exactly the bytes that are there. -/
namespace AtlasKernel.Lib

/-! ## Vectors -/

def splitExact (n : Nat) (bytes : Bytes) : Option (Bytes × Bytes) :=
  if n ≤ bytes.length then some (bytes.take n, bytes.drop n) else none

/-- A vector with its length in one byte, and what follows it. -/
def takeVector8 : Bytes → Option (Bytes × Bytes)
  | n :: bytes => splitExact n.toNat bytes
  | [] => none

def takeVector16 : Bytes → Option (Bytes × Bytes)
  | hi :: lo :: bytes => splitExact (ofBe16 hi lo) bytes
  | _ => none

def takeVector24 : Bytes → Option (Bytes × Bytes)
  | top :: hi :: lo :: bytes => splitExact (top.toNat * 65536 + ofBe16 hi lo) bytes
  | _ => none

/-- Nothing may follow. -/
def whole : Option (Bytes × Bytes) → Option Bytes
  | some (bytes, []) => some bytes
  | _ => none

def expect (front bytes : Bytes) : Option Bytes :=
  if front <+: bytes then some (bytes.drop front.length) else none

theorem splitExact_append (as bs : Bytes) : splitExact as.length (as ++ bs) = some (as, bs) := by
  rw [splitExact, if_pos (by simp), List.take_left, List.drop_left]

theorem expect_append (as bs : Bytes) : expect as (as ++ bs) = some bs := by
  rw [expect, if_pos (List.prefix_append as bs), List.drop_left]

theorem takeVector8_append {as : Bytes} (h : as.length < 256) (bs : Bytes) :
    takeVector8 (UInt8.ofNat as.length :: (as ++ bs)) = some (as, bs) := by
  rw [takeVector8, UInt8.toNat_ofNat', Nat.mod_eq_of_lt h, splitExact_append]

theorem takeVector16_be16 (n : Nat) (bs : Bytes) :
    takeVector16 (be16 n ++ bs) = splitExact (n % 65536) bs := by
  rw [← ofBe16_be16]
  rfl

theorem takeVector16_append {as : Bytes} (h : as.length < 65536) (bs : Bytes) :
    takeVector16 (be16 as.length ++ (as ++ bs)) = some (as, bs) := by
  rw [takeVector16_be16, Nat.mod_eq_of_lt h, splitExact_append]

theorem takeVector24_be16 (n : Nat) (bs : Bytes) :
    takeVector24 (0 :: (be16 n ++ bs)) = splitExact (n % 65536) bs := by
  rw [← ofBe16_be16, ← Nat.zero_add (ofBe16 _ _)]
  rfl

theorem whole_splitExact (n : Nat) (bytes : Bytes) :
    whole (splitExact n bytes) = if n = bytes.length then some bytes else none := by
  unfold splitExact
  split
  · next hle =>
    split
    · next heq =>
      rw [heq, List.take_length, List.drop_length]
      rfl
    · next hne =>
      cases hdrop : bytes.drop n with
      | nil =>
        rw [List.drop_eq_nil_iff] at hdrop
        omega
      | cons b bs => rfl
  · next hlt =>
    rw [if_neg (by omega)]
    rfl

/-- A vector alone: its length is right exactly if it has room in its field. -/
theorem whole_takeVector16 (bytes : Bytes) :
    whole (takeVector16 (be16 bytes.length ++ bytes)) =
      if bytes.length < 65536 then some bytes else none := by
  rw [takeVector16_be16, whole_splitExact]
  apply if_congr _ rfl rfl
  omega

theorem whole_takeVector24 {bytes : Bytes} (h : bytes.length < 65536) :
    whole (takeVector24 (0 :: (be16 bytes.length ++ bytes))) = some bytes := by
  rw [takeVector24_be16, whole_splitExact, Nat.mod_eq_of_lt h, if_pos rfl]

/-! ## The hello -/

theorem takeVector16_length {bytes as bs : Bytes} (h : takeVector16 bytes = some (as, bs)) :
    bs.length < bytes.length := by
  unfold takeVector16 splitExact at h
  split at h
  · split at h
    · cases h
      simp
      omega
    · cases h
  · cases h

/-- A type and its data. -/
abbrev Extension := Nat × Bytes

/-- The extensions to the end of the bytes. -/
def takeExtensions (bytes : Bytes) : Option (List Extension) :=
  match bytes with
  | [] => some []
  | hi :: lo :: rest =>
    match _h : takeVector16 rest with
    | none => none
    | some (data, rest) => (takeExtensions rest).map ((ofBe16 hi lo, data) :: ·)
  | [_] => none
termination_by bytes.length
decreasing_by
  have hlt := takeVector16_length _h
  simp only [List.length_cons]
  omega

def Extension.bytes (e : Extension) : Bytes := be16 e.1 ++ (be16 e.2.length ++ e.2)

theorem takeExtensions_bytes {extensions : List Extension}
    (h : ∀ e ∈ extensions, e.1 < 65536 ∧ e.2.length < 65536) :
    takeExtensions (extensions.flatMap Extension.bytes) = some extensions := by
  induction extensions with
  | nil => simp [takeExtensions]
  | cons e es ih =>
    obtain ⟨⟨htype,hdata⟩,hes⟩ := List.forall_mem_cons.mp h
    obtain ⟨type,data⟩ := e
    have hbytes : ((type, data) :: es).flatMap Extension.bytes =
        UInt8.ofNat (type / 256) :: UInt8.ofNat type ::
          (be16 data.length ++ (data ++ es.flatMap Extension.bytes)) := by
      simp [Extension.bytes, be16]
    have htake := takeVector16_append hdata (es.flatMap Extension.bytes)
    rw [hbytes, takeExtensions]
    split
    · next hnone => cases htake.symm.trans hnone
    · next data' rest hsome =>
      cases htake.symm.trans hsome
      rw [ih hes, ofBe16_of_lt htype]
      rfl

structure ClientHello where
  random : Bytes
  sessionId : Bytes
  cipherSuites : Bytes
  compressionMethods : Bytes
  extensions : List Extension
deriving DecidableEq, Repr

namespace ClientHello

/-- The body of the handshake message. -/
def parseBody (body : Bytes) : Option ClientHello := do
  let body ← expect [0x03, 0x03] body
  let (random, body) ← splitExact 32 body
  let (sessionId, body) ← takeVector8 body
  let (cipherSuites, body) ← takeVector16 body
  let (compressionMethods, body) ← takeVector8 body
  let extensions ← whole (takeVector16 body)
  let extensions ← takeExtensions extensions
  pure ⟨random, sessionId, cipherSuites, compressionMethods, extensions⟩

/-- One record with one handshake message, a client hello. -/
def parse (bytes : Bytes) : Option ClientHello := do
  let record ← expect [0x16, 0x03, 0x01] bytes
  let fragment ← whole (takeVector16 record)
  let message ← expect [0x01] fragment
  let body ← whole (takeVector24 message)
  parseBody body

def sessionTicket (hello : ClientHello) : Option Bytes := hello.extensions.lookup 0x23

/-- A list of names, which has one host name in it. -/
def serverName (hello : ClientHello) : Option Bytes := do
  let data ← hello.extensions.lookup 0x00
  let names ← whole (takeVector16 data)
  let name ← expect [0x00] names
  whole (takeVector16 name)

end ClientHello

end AtlasKernel.Lib
