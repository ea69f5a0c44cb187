import AtlasKernel.Shadowsocks.PendingWrite

/-! The packets of the ShadowsocksR `tls1.2_ticket` obfuscation: application records,
the client hello with its authentication data, the finish packet and the server's
answer. The HMAC, the clock and the random draws are the environment.
Source: `shadowsocks/ssr/obfs/tls_ticket.rs`. -/
namespace AtlasKernel.Shadowsocks
open AtlasKernel.Lib

/-- What one connection takes from outside: `hmac_sha1`, and the draws of the client
hello and the finish packet, each of which is built once. -/
structure TicketEnv where
  hmacSha1 : Bytes → Bytes → Vector UInt8 20
  unixTimestamp : UInt32
  authRandom : Vector UInt8 18
  hostDraw : Nat
  ticketDraw : UInt8
  ticketRandom : Nat → UInt8
  finishRandom : Vector UInt8 22

abbrev ClientId := Vector UInt8 32

/-! ## Application records -/

def ssrTlsTicketPackRecord (payload : Bytes) : Bytes :=
  [0x17, 0x03, 0x03] ++ be16 payload.length ++ payload

/-- `draw` is the sequence of `rand::random::<u16>()` of this call. -/
def ssrTlsTicketRecords (draw : Nat → UInt16) (randomChunks : Bool) (remaining : Bytes) : Bytes :=
  if _h : 2048 < remaining.length then
    let size := min (if randomChunks then (draw 0).toNat % 4096 + 100 else 2048) remaining.length
    ssrTlsTicketPackRecord (remaining.take size) ++
      ssrTlsTicketRecords (fun n => draw (n+1)) randomChunks (remaining.drop size)
  else if remaining ≠ [] then ssrTlsTicketPackRecord remaining
  else []
termination_by remaining.length
decreasing_by cases randomChunks <;> simp <;> omega

@[simp] theorem ssrTlsTicketRecords_nil (draw : Nat → UInt16) (randomChunks : Bool) :
    ssrTlsTicketRecords draw randomChunks [] = [] := by
  rw [ssrTlsTicketRecords]
  simp

/-- `ssr_tls_ticket_drain_records`: whole records go from `raw` to `output`. -/
def ssrTlsTicketDrainRecords (raw output : Bytes) (drained : Bool) :
    IoResult Bool × Bytes × Bytes :=
  if _h : raw.length < 5 then (.ok drained, raw, output)
  else if raw.take 3 ≠ [0x17, 0x03, 0x03] then
    (.error ⟨.invalidData, "ShadowsocksR TLS ticket record header is invalid"⟩, [], output)
  else
    let size := ofBe16 (raw.getD 3 0) (raw.getD 4 0)
    if raw.length < 5 + size then (.ok drained, raw, output)
    else ssrTlsTicketDrainRecords (raw.drop (5+size)) (output ++ (raw.take (5+size)).drop 5) true
termination_by raw.length
decreasing_by rw [List.length_drop]; omega

/-- A sequence of application records and the bytes they carry. -/
inductive AppRecords : Bytes → Bytes → Prop where
  | nil : AppRecords [] []
  | cons {payload records rest : Bytes} : payload.length < 65536 → AppRecords records rest →
      AppRecords (ssrTlsTicketPackRecord payload ++ records) (payload ++ rest)

theorem AppRecords.append {xs ys ps qs : Bytes} (h : AppRecords xs ps) (h' : AppRecords ys qs) :
    AppRecords (xs ++ ys) (ps ++ qs) := by
  induction h with
  | nil => exact h'
  | cons hlen _ ih =>
    rw [List.append_assoc, List.append_assoc]
    exact .cons hlen ih

theorem AppRecords.single {payload : Bytes} (h : payload.length < 65536) :
    AppRecords (ssrTlsTicketPackRecord payload) payload := by
  simpa using AppRecords.cons h .nil

/-- Every split the draws can ask for carries the payload. -/
theorem ssrTlsTicketRecords_carry (draw : Nat → UInt16) (randomChunks : Bool) (payload : Bytes) :
    AppRecords (ssrTlsTicketRecords draw randomChunks payload) payload := by
  induction draw, payload using ssrTlsTicketRecords.induct randomChunks with
  | case1 draw remaining hlong size ih =>
    rw [ssrTlsTicketRecords, dif_pos hlong]
    have hsize : (remaining.take size).length < 65536 := by
      have h₁ : size ≤ if randomChunks then (draw 0).toNat % 4096 + 100 else 2048 :=
        Nat.min_le_left ..
      have h₂ : (if randomChunks then (draw 0).toNat % 4096 + 100 else 2048) < 65536 := by
        split <;> omega
      rw [List.length_take]
      omega
    have hrec := AppRecords.cons hsize ih
    rwa [List.take_append_drop] at hrec
  | case2 draw remaining hshort hne =>
    rw [ssrTlsTicketRecords, dif_neg hshort, if_pos hne]
    exact .single (by omega)
  | case3 draw remaining hshort hnil =>
    rw [ssrTlsTicketRecords, dif_neg hshort, if_neg hnil, not_not.mp hnil]
    exact .nil

/-- The code's own reader gets the carried bytes back, and nothing is left over. -/
theorem AppRecords.drain {records payload : Bytes} (h : AppRecords records payload)
    (output : Bytes) (drained : Bool) :
    ∃ drained', ssrTlsTicketDrainRecords records output drained =
      (.ok drained', [], output ++ payload) := by
  induction h generalizing output drained with
  | nil => exact ⟨drained,by simp [ssrTlsTicketDrainRecords]⟩
  | @cons payload records rest hlen _ ih =>
    obtain ⟨drained',hd⟩ := ih (output ++ payload) true
    refine ⟨drained',?_⟩
    have hsize : ofBe16 ((ssrTlsTicketPackRecord payload ++ records).getD 3 0)
        ((ssrTlsTicketPackRecord payload ++ records).getD 4 0) = payload.length :=
      ofBe16_of_lt hlen
    have hlength : (ssrTlsTicketPackRecord payload ++ records).length =
        5 + payload.length + records.length := by
      simp [ssrTlsTicketPackRecord]
      omega
    rw [ssrTlsTicketDrainRecords, dif_neg (by omega), if_neg (by simp [ssrTlsTicketPackRecord]), hsize]
    simp only [hlength]
    rw [if_neg (by omega)]
    have hdrop : (ssrTlsTicketPackRecord payload ++ records).drop (5+payload.length) = records := by
      rw [List.drop_left' (by simp [ssrTlsTicketPackRecord]; omega)]
    have htake : ((ssrTlsTicketPackRecord payload ++ records).take (5+payload.length)).drop 5 =
        payload := by
      rw [List.take_left' (by simp [ssrTlsTicketPackRecord]; omega)]
      exact List.drop_left' (by simp)
    rw [hdrop, htake, hd, List.append_assoc]

/-! ## Client hello -/

def ssrTlsTicketHmac (env : TicketEnv) (key : Bytes) (clientId : ClientId) (data : Bytes) :
    Vector UInt8 20 :=
  env.hmacSha1 (key ++ clientId.toList) data

def ssrTlsTicketHost (env : TicketEnv) (host : String) : List Char :=
  let trimmed := trim host.toList
  if (utf8 trimmed).getLast?.any isAsciiDigit then []
  else
    let hosts := ((trimmed.splitOn ',').map trim).filter (· ≠ [])
    if hosts = [] then [] else hosts.getD (env.hostDraw % hosts.length) []

def ssrTlsTicketPackAuthData (env : TicketEnv) (key : Bytes) (clientId : ClientId) : Bytes :=
  let auth := be32 env.unixTimestamp.toNat ++ env.authRandom.toList
  auth ++ (ssrTlsTicketHmac env key clientId auth).toList.take 10

/-- `len` is a `u16`: a longer host name wraps around. -/
def ssrTlsTicketPackSni (host : List Char) : Bytes :=
  let len := (utf8 host).length % 65536
  [0x00, 0x00] ++ be16 (len+5) ++ be16 (len+3) ++ [0] ++ be16 len ++ utf8 host

def ssrTlsTicketPackTicket (env : TicketEnv) : Bytes :=
  let length := 16 * (env.ticketDraw.toNat % 17 + 8)
  [0x00, 0x23] ++ be16 length ++ (List.range length).map env.ticketRandom

def ssrTlsTicketClientHello (env : TicketEnv) (host : String) (key : Bytes)
    (clientId : ClientId) : Bytes :=
  let host := ssrTlsTicketHost env host
  let ext := [0xff, 0x01, 0x00, 0x01, 0x00] ++ ssrTlsTicketPackSni host ++
    [0x00, 0x17, 0x00, 0x00] ++ ssrTlsTicketPackTicket env ++
    [0x00, 0x0d, 0x00, 0x16, 0x00, 0x14, 0x06, 0x01, 0x06, 0x03, 0x05, 0x01, 0x05, 0x03, 0x04,
      0x01, 0x04, 0x03, 0x03, 0x01, 0x03, 0x03, 0x02, 0x01, 0x02, 0x03, 0x00, 0x05, 0x00, 0x05,
      0x01, 0x00, 0x00, 0x00, 0x00, 0x00, 0x12, 0x00, 0x00, 0x75, 0x50, 0x00, 0x00, 0x00, 0x0b,
      0x00, 0x02, 0x01, 0x00, 0x00, 0x0a, 0x00, 0x06, 0x00, 0x04, 0x00, 0x17, 0x00, 0x18]
  let data := [0x03, 0x03] ++ ssrTlsTicketPackAuthData env key clientId ++ [0x20] ++
    clientId.toList ++
    [0x00, 0x1c, 0xc0, 0x2b, 0xc0, 0x2f, 0xcc, 0xa9, 0xcc, 0xa8, 0xcc, 0x14, 0xcc, 0x13, 0xc0,
      0x0a, 0xc0, 0x14, 0xc0, 0x09, 0xc0, 0x13, 0x00, 0x9c, 0x00, 0x35, 0x00, 0x2f, 0x00, 0x0a,
      0x01, 0x00] ++ be16 ext.length ++ ext
  [0x16, 0x03, 0x01] ++ be16 (data.length+4) ++ [0x01, 0x00] ++ be16 data.length ++ data

/-! ## Finish and the server's answer -/

def ssrTlsTicketFinish (env : TicketEnv) (key : Bytes) (clientId : ClientId)
    (buffered : Bytes) : Bytes :=
  let out := [0x14, 0x03, 0x03, 0x00, 0x01, 0x01, 0x16, 0x03, 0x03, 0x00, 0x20] ++
    env.finishRandom.toList
  out ++ (ssrTlsTicketHmac env key clientId out).toList.take 10 ++ buffered

/-- The finish packet is its own forty-three bytes and then what was buffered. -/
theorem ssrTlsTicketFinish_buffered (env : TicketEnv) (key : Bytes) (clientId : ClientId)
    (buffered : Bytes) : ssrTlsTicketFinish env key clientId buffered =
      ssrTlsTicketFinish env key clientId [] ++ buffered := by
  simp [ssrTlsTicketFinish]

def ssrTlsTicketHasServerHandshake (buffer : Bytes) : Bool := 11 + 32 + 1 + 32 ≤ buffer.length

def ssrTlsTicketVerifyServerHandshake (env : TicketEnv) (buffer key : Bytes)
    (clientId : ClientId) : IoResult Unit :=
  if buffer.length < 43 then
    .error ⟨.invalidData, "ShadowsocksR TLS ticket response is too short"⟩
  else
    let first := ssrTlsTicketHmac env key clientId ((buffer.take 33).drop 11)
    let finalTag := ssrTlsTicketHmac env key clientId (buffer.take (buffer.length-10))
    if first.toList.take 10 ≠ (buffer.take 43).drop 33 ∨
        finalTag.toList.take 10 ≠ buffer.drop (buffer.length-10) then
      .error ⟨.invalidData, "ShadowsocksR TLS ticket response HMAC mismatch"⟩
    else .ok ()

end AtlasKernel.Shadowsocks
