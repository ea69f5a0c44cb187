import AtlasKernel.Adapter.CacheKeys
import AtlasKernel.Lib.AddressText
import AtlasKernel.Lib.JoinedText

/-! The kcptun plugin's configuration and the key under which its sessions are pooled. The texts
of two fields are taken over as they are, so what the key says is read from both ends. Source:
`config.rs` of the Shadowsocks adapter. -/
namespace AtlasKernel.Shadowsocks
open AtlasKernel.Lib AtlasKernel.Adapter

structure KcptunConfig where
  key : String
  crypt : String
  mode : String
  conn : Nat
  autoExpire : Nat
  scavengeTtl : Nat
  mtu : Nat
  rateLimit : Nat
  sndWnd : Nat
  rcvWnd : Nat
  dataShard : Nat
  parityShard : Nat
  dscp : Nat
  noComp : Bool
  ackNodelay : Bool
  noDelay : Int
  interval : Int
  resend : Int
  noCongestion : Bool
  sockBuf : Nat
  smuxVer : Nat
  smuxBuf : Nat
  frameSize : Nat
  streamBuf : Nat
  keepAlive : Nat

/-- The delays that a named mode stands for. -/
def KcptunConfig.withMode (config : KcptunConfig) : KcptunConfig :=
  if config.mode = "normal" then
    { config with noDelay := 0, interval := 40, resend := 2, noCongestion := true }
  else if config.mode = "fast" then
    { config with noDelay := 0, interval := 30, resend := 2, noCongestion := true }
  else if config.mode = "fast2" then
    { config with noDelay := 1, interval := 20, resend := 2, noCongestion := true }
  else if config.mode = "fast3" then
    { config with noDelay := 1, interval := 10, resend := 2, noCongestion := true }
  else config

/-- `apply_mode`, the last thing that is done to a configuration. -/
def KcptunConfig.applyMode (config : KcptunConfig) : KcptunConfig :=
  let config := config.withMode
  { config with
    smuxVer := if config.smuxVer = 0 then 1 else if 2 < config.smuxVer then 2 else config.smuxVer
    conn := max 1 (min 16 config.conn)
    frameSize := max 1 (min 65535 config.frameSize)
    streamBuf := min config.streamBuf config.smuxBuf }

def KcptunConfig.default : KcptunConfig :=
  KcptunConfig.applyMode {
    key := "it's a secrect"
    crypt := "aes"
    mode := "fast"
    conn := 1
    autoExpire := 0
    scavengeTtl := 600
    mtu := 1350
    rateLimit := 0
    sndWnd := 128
    rcvWnd := 512
    dataShard := 10
    parityShard := 3
    dscp := 0
    noComp := false
    ackNodelay := false
    noDelay := 0
    interval := 50
    resend := 0
    noCongestion := false
    sockBuf := 4194304
    smuxVer := 1
    smuxBuf := 4194304
    frameSize := 8192
    streamBuf := 2097152
    keepAlive := 10 }

/-- A configuration as it comes out of the plugin options. -/
structure AppliedConfig where
  config : KcptunConfig
  conn : 1 ≤ config.conn ∧ config.conn ≤ 16

def KcptunConfig.applied (config : KcptunConfig) : AppliedConfig :=
  ⟨config.applyMode,Nat.le_max_left _ _,Nat.max_le.mpr ⟨by decide,Nat.min_le_left _ _⟩⟩

/-! ## The key of the pool -/

def natText (n : Nat) : List Char := (toString n).toList
def intText (n : Int) : List Char := (toString n).toList

/-- The fields of the key that are numbers or switches. -/
def KcptunConfig.numbers (c : KcptunConfig) : List (List Char) :=
  [natText c.conn, natText c.autoExpire, natText c.scavengeTtl, natText c.mtu,
    natText c.rateLimit, natText c.sndWnd, natText c.rcvWnd, natText c.dataShard,
    natText c.parityShard, natText c.dscp, boolText c.noComp, boolText c.ackNodelay,
    intText c.noDelay, intText c.interval, intText c.resend, boolText c.noCongestion,
    natText c.smuxVer, natText c.smuxBuf, natText c.frameSize, natText c.streamBuf]

/-- `pool_key`; the digest is any function. -/
def KcptunConfig.poolKey (sha256 : Bytes → Bytes) (c : KcptunConfig) (address : SocketAddr) :
    List Char :=
  joined '|' address.text
    (hex (sha256 (utf8 c.key.toList)) :: c.crypt.toList :: c.mode.toList :: c.numbers)

/-- What the pool key does not tell apart: the size of the socket buffer and the keep-alive, keys
with one digest, and a cipher and a mode that are one text with a bar between them. -/
structure KcptunConfig.SamePool (sha256 : Bytes → Bytes) (c d : KcptunConfig) : Prop where
  digest : sha256 (utf8 c.key.toList) = sha256 (utf8 d.key.toList)
  texts : c.crypt ++ "|" ++ c.mode = d.crypt ++ "|" ++ d.mode
  rest : { c with key := d.key, crypt := d.crypt, mode := d.mode, sockBuf := d.sockBuf,
                  keepAlive := d.keepAlive } = d

theorem natText_inj {n m : Nat} (h : natText n = natText m) : n = m :=
  Nat.repr_injective (String.toList_inj.mp h)

theorem notMem_numbers (c : KcptunConfig) : ∀ piece ∈ c.numbers, '|' ∉ piece := by
  have hnat : ∀ n : Nat, '|' ∉ natText n := fun n => not_mem_natText (by decide) n
  have hint : ∀ n : Int, '|' ∉ intText n := fun n => not_mem_intText (by decide) (by decide) n
  have hbool : ∀ b : Bool, '|' ∉ boolText b := fun b => (notMem_boolText b).1
  simp only [KcptunConfig.numbers, List.forall_mem_cons]
  simp [hnat, hint, hbool]

theorem intText_inj {n m : Int} (h : intText n = intText m) : n = m :=
  Int.repr_injective (String.toList_inj.mp h)

/-- Each number is read back from its place. -/
theorem numbers_inj {c d : KcptunConfig} (h : c.numbers = d.numbers) :
    { c with key := d.key, crypt := d.crypt, mode := d.mode, sockBuf := d.sockBuf,
             keepAlive := d.keepAlive } = d := by
  simp only [KcptunConfig.numbers, List.cons.injEq, and_true] at h
  obtain ⟨h1,h2,h3,h4,h5,h6,h7,h8,h9,h10,h11,h12,h13,h14,h15,h16,h17,h18,h19,h20⟩ := h
  cases c
  cases d
  simp only [KcptunConfig.mk.injEq]
  exact ⟨trivial,trivial,trivial,natText_inj h1,natText_inj h2,natText_inj h3,natText_inj h4,
    natText_inj h5,natText_inj h6,natText_inj h7,natText_inj h8,natText_inj h9,natText_inj h10,
    boolText_inj h11,boolText_inj h12,intText_inj h13,intText_inj h14,intText_inj h15,
    boolText_inj h16,trivial,natText_inj h17,natText_inj h18,natText_inj h19,natText_inj h20,trivial⟩

theorem barred_inj {c d : KcptunConfig} :
    joined '|' c.crypt.toList [c.mode.toList] = joined '|' d.crypt.toList [d.mode.toList] ↔
      c.crypt ++ "|" ++ c.mode = d.crypt ++ "|" ++ d.mode := by
  rw [← String.toList_inj, String.toList_append, String.toList_append, String.toList_append,
    String.toList_append, joined_cons, joined_cons, joined_nil, joined_nil]
  simp

/-- Two sessions go into one pool exactly if they are to one address and the key does not tell
their configurations apart. -/
theorem poolKey_eq_iff (sha256 : Bytes → Bytes) (c d : KcptunConfig) (address address' : SocketAddr) :
    c.poolKey sha256 address = d.poolKey sha256 address' ↔ address = address' ∧ c.SamePool sha256 d := by
  have hbar : ∀ address : SocketAddr, '|' ∉ address.text := fun address =>
    SocketAddr.notMem_text (by decide) (by decide) (by decide) (by decide) address
  have hhex : ∀ bytes, '|' ∉ hex bytes := fun bytes => notMem_hex (by decide) bytes
  have hsplit : ∀ (c : KcptunConfig) (address : SocketAddr), c.poolKey sha256 address =
      joined '|' (joined '|' address.text
        [hex (sha256 (utf8 c.key.toList)), c.crypt.toList, c.mode.toList]) c.numbers := by
    intro c address
    rw [← joined_append]
    rfl
  constructor
  · intro h
    rw [hsplit, hsplit] at h
    -- the numbers come from behind, the address and the digest from the front
    have hplain : ∀ piece ∈ c.numbers ++ d.numbers, '|' ∉ piece := fun piece hmem =>
      (List.mem_append.mp hmem).elim (notMem_numbers c piece) (notMem_numbers d piece)
    have hlen : ∀ c : KcptunConfig, c.numbers.length = 20 := fun _ => rfl
    obtain ⟨htexts,hnumbers⟩ := joined_inj_behind ((hlen c).trans (hlen d).symm) hplain h
    obtain ⟨haddress,hrest⟩ := joined_inj_front (hbar address) (hbar address') htexts
    obtain ⟨hdigest,hbarred⟩ := joined_inj_front (hhex _) (hhex _) hrest
    exact ⟨SocketAddr.text_inj haddress,hex_inj hdigest,barred_inj.mp hbarred,numbers_inj hnumbers⟩
  · rintro ⟨rfl,hdigest,htexts,hrest⟩
    have hnumbers : c.numbers = d.numbers := by
      rw [← hrest]
      rfl
    rw [hsplit, hsplit, hnumbers, hdigest, joined_cons address.text, joined_cons address.text,
      joined_cons (hex _), joined_cons (hex _), barred_inj.mpr htexts]

end AtlasKernel.Shadowsocks
