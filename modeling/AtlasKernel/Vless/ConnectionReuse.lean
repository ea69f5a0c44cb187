import AtlasKernel.Lib.Steps
import AtlasKernel.Vless.ConfigKeys

/-! The connections that VLESS keeps for reuse, one map of mux workers and one of managers
of XHTTP HTTP/2 clients, among the calls that connect. What a call does between two of its
awaits is a step. Source: `adapter/vless.rs`. -/
namespace AtlasKernel.Vless
open AtlasKernel.Lib

abbrev KeyMap (β : Type*) := List (List Char × β)

namespace KeyMap
variable {β : Type*}

def get (m : KeyMap β) (key : List Char) : Option β := (m.find? (·.1 = key)).map (·.2)

def remove (m : KeyMap β) (key : List Char) : KeyMap β := m.filter (·.1 ≠ key)

def insert (m : KeyMap β) (key : List Char) (value : β) : KeyMap β := (key, value) :: m.remove key

theorem get_mem {m : KeyMap β} {key : List Char} {value : β} (h : m.get key = some value) :
    (key, value) ∈ m := by
  obtain ⟨entry,hfind,hvalue⟩ := Option.map_eq_some_iff.mp h
  have hkey : entry.1 = key := by simpa using List.find?_some hfind
  rw [← hkey, ← hvalue]
  exact List.mem_of_find?_eq_some hfind

theorem mem_insert {m : KeyMap β} {key : List Char} {value : β} {entry : List Char × β}
    (h : entry ∈ m.insert key value) : entry = (key, value) ∨ entry ∈ m := by
  cases List.mem_cons.mp h with
  | inl heq => exact .inl heq
  | inr hrest => exact .inr (List.mem_of_mem_filter hrest)

end KeyMap

namespace VlessConfig

def resolvedXhttpMode (c : VlessConfig) : XHttpMode :=
  match c.transport.mode, c.security with
  | .auto, .reality .. => .streamOne
  | .auto, _ => .packetUp
  | mode, _ => mode

/-- `open_vless_transport_stream` goes to `connect_h2_xhttp_packet_up_pooled`. -/
def pooled (c : VlessConfig) : Bool :=
  c.transport.kind = .xHttp && c.transport.httpVersion ≠ .h3 && c.security ≠ .none &&
    c.resolvedXhttpMode = .packetUp

end VlessConfig

/-- A worker, with the configuration it was opened under; `held` is that a strong reference
is left. -/
structure OpenedWorker where
  config : VlessConfig
  closed : Bool
  held : Bool
deriving DecidableEq, Repr

structure XHttpH2XmuxClient where
  config : VlessConfig
  openUsage : Int32
  leftUsage : Int32
  leftRequests : Int32
  reusableUntil : Option Nat
  closed : Bool
deriving DecidableEq, Repr

namespace XHttpH2XmuxClient

def new (config : VlessConfig) (now : Nat) : XHttpH2XmuxClient where
  config := config
  openUsage := 0
  leftUsage :=
    if 0 < config.transport.xmux.cMaxReuseTimes then config.transport.xmux.cMaxReuseTimes - 1
    else -1
  leftRequests :=
    if 0 < config.transport.xmux.hMaxRequestTimes then config.transport.xmux.hMaxRequestTimes
    else Int32.maxValue
  reusableUntil :=
    if 0 < config.transport.xmux.hMaxReusableSecs then
      some (now + config.transport.xmux.hMaxReusableSecs.toNat * 10 ^ 9)
    else none
  closed := false

def isUsable (c : XHttpH2XmuxClient) (now : Nat) : Bool :=
  !c.closed && c.leftUsage ≠ 0 && 0 < c.leftRequests && c.reusableUntil.all fun until_ => now ≤ until_

def consumeConnectionReuse (c : XHttpH2XmuxClient) : XHttpH2XmuxClient :=
  if 0 < c.leftUsage then { c with leftUsage := c.leftUsage - 1 } else c

end XHttpH2XmuxClient

/-- `clients` by their numbers; `lock` is the call that holds the manager. -/
structure XHttpH2XmuxManager where
  config : XHttpXmuxConfig
  clients : List Nat
  lock : Option Nat
deriving DecidableEq, Repr

/-- How far a call has come, from the lookup of a mux worker or from the opening of its own
transport; `managing` waits for a manager, and `connecting` holds it. -/
inductive ConnectStage where
  | lookingUp
  | opening
  | managing
  | connecting
  | requesting (client : Nat)
  | opened
  | done
deriving DecidableEq, Repr

structure ConnectCall where
  config : VlessConfig
  udp : Bool
  stage : ConnectStage
deriving DecidableEq, Repr

structure VlessPools where
  now : Nat
  workers : List OpenedWorker
  muxWorkers : KeyMap Nat
  clients : List XHttpH2XmuxClient
  managers : KeyMap XHttpH2XmuxManager
  calls : List ConnectCall
deriving DecidableEq, Repr

inductive PoolsEvent where
  | connect (config : VlessConfig)
  | sendUdp (config : VlessConfig)
  | lookup (call : Nat)
  | transport (call : Nat) (ok : Bool)
  | manager (call : Nat)
  | getClient (call : Nat)
  | newClient (call : Nat) (ok : Bool)
  | request (call : Nat) (ok : Bool)
  | finish (call : Nat) (ok : Bool)
  | abandon (call : Nat)
  | workerCloses (worker : Nat)
  | workerDropped (worker : Nat)
  | clientCloses (client : Nat)
  | post (client : Nat)
  | downloadEnds (client : Nat)
  | elapse (nanos : Nat)
deriving DecidableEq, Repr

/-- The configuration of a call, and that of a call that sends UDP. -/
def PoolsEvent.config? : PoolsEvent → Option VlessConfig
  | .connect config | .sendUdp config => some config
  | _ => none

def PoolsEvent.udpConfig? : PoolsEvent → Option VlessConfig
  | .sendUdp config => some config
  | _ => none

inductive ReusePool where
  | muxWorker
  | xhttpH2Client
deriving DecidableEq, Repr

/-- What a call has got, with the configurations of the call and of the opening. -/
structure Handout where
  pool : ReusePool
  config : VlessConfig
  openedUnder : VlessConfig
deriving DecidableEq, Repr

namespace VlessPools
variable (unicode : Char → Bool)

def new : VlessPools := ⟨0, [], [], [], [], []⟩

def callAt (s : VlessPools) (call : Nat) (stage : ConnectStage) : Option ConnectCall :=
  (s.calls[call]?).filter (·.stage = stage)

def setStage (s : VlessPools) (call : Nat) (c : ConnectCall) (stage : ConnectStage) : VlessPools :=
  { s with calls := s.calls.set call { c with stage := stage } }

/-- `Weak::upgrade` of what the map has under the key. -/
def upgrade (s : VlessPools) (key : List Char) : Option OpenedWorker :=
  ((s.muxWorkers.get key).bind (s.workers[·]?)).filter (·.held)

def retainHeld (s : VlessPools) (m : KeyMap Nat) : KeyMap Nat :=
  m.filter fun entry => (s.workers[entry.2]?).any (·.held)

def usableClients (s : VlessPools) (m : XHttpH2XmuxManager) : List Nat :=
  m.clients.filter fun client => (s.clients[client]?).any (·.isUsable s.now)

def shouldOpenMoreConnections (m : XHttpH2XmuxManager) : Bool :=
  0 < m.config.maxConnections && m.clients.length < m.config.maxConnections.toInt

def openUsage (s : VlessPools) (client : Nat) : Int :=
  ((s.clients[client]?).map (·.openUsage.toInt)).getD 0

/-- `min_by_key`: the first one with the least usage. -/
def leastUsed (s : VlessPools) : List Nat → Option Nat
  | [] => none
  | client :: rest =>
    match s.leastUsed rest with
    | none => some client
    | some other => if s.openUsage other < s.openUsage client then some other else some client

def reusableClient (s : VlessPools) (m : XHttpH2XmuxManager) : Option Nat :=
  s.leastUsed (m.clients.filter fun client =>
    m.config.maxConcurrency ≤ 0 || s.openUsage client < m.config.maxConcurrency.toInt)

def setManager (s : VlessPools) (key : List Char) (m : XHttpH2XmuxManager) : VlessPools :=
  { s with managers := s.managers.insert key m }

def step (s : VlessPools) : PoolsEvent → VlessPools × List Handout
  | .connect config => ({ s with calls := s.calls ++ [⟨config, false, .opening⟩] }, [])
  | .sendUdp config => ({ s with calls := s.calls ++ [⟨config, true, .lookingUp⟩] }, [])
  | .lookup call =>
    match s.callAt call .lookingUp with
    | none => (s, [])
    | some c =>
      let key := c.config.muxKey unicode
      match s.upgrade key with
      | some worker =>
        if worker.closed then
          ({ s with muxWorkers := s.retainHeld (s.muxWorkers.remove key) }.setStage call c
            .opening, [])
        else (s.setStage call c .done, [⟨.muxWorker, c.config, worker.config⟩])
      | none => ({ s with muxWorkers := s.retainHeld s.muxWorkers }.setStage call c .opening, [])
  | .transport call ok =>
    match s.callAt call .opening with
    | none => (s, [])
    | some c =>
      if c.config.pooled then (s, [])
      else (s.setStage call c (if ok then .opened else .done), [])
  | .manager call =>
    match s.callAt call .opening with
    | none => (s, [])
    | some c =>
      if c.config.pooled then
        let key := c.config.xhttpH2XmuxKey unicode
        let m := (s.managers.get key).getD ⟨c.config.transport.xmux, [], none⟩
        ((s.setManager key m).setStage call c .managing, [])
      else (s, [])
  | .getClient call =>
    match s.callAt call .managing with
    | none => (s, [])
    | some c =>
      let key := c.config.xhttpH2XmuxKey unicode
      match (s.managers.get key).filter (·.lock = none) with
      | none => (s, [])
      | some m =>
        let m := { m with clients := s.usableClients m }
        let connecting := (s.setManager key { m with lock := some call }).setStage call c .connecting
        if m.clients.isEmpty || shouldOpenMoreConnections m then (connecting, [])
        else
          match s.reusableClient m with
          | none => (connecting, [])
          | some client =>
            ({ s.setManager key m with
              clients := s.clients.modify client .consumeConnectionReuse }.setStage call c
                (.requesting client),
              ((s.clients[client]?).map fun reused =>
                Handout.mk .xhttpH2Client c.config reused.config).toList)
  | .newClient call ok =>
    match s.callAt call .connecting with
    | none => (s, [])
    | some c =>
      let key := c.config.xhttpH2XmuxKey unicode
      match s.managers.get key with
      | none => (s, [])
      | some m =>
        if ok then
          ({ s.setManager key { m with clients := m.clients ++ [s.clients.length], lock := none } with
            clients := s.clients ++ [XHttpH2XmuxClient.new c.config s.now] }.setStage call c
              (.requesting s.clients.length), [⟨.xhttpH2Client, c.config, c.config⟩])
        else ((s.setManager key { m with lock := none }).setStage call c .done, [])
  | .request call ok =>
    match s.calls[call]? with
    | none => (s, [])
    | some c =>
      match c.stage with
      | .requesting client =>
        ({ s with clients := s.clients.modify client fun used =>
          { used with
            openUsage := used.openUsage + 1
            leftRequests := if ok then used.leftRequests - 1 else used.leftRequests } }.setStage
              call c (if ok then .opened else .done), [])
      | _ => (s, [])
  | .finish call ok =>
    match s.callAt call .opened with
    | none => (s, [])
    | some c =>
      if c.udp && ok then
        ({ s with
          workers := s.workers ++ [OpenedWorker.mk c.config false true]
          muxWorkers := s.muxWorkers.insert (c.config.muxKey unicode) s.workers.length }.setStage
            call c .done, [⟨.muxWorker, c.config, c.config⟩])
      else (s.setStage call c .done, [])
  | .abandon call =>
    match s.calls[call]? with
    | none => (s, [])
    | some c =>
      match c.stage with
      | .requesting _ => (s, [])
      | .connecting =>
        let key := c.config.xhttpH2XmuxKey unicode
        match s.managers.get key with
        | none => (s, [])
        | some m => ((s.setManager key { m with lock := none }).setStage call c .done, [])
      | _ => (s.setStage call c .done, [])
  | .workerCloses worker =>
    ({ s with workers := s.workers.modify worker fun w => { w with closed := true } }, [])
  | .workerDropped worker =>
    ({ s with workers := s.workers.modify worker fun w => { w with held := false } }, [])
  | .clientCloses client =>
    ({ s with clients := s.clients.modify client fun c => { c with closed := true } }, [])
  | .post client =>
    ({ s with clients := s.clients.modify client fun c =>
      { c with leftRequests := c.leftRequests - 1 } }, [])
  | .downloadEnds client =>
    ({ s with clients := s.clients.modify client fun c =>
      { c with openUsage := c.openUsage - 1 } }, [])
  | .elapse nanos => ({ s with now := s.now + nanos }, [])

/-! ## What is filed under a key -/

end VlessPools

namespace VlessConfig

/-- Two configurations that a worker must not be shared between differ in what the key of
the workers names. -/
def MuxApart (c d : VlessConfig) : Prop :=
  c = d ∨ c.PlainNames ∧ d.PlainNames ∧ ¬ c.SameMuxFields d

def PlainHost (c : VlessConfig) : Prop := c.PlainNames ∧ '|' ∉ (c.transportHost.getD "").toList

/-- The same for the client of `d`, if a client of `d` is ever used twice. -/
def XmuxApart (c d : VlessConfig) : Prop :=
  c.pooled = true → d.pooled = true → d.transport.xmux.cMaxReuseTimes ≠ 1 →
    c = d ∨ c.PlainHost ∧ d.PlainHost ∧ ¬ c.SameXmuxFields d

variable {unicode : Char → Bool} {c d : VlessConfig}

instance (c d : VlessConfig) : Decidable (c.MuxApart d) := inferInstanceAs (Decidable (_ ∨ _))

instance (c d : VlessConfig) : Decidable (c.XmuxApart d) :=
  inferInstanceAs (Decidable (_ → _ → _ → _ = _ ∨ (_ ∧ _) ∧ (_ ∧ _) ∧ _))

theorem MuxApart.eq (h : c.MuxApart d) (hkey : c.muxKey unicode = d.muxKey unicode) : c = d := by
  obtain heq | ⟨hc,hd,hfields⟩ := h
  · exact heq
  · exact absurd (muxKey_eq hc hd hkey) hfields

theorem XmuxApart.eq (h : c.XmuxApart d) (hc : c.pooled = true) (hd : d.pooled = true)
    (hreuse : d.transport.xmux.cMaxReuseTimes ≠ 1)
    (hkey : c.xhttpH2XmuxKey unicode = d.xhttpH2XmuxKey unicode) : c = d := by
  obtain heq | ⟨hplain,hplain',hfields⟩ := h hc hd hreuse
  · exact heq
  · exact absurd (xhttpH2XmuxKey_eq hplain.1 hplain'.1 hplain.2 hplain'.2 hkey) hfields

end VlessConfig

namespace VlessPools

def workerConfigs (s : VlessPools) : List VlessConfig := s.workers.map OpenedWorker.config

def clientConfigs (s : VlessPools) : List VlessConfig := s.clients.map XHttpH2XmuxClient.config

/-- A client that a call with the key may find. -/
def Filed (unicode : Char → Bool) (all : VlessConfig → Prop) (s : VlessPools) (key : List Char)
    (client : Nat) : Prop :=
  ∃ d, s.clientConfigs[client]? = some d ∧ d.xhttpH2XmuxKey unicode = key ∧ d.pooled = true ∧ all d

/-- Whatever stands under a key was opened under a configuration with that key, and a client
that is to be used once is used up. `udp` and `all` are the configurations of the run. -/
structure Inv (unicode : Char → Bool) (udp all : VlessConfig → Prop) (s : VlessPools) : Prop where
  calls : ∀ c ∈ s.calls, all c.config ∧ (c.stage = .lookingUp ∨ c.udp = true → udp c.config) ∧
    (c.stage = .managing ∨ c.stage = .connecting → c.config.pooled = true)
  workers : ∀ entry ∈ s.muxWorkers, ∃ d, s.workerConfigs[entry.2]? = some d ∧
    d.muxKey unicode = entry.1 ∧ udp d
  managers : ∀ entry ∈ s.managers, ∀ client ∈ entry.2.clients, s.Filed unicode all entry.1 client
  once : ∀ c ∈ s.clients, c.config.transport.xmux.cMaxReuseTimes = 1 → c.leftUsage = 0

variable {unicode : Char → Bool} {udp all : VlessConfig → Prop} {s : VlessPools}

theorem new_inv : new.Inv unicode udp all :=
  ⟨fun _ h => absurd h List.not_mem_nil, fun _ h => absurd h List.not_mem_nil,
    fun _ h => absurd h List.not_mem_nil, fun _ h => absurd h List.not_mem_nil⟩

theorem Inv.push (h : s.Inv unicode udp all) {c : ConnectCall} (hall : all c.config)
    (hudp : c.stage = .lookingUp ∨ c.udp = true → udp c.config)
    (hstage : ¬ (c.stage = .managing ∨ c.stage = .connecting)) :
    Inv unicode udp all { s with calls := s.calls ++ [c] } := by
  refine ⟨fun call hcall => ?_, h.workers, h.managers, h.once⟩
  cases List.mem_append.mp hcall with
  | inl hold => exact h.calls call hold
  | inr hnew =>
    cases List.mem_singleton.mp hnew
    exact ⟨hall, hudp, fun hs => absurd hs hstage⟩

theorem Inv.setStage (h : s.Inv unicode udp all) {call : Nat} {c : ConnectCall}
    (hcall : s.calls[call]? = some c) {stage : ConnectStage} (hlookup : stage ≠ .lookingUp)
    (hpooled : stage = .managing ∨ stage = .connecting → c.config.pooled = true) :
    (s.setStage call c stage).Inv unicode udp all := by
  refine ⟨fun other hother => ?_, h.workers, h.managers, h.once⟩
  cases List.mem_or_eq_of_mem_set hother with
  | inl hold => exact h.calls other hold
  | inr hnew =>
    obtain ⟨hall,hudp,-⟩ := h.calls c (List.mem_of_getElem? hcall)
    subst hnew
    exact ⟨hall, fun hor => hudp (hor.imp_left fun heq => absurd heq hlookup), hpooled⟩

/-- A call that goes on without the pools. -/
theorem Inv.leave (h : s.Inv unicode udp all) {call : Nat} {c : ConnectCall}
    (hcall : s.calls[call]? = some c) {stage : ConnectStage}
    (hstage : stage ≠ .lookingUp ∧ stage ≠ .managing ∧ stage ≠ .connecting) :
    (s.setStage call c stage).Inv unicode udp all :=
  h.setStage hcall hstage.1 fun hor => (hor.elim hstage.2.1 hstage.2.2).elim

theorem Inv.fewerWorkers (h : s.Inv unicode udp all) {m : KeyMap Nat}
    (hsub : ∀ entry ∈ m, entry ∈ s.muxWorkers) :
    Inv unicode udp all { s with muxWorkers := m } :=
  ⟨h.calls, fun entry hentry => h.workers entry (hsub entry hentry), h.managers, h.once⟩

theorem Inv.pushWorker (h : s.Inv unicode udp all) {config : VlessConfig} (hudp : udp config) :
    Inv unicode udp all { s with
      workers := s.workers ++ [OpenedWorker.mk config false true]
      muxWorkers := s.muxWorkers.insert (config.muxKey unicode) s.workers.length } := by
  refine ⟨h.calls, fun entry hentry => ?_, h.managers, h.once⟩
  have hconfigs : workerConfigs { s with
      workers := s.workers ++ [OpenedWorker.mk config false true] } = s.workerConfigs ++ [config] :=
    List.map_append
  cases KeyMap.mem_insert hentry with
  | inl heq =>
    subst heq
    refine ⟨config, ?_, rfl, hudp⟩
    have hlen : s.workerConfigs.length = s.workers.length := List.length_map ..
    exact hconfigs ▸ hlen ▸ List.getElem?_concat_length
  | inr hold =>
    obtain ⟨d,hd,hkey⟩ := h.workers entry hold
    refine ⟨d, ?_, hkey⟩
    have hlt := (List.getElem?_eq_some_iff.mp hd).1
    exact hconfigs ▸ (List.getElem?_append_left hlt).trans hd

theorem map_modify {β γ : Type*} {f : β → β} {g : β → γ} (hf : ∀ b, g (f b) = g b) (l : List β)
    (n : Nat) : (l.modify n f).map g = l.map g := by
  induction l generalizing n with
  | nil => rw [List.modify_nil]
  | cons b l ih =>
    cases n with
    | zero => rw [List.modify_zero_cons, List.map_cons, List.map_cons, hf]
    | succ n => rw [List.modify_succ_cons, List.map_cons, List.map_cons, ih]

theorem forall_modify {β : Type*} {P : β → Prop} {f : β → β} (hf : ∀ b, P b → P (f b)) {l : List β}
    (h : ∀ b ∈ l, P b) (n : Nat) : ∀ b ∈ l.modify n f, P b := by
  induction l generalizing n with
  | nil =>
    rw [List.modify_nil]
    exact h
  | cons b l ih =>
    obtain ⟨hb,hl⟩ := List.forall_mem_cons.mp h
    cases n with
    | zero => exact List.forall_mem_cons.mpr ⟨hf b hb, hl⟩
    | succ n => exact List.forall_mem_cons.mpr ⟨hb, ih hl n⟩

theorem Inv.modifyWorker (h : s.Inv unicode udp all) (worker : Nat) {f : OpenedWorker → OpenedWorker}
    (hf : ∀ w, (f w).config = w.config) :
    Inv unicode udp all { s with workers := s.workers.modify worker f } := by
  refine ⟨h.calls, fun entry hentry => ?_, h.managers, h.once⟩
  rw [workerConfigs, map_modify hf]
  exact h.workers entry hentry

theorem Inv.setManager (h : s.Inv unicode udp all) {key : List Char} {m : XHttpH2XmuxManager}
    (hm : ∀ client ∈ m.clients, s.Filed unicode all key client) :
    (s.setManager key m).Inv unicode udp all := by
  refine ⟨h.calls, h.workers, fun entry hentry => ?_, h.once⟩
  cases KeyMap.mem_insert hentry with
  | inl heq =>
    subst heq
    exact hm
  | inr hold => exact h.managers entry hold

theorem Inv.modifyClient (h : s.Inv unicode udp all) (client : Nat)
    {f : XHttpH2XmuxClient → XHttpH2XmuxClient} (hf : ∀ c, (f c).config = c.config)
    (husage : ∀ c, c.leftUsage = 0 → (f c).leftUsage = 0) :
    Inv unicode udp all { s with clients := s.clients.modify client f } := by
  refine ⟨h.calls, h.workers, fun entry hentry other hother => ?_,
    forall_modify (fun c hc honce => husage c (hc (hf c ▸ honce))) h.once client⟩
  rw [Filed, clientConfigs, map_modify hf]
  exact h.managers entry hentry other hother

theorem new_used_up (config : VlessConfig) (now : Nat)
    (h : config.transport.xmux.cMaxReuseTimes = 1) :
    (XHttpH2XmuxClient.new config now).leftUsage = 0 := by
  have hpos : (0 : Int32) < 1 := by decide
  simp only [XHttpH2XmuxClient.new, h, if_pos hpos, Int32.sub_self]

theorem Filed.push {key : List Char} {client : Nat} (h : s.Filed unicode all key client)
    (opened : XHttpH2XmuxClient) :
    Filed unicode all { s with clients := s.clients ++ [opened] } key client := by
  obtain ⟨d,hd,hkey⟩ := h
  refine ⟨d, ?_, hkey⟩
  have hlt := (List.getElem?_eq_some_iff.mp hd).1
  rw [clientConfigs, List.map_append]
  exact (List.getElem?_append_left hlt).trans hd

theorem Inv.pushClient (h : s.Inv unicode udp all) {config : VlessConfig} :
    Inv unicode udp all { s with clients := s.clients ++ [XHttpH2XmuxClient.new config s.now] } := by
  refine ⟨h.calls, h.workers, fun entry hentry client hclient =>
    (h.managers entry hentry client hclient).push _, fun c hc honce => ?_⟩
  cases List.mem_append.mp hc with
  | inl hold => exact h.once c hold honce
  | inr hnew =>
    cases List.mem_singleton.mp hnew
    exact new_used_up config s.now honce

/-! ## Every step -/

theorem callAt_some {call : Nat} {stage : ConnectStage} {c : ConnectCall}
    (h : s.callAt call stage = some c) : s.calls[call]? = some c ∧ c.stage = stage := by
  obtain ⟨hcall,hstage⟩ := Option.filter_eq_some_iff.mp h
  exact ⟨hcall, of_decide_eq_true hstage⟩

theorem usableClients_mem {m : XHttpH2XmuxManager} {client : Nat} (h : client ∈ s.usableClients m) :
    client ∈ m.clients ∧ (s.clients[client]?).any (·.isUsable s.now) = true :=
  List.mem_filter.mp h

theorem leastUsed_mem {clients : List Nat} {client : Nat} (h : s.leastUsed clients = some client) :
    client ∈ clients := by
  induction clients with
  | nil => exact absurd h nofun
  | cons first rest ih =>
    rw [leastUsed] at h
    split at h
    · exact Option.some.inj h ▸ List.mem_cons_self
    case h_2 other hother =>
      split at h
      · exact List.mem_cons_of_mem _ (ih (hother.trans h))
      · exact Option.some.inj h ▸ List.mem_cons_self

/-- What `get_client` does up to its first await: it waits for the manager, or it keeps the
manager to open a client, or it takes a client that is usable. -/
inductive GetClient (unicode : Char → Bool) (s : VlessPools) (call : Nat) :
    VlessPools × List Handout → Prop where
  | waits : GetClient unicode s call (s, [])
  | connects {c : ConnectCall} {m : XHttpH2XmuxManager} (hc : s.callAt call .managing = some c)
      (hm : (s.managers.get (c.config.xhttpH2XmuxKey unicode)).filter (·.lock = none) = some m) :
      GetClient unicode s call
        ((s.setManager (c.config.xhttpH2XmuxKey unicode)
          { m with clients := s.usableClients m, lock := some call }).setStage call c .connecting, [])
  | reuses {c : ConnectCall} {m : XHttpH2XmuxManager} {client : Nat}
      (hc : s.callAt call .managing = some c)
      (hm : (s.managers.get (c.config.xhttpH2XmuxKey unicode)).filter (·.lock = none) = some m)
      (hclient : client ∈ s.usableClients m)
      (hbelow : m.config.maxConcurrency ≤ 0 ∨ s.openUsage client < m.config.maxConcurrency.toInt) :
      GetClient unicode s call
        ({ s.setManager (c.config.xhttpH2XmuxKey unicode) { m with clients := s.usableClients m } with
          clients := s.clients.modify client .consumeConnectionReuse }.setStage call c
            (.requesting client),
          ((s.clients[client]?).map fun reused =>
            Handout.mk .xhttpH2Client c.config reused.config).toList)

theorem getClient_does (unicode : Char → Bool) (s : VlessPools) (call : Nat) :
    GetClient unicode s call (s.step unicode (.getClient call)) := by
  rw [step]
  split
  case h_1 => exact .waits
  case h_2 c hc =>
    dsimp only
    split
    case h_1 => exact .waits
    case h_2 m hm =>
      split
      · exact .connects hc hm
      · split
        · exact .connects hc hm
        case h_2 client hclient =>
          obtain ⟨husable,hbelow⟩ := List.mem_filter.mp (leastUsed_mem hclient)
          rw [Bool.or_eq_true, decide_eq_true_eq, decide_eq_true_eq] at hbelow
          exact .reuses hc hm husable hbelow

/-- What comes of the attempt to open a client. -/
inductive NewClient (unicode : Char → Bool) (s : VlessPools) (call : Nat) :
    VlessPools × List Handout → Prop where
  | waits : NewClient unicode s call (s, [])
  | fails {c : ConnectCall} {m : XHttpH2XmuxManager} (hc : s.callAt call .connecting = some c)
      (hm : s.managers.get (c.config.xhttpH2XmuxKey unicode) = some m) :
      NewClient unicode s call
        ((s.setManager (c.config.xhttpH2XmuxKey unicode) { m with lock := none }).setStage call c
          .done, [])
  | opens {c : ConnectCall} {m : XHttpH2XmuxManager} (hc : s.callAt call .connecting = some c)
      (hm : s.managers.get (c.config.xhttpH2XmuxKey unicode) = some m) :
      NewClient unicode s call
        ({ s.setManager (c.config.xhttpH2XmuxKey unicode)
            { m with clients := m.clients ++ [s.clients.length], lock := none } with
          clients := s.clients ++ [XHttpH2XmuxClient.new c.config s.now] }.setStage call c
            (.requesting s.clients.length), [⟨.xhttpH2Client, c.config, c.config⟩])

theorem newClient_does (unicode : Char → Bool) (s : VlessPools) (call : Nat) (ok : Bool) :
    NewClient unicode s call (s.step unicode (.newClient call ok)) := by
  rw [step]
  split
  case h_1 => exact .waits
  case h_2 c hc =>
    dsimp only
    split
    case h_1 => exact .waits
    case h_2 m hm =>
      split
      · exact .opens hc hm
      · exact .fails hc hm

/-- What a manager holds already may be found under its key. -/
theorem Inv.filed (h : s.Inv unicode udp all) {key : List Char} {m : XHttpH2XmuxManager}
    (hm : s.managers.get key = some m) : ∀ client ∈ m.clients, s.Filed unicode all key client :=
  h.managers (key, m) (KeyMap.get_mem hm)

/-- A call gives a manager back as it is. -/
theorem Inv.unlock (h : s.Inv unicode udp all) {key : List Char} {m : XHttpH2XmuxManager}
    (hm : s.managers.get key = some m) :
    (s.setManager key { m with lock := none }).Inv unicode udp all :=
  h.setManager fun client hclient => h.filed hm client hclient

theorem Inv.lookup (h : s.Inv unicode udp all) (call : Nat) :
    (s.step unicode (.lookup call)).1.Inv unicode udp all := by
  rw [step]
  split
  case h_1 => exact h
  case h_2 c hc =>
    obtain ⟨hcall,-⟩ := callAt_some hc
    dsimp only
    split
    · split
      · have hfewer : Inv unicode udp all { s with
            muxWorkers := s.retainHeld (s.muxWorkers.remove (c.config.muxKey unicode)) } :=
          h.fewerWorkers fun _ hentry => List.mem_of_mem_filter (List.mem_of_mem_filter hentry)
        exact hfewer.leave hcall (by simp)
      · exact h.leave hcall (by simp)
    · have hfewer : Inv unicode udp all { s with muxWorkers := s.retainHeld s.muxWorkers } :=
        h.fewerWorkers fun _ hentry => List.mem_of_mem_filter hentry
      exact hfewer.leave hcall (by simp)

theorem Inv.manager (h : s.Inv unicode udp all) (call : Nat) :
    (s.step unicode (.manager call)).1.Inv unicode udp all := by
  rw [step]
  split
  case h_1 => exact h
  case h_2 c hc =>
    obtain ⟨hcall,-⟩ := callAt_some hc
    split
    case isFalse => exact h
    case isTrue hpooled =>
      refine Inv.setStage (h.setManager fun client hclient => ?_) hcall nofun fun _ => hpooled
      cases hm : s.managers.get (c.config.xhttpH2XmuxKey unicode) with
      | none =>
        rw [hm] at hclient
        exact absurd hclient List.not_mem_nil
      | some m =>
        rw [hm] at hclient
        exact h.filed hm client hclient

theorem Inv.getClient (h : s.Inv unicode udp all) (call : Nat) :
    (s.step unicode (.getClient call)).1.Inv unicode udp all := by
  have hfiled {m : XHttpH2XmuxManager} {key : List Char}
      (hm : (s.managers.get key).filter (·.lock = none) = some m) (client : Nat)
      (hclient : client ∈ s.usableClients m) : s.Filed unicode all key client :=
    h.filed (Option.filter_eq_some_iff.mp hm).1 client (usableClients_mem hclient).1
  have hdoes := getClient_does unicode s call
  generalize s.step unicode (.getClient call) = r at hdoes ⊢
  cases hdoes with
  | waits => exact h
  | connects hc hm =>
    obtain ⟨hcall,hstage⟩ := callAt_some hc
    have hpooled := (h.calls _ (List.mem_of_getElem? hcall)).2.2 (.inl hstage)
    exact Inv.setStage (h.setManager (hfiled hm)) hcall nofun fun _ => hpooled
  | reuses hc hm hclient hbelow =>
    refine Inv.leave (Inv.modifyClient (h.setManager (hfiled hm)) _ ?_ ?_) (callAt_some hc).1 (by simp)
    · intro used
      rw [XHttpH2XmuxClient.consumeConnectionReuse]
      split <;> rfl
    · intro used hused
      rw [XHttpH2XmuxClient.consumeConnectionReuse, if_neg (by rw [hused]; decide), hused]

theorem Inv.newClient (h : s.Inv unicode udp all) (call : Nat) (ok : Bool) :
    (s.step unicode (.newClient call ok)).1.Inv unicode udp all := by
  have hdoes := newClient_does unicode s call ok
  generalize s.step unicode (.newClient call ok) = r at hdoes ⊢
  cases hdoes with
  | waits => exact h
  | fails hc hm => exact (h.unlock hm).leave (callAt_some hc).1 (by simp)
  | @opens c m hc hm =>
    obtain ⟨hcall,hstage⟩ := callAt_some hc
    obtain ⟨hall,-,hpooled⟩ := h.calls c (List.mem_of_getElem? hcall)
    have hpushed := @Inv.pushClient _ _ _ _ h c.config
    refine Inv.leave (Inv.setManager hpushed fun client hclient => ?_) hcall (by simp)
    cases List.mem_append.mp hclient with
    | inl hold => exact (h.filed hm client hold).push _
    | inr hnew =>
      cases List.mem_singleton.mp hnew
      refine ⟨c.config, ?_, rfl, hpooled (.inr hstage), hall⟩
      have hlen : s.clientConfigs.length = s.clients.length := List.length_map ..
      rw [clientConfigs, List.map_append, ← hlen]
      exact List.getElem?_concat_length

theorem Inv.abandon (h : s.Inv unicode udp all) (call : Nat) :
    (s.step unicode (.abandon call)).1.Inv unicode udp all := by
  rw [step]
  split
  case h_1 => exact h
  case h_2 c hcall =>
    split
    · exact h
    · dsimp only
      split
      · exact h
      case h_2 m hm => exact (h.unlock hm).leave hcall (by simp)
    · exact h.leave hcall (by simp)

theorem Inv.step (h : s.Inv unicode udp all) (event : PoolsEvent)
    (hall : ∀ config ∈ event.config?, all config) (hudp : ∀ config ∈ event.udpConfig?, udp config) :
    (s.step unicode event).1.Inv unicode udp all := by
  cases event with
  | connect config => exact h.push (hall config rfl) (by simp) (by simp)
  | sendUdp config => exact h.push (hall config rfl) (fun _ => hudp config rfl) (by simp)
  | lookup call => exact h.lookup call
  | transport call ok =>
    rw [VlessPools.step]
    split
    case h_1 => exact h
    case h_2 c hc =>
      split
      · exact h
      · exact h.setStage (callAt_some hc).1 (by cases ok <;> decide) (by cases ok <;> simp)
  | manager call => exact h.manager call
  | getClient call => exact h.getClient call
  | newClient call ok => exact h.newClient call ok
  | request call ok =>
    rw [VlessPools.step]
    split
    case h_1 => exact h
    case h_2 c hcall =>
      split
      case h_2 => exact h
      case h_1 client hstage =>
        have hused := h.modifyClient client (f := fun used =>
          { used with
            openUsage := used.openUsage + 1
            leftRequests := if ok then used.leftRequests - 1 else used.leftRequests })
          (fun _ => rfl) (fun _ => id)
        exact hused.setStage hcall (by cases ok <;> decide) (by cases ok <;> simp)
  | finish call ok =>
    rw [VlessPools.step]
    split
    case h_1 => exact h
    case h_2 c hc =>
      obtain ⟨hcall,-⟩ := callAt_some hc
      split
      case isFalse => exact h.leave hcall (by simp)
      case isTrue hok =>
        have hconfig := (h.calls c (List.mem_of_getElem? hcall)).2.1
          (.inr (Bool.and_eq_true_iff.mp hok).1)
        exact (h.pushWorker hconfig).leave hcall (by simp)
  | abandon call => exact h.abandon call
  | workerCloses worker => exact h.modifyWorker worker fun _ => rfl
  | workerDropped worker => exact h.modifyWorker worker fun _ => rfl
  | clientCloses client => exact h.modifyClient client (fun _ => rfl) (fun _ => id)
  | post client => exact h.modifyClient client (fun _ => rfl) (fun _ => id)
  | downloadEnds client => exact h.modifyClient client (fun _ => rfl) (fun _ => id)
  | elapse nanos => exact ⟨h.calls, h.workers, h.managers, h.once⟩

/-! ## What is handed out -/

/-- A worker that the lookup finds was opened under a configuration with the same key. -/
theorem Inv.upgrade_key (h : s.Inv unicode udp all) {key : List Char} {worker : OpenedWorker}
    (hworker : s.upgrade key = some worker) :
    worker.config.muxKey unicode = key ∧ udp worker.config := by
  obtain ⟨hfound,-⟩ := Option.filter_eq_some_iff.mp hworker
  obtain ⟨n,hget,hn⟩ := Option.bind_eq_some_iff.mp hfound
  obtain ⟨d,hd,hkey,hudp⟩ := h.workers (key, n) (KeyMap.get_mem hget)
  have hconfig : s.workerConfigs[n]? = some worker.config := by
    rw [workerConfigs, List.getElem?_map, hn]
    rfl
  cases Option.some.inj (hd.symm.trans hconfig)
  exact ⟨hkey, hudp⟩

/-- A usable client was opened under a configuration with the key of its manager, which
lets a client be used again. -/
theorem Inv.usable_key (h : s.Inv unicode udp all) {key : List Char} {m : XHttpH2XmuxManager}
    (hm : s.managers.get key = some m) {client : Nat} (hclient : client ∈ s.usableClients m)
    {opened : XHttpH2XmuxClient} (hopened : s.clients[client]? = some opened) :
    opened.config.xhttpH2XmuxKey unicode = key ∧ opened.config.pooled = true ∧
      all opened.config ∧ opened.config.transport.xmux.cMaxReuseTimes ≠ 1 := by
  obtain ⟨hmem,husable⟩ := usableClients_mem hclient
  obtain ⟨d,hd,hkey,hpooled,hall⟩ := h.filed hm client hmem
  have hconfig : s.clientConfigs[client]? = some opened.config := by
    rw [clientConfigs, List.getElem?_map, hopened]
    rfl
  cases Option.some.inj (hd.symm.trans hconfig)
  refine ⟨hkey, hpooled, hall, fun honce => ?_⟩
  have hused := h.once opened (List.mem_of_getElem? hopened) honce
  rw [hopened] at husable
  simp [XHttpH2XmuxClient.isUsable, hused] at husable

/-- Nothing was opened under another configuration than that of the call. -/
def Within (log : List Handout) : Prop := ∀ handout ∈ log, handout.openedUnder = handout.config

instance (log : List Handout) : Decidable (Within log) :=
  inferInstanceAs (Decidable (∀ handout ∈ log, handout.openedUnder = handout.config))

theorem within_nil : Within [] := fun _ h => absurd h List.not_mem_nil

theorem within_singleton {handout : Handout} (h : handout.openedUnder = handout.config) :
    Within [handout] := fun _ hmem => List.mem_singleton.mp hmem ▸ h

theorem Inv.lookup_within (h : s.Inv unicode udp all)
    (hapart : ∀ c, udp c → ∀ d, udp d → c.MuxApart d) (call : Nat) :
    Within (s.step unicode (.lookup call)).2 := by
  rw [VlessPools.step]
  split
  case h_1 => exact within_nil
  case h_2 c hc =>
    obtain ⟨hcall,hstage⟩ := callAt_some hc
    have hconfig := (h.calls c (List.mem_of_getElem? hcall)).2.1 (.inl hstage)
    dsimp only
    split
    case h_2 => exact within_nil
    case h_1 worker hworker =>
      split
      · exact within_nil
      · obtain ⟨hkey,hudp⟩ := h.upgrade_key hworker
        exact within_singleton ((hapart _ hconfig _ hudp).eq hkey.symm).symm

theorem Inv.getClient_within (h : s.Inv unicode udp all)
    (hapart : ∀ c, all c → ∀ d, all d → c.XmuxApart d) (call : Nat) :
    Within (s.step unicode (.getClient call)).2 := by
  have hdoes := getClient_does unicode s call
  generalize s.step unicode (.getClient call) = r at hdoes ⊢
  cases hdoes with
  | waits => exact within_nil
  | connects hc hm => exact within_nil
  | @reuses c m client hc hm hclient hbelow =>
    intro handout hhandout
    obtain ⟨hcall,hstage⟩ := callAt_some hc
    obtain ⟨hall,-,hpooled⟩ := h.calls c (List.mem_of_getElem? hcall)
    obtain ⟨opened,hopened,heq⟩ := Option.map_eq_some_iff.mp (Option.mem_toList.mp hhandout)
    obtain ⟨hkey,hpooled',hall',hreuse⟩ :=
      h.usable_key (Option.filter_eq_some_iff.mp hm).1 hclient hopened
    have hconfig := (hapart _ hall _ hall').eq (hpooled (.inl hstage)) hpooled' hreuse hkey.symm
    exact heq ▸ hconfig.symm

theorem Inv.step_within (h : s.Inv unicode udp all)
    (hmux : ∀ c, udp c → ∀ d, udp d → c.MuxApart d)
    (hxmux : ∀ c, all c → ∀ d, all d → c.XmuxApart d) (event : PoolsEvent) :
    Within (s.step unicode event).2 := by
  cases event with
  | lookup call => exact h.lookup_within hmux call
  | getClient call => exact h.getClient_within hxmux call
  | newClient call ok =>
    have hdoes := newClient_does unicode s call ok
    generalize s.step unicode (.newClient call ok) = r at hdoes ⊢
    cases hdoes with
    | waits => exact within_nil
    | fails hc hm => exact within_nil
    | opens hc hm => exact within_singleton rfl
  | finish call ok =>
    rw [VlessPools.step]
    split
    case h_1 => exact within_nil
    case h_2 c hc =>
      split
      · exact within_singleton rfl
      · exact within_nil
  | transport call ok | manager call =>
    rw [VlessPools.step]
    split
    · exact within_nil
    · split <;> exact within_nil
  | request call ok =>
    rw [VlessPools.step]
    split
    · exact within_nil
    · split <;> exact within_nil
  | abandon call =>
    rw [VlessPools.step]
    split
    · exact within_nil
    · split
      · exact within_nil
      · dsimp only
        split <;> exact within_nil
      · exact within_nil
  | connect _ | sendUdp _ | workerCloses _ | workerDropped _ | clientCloses _ | post _
  | downloadEnds _ | elapse _ => exact within_nil

end VlessPools

/-- The configurations of the run, and those of its calls that send UDP. -/
def configs (events : List PoolsEvent) : List VlessConfig := events.filterMap PoolsEvent.config?

def udpConfigs (events : List PoolsEvent) : List VlessConfig :=
  events.filterMap PoolsEvent.udpConfig?

/-- Any two configurations that the keys do not tell apart are equal. -/
structure KeptApart (events : List PoolsEvent) : Prop where
  mux : ∀ c ∈ udpConfigs events, ∀ d ∈ udpConfigs events, c.MuxApart d
  xmux : ∀ c ∈ configs events, ∀ d ∈ configs events, c.XmuxApart d

/-- In every run whose configurations are kept apart, each worker and each client that a call
gets was opened under the configuration of that call. -/
theorem vless_reuse_within_configuration (unicode : Char → Bool) (events : List PoolsEvent)
    (h : KeptApart events) : VlessPools.Within (run (VlessPools.step unicode) .new events).2 := by
  have hrun := @run_invariant _ _ _ (VlessPools.step unicode)
    (fun _ event => event ∈ events)
    (fun s log => s.Inv unicode (· ∈ udpConfigs events) (· ∈ configs events) ∧
      VlessPools.Within log)
    (fun s log event hs hevent => ?_) .new [] ⟨VlessPools.new_inv, VlessPools.within_nil⟩ events ?_
  · exact hrun.2
  · refine ⟨hs.1.step event (fun config hconfig => ?_) (fun config hconfig => ?_),
      fun handout hhandout => ?_⟩
    · exact List.mem_filterMap.mpr ⟨event, hevent, hconfig⟩
    · exact List.mem_filterMap.mpr ⟨event, hevent, hconfig⟩
    · cases List.mem_append.mp hhandout with
      | inl hold => exact hs.2 handout hold
      | inr hnew => exact hs.1.step_within h.mux h.xmux event handout hnew
  · exact meets_of_forall (fun _ hmem _ => hmem) _

/-! ## Configurations that are not kept apart -/

namespace VlessConfig
variable {unicode : Char → Bool} {c d : VlessConfig}

theorem SameMuxFields.key (h : c.SameMuxFields d) : c.muxKey unicode = d.muxKey unicode := by
  obtain ⟨hserver,hport,hsni,hsecurity,htransport,hflow⟩ := h
  rw [muxKey, muxKey, endpoint, endpoint, hserver, hport, hsni, hsecurity, htransport, hflow]

theorem SameXmuxFields.key (h : c.SameXmuxFields d) :
    c.xhttpH2XmuxKey unicode = d.xhttpH2XmuxKey unicode := by
  obtain ⟨hserver,hport,hsni,hsecurity,hhost,hpath,hxmux⟩ := h
  rw [xhttpH2XmuxKey, xhttpH2XmuxKey, endpoint, endpoint, hserver, hport, hsni, hsecurity, hhost,
    hpath, hxmux]

end VlessConfig

/-- A worker is opened under the one, and a call comes under the other. -/
def workerThenLookup (c d : VlessConfig) : List PoolsEvent :=
  [.sendUdp c, .lookup 0, .transport 0 true, .finish 0 true, .sendUdp d, .lookup 1]

theorem worker_crosses (unicode : Char → Bool) {c d : VlessConfig} (h : c.SameMuxFields d)
    (hc : c.pooled = false) : Handout.mk .muxWorker d c ∈
      (run (VlessPools.step unicode) .new (workerThenLookup c d)).2 := by
  have hkey : c.muxKey unicode = d.muxKey unicode := h.key
  simp [workerThenLookup, run, VlessPools.step, VlessPools.new, VlessPools.callAt,
    VlessPools.setStage, VlessPools.upgrade, VlessPools.retainHeld, KeyMap.get, KeyMap.insert,
    KeyMap.remove, Option.filter, hkey, hc]

def clientThenLookup (c d : VlessConfig) : List PoolsEvent :=
  [.connect c, .manager 0, .getClient 0, .newClient 0 true, .connect d, .manager 1, .getClient 1]

/-- A new client can be used again, unless it is to be used once. -/
theorem new_isUsable {c : VlessConfig} (h : c.transport.xmux.cMaxReuseTimes ≠ 1) (now : Nat) :
    (XHttpH2XmuxClient.new c now).isUsable now = true := by
  have husage : (XHttpH2XmuxClient.new c now).leftUsage ≠ 0 := by
    rw [XHttpH2XmuxClient.new]
    dsimp only
    split
    · intro hzero
      have hone := congrArg (· + 1) hzero
      exact h (by simpa using hone)
    · decide
  have hrequests : 0 < (XHttpH2XmuxClient.new c now).leftRequests := by
    rw [XHttpH2XmuxClient.new]
    dsimp only
    split
    case isTrue hpos => exact hpos
    case isFalse => decide
  have huntil : (XHttpH2XmuxClient.new c now).reusableUntil.all (fun until_ => now ≤ until_) = true := by
    rw [XHttpH2XmuxClient.new]
    dsimp only
    split
    · exact decide_eq_true (Nat.le_add_right _ _)
    · rfl
  rw [XHttpH2XmuxClient.isUsable, huntil, decide_eq_true hrequests, decide_eq_true husage]
  rfl

theorem client_crosses (unicode : Char → Bool) {c d : VlessConfig} (h : c.SameXmuxFields d)
    (hc : c.pooled = true) (hd : d.pooled = true) (hreuse : c.transport.xmux.cMaxReuseTimes ≠ 1)
    (hone : c.transport.xmux.maxConnections ≤ 1) : Handout.mk .xhttpH2Client d c ∈
      (run (VlessPools.step unicode) .new (clientThenLookup c d)).2 := by
  have hkey : c.xhttpH2XmuxKey unicode = d.xhttpH2XmuxKey unicode := h.key
  have husable := new_isUsable hreuse 0
  have hmax : ¬ 1 < c.transport.xmux.maxConnections.toInt := by
    have hle := Int32.le_iff_toInt_le.mp hone
    exact Int.not_lt.mpr hle
  have hconcurrent : c.transport.xmux.maxConcurrency ≤ 0 ∨
      0 < c.transport.xmux.maxConcurrency.toInt := by
    rw [Int32.le_iff_toInt_le]
    exact (Int.lt_or_le 0 _).symm
  have hunused : (XHttpH2XmuxClient.new c 0).openUsage = 0 := rfl
  have hconfig : (XHttpH2XmuxClient.new c 0).config = c := rfl
  simp [clientThenLookup, run, VlessPools.step, VlessPools.new, VlessPools.callAt,
    VlessPools.setStage, VlessPools.setManager, KeyMap.get, KeyMap.insert, VlessPools.usableClients,
    VlessPools.shouldOpenMoreConnections, VlessPools.reusableClient, VlessPools.leastUsed, VlessPools.openUsage,
    KeyMap.remove, Option.filter, hkey, hc, hd, husable, hmax, hconcurrent, hunused,
    hconfig]

/-- TLS to one server, over TCP and over XHTTP. -/
def tlsConfig (server : String) (uuid : UInt8) (kind : VlessTransportKind) (insecure : Bool) :
    VlessConfig where
  server := server
  serverPort := 443
  uuid := Vector.replicate 16 uuid
  sni := none
  flow := none
  security := .tls
  transport := ⟨kind, none, "/", "Tun", none, .auto, .auto, 262144, 0, ⟨0, 0, 0, 0, 0⟩⟩
  insecure := insecure

/-- A worker and a client each come to a second call of their own configuration, and
another server has others. -/
def twoServers : List PoolsEvent :=
  workerThenLookup (tlsConfig "a.example" 1 .tcp false) (tlsConfig "a.example" 1 .tcp false) ++
    [.sendUdp (tlsConfig "b.example" 2 .xHttp true), .lookup 2, .manager 2, .getClient 2,
      .newClient 2 true, .connect (tlsConfig "b.example" 2 .xHttp true), .manager 3, .getClient 3]

theorem vless_reuse_within_configuration_two :
    VlessPools.Within (run (VlessPools.step fun _ => false) .new twoServers).2 :=
  vless_reuse_within_configuration _ twoServers ⟨by decide +kernel, by decide +kernel⟩

/-- A call gets the worker of another UUID, and one that verifies certificates gets a client
whose connection was opened without. -/
theorem reuse_crosses_configurations :
    ¬ VlessPools.Within (run (VlessPools.step fun _ => false) .new
      (workerThenLookup (tlsConfig "a.example" 1 .tcp false)
        (tlsConfig "a.example" 2 .tcp false))).2 ∧
    ¬ VlessPools.Within (run (VlessPools.step fun _ => false) .new
      (clientThenLookup (tlsConfig "a.example" 1 .xHttp true)
        (tlsConfig "a.example" 1 .xHttp false))).2 := by
  constructor
  · intro hwithin
    have hcrosses := worker_crosses (fun _ => false) (c := tlsConfig "a.example" 1 .tcp false)
      (d := tlsConfig "a.example" 2 .tcp false) ⟨rfl, rfl, rfl, rfl, rfl, rfl⟩ rfl
    exact absurd (hwithin _ hcrosses) (by decide +kernel)
  · intro hwithin
    have hcrosses := client_crosses (fun _ => false) (c := tlsConfig "a.example" 1 .xHttp true)
      (d := tlsConfig "a.example" 1 .xHttp false) ⟨rfl, rfl, rfl, rfl, rfl, rfl, rfl⟩ rfl rfl
      (by decide) (by decide)
    exact absurd (hwithin _ hcrosses) (by decide +kernel)

end AtlasKernel.Vless
