import AtlasKernel.Hysteria2.UdpMessage
import AtlasKernel.Lib.Reassembly
import AtlasKernel.Lib.StepFamily

/-! Messages that do not fit into a datagram. They are sent in fragments, and for each session the
fragments of one packet are gathered until they are all there. Source: `udp_message.rs` and
`udp_session_manager.rs` of the `hysteria2` package. -/
namespace AtlasKernel.Hysteria2
open AtlasKernel.Lib

/-! ## Sending -/

/-- `fragment_message`; the number of the packet is drawn. -/
def fragmentMessage (packetId : UInt16) (message : UdpMessage) (maxSize : Nat) : List UdpMessage :=
  if message.encodedSize ≤ maxSize then [message]
  else if maxSize ≤ message.headerSize then []
  else
    let maxPayload := maxSize - message.headerSize
    let fragmentCount := divCeil message.payload.length maxPayload
    if fragmentCount = 0 ∨ 255 < fragmentCount then []
    else (chunksOf maxPayload message.payload).mapIdx fun index payload =>
      { sessionId := message.sessionId
        packetId := packetId
        fragmentId := UInt8.ofNat index
        fragmentCount := UInt8.ofNat fragmentCount
        address := message.address
        payload := payload }

/-! ## Receiving -/

structure Defragger where
  packetId : UInt16
  fragments : List (Option UdpMessage)
  received : Nat
  size : Nat

def Defragger.default : Defragger := ⟨0,[],0,0⟩

/-- The fragments put together, under the header of the first. -/
def assemble : List UdpMessage → Option UdpMessage
  | [] => none
  | first :: parts => some {
      first with
      fragmentId := 0
      fragmentCount := 1
      payload := first.payload ++ (parts.map (·.payload)).flatten }

/-- The places for the fragments of the message, empty when another packet comes. -/
def Defragger.turned (d : Defragger) (message : UdpMessage) : Defragger :=
  if message.packetId ≠ d.packetId ∨ d.fragments.length ≠ message.fragmentCount.toNat then
    ⟨message.packetId,List.replicate message.fragmentCount.toNat none,0,0⟩
  else d

def Defragger.feed (d : Defragger) (message : UdpMessage) : Defragger × List UdpMessage :=
  if message.fragmentCount ≤ 1 then (d, [message])
  else if message.fragmentCount ≤ message.fragmentId then (d, [])
  else
    let d := d.turned message
    let index := message.fragmentId.toNat
    if (d.fragments[index]?.join).isSome then (d, [])
    else
      let d := { d with
        size := d.size + message.payload.length
        fragments := d.fragments.set index (some message)
        received := d.received + 1 }
      if d.received ≠ d.fragments.length then (d, [])
      else ({ d with fragments := [] }, ((collect d.fragments).bind assemble).toList)

abbrev SessionDefraggers := UInt32 → Defragger

def SessionDefraggers.default : SessionDefraggers := fun _ => .default

def SessionDefraggers.feed : SessionDefraggers → UdpMessage → SessionDefraggers × List UdpMessage :=
  family Defragger.feed UdpMessage.sessionId

/-- One turn of `receive_loop`, up to the message that it passes on. -/
def receive (s : SessionDefraggers) (datagram : Bytes) : SessionDefraggers × List UdpMessage :=
  match UdpMessage.decode datagram with
  | .error _ => (s, [])
  | .ok message => s.feed message

/-! ## Fragments of one message -/

/-- The fragments say whose they are and which of how many. -/
structure Cut (message : UdpMessage) (packetId : UInt16) (fragments : List UdpMessage) : Prop where
  several : 1 < fragments.length
  count : fragments.length ≤ 255
  each : ∀ (i : Nat) (fragment : UdpMessage), fragments[i]? = some fragment →
    fragment = { message with
      packetId := packetId
      fragmentId := UInt8.ofNat i
      fragmentCount := UInt8.ofNat fragments.length
      payload := fragment.payload }
  payload : (fragments.map (·.payload)).flatten = message.payload

theorem map_payload_mapIdx (f : Nat → Bytes → UdpMessage) (hf : ∀ i payload, (f i payload).payload = payload)
    (payloads : List Bytes) : (payloads.mapIdx f).map (·.payload) = payloads := by
  apply List.ext_getElem?
  intro i
  rw [List.getElem?_map, List.getElem?_mapIdx]
  cases payloads[i]? with
  | none => rfl
  | some payload => exact congrArg some (hf i payload)

theorem fragmentMessage_cut {packetId : UInt16} {message : UdpMessage} {maxSize : Nat}
    (h : 1 < (fragmentMessage packetId message maxSize).length) :
    Cut message packetId (fragmentMessage packetId message maxSize) := by
  rw [fragmentMessage] at h ⊢
  by_cases hfits : message.encodedSize ≤ maxSize
  · rw [if_pos hfits] at h
    exact absurd h (Nat.lt_irrefl 1)
  by_cases hheader : maxSize ≤ message.headerSize
  · rw [if_neg hfits, if_pos hheader] at h
    exact absurd h (Nat.not_lt_zero 1)
  rw [if_neg hfits, if_neg hheader] at h ⊢
  dsimp only at h ⊢
  generalize hsize : maxSize - message.headerSize = maxPayload at h ⊢
  by_cases hcount : divCeil message.payload.length maxPayload = 0 ∨
      255 < divCeil message.payload.length maxPayload
  · rw [if_pos hcount] at h
    exact absurd h (Nat.not_lt_zero 1)
  rw [if_neg hcount] at h ⊢
  have hpos : 0 < maxPayload := by omega
  refine ⟨h,?_,fun i fragment hfragment => ?_,?_⟩
  · rw [List.length_mapIdx, chunksOf_length]
    omega
  · rw [List.getElem?_mapIdx, Option.map_eq_some_iff] at hfragment
    obtain ⟨payload,_,rfl⟩ := hfragment
    rw [List.length_mapIdx, chunksOf_length]
  · rw [map_payload_mapIdx _ (fun _ _ => rfl), chunksOf_flatten hpos]

/-- Every datagram is as long as it may be at most. -/
theorem encode_fragment_le {packetId : UInt16} {message fragment : UdpMessage} {maxSize : Nat}
    (h : fragment ∈ fragmentMessage packetId message maxSize) : fragment.encode.length ≤ maxSize := by
  rw [UdpMessage.encode_length]
  rw [fragmentMessage] at h
  dsimp only at h
  split_ifs at h with hfits hheader
  · rw [List.mem_singleton.mp h]
    exact hfits
  · cases h
  · cases h
  · obtain ⟨i,hi,rfl⟩ := List.mem_mapIdx.mp h
    have hpayload := length_le_of_mem_chunksOf (List.getElem_mem hi)
    have hheader' : UdpMessage.headerSize { message with
        packetId := packetId
        fragmentId := UInt8.ofNat i
        fragmentCount := UInt8.ofNat (divCeil message.payload.length (maxSize - message.headerSize))
        payload := (chunksOf (maxSize - message.headerSize) message.payload)[i] } =
          message.headerSize := rfl
    rw [UdpMessage.encodedSize, hheader']
    exact Nat.add_le_of_le_sub' (Nat.le_of_not_le hheader) hpayload

/-! ## Fragments that arrive -/

/-- The fragments of the packet that have been seen are in their places. -/
structure Holds (d : Defragger) (packetId : UInt16) (fragments : List UdpMessage) (seen : List Nat) :
    Prop where
  packetId : d.packetId = packetId
  fragments : d.fragments = gathered fragments seen
  received : d.received = d.fragments.countP Option.isSome

variable {message : UdpMessage} {packetId : UInt16} {fragments : List UdpMessage}

theorem Cut.fragmentId (h : Cut message packetId fragments) {i : Nat} {fragment : UdpMessage}
    (hi : fragments[i]? = some fragment) : fragment.packetId = packetId ∧
      fragment.fragmentId.toNat = i ∧ fragment.fragmentCount.toNat = fragments.length := by
  have hlt : i < fragments.length := (List.getElem?_eq_some_iff.mp hi).1
  have hcount := h.count
  rw [h.each i fragment hi]
  refine ⟨rfl,?_,?_⟩
  · rw [UInt8.toNat_ofNat', Nat.mod_eq_of_lt (by omega)]
  · rw [UInt8.toNat_ofNat', Nat.mod_eq_of_lt (by omega)]

/-- The whole message again. -/
def UdpMessage.rejoined (message : UdpMessage) (packetId : UInt16) : UdpMessage :=
  { message with packetId := packetId, fragmentId := 0, fragmentCount := 1 }

theorem Cut.assembled (h : Cut message packetId fragments) :
    assemble fragments = some (message.rejoined packetId) := by
  have hpayload := h.payload
  cases fragments with
  | nil => exact absurd h.several (Nat.not_lt_zero 1)
  | cons first parts =>
    have hfirst := h.each 0 first rfl
    rw [List.map_cons, List.flatten_cons] at hpayload
    rw [assemble, hpayload]
    rw [hfirst]
    rfl

/-- Another packet, or another number of fragments, finds the places empty. -/
theorem turned_fresh {d : Defragger} (h : Cut message packetId fragments)
    (hfresh : d.packetId ≠ packetId ∨ d.fragments.length ≠ fragments.length) {i : Nat}
    {fragment : UdpMessage} (hi : fragments[i]? = some fragment) :
    Holds (d.turned fragment) packetId fragments [] := by
  obtain ⟨hpacket,_,hcount⟩ := h.fragmentId hi
  have hturn : fragment.packetId ≠ d.packetId ∨ d.fragments.length ≠ fragment.fragmentCount.toNat := by
    rw [hpacket, hcount]
    exact hfresh.imp Ne.symm id
  rw [Defragger.turned, if_pos hturn, hcount]
  refine ⟨hpacket,(gathered_nil fragments).symm,?_⟩
  rw [List.countP_replicate]
  rfl

theorem Holds.turned {d : Defragger} {seen : List Nat} (hcut : Cut message packetId fragments)
    (h : Holds d packetId fragments seen) {i : Nat} {fragment : UdpMessage}
    (hi : fragments[i]? = some fragment) : d.turned fragment = d := by
  obtain ⟨hpacket,_,hcount⟩ := hcut.fragmentId hi
  refine if_neg (not_or.mpr ⟨not_not.mpr ?_,not_not.mpr ?_⟩)
  · rw [hpacket, h.packetId]
  · rw [h.fragments, gathered_length, hcount]

/-- Whichever fragment comes next, it finds what has been seen. -/
def Ready (d : Defragger) (packetId : UInt16) (fragments : List UdpMessage) (seen : List Nat) : Prop :=
  ∀ (i : Nat) (fragment : UdpMessage), fragments[i]? = some fragment →
    Holds (d.turned fragment) packetId fragments seen

theorem Cut.feed_eq (hcut : Cut message packetId fragments) (d : Defragger) {i : Nat}
    {fragment : UdpMessage} (hi : fragments[i]? = some fragment) : d.feed fragment =
      let d := d.turned fragment
      if (d.fragments[i]?.join).isSome then (d, [])
      else
        let d := { d with
          size := d.size + fragment.payload.length
          fragments := d.fragments.set i (some fragment)
          received := d.received + 1 }
        if d.received ≠ d.fragments.length then (d, [])
        else ({ d with fragments := [] }, ((collect d.fragments).bind assemble).toList) := by
  obtain ⟨_,hid,hcount⟩ := hcut.fragmentId hi
  have hlt : i < fragments.length := (List.getElem?_eq_some_iff.mp hi).1
  have hseveral : ¬ fragment.fragmentCount ≤ 1 := by
    rw [UInt8.le_iff_toNat_le, hcount]
    exact Nat.not_le.mpr hcut.several
  have hwithin : ¬ fragment.fragmentCount ≤ fragment.fragmentId := by
    rw [UInt8.le_iff_toNat_le, hcount, hid]
    exact Nat.not_le.mpr hlt
  rw [Defragger.feed, if_neg hseveral, if_neg hwithin, hid]

/-- One fragment that arrives, with the last one that was missing or without. -/
theorem Ready.feeds (hcut : Cut message packetId fragments) {d : Defragger} {seen : List Nat}
    (h : Ready d packetId fragments seen) (hnot : ¬ AllSeen fragments.length seen) {i : Nat}
    {fragment : UdpMessage} (hi : fragments[i]? = some fragment) :
    if AllSeen fragments.length (i :: seen) then
      (d.feed fragment).2 = [message.rejoined packetId]
    else (d.feed fragment).2 = [] ∧ Ready (d.feed fragment).1 packetId fragments (i :: seen) := by
  have hheld := h i fragment hi
  have hslot : ((d.turned fragment).fragments[i]?.join).isSome = decide (i ∈ seen) := by
    rw [hheld.fragments, getElem?_gathered, hi]
    by_cases hmem : i ∈ seen <;> simp [hmem]
  have hready : ∀ {d' : Defragger}, Holds d' packetId fragments (i :: seen) →
      Ready d' packetId fragments (i :: seen) := fun hd' j other hj => by
    rw [hd'.turned hcut hj]
    exact hd'
  rw [hcut.feed_eq d hi]
  dsimp only
  rw [hslot]
  by_cases hmem : i ∈ seen
  · have hsame : AllSeen fragments.length (i :: seen) ↔ AllSeen fragments.length seen :=
      forall₂_congr fun j _ => by
        rw [List.mem_cons, or_iff_right_of_imp fun heq => heq ▸ hmem]
    rw [if_pos (decide_eq_true hmem), if_neg (hsame.not.mpr hnot)]
    refine ⟨rfl,hready ⟨hheld.packetId,?_,hheld.received⟩⟩
    rw [hheld.fragments, gathered_cons_of_mem hmem]
  · have hset : (d.turned fragment).fragments.set i (some fragment) = gathered fragments (i :: seen) := by
      rw [hheld.fragments, gathered_set hi]
    have hempty : (d.turned fragment).fragments[i]? = some none := by
      rw [hheld.fragments, getElem?_gathered, hi, Option.map_some, if_neg hmem]
    have hreceived : (d.turned fragment).received + 1 =
        (gathered fragments (i :: seen)).countP Option.isSome := by
      rw [← hset, countP_set_some hempty, hheld.received]
    have hfree : ¬ decide (i ∈ seen) = true := by simpa using hmem
    rw [if_neg hfree, hset, gathered_length, hreceived]
    by_cases hall : AllSeen fragments.length (i :: seen)
    · rw [if_pos hall, if_neg (not_not.mpr (countP_gathered_iff.mpr hall)), gathered_all hall,
        collect_map_some, Option.bind_some, hcut.assembled]
      rfl
    · rw [if_neg hall, if_pos (mt countP_gathered_iff.mp hall)]
      exact ⟨rfl,hready ⟨hheld.packetId,rfl,rfl⟩⟩

/-- The messages of fragments that arrive. -/
def arriving (fragments : List UdpMessage) (arrivals : List Nat) : List UdpMessage :=
  arrivals.filterMap (fragments[·]?)

/-- Until all have been seen nothing is put out, whatever the order and however often. -/
theorem Ready.quiet (hcut : Cut message packetId fragments) {arrivals : List Nat}
    (hwithin : ∀ i ∈ arrivals, i < fragments.length) {d : Defragger} {seen : List Nat}
    (h : Ready d packetId fragments seen)
    (hnot : ¬ AllSeen fragments.length (arrivals.reverse ++ seen)) :
    (run Defragger.feed d (arriving fragments arrivals)).2 = [] ∧
      Ready (run Defragger.feed d (arriving fragments arrivals)).1 packetId fragments
        (arrivals.reverse ++ seen) := by
  induction arrivals generalizing d seen with
  | nil => exact ⟨rfl,h⟩
  | cons i arrivals ih =>
    obtain ⟨hi,hrest⟩ := List.forall_mem_cons.mp hwithin
    have hget : fragments[i]? = some fragments[i] := List.getElem?_eq_getElem hi
    have harriving : arriving fragments (i :: arrivals) = fragments[i] :: arriving fragments arrivals :=
      List.filterMap_cons_some hget
    rw [List.reverse_cons, List.append_assoc, List.singleton_append] at hnot ⊢
    have hsub : ∀ {l : List Nat}, (∀ j ∈ l, j ∈ arrivals.reverse ++ i :: seen) →
        ¬ AllSeen fragments.length l := fun hl hall => hnot fun j hj => hl j (hall j hj)
    have hseen : ¬ AllSeen fragments.length seen := hsub fun j hj =>
      List.mem_append_right _ (List.mem_cons_of_mem i hj)
    have hnext : ¬ AllSeen fragments.length (i :: seen) := hsub fun j hj =>
      List.mem_append_right _ hj
    have hstep := h.feeds hcut hseen hget
    rw [if_neg hnext] at hstep
    obtain ⟨hout,hready⟩ := hstep
    obtain ⟨houts,hreadys⟩ := ih hrest hready hnot
    rw [harriving, run, hout, houts]
    exact ⟨rfl,hreadys⟩

/-- The first time that all have been seen the message is put out, once. -/
theorem Ready.complete (hcut : Cut message packetId fragments) {before : List Nat} {last : Nat}
    (hwithin : ∀ i ∈ before ++ [last], i < fragments.length) {d : Defragger}
    (h : Ready d packetId fragments []) (hnot : ¬ AllSeen fragments.length before)
    (hall : AllSeen fragments.length (before ++ [last])) :
    (run Defragger.feed d (arriving fragments (before ++ [last]))).2 =
      [message.rejoined packetId] := by
  have hlast : last < fragments.length :=
    hwithin last (List.mem_append_right _ (List.mem_singleton_self last))
  have hget : fragments[last]? = some fragments[last] := List.getElem?_eq_getElem hlast
  have hreverse : ∀ {l : List Nat}, AllSeen fragments.length (l.reverse ++ []) ↔
      AllSeen fragments.length l := fun {l} => forall₂_congr fun j _ => by simp
  obtain ⟨hout,hready⟩ := h.quiet hcut (fun i hi => hwithin i (List.mem_append_left _ hi))
    (hreverse.not.mpr hnot)
  have hstep := hready.feeds hcut (hreverse.not.mpr hnot) hget
  have hfull : AllSeen fragments.length (last :: (before.reverse ++ [])) := fun j hj => by
    have hmem := hall j hj
    simp only [List.mem_append, List.mem_singleton] at hmem
    simpa [or_comm] using hmem
  rw [if_pos hfull] at hstep
  have harriving : arriving fragments (before ++ [last]) =
      arriving fragments before ++ [fragments[last]] := by
    rw [arriving, List.filterMap_append, List.filterMap_cons_some hget]
    rfl
  rw [harriving, run_append, hout]
  simp only [run, hstep, List.nil_append, List.append_nil]

/-! ## What is received -/

/-- The messages that the datagrams say. -/
def messagesIn (datagrams : List Bytes) : List UdpMessage :=
  datagrams.filterMap fun datagram => (UdpMessage.decode datagram).toOption

theorem mem_messagesIn {datagrams : List Bytes} {m : UdpMessage} :
    m ∈ messagesIn datagrams ↔ ∃ datagram ∈ datagrams, UdpMessage.decode datagram = .ok m := by
  rw [messagesIn, List.mem_filterMap]
  refine exists_congr fun datagram => and_congr_right fun _ => ?_
  cases UdpMessage.decode datagram with
  | error e => exact iff_of_false nofun nofun
  | ok other => exact ⟨fun h => congrArg Except.ok (Option.some.inj h),fun h => congrArg some (Except.ok.inj h)⟩

/-- What says no message changes nothing. -/
theorem run_receive (s : SessionDefraggers) (datagrams : List Bytes) :
    run receive s datagrams = run SessionDefraggers.feed s (messagesIn datagrams) := by
  induction datagrams generalizing s with
  | nil => rfl
  | cons datagram datagrams ih =>
    rw [run, receive, messagesIn]
    cases hdecode : UdpMessage.decode datagram with
    | error e =>
      rw [List.filterMap_cons_none (by rw [hdecode]; rfl)]
      exact Prod.ext (congrArg Prod.fst (ih s)) (congrArg Prod.snd (ih s))
    | ok message =>
      rw [List.filterMap_cons_some (b := message) (by rw [hdecode]; rfl)]
      dsimp only
      rw [ih]
      rfl

/-- The output is made of parts that were received: one of each number, of one packet. -/
def MadeOf (source : UdpMessage → Prop) (output : UdpMessage) : Prop :=
  ∃ parts, assemble parts = some output ∧ ∀ (i : Nat) (part : UdpMessage), parts[i]? = some part →
    source part ∧ part.sessionId = output.sessionId ∧ part.packetId = output.packetId ∧
      part.fragmentId.toNat = i ∧ part.fragmentCount.toNat = parts.length

/-- What is held is of one session and one packet, each part in its place. -/
def Gathers (source : UdpMessage → Prop) (session : UInt32) (d : Defragger) : Prop :=
  ∀ (i : Nat) (part : UdpMessage), d.fragments[i]? = some (some part) →
    source part ∧ part.sessionId = session ∧ part.packetId = d.packetId ∧
      part.fragmentId.toNat = i ∧ part.fragmentCount.toNat = d.fragments.length

theorem Gathers.turned {source : UdpMessage → Prop} {session : UInt32} {d : Defragger}
    (h : Gathers source session d) (m : UdpMessage) : Gathers source session (d.turned m) ∧
      (d.turned m).packetId = m.packetId ∧
      (d.turned m).fragments.length = m.fragmentCount.toNat := by
  rw [Defragger.turned]
  split_ifs with hturn
  · refine ⟨fun i part hpart => ?_,rfl,List.length_replicate⟩
    rw [List.getElem?_replicate] at hpart
    split_ifs at hpart
    cases hpart
  · rw [not_or, not_not, not_not] at hturn
    exact ⟨h,hturn.1.symm,hturn.2⟩

theorem assemble_ids {parts : List UdpMessage} {output : UdpMessage} (h : assemble parts = some output) :
    ∃ part, parts[0]? = some part ∧ output.sessionId = part.sessionId ∧
      output.packetId = part.packetId := by
  cases parts with
  | nil => cases h
  | cons first parts =>
    cases h
    exact ⟨first,rfl,rfl,rfl⟩

theorem Gathers.feed {source : UdpMessage → Prop} {d : Defragger} {m : UdpMessage}
    (h : Gathers source m.sessionId d) (hsource : source m) (hvalid : m.fragmentId < m.fragmentCount) :
    Gathers source m.sessionId (d.feed m).1 ∧
      ∀ output ∈ (d.feed m).2, output.sessionId = m.sessionId ∧ MadeOf source output := by
  rw [UInt8.lt_iff_toNat_lt] at hvalid
  rw [Defragger.feed]
  by_cases hwhole : m.fragmentCount ≤ 1
  · rw [if_pos hwhole]
    rw [UInt8.le_iff_toNat_le] at hwhole
    have hone : m.fragmentCount.toNat = 1 := by
      have : (1 : UInt8).toNat = 1 := rfl
      omega
    have hzero : m.fragmentId.toNat = 0 := by omega
    refine ⟨h,fun output houtput => ?_⟩
    rw [List.mem_singleton.mp houtput]
    refine ⟨rfl,[m],?_,fun i part hpart => ?_⟩
    · have hid : m.fragmentId = 0 := UInt8.toNat_inj.mp hzero
      have hcount : m.fragmentCount = 1 := UInt8.toNat_inj.mp hone
      rw [assemble, List.map_nil, List.flatten_nil, List.append_nil, ← hid, ← hcount]
    · obtain ⟨hi,rfl⟩ := List.getElem?_eq_some_iff.mp hpart
      obtain rfl : i = 0 := Nat.lt_one_iff.mp hi
      exact ⟨hsource,rfl,rfl,hzero,hone⟩
  · have hwithin : ¬ m.fragmentCount ≤ m.fragmentId := by
      rw [UInt8.le_iff_toNat_le]
      exact Nat.not_le.mpr hvalid
    rw [if_neg hwhole, if_neg hwithin]
    dsimp only
    obtain ⟨hturned,hpacket,hlen⟩ := h.turned m
    generalize d.turned m = d at hturned hpacket hlen
    split_ifs with hseen hleft
    · exact ⟨hturned,nofun⟩
    all_goals
      have hset : Gathers source m.sessionId { d with
          size := d.size + m.payload.length
          fragments := d.fragments.set m.fragmentId.toNat (some m)
          received := d.received + 1 } := by
        intro i part hpart
        rw [List.getElem?_set] at hpart
        split_ifs at hpart with heq hlt
        · cases hpart
          exact ⟨hsource,rfl,hpacket.symm,heq,by rw [List.length_set, hlen]⟩
        · rw [List.length_set]
          exact hturned i part hpart
    · exact ⟨hset,nofun⟩
    · refine ⟨fun i part hpart => (nomatch hpart),fun output houtput => ?_⟩
      rw [Option.mem_toList] at houtput
      obtain ⟨parts,hparts,hassemble⟩ := Option.bind_eq_some_iff.mp houtput
      have hslots := collect_eq_some_iff.mp hparts
      have hplaces : ∀ (i : Nat) (part : UdpMessage), parts[i]? = some part →
          source part ∧ part.sessionId = m.sessionId ∧ part.packetId = d.packetId ∧
            part.fragmentId.toNat = i ∧ part.fragmentCount.toNat = parts.length := by
        intro i part hpart
        have hplace := hset i part (by
          dsimp only
          rw [hslots, List.getElem?_map, hpart]
          rfl)
        dsimp only at hplace
        rwa [hslots, List.length_map] at hplace
      obtain ⟨first,hfirst,hsession,hid⟩ := assemble_ids hassemble
      obtain ⟨_,hsession',hid',_⟩ := hplaces 0 first hfirst
      refine ⟨hsession.trans hsession',parts,hassemble,fun i part hpart => ?_⟩
      obtain ⟨hfrom,hsame,hpid,hplace⟩ := hplaces i part hpart
      exact ⟨hfrom,by rw [hsame, hsession, hsession'],by rw [hpid, hid, hid'],hplace⟩

theorem Gathers.default (source : UdpMessage → Prop) (session : UInt32) :
    Gathers source session .default := fun _ _ h => nomatch h

/-- The messages of the datagrams that have come. -/
def Said (datagrams : List Bytes) (m : UdpMessage) : Prop :=
  ∃ datagram ∈ datagrams, UdpMessage.decode datagram = .ok m

theorem feed_gathers {source : UdpMessage → Prop} {s : SessionDefraggers}
    (hs : ∀ session, Gathers source session (s session)) {messages : List UdpMessage}
    (hsource : ∀ m ∈ messages, source m ∧ m.fragmentId < m.fragmentCount) :
    (∀ session, Gathers source session ((run SessionDefraggers.feed s messages).1 session)) ∧
      ∀ output ∈ (run SessionDefraggers.feed s messages).2, MadeOf source output :=
  run_family_invariant _ _ (fun _ m hm hd =>
    have h := Gathers.feed hd (hsource m hm).1 (hsource m hm).2
    ⟨h.1,fun output houtput => (h.2 output houtput).2⟩) hs

/-- Whatever datagrams come: what is passed on is put together from fragments that came, all of one
session and one packet, one of each number. -/
theorem received_madeOf (datagrams : List Bytes) :
    ∀ output ∈ (run receive .default datagrams).2, MadeOf (Said datagrams) output := by
  rw [run_receive]
  refine (feed_gathers (fun session => Gathers.default _ session) fun m hm => ?_).2
  obtain ⟨datagram,hmem,hdecode⟩ := mem_messagesIn.mp hm
  exact ⟨⟨datagram,hmem,hdecode⟩,(UdpMessage.says_of_decode hdecode).1⟩

/-- Two fragments, the second first, each a datagram of its own. -/
theorem received_madeOf_short :
    let datagrams := ((fragmentMessage 9 .short 14).map UdpMessage.encode).reverse
    UdpMessage.short.rejoined 9 ∈ (run receive .default datagrams).2 ∧
      MadeOf (Said datagrams) (UdpMessage.short.rejoined 9) := by
  intro datagrams
  have houtput : UdpMessage.short.rejoined 9 ∈ (run receive .default datagrams).2 := by decide +kernel
  exact ⟨houtput,received_madeOf datagrams _ houtput⟩

/-! ## What arrives -/

/-- The datagrams of the session. -/
def ofSession (session : UInt32) (datagram : Bytes) : Bool :=
  (UdpMessage.decode datagram).toOption.any (·.sessionId = session)

theorem messagesIn_filter (session : UInt32) (datagrams : List Bytes) :
    (messagesIn datagrams).filter (·.sessionId = session) =
      messagesIn (datagrams.filter (ofSession session)) := by
  induction datagrams with
  | nil => rfl
  | cons datagram datagrams ih =>
    rw [messagesIn] at ih ⊢
    cases hdecode : UdpMessage.decode datagram with
    | error e =>
      have hother : ofSession session datagram = false := by rw [ofSession, hdecode]; rfl
      rw [List.filterMap_cons_none (by rw [hdecode]; rfl),
        List.filter_cons_of_neg (by simp [hother]), ih]
    | ok m =>
      have hsession : ofSession session datagram = decide (m.sessionId = session) := by
        rw [ofSession, hdecode]
        rfl
      rw [List.filterMap_cons_some (b := m) (by rw [hdecode]; rfl)]
      by_cases hm : m.sessionId = session
      · rw [List.filter_cons_of_pos (by simpa using hm), List.filter_cons_of_pos (by simpa [hsession] using hm),
          messagesIn, List.filterMap_cons_some (b := m) (by rw [hdecode]; rfl), ih]
        rfl
      · rw [List.filter_cons_of_neg (by simpa using hm), List.filter_cons_of_neg (by simpa [hsession] using hm),
          ih]

/-- The datagrams of the fragments that arrive. -/
def arrivingDatagrams (fragments : List UdpMessage) (arrivals : List Nat) : List Bytes :=
  (arriving fragments arrivals).map UdpMessage.encode

theorem Cut.messagesIn (h : Cut message packetId fragments) (htext : message.HasText)
    (arrivals : List Nat) :
    messagesIn (arrivingDatagrams fragments arrivals) = arriving fragments arrivals := by
  rw [Hysteria2.messagesIn, arrivingDatagrams, List.filterMap_map]
  conv_rhs => rw [← List.filterMap_some (l := arriving fragments arrivals)]
  refine List.filterMap_congr fun fragment hfragment => ?_
  obtain ⟨i,_,hi⟩ := List.mem_filterMap.mp hfragment
  obtain ⟨_,hid,hcount⟩ := h.fragmentId hi
  have hvalid : fragment.fragmentId < fragment.fragmentCount := by
    rw [UInt8.lt_iff_toNat_lt, hid, hcount]
    exact (List.getElem?_eq_some_iff.mp hi).1
  have htext' : fragment.HasText := by
    rw [h.each i fragment hi]
    exact htext
  have hdecode := UdpMessage.decode_said hvalid (UdpMessage.says_encode htext')
  rw [Function.comp_apply, hdecode]
  rfl

/-- The defragger of the session does not hold fragments that look like ones of the packet. -/
def Unmixed (d : Defragger) (packetId : UInt16) (count : Nat) : Prop :=
  d.packetId ≠ packetId ∨ d.fragments.length ≠ count

/-- A message that is sent in fragments, whatever comes before them and between them for other
sessions: in any order, and however often each of them comes, nothing is passed on until all have
come, and then the message, once. -/
theorem fragments_arrive (message : UdpMessage) (packetId : UInt16) (maxSize : Nat)
    (htext : message.HasText) (earlier datagrams : List Bytes) (arrivals : List Nat)
    (hseveral : 1 < (fragmentMessage packetId message maxSize).length)
    (hunmixed : Unmixed ((run receive .default earlier).1 message.sessionId) packetId
      (fragmentMessage packetId message maxSize).length)
    (hwithin : ∀ i ∈ arrivals, i < (fragmentMessage packetId message maxSize).length)
    (harrive : datagrams.filter (ofSession message.sessionId) =
      arrivingDatagrams (fragmentMessage packetId message maxSize) arrivals) :
    let fragments := fragmentMessage packetId message maxSize
    let outputs := (run receive (run receive .default earlier).1 datagrams).2.filter
      (·.sessionId = message.sessionId)
    (∀ fragment ∈ fragments, fragment.encode.length ≤ maxSize) ∧
      (¬ AllSeen fragments.length arrivals → outputs = []) ∧
      ∀ before last, arrivals = before ++ [last] → ¬ AllSeen fragments.length before →
        AllSeen fragments.length arrivals → outputs = [message.rejoined packetId] := by
  intro fragments outputs
  have hcut : Cut message packetId fragments := fragmentMessage_cut hseveral
  have hvalid : ∀ datagrams : List Bytes, ∀ m ∈ messagesIn datagrams,
      m.fragmentId < m.fragmentCount := fun datagrams m hm => by
    obtain ⟨datagram,_,hdecode⟩ := mem_messagesIn.mp hm
    exact (UdpMessage.says_of_decode hdecode).1
  have hgathers : ∀ session, Gathers (fun m => m.fragmentId < m.fragmentCount) session
      ((run receive .default earlier).1 session) := by
    rw [run_receive]
    exact (feed_gathers (fun session => Gathers.default _ session)
      fun m hm => ⟨hvalid earlier m hm,hvalid earlier m hm⟩).1
  have houtputs : outputs = (run Defragger.feed ((run receive .default earlier).1 message.sessionId)
      (arriving fragments arrivals)).2 := by
    have hstep : ∀ d, ∀ m ∈ messagesIn datagrams,
        Gathers (fun m => m.fragmentId < m.fragmentCount) m.sessionId d →
          Gathers (fun m => m.fragmentId < m.fragmentCount) m.sessionId (d.feed m).1 ∧
            ∀ output ∈ (d.feed m).2, output.sessionId = m.sessionId := fun d m hm hd =>
      have h := Gathers.feed hd (hvalid datagrams m hm) (hvalid datagrams m hm)
      ⟨h.1,fun output houtput => (h.2 output houtput).1⟩
    have hfamily := run_family_output Defragger.feed UdpMessage.sessionId UdpMessage.sessionId hstep
      hgathers message.sessionId
    rw [messagesIn_filter, harrive, hcut.messagesIn htext] at hfamily
    rw [← hfamily, ← SessionDefraggers.feed, ← run_receive]
  have hready : Ready ((run receive .default earlier).1 message.sessionId) packetId fragments [] :=
    fun i fragment hi => turned_fresh hcut hunmixed hi
  refine ⟨fun fragment hfragment => encode_fragment_le hfragment,fun hnot => ?_,?_⟩
  · rw [houtputs]
    refine (hready.quiet hcut hwithin fun hseen => hnot fun i hi => ?_).1
    simpa using hseen i hi
  · rintro before last rfl hnot hseen
    rw [houtputs]
    exact hready.complete hcut hwithin hnot hseen

/-- The second of two fragments comes first, and twice. -/
theorem fragments_arrive_short :
    (run receive (run receive .default []).1
        (arrivingDatagrams (fragmentMessage 9 .short 14) [1, 1, 0])).2.filter (·.sessionId = 7) =
      [UdpMessage.short.rejoined 9] :=
  (fragments_arrive .short 9 14 UdpMessage.short_hasText [] _ [1, 1, 0] (by decide +kernel)
    (.inl (by decide)) (by decide +kernel) (by decide +kernel)).2.2 [1, 1] 0 rfl (by decide +kernel)
    (by decide +kernel)

end AtlasKernel.Hysteria2
