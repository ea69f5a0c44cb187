import AtlasKernel.Hysteria2.Gecko

/-! What comes out of a Gecko socket: the packets whose frames have all come, and nothing that was
not sent from the address under the number. -/
namespace AtlasKernel.Hysteria2
open AtlasKernel.Lib

/-! ## Frames of one packet -/

/-- The places for the chunks of a packet: there can be more of them than chunks. -/
def places (chunks : List Bytes) (total : Nat) (seen : List Nat) : List (Option Bytes) :=
  gathered chunks seen ++ List.replicate (total - chunks.length) none

/-- There is a chunk for every place, and all have come. -/
def Complete (chunks : List Bytes) (total : Nat) (seen : List Nat) : Prop :=
  chunks.length = total ∧ AllSeen chunks.length seen

instance (chunks : List Bytes) (total : Nat) (seen : List Nat) : Decidable (Complete chunks total seen) :=
  inferInstanceAs (Decidable (_ ∧ _))

variable {chunks : List Bytes} {total : Nat} {seen : List Nat}

theorem places_length (h : chunks.length ≤ total) : (places chunks total seen).length = total := by
  rw [places, List.length_append, gathered_length, List.length_replicate, Nat.add_sub_cancel' h]

theorem places_nil (h : chunks.length ≤ total) : places chunks total [] = List.replicate total none := by
  rw [places, gathered_nil, List.replicate_append_replicate, Nat.add_sub_cancel' h]

theorem getElem?_places {i : Nat} {chunk : Bytes} (h : chunks[i]? = some chunk) :
    (places chunks total seen)[i]? = some (if i ∈ seen then some chunk else none) := by
  have hlt : i < (gathered chunks seen).length := by
    rw [gathered_length]
    exact (List.getElem?_eq_some_iff.mp h).1
  rw [places, List.getElem?_append_left hlt, getElem?_gathered, h]
  rfl

theorem places_set {i : Nat} {chunk : Bytes} (h : chunks[i]? = some chunk) :
    (places chunks total seen).set i (some chunk) = places chunks total (i :: seen) := by
  have hlt : i < (gathered chunks seen).length := by
    rw [gathered_length]
    exact (List.getElem?_eq_some_iff.mp h).1
  rw [places, List.set_append_left _ _ hlt, gathered_set h, places]

theorem places_cons_of_mem {i : Nat} (h : i ∈ seen) :
    places chunks total (i :: seen) = places chunks total seen := by
  rw [places, gathered_cons_of_mem h, places]

/-- The places are full when all chunks have come and none of the places is for no chunk. -/
theorem countP_places_iff (h : chunks.length ≤ total) :
    (places chunks total seen).countP Option.isSome = total ↔
      Complete chunks total seen := by
  have hle : (gathered chunks seen).countP Option.isSome ≤ chunks.length := by
    rw [← gathered_length chunks seen]
    exact List.countP_le_length
  have hcount : (places chunks total seen).countP Option.isSome =
      (gathered chunks seen).countP Option.isSome := by
    rw [places, List.countP_append, List.countP_replicate]
    rfl
  rw [hcount, Complete, ← countP_gathered_iff]
  omega

theorem flatten_places (h : AllSeen chunks.length seen) :
    ((places chunks total seen).filterMap id).flatten = chunks.flatten := by
  have hnone : (List.replicate (total - chunks.length) (none : Option Bytes)).filterMap id = [] :=
    List.filterMap_eq_nil_iff.mpr fun slot hslot => List.eq_of_mem_replicate hslot
  have hsome : (chunks.map some).filterMap id = chunks := by
    rw [List.filterMap_map]
    exact List.filterMap_some
  rw [places, gathered_all h, List.filterMap_append, hnone, List.append_nil, hsome]

/-- The entry holds what has been seen, for some time still. -/
def Waits (entry : Option ReassemblyEntry) (chunks : List Bytes) (total : Nat) (seen : List Nat)
    (time : Nat) : Prop :=
  match entry with
  | none => seen = []
  | some e => e.chunks = places chunks total seen ∧
      e.received = e.chunks.countP Option.isSome ∧ time < e.deadline

/-- A chunk is in its place afterwards, whether it has come before or not. -/
theorem put_places {e : ReassemblyEntry} {i : Nat} {chunk : Bytes} {msgId : UInt8}
    (hchunks : e.chunks = places chunks total seen)
    (hreceived : e.received = e.chunks.countP Option.isSome) (hi : chunks[i]? = some chunk) :
    let next := e.put ⟨msgId,i,total,chunk⟩
    next.chunks = places chunks total (i :: seen) ∧
      next.received = next.chunks.countP Option.isSome ∧ next.deadline = e.deadline := by
  have hslot : e.chunks[i]? = some (if i ∈ seen then some chunk else none) := by
    rw [hchunks, getElem?_places hi]
  intro next
  by_cases hmem : i ∈ seen
  · have hput : next = e := by
      simp only [next, ReassemblyEntry.put, hslot, if_pos hmem]
    rw [hput, places_cons_of_mem hmem]
    exact ⟨hchunks,hreceived,rfl⟩
  · rw [if_neg hmem] at hslot
    have hput : next = { e with
        chunks := e.chunks.set i (some chunk)
        received := e.received + 1 } := by
      simp only [next, ReassemblyEntry.put, hslot]
    rw [hput, countP_set_some hslot, hreceived, hchunks, places_set hi]
    exact ⟨rfl,rfl,rfl⟩

/-- One frame that arrives, with the last chunk that was missing or without. -/
theorem Waits.accepts {entry : Option ReassemblyEntry} {time now i : Nat} {chunk : Bytes}
    {msgId : UInt8} (h : Waits entry chunks total seen time) (hle : chunks.length ≤ total)
    (hlive : time < now + reassemblyTtl) (hi : chunks[i]? = some chunk) :
    if Complete chunks total (i :: seen) then
      accept now entry ⟨msgId,i,total,chunk⟩ = (none, some chunks.flatten)
    else (accept now entry ⟨msgId,i,total,chunk⟩).2 = none ∧
      Waits (accept now entry ⟨msgId,i,total,chunk⟩).1 chunks total (i :: seen) time := by
  have hlt : i < total := Nat.lt_of_lt_of_le (List.getElem?_eq_some_iff.mp hi).1 hle
  obtain ⟨e,he,hchunks,hreceived,hdeadline⟩ : ∃ e, entry.getD
      ⟨List.replicate total none,0,now + reassemblyTtl⟩ = e ∧ e.chunks = places chunks total seen ∧
        e.received = e.chunks.countP Option.isSome ∧ time < e.deadline := by
    cases entry with
    | none =>
      refine ⟨_,rfl,?_,?_,hlive⟩
      · rw [Waits] at h
        rw [h, places_nil hle]
        rfl
      · rw [Option.getD_none, List.countP_replicate]
        rfl
    | some e => exact ⟨e,rfl,h⟩
  have hvalid : ¬ (e.chunks.length ≠ total ∨ total ≤ i) := by
    rw [hchunks, places_length hle]
    exact not_or.mpr ⟨not_not.mpr rfl,Nat.not_le.mpr hlt⟩
  have hput := @put_places _ _ _ _ _ _ msgId hchunks hreceived hi
  rw [accept]
  simp only [he, if_neg hvalid]
  generalize e.put ⟨msgId,i,total,chunk⟩ = next at hput ⊢
  obtain ⟨hnext,hcount,hsame⟩ := hput
  have hfull : next.received = next.chunks.length ↔ Complete chunks total (i :: seen) := by
    rw [hcount, hnext, places_length hle, countP_places_iff hle]
  by_cases hall : Complete chunks total (i :: seen)
  · rw [if_pos hall, if_neg (not_not.mpr (hfull.mpr hall)), hnext, flatten_places hall.2]
  · rw [if_neg hall, if_pos (mt hfull.mp hall)]
    exact ⟨rfl,hnext,hcount,hsame ▸ hdeadline⟩

/-! ## Datagrams that arrive -/

variable {blake2b : Bytes → Bytes} {password : Bytes} {bufLen : Nat}

/-- The draws are in their ranges, and no datagram is longer than what is read of it. -/
structure Fits (bufLen total : Nat) (draws : Nat → FrameDraw) (packet : Bytes) : Prop where
  count : 2 ≤ total ∧ total ≤ 8
  padding : ∀ (i : Nat) (chunk : Bytes), (chunksOf (divCeil packet.length total) packet)[i]? =
    some chunk → PaddingInRange chunk (draws i).padding ∧
      5 + (draws i).padding.length + chunk.length ≤ bufLen + 120

theorem chunks_le {packet : Bytes} (h : 0 < total) (hpacket : packet ≠ []) :
    (chunksOf (divCeil packet.length total) packet).length ≤ total := by
  have hpos : 0 < divCeil packet.length total := by
    rw [lt_divCeil_iff h, Nat.zero_mul]
    exact List.length_pos_iff.mpr hpacket
  rw [chunksOf_length, divCeil_le_iff hpos, Nat.mul_comm]
  exact (divCeil_le_iff h).mp (Nat.le_refl _)

theorem hear_sent {draws : Nat → FrameDraw} {packet : Bytes} {msgId : UInt8}
    (hfits : Fits bufLen total draws packet) (hpacket : packet ≠ []) {i : Nat} {chunk : Bytes}
    (hi : (chunksOf (divCeil packet.length total) packet)[i]? = some chunk) :
    hear blake2b password bufLen (salamanderObfuscate blake2b
      (encodeFrame msgId i total (draws i).padding chunk) password (draws i).salt) =
        .frame ⟨msgId,i,total,chunk⟩ := by
  obtain ⟨hpadding,hlen⟩ := hfits.padding i chunk hi
  have hlt : i < total := Nat.lt_of_lt_of_le (List.getElem?_eq_some_iff.mp hi).1
    (chunks_le (by have := hfits.count.1; omega) hpacket)
  have hwhole : (salamanderObfuscate blake2b (encodeFrame msgId i total (draws i).padding chunk)
      password (draws i).salt).length ≤ bufLen + 128 := by
    simp only [salamanderObfuscate, salamanderXor, encodeFrame, List.length_append,
      List.length_mapIdx, (draws i).salt.length, be16_length, List.length_cons, List.length_nil]
    omega
  rw [hear, List.take_of_length_le hwhole, deobfuscate_obfuscate]
  have hhead : (encodeFrame msgId i total (draws i).padding chunk).head?.any (· &&& 0x80 ≠ 0) = true :=
    rfl
  simp only [hhead, if_true, decodeFrame_encodeFrame hlt hfits.count hpadding]

/-- The event is a frame for the entry of the key. -/
def forKey (blake2b : Bytes → Bytes) (password : Bytes) (bufLen : Nat) (key : GeckoKey) :
    GeckoEvent → Bool
  | .tick _ => false
  | .datagram addr bytes =>
    match hear blake2b password bufLen bytes with
    | .frame frame => decide ((addr.text, frame.msgId) = key)
    | _ => false

/-- The output is a packet that was put together under the key. -/
def ofKey (key : GeckoKey) : GeckoOutput → Bool
  | .packet addr (some msgId) _ => decide ((addr.text, msgId) = key)
  | _ => false

def elapsed : List GeckoEvent → Nat
  | [] => 0
  | .tick n :: events => n + elapsed events
  | .datagram _ _ :: events => elapsed events

theorem GeckoReadState.live_tick (s : GeckoReadState) (n : Nat) (key : GeckoKey) :
    GeckoReadState.live { s with now := s.now + n } key =
      (s.live key).filter (s.now + n < ·.deadline) := by
  rw [live, live, Option.filter_filter]
  refine congrArg (fun p => (s.reassembly key).filter p) (funext fun e => ?_)
  rw [Bool.eq_iff_iff, Bool.and_eq_true, decide_eq_true_iff, decide_eq_true_iff]
  change s.now + n < e.deadline ↔ s.now < e.deadline ∧ s.now + n < e.deadline
  omega

/-- After a frame the entries that are left are the live ones, and the one of its key. -/
theorem GeckoReadState.live_accept (s : GeckoReadState) (key key' : GeckoKey) (frame : Frame) :
    (s.acceptFragment key' frame).1.live key =
      if key = key' then (accept s.now (s.live key') frame).1.filter (s.now < ·.deadline)
      else s.live key := by
  have hidem : (s.live key).filter (s.now < ·.deadline) = s.live key := by
    rw [live, Option.filter_filter]
    simp only [Bool.and_self]
  rw [live, acceptFragment]
  dsimp only
  by_cases hkey : key = key'
  · subst hkey
    rw [Function.update_self, if_pos rfl]
  · rw [Function.update_of_ne hkey, if_neg hkey, hidem]

theorem Waits.filter {entry : Option ReassemblyEntry} {time now : Nat}
    (h : Waits entry chunks total seen time) (hnow : now ≤ time) :
    Waits (entry.filter (now < ·.deadline)) chunks total seen time := by
  cases entry with
  | none => exact h
  | some e =>
    have hlive : now < e.deadline := Nat.lt_of_le_of_lt hnow h.2.2
    rw [Option.filter_some, if_pos (decide_eq_true hlive)]
    exact h

/-- What is not for the key does nothing to it but take time. -/
theorem Waits.other {s : GeckoReadState} {key : GeckoKey} {event : GeckoEvent} {rest : Nat}
    (hother : forKey blake2b password bufLen key event = false)
    (h : Waits (s.live key) chunks total seen (s.now + (elapsed [event] + rest))) :
    let r := pollRecv blake2b password bufLen s event
    Waits (r.1.live key) chunks total seen (r.1.now + rest) ∧ r.2.filter (ofKey key) = [] := by
  cases event with
  | tick n =>
    have htime : s.now + n + rest = s.now + (elapsed [.tick n] + rest) := by
      simp only [elapsed]
      omega
    dsimp only [pollRecv]
    rw [GeckoReadState.live_tick, htime]
    exact ⟨h.filter (by simp only [elapsed]; omega),rfl⟩
  | datagram addr bytes =>
    have htime : s.now + rest = s.now + (elapsed [.datagram addr bytes] + rest) := by
      simp only [elapsed, Nat.zero_add]
    rw [forKey] at hother
    rw [pollRecv]
    cases hhear : hear blake2b password bufLen bytes with
    | failed => exact ⟨htime ▸ h,rfl⟩
    | whole decoded => exact ⟨htime ▸ h,rfl⟩
    | frame frame =>
      rw [hhear] at hother
      have hkey : (addr.text, frame.msgId) ≠ key := of_decide_eq_false hother
      dsimp only
      rw [GeckoReadState.live_accept, if_neg (Ne.symm hkey)]
      refine ⟨htime ▸ h,List.filter_eq_nil_iff.mpr fun output houtput => ?_⟩
      obtain ⟨packet,_,rfl⟩ := Option.mem_map.mp (Option.mem_toList.mp houtput)
      exact fun hof => hkey (of_decide_eq_true hof)

/-- The frame of one chunk that arrives. -/
theorem Waits.arrives {s : GeckoReadState} {addr : SocketAddr} {msgId : UInt8} {bytes : Bytes}
    {i rest : Nat} {chunk : Bytes}
    (hhear : hear blake2b password bufLen bytes = .frame ⟨msgId,i,total,chunk⟩)
    (h : Waits (s.live (addr.text, msgId)) chunks total seen (s.now + rest))
    (hle : chunks.length ≤ total) (hrest : rest < reassemblyTtl) (hi : chunks[i]? = some chunk) :
    let r := pollRecv blake2b password bufLen s (.datagram addr bytes)
    if Complete chunks total (i :: seen) then
      r.2.filter (ofKey (addr.text, msgId)) =
          [.packet addr (some msgId) (fillRecv bufLen chunks.flatten)] ∧
        r.1.live (addr.text, msgId) = none
    else r.2.filter (ofKey (addr.text, msgId)) = [] ∧
      Waits (r.1.live (addr.text, msgId)) chunks total (i :: seen) (r.1.now + rest) := by
  have hstep := @Waits.accepts _ _ _ _ _ s.now _ _ msgId h hle (by omega) hi
  rw [pollRecv, hhear]
  dsimp only
  rw [GeckoReadState.live_accept, if_pos rfl]
  have hout : (s.acceptFragment (addr.text, msgId) ⟨msgId,i,total,chunk⟩).2 =
      (accept s.now (s.live (addr.text, msgId)) ⟨msgId,i,total,chunk⟩).2 := rfl
  rw [hout]
  by_cases hall : Complete chunks total (i :: seen)
  · rw [if_pos hall] at hstep ⊢
    rw [hstep]
    refine ⟨List.filter_eq_self.mpr fun output houtput => ?_,rfl⟩
    rw [List.mem_singleton.mp houtput]
    exact decide_eq_true rfl
  · rw [if_neg hall] at hstep ⊢
    obtain ⟨hnone,hwaits⟩ := hstep
    rw [hnone]
    exact ⟨rfl,hwaits.filter (Nat.le_add_right _ _)⟩

/-- The datagrams of the chunks that arrive. -/
def arrivalsOf (addr : SocketAddr) (datagrams : List Bytes) (arrivals : List Nat) : List GeckoEvent :=
  arrivals.filterMap fun i => datagrams[i]?.map fun bytes => .datagram addr bytes

/-- A list of arrivals ends with its first event. -/
theorem arrivalsOf_cons {addr : SocketAddr} {datagrams : List Bytes} {arrivals : List Nat}
    (hwithin : ∀ i ∈ arrivals, i < datagrams.length) {event : GeckoEvent} {events : List GeckoEvent}
    (h : arrivalsOf addr datagrams arrivals = event :: events) :
    ∃ i bytes rest, arrivals = i :: rest ∧ datagrams[i]? = some bytes ∧
      event = .datagram addr bytes ∧ arrivalsOf addr datagrams rest = events := by
  cases arrivals with
  | nil => cases h
  | cons i rest =>
    have hi : i < datagrams.length := hwithin i List.mem_cons_self
    have hget : datagrams[i]? = some datagrams[i] := List.getElem?_eq_getElem hi
    rw [arrivalsOf, List.filterMap_cons_some (by rw [hget]; rfl)] at h
    obtain ⟨rfl,hrest⟩ := List.cons.inj h
    exact ⟨i,datagrams[i],rest,rfl,hget,rfl,hrest⟩

theorem Complete.mono {seen' : List Nat} (h : Complete chunks total seen)
    (hsub : ∀ i ∈ seen, i ∈ seen') : Complete chunks total seen' :=
  ⟨h.1,fun i hi => hsub i (h.2 i hi)⟩

/-- Each datagram is the frame of its chunk. -/
def Frames (blake2b : Bytes → Bytes) (password : Bytes) (bufLen : Nat) (msgId : UInt8)
    (chunks : List Bytes) (total : Nat) (datagrams : List Bytes) : Prop :=
  ∀ (i : Nat) (bytes : Bytes), datagrams[i]? = some bytes → ∃ chunk, chunks[i]? = some chunk ∧
    hear blake2b password bufLen bytes = .frame ⟨msgId,i,total,chunk⟩

theorem arrivalsOf_forKey {msgId : UInt8} {datagrams : List Bytes} (addr : SocketAddr)
    (hframes : Frames blake2b password bufLen msgId chunks total datagrams) (arrivals : List Nat) :
    (arrivalsOf addr datagrams arrivals).filter (forKey blake2b password bufLen (addr.text, msgId)) =
      arrivalsOf addr datagrams arrivals := by
  refine List.filter_eq_self.mpr fun event hevent => ?_
  obtain ⟨i,_,hi⟩ := List.mem_filterMap.mp hevent
  obtain ⟨bytes,hbytes,rfl⟩ := Option.map_eq_some_iff.mp hi
  obtain ⟨chunk,_,hhear⟩ := hframes i bytes hbytes
  rw [forKey, hhear]
  exact decide_eq_true rfl

section
variable {msgId : UInt8} {datagrams : List Bytes} {addr : SocketAddr}
  (hframes : Frames blake2b password bufLen msgId chunks total datagrams)
  (hle : chunks.length ≤ total)
include hframes hle

/-- Until all have come nothing is put out, whatever the order and however often. -/
theorem Waits.quiet {events : List GeckoEvent} {arrivals : List Nat} {s : GeckoReadState}
    (hwithin : ∀ i ∈ arrivals, i < datagrams.length)
    (hevents : events.filter (forKey blake2b password bufLen (addr.text, msgId)) =
      arrivalsOf addr datagrams arrivals)
    (htime : elapsed events < reassemblyTtl)
    (h : Waits (s.live (addr.text, msgId)) chunks total seen (s.now + elapsed events))
    (hnot : ¬ Complete chunks total (arrivals.reverse ++ seen)) :
    (run (pollRecv blake2b password bufLen) s events).2.filter (ofKey (addr.text, msgId)) = [] := by
  induction events generalizing s arrivals seen with
  | nil => rfl
  | cons event events ih =>
    have helapsed : elapsed (event :: events) = elapsed [event] + elapsed events := by
      cases event <;> simp [elapsed]
    rw [run, List.filter_append]
    cases hkey : forKey blake2b password bufLen (addr.text, msgId) event with
    | false =>
      rw [List.filter_cons_of_neg (by simp [hkey])] at hevents
      rw [helapsed] at h htime
      obtain ⟨hwaits,hout⟩ := Waits.other hkey h
      rw [hout, ih hwithin hevents (by omega) hwaits hnot]
      rfl
    | true =>
      rw [List.filter_cons_of_pos hkey] at hevents
      obtain ⟨i,bytes,later,rfl,hget,rfl,hlater⟩ := arrivalsOf_cons hwithin hevents.symm
      obtain ⟨chunk,hchunk,hhear⟩ := hframes i bytes hget
      rw [List.reverse_cons, List.append_assoc, List.singleton_append] at hnot
      have hnow : ¬ Complete chunks total (i :: seen) := fun hall =>
        hnot (hall.mono fun j hj => List.mem_append_right _ hj)
      have hstep := h.arrives hhear hle htime hchunk
      rw [if_neg hnow] at hstep
      have hwithin' : ∀ j ∈ later, j < datagrams.length := fun j hj =>
        hwithin j (List.mem_cons_of_mem i hj)
      have helapsed' : elapsed (.datagram addr bytes :: events) = elapsed events := rfl
      rw [helapsed'] at htime hstep
      rw [hstep.1, ih hwithin' hlater.symm htime hstep.2 hnot]
      rfl

/-- The first time that all have come the packet is put out, once. -/
theorem Waits.complete (hsome : 0 < chunks.length) {events : List GeckoEvent} {before : List Nat}
    {last : Nat} {s : GeckoReadState}
    (hwithin : ∀ i ∈ before ++ [last], i < datagrams.length)
    (hevents : events.filter (forKey blake2b password bufLen (addr.text, msgId)) =
      arrivalsOf addr datagrams (before ++ [last]))
    (htime : elapsed events < reassemblyTtl)
    (h : Waits (s.live (addr.text, msgId)) chunks total seen (s.now + elapsed events))
    (hnot : ¬ Complete chunks total (before.reverse ++ seen))
    (hall : Complete chunks total (last :: (before.reverse ++ seen))) :
    (run (pollRecv blake2b password bufLen) s events).2.filter (ofKey (addr.text, msgId)) =
      [.packet addr (some msgId) (fillRecv bufLen chunks.flatten)] := by
  induction events generalizing s before seen with
  | nil =>
    have hlast := hwithin last (List.mem_append_right _ (List.mem_singleton_self last))
    rw [arrivalsOf, List.filterMap_append, List.filterMap_cons_some
      (by rw [List.getElem?_eq_getElem hlast]; rfl)] at hevents
    exact absurd hevents.symm (List.append_ne_nil_of_right_ne_nil _ (List.cons_ne_nil _ _))
  | cons event events ih =>
    have helapsed : elapsed (event :: events) = elapsed [event] + elapsed events := by
      cases event <;> simp [elapsed]
    rw [run, List.filter_append]
    cases hkey : forKey blake2b password bufLen (addr.text, msgId) event with
    | false =>
      rw [List.filter_cons_of_neg (by simp [hkey])] at hevents
      rw [helapsed] at h htime
      obtain ⟨hwaits,hout⟩ := Waits.other hkey h
      rw [hout, ih hwithin hevents (by omega) hwaits hnot hall]
      rfl
    | true =>
      rw [List.filter_cons_of_pos hkey] at hevents
      obtain ⟨i,bytes,later,harrivals,hget,rfl,hlater⟩ := arrivalsOf_cons hwithin hevents.symm
      obtain ⟨chunk,hchunk,hhear⟩ := hframes i bytes hget
      have hstep := h.arrives hhear hle htime hchunk
      have helapsed' : elapsed (.datagram addr bytes :: events) = elapsed events := rfl
      rw [helapsed'] at htime hstep
      cases before with
      | nil =>
        obtain ⟨rfl,rfl⟩ := List.cons.inj harrivals
        change Complete chunks total (last :: seen) at hall
        rw [if_pos hall] at hstep
        have hempty : ¬ Complete chunks total [] := fun hfull => by
          have hmem := hfull.2 0 hsome
          cases hmem
        have hwaits : Waits ((pollRecv blake2b password bufLen s (.datagram addr bytes)).1.live
            (addr.text, msgId)) chunks total []
            ((pollRecv blake2b password bufLen s (.datagram addr bytes)).1.now + elapsed events) := by
          rw [hstep.2]
          rfl
        have hnone : ∀ j ∈ ([] : List Nat), j < datagrams.length := List.forall_mem_nil _
        rw [hstep.1, Waits.quiet hframes hle hnone hlater.symm htime hwaits hempty]
        rfl
      | cons j before =>
        obtain ⟨rfl,rfl⟩ := List.cons.inj harrivals
        rw [List.reverse_cons, List.append_assoc, List.singleton_append] at hnot hall
        have hnow : ¬ Complete chunks total (j :: seen) := fun hfull =>
          hnot (hfull.mono fun k hk => List.mem_append_right _ hk)
        rw [if_neg hnow] at hstep
        have hwithin' : ∀ k ∈ before ++ [last], k < datagrams.length := fun k hk =>
          hwithin k (List.mem_cons_of_mem j hk)
        rw [hstep.1, ih hwithin' hlater.symm htime hstep.2 hnot hall]
        rfl

end

theorem sendFragmented_length (draws : Nat → FrameDraw) (msgId : UInt8) (packet : Bytes) :
    (sendFragmented blake2b password total msgId draws packet).length =
      (chunksOf (divCeil packet.length total) packet).length := by
  rw [sendFragmented, List.length_mapIdx]

theorem frames_of_sent {draws : Nat → FrameDraw} {msgId : UInt8} {packet : Bytes}
    (hfits : Fits bufLen total draws packet) (hpacket : packet ≠ []) :
    Frames blake2b password bufLen msgId (chunksOf (divCeil packet.length total) packet) total
      (sendFragmented blake2b password total msgId draws packet) := by
  intro i bytes hi
  rw [sendFragmented, List.getElem?_mapIdx, Option.map_eq_some_iff] at hi
  obtain ⟨chunk,hchunk,rfl⟩ := hi
  exact ⟨chunk,hchunk,hear_sent hfits hpacket hchunk⟩

/-- There are as many chunks as were meant unless the last of them would be empty. -/
theorem chunks_eq_iff {packet : Bytes} (htotal : 2 ≤ total) (hpacket : packet ≠ []) :
    (chunksOf (divCeil packet.length total) packet).length = total ↔
      (total - 1) * divCeil packet.length total < packet.length := by
  have hle : (chunksOf (divCeil packet.length total) packet).length ≤ total :=
    chunks_le (by omega) hpacket
  have hpos : 0 < divCeil packet.length total := by
    rw [lt_divCeil_iff (by omega), Nat.zero_mul]
    exact List.length_pos_iff.mpr hpacket
  rw [← lt_divCeil_iff hpos]
  rw [chunksOf_length] at hle ⊢
  omega

theorem chunks_of_long {packet : Bytes} (htotal : 2 ≤ total ∧ total ≤ 8) (hlong : 50 ≤ packet.length) :
    (total - 1) * divCeil packet.length total < packet.length := by
  have hpos : 0 < divCeil packet.length total := by
    rw [lt_divCeil_iff (by omega)]
    omega
  have hlast : (divCeil packet.length total - 1) * total < packet.length :=
    (lt_divCeil_iff (by omega)).mp (Nat.sub_lt hpos Nat.one_pos)
  obtain ⟨hlow,hhigh⟩ := htotal
  interval_cases total <;> omega

/-- A packet that is sent in frames, whatever else comes between them: in any order, and however
often each of them comes, nothing is put out until all have come, and then the packet, once. Where
the packet is too short for as many chunks as its frames say, it is never put out. -/
theorem gecko_delivers (blake2b : Bytes → Bytes) (password : Bytes) (bufLen total : Nat)
    (msgId : UInt8) (draws : Nat → FrameDraw) (packet : Bytes) (hpacket : packet ≠ [])
    (hfits : Fits bufLen total draws packet) (addr : SocketAddr) (s : GeckoReadState)
    (hnew : s.live (addr.text, msgId) = none) (events : List GeckoEvent) (arrivals : List Nat)
    (hwithin : ∀ i ∈ arrivals,
      i < (sendFragmented blake2b password total msgId draws packet).length)
    (hevents : events.filter (forKey blake2b password bufLen (addr.text, msgId)) =
      arrivalsOf addr (sendFragmented blake2b password total msgId draws packet) arrivals)
    (htime : elapsed events < reassemblyTtl) :
    let datagrams := sendFragmented blake2b password total msgId draws packet
    let outputs := (run (pollRecv blake2b password bufLen) s events).2.filter
      (ofKey (addr.text, msgId))
    (datagrams.length = total ↔ (total - 1) * divCeil packet.length total < packet.length) ∧
      (50 ≤ packet.length → datagrams.length = total) ∧
      (¬ (datagrams.length = total ∧ AllSeen total arrivals) → outputs = []) ∧
      ∀ before last, arrivals = before ++ [last] → ¬ AllSeen total before →
        datagrams.length = total → AllSeen total arrivals →
          outputs = [.packet addr (some msgId) (fillRecv bufLen packet)] := by
  intro datagrams outputs
  have htotal : 2 ≤ total := hfits.count.1
  have hle : (chunksOf (divCeil packet.length total) packet).length ≤ total :=
    chunks_le (by omega) hpacket
  have hframes : Frames blake2b password bufLen msgId
      (chunksOf (divCeil packet.length total) packet) total datagrams := frames_of_sent hfits hpacket
  have hiff := chunks_eq_iff hfits.count.1 hpacket
  have hlen : datagrams.length = (chunksOf (divCeil packet.length total) packet).length :=
    sendFragmented_length draws msgId packet
  have hwaits : ∀ time, Waits (s.live (addr.text, msgId))
      (chunksOf (divCeil packet.length total) packet) total [] time := fun time => by
    rw [hnew]
    rfl
  have hcomplete : ∀ {seen seen' : List Nat}, (∀ i, i ∈ seen ↔ i ∈ seen') →
      (Complete (chunksOf (divCeil packet.length total) packet) total seen ↔
        datagrams.length = total ∧ AllSeen total seen') := fun {seen seen'} hsame => by
    rw [Complete, ← hlen]
    refine and_congr_right fun heq => ?_
    rw [heq]
    exact forall₂_congr fun i _ => hsame i
  refine ⟨by rw [hlen]; exact hiff,fun hlong => by rw [hlen]; exact hiff.mpr (chunks_of_long hfits.count hlong),
    fun hnot => ?_,?_⟩
  · refine Waits.quiet hframes hle hwithin hevents htime (hwaits _) (mt (hcomplete fun i => ?_).mp hnot)
    simp
  · rintro before last rfl hnot heq hall
    have hflatten : (chunksOf (divCeil packet.length total) packet).flatten = packet := by
      refine chunksOf_flatten ?_ packet
      rw [lt_divCeil_iff (by omega), Nat.zero_mul]
      exact List.length_pos_iff.mpr hpacket
    have hsome : 0 < (chunksOf (divCeil packet.length total) packet).length := by omega
    rw [← hflatten]
    refine Waits.complete hframes hle hsome hwithin hevents htime (hwaits _)
      (mt (hcomplete fun i => ?_).mp fun h => hnot h.2) ((hcomplete fun i => ?_).mpr ⟨heq,hall⟩)
    · simp
    · simp [or_comm]

/-- Two frames of a short message, the second first. -/
theorem gecko_delivers_short :
    let draws : Nat → FrameDraw := fun _ => ⟨List.replicate 500 0,⟨List.replicate 8 0,rfl⟩⟩
    let addr : SocketAddr := .v4 ⟨[127, 0, 0, 1],rfl⟩ 443
    (run (pollRecv id [] 1500) .new
        (arrivalsOf addr (sendFragmented id [] 2 1 draws [0xc0, 1, 2]) [1, 0])).2.filter
      (ofKey (addr.text, 1)) = [.packet addr (some 1) (fillRecv 1500 [0xc0, 1, 2])] := by
  intro draws addr
  have hchunks : chunksOf (divCeil ([0xc0, 1, 2] : Bytes).length 2) ([0xc0, 1, 2] : Bytes) =
      [[0xc0, 1], [2]] := by decide +kernel
  have hfits : Fits 1500 2 draws [0xc0, 1, 2] := by
    refine ⟨by decide,fun i chunk hi => ?_⟩
    rw [hchunks] at hi
    have hlen : (draws i).padding.length = 500 := List.length_replicate
    rw [PaddingInRange, hlen]
    rcases i with _ | _ | i <;> cases hi <;> exact ⟨by rw [if_neg (by decide)]; decide,by decide⟩
  have hframes : Frames id [] 1500 1 (chunksOf (divCeil ([0xc0, 1, 2] : Bytes).length 2) [0xc0, 1, 2])
      2 (sendFragmented id [] 2 1 draws [0xc0, 1, 2]) := frames_of_sent hfits (by decide)
  have hevents := arrivalsOf_forKey addr hframes [1, 0]
  exact (gecko_delivers id [] 1500 2 1 draws [0xc0, 1, 2] (by decide) hfits addr .new rfl _ [1, 0]
    (by decide +kernel) hevents (by decide +kernel)).2.2.2 [1] 0 rfl (by decide +kernel)
    (by decide +kernel) (by decide +kernel)

/-! ## What is put out -/

/-- What the entry holds was heard: under its key, in its place, of its number of chunks. -/
structure Genuine (blake2b : Bytes → Bytes) (password : Bytes) (bufLen : Nat)
    (events : List GeckoEvent) (key : GeckoKey) (e : ReassemblyEntry) : Prop where
  received : e.received = e.chunks.countP Option.isSome
  several : 2 ≤ e.chunks.length
  chunks : ∀ (i : Nat) (chunk : Bytes), e.chunks[i]? = some (some chunk) →
    ∃ addr bytes, GeckoEvent.datagram addr bytes ∈ events ∧ addr.text = key.1 ∧
      hear blake2b password bufLen bytes = .frame ⟨key.2,i,e.chunks.length,chunk⟩

/-- A packet comes whole in one datagram, or in the frames of one number from its address. -/
def Received (blake2b : Bytes → Bytes) (password : Bytes) (bufLen : Nat) (events : List GeckoEvent) :
    GeckoOutput → Prop
  | .packet addr none packet => ∃ bytes decoded, GeckoEvent.datagram addr bytes ∈ events ∧
      hear blake2b password bufLen bytes = .whole decoded ∧ packet = fillRecv bufLen decoded
  | .packet addr (some msgId) packet => ∃ parts : List Bytes, 2 ≤ parts.length ∧
      packet = fillRecv bufLen parts.flatten ∧
      ∀ (i : Nat) (part : Bytes), parts[i]? = some part →
        ∃ bytes, GeckoEvent.datagram addr bytes ∈ events ∧
          hear blake2b password bufLen bytes = .frame ⟨msgId,i,parts.length,part⟩
  | .failed => True

theorem decodeFrame_total {input : Bytes} {frame : Frame} (h : decodeFrame input = .ok frame) :
    2 ≤ frame.total := by
  rw [decodeFrame] at h
  split_ifs at h with hshort
  dsimp only at h
  split_ifs at h with hmeta hpad
  cases h
  rw [not_or, not_not] at hmeta
  exact hmeta.1.1

theorem hear_total {bytes : Bytes} {frame : Frame}
    (h : hear blake2b password bufLen bytes = .frame frame) : 2 ≤ frame.total := by
  rw [hear] at h
  split at h
  · cases h
  · split_ifs at h
    split at h
    · cases h
    next hdecode =>
      cases h
      exact decodeFrame_total hdecode

section
variable {events : List GeckoEvent} {addr : SocketAddr} {bytes : Bytes} {frame : Frame}
  {e : ReassemblyEntry}

theorem Genuine.put (h : Genuine blake2b password bufLen events (addr.text, frame.msgId) e)
    (hmem : GeckoEvent.datagram addr bytes ∈ events)
    (hhear : hear blake2b password bufLen bytes = .frame frame) (htotal : e.chunks.length = frame.total)
    (hempty : e.chunks[frame.chunkIndex]? = some none) :
    Genuine blake2b password bufLen events (addr.text, frame.msgId) { e with
      chunks := e.chunks.set frame.chunkIndex (some frame.payload)
      received := e.received + 1 } := by
  refine ⟨?_,?_,fun i chunk hchunk => ?_⟩
  · rw [countP_set_some hempty, h.received]
  · rw [List.length_set]
    exact h.several
  · rw [List.getElem?_set] at hchunk
    rw [List.length_set]
    split_ifs at hchunk with hi hlt
    · cases hchunk
      subst hi
      exact ⟨addr,bytes,hmem,rfl,by rw [hhear, htotal]⟩
    · exact h.chunks i chunk hchunk

theorem Genuine.whole (h : Genuine blake2b password bufLen events (addr.text, frame.msgId) e)
    (hfull : e.received = e.chunks.length) : Received blake2b password bufLen events
      (.packet addr (some frame.msgId) (fillRecv bufLen (e.chunks.filterMap id).flatten)) := by
  have hfilled := filled (h.received.symm.trans hfull)
  have hlen : e.chunks.length = (e.chunks.filterMap id).length := by
    conv_lhs => rw [hfilled, List.length_map]
  refine ⟨e.chunks.filterMap id,hlen ▸ h.several,rfl,fun i part hpart => ?_⟩
  have hslot : e.chunks[i]? = some (some part) := by
    rw [hfilled, List.getElem?_map, hpart]
    rfl
  obtain ⟨addr',bytes,hmem,htext,hhear⟩ := h.chunks i part hslot
  rw [SocketAddr.text_inj htext] at hmem
  exact ⟨bytes,hmem,by rw [hhear, hlen]⟩

/-- What the entry of a frame becomes, and what is put together of it. -/
theorem accept_genuine (hmem : GeckoEvent.datagram addr bytes ∈ events)
    (hhear : hear blake2b password bufLen bytes = .frame frame) (now : Nat)
    {entry : Option ReassemblyEntry}
    (hentry : ∀ e ∈ entry, Genuine blake2b password bufLen events (addr.text, frame.msgId) e) :
    (∀ e ∈ (accept now entry frame).1,
        Genuine blake2b password bufLen events (addr.text, frame.msgId) e) ∧
      ∀ packet ∈ (accept now entry frame).2, Received blake2b password bufLen events
        (.packet addr (some frame.msgId) (fillRecv bufLen packet)) := by
  have hheld : Genuine blake2b password bufLen events (addr.text, frame.msgId)
      (entry.getD ⟨List.replicate frame.total none,0,now + reassemblyTtl⟩) := by
    cases entry with
    | none =>
      refine ⟨?_,?_,fun i chunk hchunk => ?_⟩
      · rw [Option.getD_none, List.countP_replicate]
        rfl
      · rw [Option.getD_none, List.length_replicate]
        exact hear_total hhear
      · rw [Option.getD_none, List.getElem?_replicate] at hchunk
        split_ifs at hchunk
        cases hchunk
    | some e => exact hentry e rfl
  rw [accept]
  generalize entry.getD ⟨List.replicate frame.total none,0,now + reassemblyTtl⟩ = e at hheld
  dsimp only
  by_cases hvalid : e.chunks.length ≠ frame.total ∨ frame.total ≤ frame.chunkIndex
  · rw [if_pos hvalid]
    exact ⟨nofun,nofun⟩
  · rw [if_neg hvalid]
    rw [not_or, not_not] at hvalid
    generalize hnext : e.put frame = next
    have hgenuine : Genuine blake2b password bufLen events (addr.text, frame.msgId) next := by
      rw [← hnext, ReassemblyEntry.put]
      split
      next hempty => exact hheld.put hmem hhear hvalid.1 hempty
      · exact hheld
    by_cases hpart : next.received ≠ next.chunks.length
    · rw [if_pos hpart]
      refine ⟨fun other hother => ?_,nofun⟩
      cases hother
      exact hgenuine
    · rw [if_neg hpart]
      refine ⟨nofun,fun packet hpacket => ?_⟩
      cases hpacket
      exact hgenuine.whole (not_not.mp hpart)

end

theorem pollRecv_genuine {events : List GeckoEvent} {s : GeckoReadState} {event : GeckoEvent}
    (hmem : event ∈ events) (h : ∀ key, ∀ e ∈ s.reassembly key,
      Genuine blake2b password bufLen events key e) :
    (∀ key, ∀ e ∈ (pollRecv blake2b password bufLen s event).1.reassembly key,
        Genuine blake2b password bufLen events key e) ∧
      ∀ output ∈ (pollRecv blake2b password bufLen s event).2,
        Received blake2b password bufLen events output := by
  cases event with
  | tick n => exact ⟨h,nofun⟩
  | datagram addr bytes =>
    rw [pollRecv]
    cases hhear : hear blake2b password bufLen bytes with
    | failed =>
      refine ⟨h,fun output houtput => ?_⟩
      rw [List.mem_singleton.mp houtput]
      trivial
    | whole decoded =>
      refine ⟨h,fun output houtput => ?_⟩
      rw [List.mem_singleton.mp houtput]
      exact ⟨bytes,decoded,hmem,hhear,rfl⟩
    | frame frame =>
      have hlive : ∀ key, ∀ e ∈ s.live key, Genuine blake2b password bufLen events key e :=
        fun key e he => h key e (Option.filter_eq_some_iff.mp he).1
      obtain ⟨hentry,hpacket⟩ := accept_genuine hmem hhear s.now
        (hlive (addr.text, frame.msgId))
      refine ⟨fun key e he => ?_,fun output houtput => ?_⟩
      · dsimp only [GeckoReadState.acceptFragment] at he
        by_cases hkey : key = (addr.text, frame.msgId)
        · subst hkey
          rw [Function.update_self] at he
          exact hentry e he
        · rw [Function.update_of_ne hkey] at he
          exact hlive key e he
      · obtain ⟨packet,hsome,rfl⟩ := Option.mem_map.mp (Option.mem_toList.mp houtput)
        exact hpacket packet hsome

/-- Whatever datagrams come, from whomever and at whatever times: every packet that is put out came
whole, or all its chunks came from its address under one number, each said to be in its place. -/
theorem gecko_received (blake2b : Bytes → Bytes) (password : Bytes) (bufLen : Nat)
    (events : List GeckoEvent) :
    ∀ output ∈ (run (pollRecv blake2b password bufLen) .new events).2,
      Received blake2b password bufLen events output := by
  have hall : Meets (pollRecv blake2b password bufLen) (fun _ event => event ∈ events) .new events :=
    meets_of_forall (fun _ hmem _ => hmem) _
  have hrun := @run_invariant _ _ _ (pollRecv blake2b password bufLen) (fun _ event => event ∈ events)
    (fun s outputs => (∀ key, ∀ e ∈ s.reassembly key, Genuine blake2b password bufLen events key e) ∧
      ∀ output ∈ outputs, Received blake2b password bufLen events output)
    (fun s outputs event h hmem =>
      have hstep := pollRecv_genuine hmem h.1
      ⟨hstep.1,fun output houtput => (List.mem_append.mp houtput).elim (h.2 output) (hstep.2 output)⟩)
    .new [] ⟨fun _ _ he => (nomatch he),nofun⟩ events hall
  exact hrun.2

/-- Two frames of a short message, without padding. -/
theorem gecko_received_short :
    let draws : Nat → FrameDraw := fun _ => ⟨[],⟨List.replicate 8 0,rfl⟩⟩
    let addr : SocketAddr := .v4 ⟨[127, 0, 0, 1],rfl⟩ 443
    let events := arrivalsOf addr (sendFragmented id [] 2 1 draws [0xc0, 1, 2]) [1, 0]
    let output : GeckoOutput := .packet addr (some 1) [0xc0, 1, 2]
    output ∈ (run (pollRecv id [] 1500) .new events).2 ∧ Received id [] 1500 events output := by
  intro draws addr events output
  have houtput : output ∈ (run (pollRecv id [] 1500) .new events).2 := by decide +kernel
  exact ⟨houtput,gecko_received id [] 1500 events output houtput⟩

end AtlasKernel.Hysteria2
