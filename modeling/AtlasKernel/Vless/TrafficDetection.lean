import AtlasKernel.Vless.VisionDirect
import Mathlib.Data.List.Induction

/-! What the Vision uplink notices of the traffic it pads. The first payload goes out in the
block with the UUID, before there is a traffic state. Source: `adapter/vless.rs`. -/
namespace AtlasKernel.Vless
open AtlasKernel.Lib

/-- The traffic state after some reads; what is read behind the padding is not looked at. -/
def uplinkAfter (uplink : VisionUplinkState) : List Bytes → VisionUplinkState
  | [] => uplink
  | data :: reads =>
    uplinkAfter (if uplink.padding then (uplink.commandFor data false).2 else uplink) reads

/-- A chunk of at least six bytes that begins a TLS handshake record. -/
def HandshakeChunk (data : Bytes) : Prop := 6 ≤ data.length ∧ isTlsHandshake data = true

/-- What `filter_tls` takes for a ServerHello. -/
def ServerHelloChunk (data : Bytes) : Prop :=
  6 ≤ data.length ∧ startsWith data [0x16, 0x03, 0x03] = true ∧ data.getD 5 0 = 0x02

/-- Among the first eight chunks of at least six bytes there is a TLS handshake record. -/
def HandshakeAmongEight (chunks : List Bytes) : Prop :=
  ∃ data ∈ (chunks.filter fun data => decide (6 ≤ data.length)).take 8, isTlsHandshake data = true

/-! ## Steps -/

/-- Everything the filter does: it counts, and it notices a handshake record. -/
theorem filterTls_record (s : VisionTrafficState) (data : Bytes) :
    s.filterTls data =
      { s with
        packetFilterRemaining :=
          if s.packetFilterRemaining ≤ 0 then s.packetFilterRemaining else s.packetFilterRemaining - 1
        isTls := s.isTls || (decide (0 < s.packetFilterRemaining) && decide (6 ≤ data.length) &&
          isTlsHandshake data) } := by
  rw [filterTls_eq]
  by_cases hcount : s.packetFilterRemaining ≤ 0
  · have hpos : ¬ 0 < s.packetFilterRemaining := by omega
    simp [hcount, hpos]
  · have hpos : 0 < s.packetFilterRemaining := by omega
    simp [hcount, hpos]

theorem commandFor_handshake (s : VisionUplinkState) {data : Bytes} (h : isTlsHandshake data = true)
    (peer : Bool) : s.commandFor data peer = (.padding 0, ⟨s.traffic.filterTls data⟩) := by
  rw [VisionUplinkState.commandFor]
  exact if_pos h

/-- No chunk is taken for a ServerHello. -/
theorem commandFor_tls12 (s : VisionUplinkState) (data : Bytes) (peer : Bool) :
    (s.commandFor data peer).2.traffic.isTls12OrAbove = s.traffic.isTls12OrAbove := by
  have hfilter : (s.traffic.filterTls data).isTls12OrAbove = s.traffic.isTls12OrAbove := by
    rw [filterTls_record]
  rw [← hfilter, VisionUplinkState.commandFor]
  dsimp only
  split_ifs <;> rfl

theorem commandFor_isTls {s : VisionUplinkState} (h : s.traffic.isTls = true) (data : Bytes)
    (peer : Bool) : (s.commandFor data peer).2.traffic.isTls = true := by
  have hfilter : (s.traffic.filterTls data).isTls = true := by
    rw [filterTls_record]
    simp [h]
  rw [VisionUplinkState.commandFor]
  dsimp only
  split_ifs <;> exact hfilter

/-! ## Runs -/

theorem uplinkAfter_append (s : VisionUplinkState) (reads more : List Bytes) :
    uplinkAfter s (reads ++ more) = uplinkAfter (uplinkAfter s reads) more := by
  induction reads generalizing s with
  | nil => rfl
  | cons data reads ih => exact ih _

theorem uplinkAfter_plain {s : VisionUplinkState} (h : s.padding = false) (reads : List Bytes) :
    uplinkAfter s reads = s := by
  induction reads with
  | nil => rfl
  | cons data reads ih =>
    rw [uplinkAfter, h]
    exact ih

theorem uplinkAfter_tls12 (s : VisionUplinkState) (reads : List Bytes) :
    (uplinkAfter s reads).traffic.isTls12OrAbove = s.traffic.isTls12OrAbove := by
  induction reads generalizing s with
  | nil => rfl
  | cons data reads ih =>
    rw [uplinkAfter, ih]
    split
    · exact commandFor_tls12 s data false
    · rfl

/-- The uplink is the state after some reads, and goes on from there. -/
theorem bridgeUplink_append (s : VisionUplinkState) {before : List Bytes}
    (hne : ∀ data ∈ before, data ≠ []) (more : List Bytes) :
    bridgeUplink s (before ++ more) = bridgeUplink s before ++ bridgeUplink (uplinkAfter s before) more := by
  induction before generalizing s with
  | nil => rfl
  | cons data before ih =>
    have hrest := fun d hd => hne d (List.mem_cons_of_mem _ hd)
    have hdata := hne data List.mem_cons_self
    simp only [List.cons_append, bridgeUplink, uplinkAfter, if_neg hdata]
    by_cases hpad : s.padding = true
    · simp only [if_pos hpad, ih _ hrest, List.cons_append]
    · simp only [if_neg hpad, ih _ hrest, List.cons_append]

/-- As long as TLS is not noticed and the padding goes on, every read was the beginning of a
handshake record, and the first eight were too short to count. -/
theorem unnoticed {reads : List Bytes} (hpad : (uplinkAfter .new reads).padding = true)
    (htls : (uplinkAfter .new reads).traffic.isTls = false) :
    (uplinkAfter .new reads).traffic.packetFilterRemaining = max (8 - reads.length) 0 ∧
      (∀ data ∈ reads, isTlsHandshake data = true) ∧ ∀ data ∈ reads.take 8, data.length < 6 := by
  induction reads using List.reverseRecOn with
  | nil => exact ⟨rfl,fun _ h => absurd h List.not_mem_nil,fun _ h => absurd h List.not_mem_nil⟩
  | append_singleton reads data ih =>
    rw [uplinkAfter_append] at hpad htls ⊢
    generalize hs : uplinkAfter .new reads = s at *
    have hpads : s.padding = true := by
      by_contra hplain
      rw [Bool.not_eq_true] at hplain
      rw [uplinkAfter_plain hplain, hplain] at hpad
      cases hpad
    rw [uplinkAfter, uplinkAfter, if_pos hpads] at hpad htls ⊢
    have htlss : s.traffic.isTls = false := by
      by_contra htrue
      rw [Bool.not_eq_false] at htrue
      rw [commandFor_isTls htrue] at htls
      cases htls
    obtain ⟨hcount,hall,hshort⟩ := ih hpads htlss
    have hhello : isTlsHandshake data = true := by
      by_contra hplain
      rw [Bool.not_eq_true] at hplain
      obtain ⟨-,-,hended⟩ | ⟨htrue,-⟩ := commandFor_plain htlss data
      · rw [hended] at hpad
        cases hpad
      · exact absurd htrue (by simp [hplain])
    rw [commandFor_handshake s hhello] at htls ⊢
    rw [filterTls_record] at htls ⊢
    simp only [htlss, hhello, Bool.false_or, Bool.and_true, Bool.and_eq_false_iff,
      decide_eq_false_iff_not] at htls
    refine ⟨?_,?_,?_⟩
    · simp only [hcount, List.length_append, List.length_singleton]
      split <;> omega
    · rw [List.forall_mem_append, List.forall_mem_singleton]
      exact ⟨hall,hhello⟩
    · intro d hd
      rw [List.take_append, List.mem_append] at hd
      rcases hd with hd | hd
      · exact hshort d hd
      · have hd' := List.mem_of_mem_take hd
        have hroom : reads.length < 8 := by
          by_contra hfull
          rw [Nat.sub_eq_zero_of_le (by omega), List.take_zero] at hd
          cases hd
        rw [List.mem_singleton] at hd'
        subst hd'
        omega

/-! ## What a run should notice -/

def firstChunk (firstPayload : Option Bytes) : List Bytes := firstPayload.toList

/-- Blocks with command 0, then one with another command and plain chunks behind it. -/
def CommandsOrdered (writes : List UplinkWrite) : Prop :=
  ∃ (zeros plains : List Bytes) (last : List UplinkWrite),
    writes = zeros.map (fun data => .block (some data) 0 none) ++ last ++ plains.map .plain ∧
    (last = [] ∧ plains = [] ∨ ∃ data command, (command = 1 ∨ command = 2) ∧
      last = [.block (some data) command none])

/-- The uplink notices TLS before it classifies the next chunk, and a ServerHello at once;
and blocks with another command than 0 end the padding. -/
structure SeesUplink (uuid : Uuid) (firstPayload : Option Bytes) (reads : List Bytes) : Prop where
  tls : ∀ before data more, reads = before ++ data :: more →
    (uplinkAfter .new before).padding = true →
    HandshakeAmongEight (firstChunk firstPayload ++ before) →
    (uplinkAfter .new before).traffic.isTls = true
  serverHello : ∀ before more, reads = before ++ more →
    (∃ data ∈ firstChunk firstPayload ++ before, ServerHelloChunk data) →
    (uplinkAfter .new before).traffic.isTls12OrAbove = true
  commands : ∃ writes, bridgeVlessStream uuid firstPayload reads =
    .block firstPayload 0 (some uuid) :: writes ∧ CommandsOrdered writes

/-- The handshake is in the first payload, or behind eight reads that were too short. -/
def MissesHandshake (firstPayload : Option Bytes) (reads : List Bytes) : Prop :=
  (∃ data ∈ firstPayload, HandshakeChunk data) ∧ reads ≠ [] ∨
  ∃ shorts data next more, reads = shorts ++ data :: next :: more ∧ 8 ≤ shorts.length ∧
    (∀ d ∈ shorts, d.length < 6 ∧ isTlsHandshake d = true) ∧ HandshakeChunk data

theorem handshakeAmongEight_mem {chunks : List Bytes} (h : HandshakeAmongEight chunks) :
    ∃ data ∈ chunks, HandshakeChunk data := by
  obtain ⟨data,hdata,hhello⟩ := h
  have hfilter := List.mem_filter.mp (List.mem_of_mem_take hdata)
  exact ⟨data,hfilter.1,of_decide_eq_true hfilter.2,hhello⟩

theorem bridgeUplink_commands {s : VisionUplinkState} (hpad : s.padding = true) {reads : List Bytes}
    (hne : ∀ data ∈ reads, data ≠ []) : CommandsOrdered (bridgeUplink s reads) := by
  induction reads generalizing s with
  | nil => exact ⟨[],[],[],rfl,.inl ⟨rfl,rfl⟩⟩
  | cons data reads ih =>
    have hrest := fun d hd => hne d (List.mem_cons_of_mem _ hd)
    simp only [bridgeUplink, if_neg (hne data List.mem_cons_self), if_pos hpad]
    obtain ⟨hcmd,hnext,-⟩ | ⟨hcmd,hnext,-⟩ | ⟨hcmd,hnext,-⟩ := s.commandFor_cases data false
    · obtain ⟨zeros,plains,last,heq,hlast⟩ := ih (hnext.trans hpad) hrest
      exact ⟨data :: zeros,plains,last,by rw [hcmd, heq]; rfl,hlast⟩
    · exact ⟨[],reads,_,by rw [bridgeUplink_plain hnext hrest]; rfl,
        .inr ⟨data,_,.inl hcmd,rfl⟩⟩
    · exact ⟨[],reads,_,by rw [bridgeUplink_plain hnext hrest]; rfl,
        .inr ⟨data,_,.inr hcmd,rfl⟩⟩

/-- The state behind eight short beginnings of a record: the filter is used up. -/
theorem uplinkAfter_shorts {shorts : List Bytes}
    (h : ∀ d ∈ shorts, d.length < 6 ∧ isTlsHandshake d = true) :
    (uplinkAfter .new shorts).padding = true ∧ (uplinkAfter .new shorts).traffic.isTls = false := by
  induction shorts using List.reverseRecOn with
  | nil => exact ⟨rfl,rfl⟩
  | append_singleton shorts data ih =>
    obtain ⟨hfront,hdata⟩ := List.forall_mem_append.mp h
    obtain ⟨hlen,hhello⟩ := hdata data (List.mem_singleton_self data)
    obtain ⟨hpad,htls⟩ := ih hfront
    rw [uplinkAfter_append, uplinkAfter, uplinkAfter, if_pos hpad, commandFor_handshake _ hhello]
    have hlong : ¬ 6 ≤ data.length := Nat.not_le.mpr hlen
    refine ⟨?_,?_⟩
    · rw [VisionUplinkState.padding, VisionUplinkState.filterTls_uplink]
      exact hpad
    · rw [filterTls_record]
      simp [htls, hlong]

theorem not_sees_of_misses {uuid : Uuid} {firstPayload : Option Bytes} {reads : List Bytes}
    (h : MissesHandshake firstPayload reads) : ¬ SeesUplink uuid firstPayload reads := by
  intro hsees
  rcases h with ⟨⟨first,hfirst,hlen,hhello⟩,hreads⟩ | ⟨shorts,data,next,more,hreads,hcount,hshorts,hlen,hhello⟩
  · obtain ⟨data,more,rfl⟩ := List.exists_cons_of_ne_nil hreads
    have hamong : HandshakeAmongEight (firstChunk firstPayload ++ []) := by
      rw [Option.mem_def.mp hfirst]
      exact ⟨first,by simp [firstChunk, hlen],hhello⟩
    cases hsees.tls [] data more rfl rfl hamong
  · obtain ⟨hpad,htls⟩ := uplinkAfter_shorts hshorts
    have hused : (uplinkAfter .new shorts).traffic.packetFilterRemaining = 0 := by
      have hcounted := (unnoticed hpad htls).1
      omega
    have hstate : uplinkAfter .new (shorts ++ [data]) =
        ⟨(uplinkAfter .new shorts).traffic.filterTls data⟩ := by
      rw [uplinkAfter_append, uplinkAfter, uplinkAfter, if_pos hpad, commandFor_handshake _ hhello]
    have hpad' : (uplinkAfter .new (shorts ++ [data])).padding = true := by
      rw [hstate, VisionUplinkState.padding, VisionUplinkState.filterTls_uplink]
      exact hpad
    have hamong : HandshakeAmongEight (firstChunk firstPayload ++ (shorts ++ [data])) := by
      have hnone : shorts.filter (fun d => decide (6 ≤ d.length)) = [] := by
        rw [List.filter_eq_nil_iff]
        intro d hd
        have hshort := (hshorts d hd).1
        simp only [decide_eq_true_eq]
        omega
      refine ⟨data,?_,hhello⟩
      rw [List.filter_append, List.filter_append, hnone, List.nil_append]
      cases firstPayload with
      | none => simp [firstChunk, hlen]
      | some first =>
        by_cases hfirst : 6 ≤ first.length
        · simp [firstChunk, hlen, hfirst]
        · simp [firstChunk, hlen, hfirst]
    have htls' := hsees.tls (shorts ++ [data]) next more (by rw [hreads]; simp) hpad' hamong
    rw [hstate, filterTls_record] at htls'
    simp [htls, hused] at htls'

/-- The uplink sees what it should exactly if no handshake is missed and no chunk is a
ServerHello. -/
theorem sees_uplink_iff (uuid : Uuid) (firstPayload : Option FirstPayload) (reads : List LocalRead) :
    SeesUplink uuid (firstPayload.map (·.1)) (reads.map (·.1)) ↔
      ¬ MissesHandshake (firstPayload.map (·.1)) (reads.map (·.1)) ∧
      ∀ data ∈ firstChunk (firstPayload.map (·.1)) ++ reads.map (·.1), ¬ ServerHelloChunk data := by
  have hne : ∀ data ∈ reads.map (·.1), data ≠ [] := by
    intro data hdata
    obtain ⟨read,-,rfl⟩ := List.mem_map.mp hdata
    exact List.ne_nil_of_length_pos read.2.1
  generalize firstPayload.map (·.1) = firstPayload
  generalize reads.map (·.1) = reads at hne
  constructor
  · refine fun h => ⟨fun hmiss => not_sees_of_misses hmiss h,fun data hdata hhello => ?_⟩
    have hset := h.serverHello reads [] (List.append_nil _).symm ⟨data,hdata,hhello⟩
    rw [uplinkAfter_tls12] at hset
    cases hset
  · rintro ⟨hmiss,hnone⟩
    refine ⟨?_,?_,?_⟩
    · intro before data more heq hpad hamong
      by_contra htls
      rw [Bool.not_eq_true] at htls
      obtain ⟨-,hall,hshort⟩ := unnoticed hpad htls
      obtain ⟨chunk,hchunk,hhello⟩ := handshakeAmongEight_mem hamong
      rcases List.mem_append.mp hchunk with hfirst | hread
      · refine hmiss (.inl ⟨⟨chunk,Option.mem_toList.mp hfirst,hhello⟩,?_⟩)
        rw [heq]
        simp
      · -- the first read that is long enough comes behind eight that are not
        have hlong : ¬ ∀ d ∈ before, d.length < 6 := fun h =>
          Nat.not_le.mpr (h chunk hread) hhello.1
        obtain ⟨shorts,first,rest,hbefore,hshorts,hfirst⟩ := exists_first hlong
        have hcount : 8 ≤ shorts.length := by
          by_contra hfew
          obtain ⟨k,hk⟩ : ∃ k, 8 - shorts.length = k+1 := ⟨7 - shorts.length,by omega⟩
          refine hfirst (hshort first ?_)
          rw [hbefore, List.take_append, hk]
          simp
        have hmem (d : Bytes) (hd : d ∈ shorts) : isTlsHandshake d = true :=
          hall d (by rw [hbefore]; exact List.mem_append_left _ hd)
        have hfirst' : HandshakeChunk first :=
          ⟨Nat.not_lt.mp hfirst,hall first (by rw [hbefore]; simp)⟩
        cases rest with
        | nil =>
          refine hmiss (.inr ⟨shorts,first,data,more,?_,hcount,
            fun d hd => ⟨hshorts d hd,hmem d hd⟩,hfirst'⟩)
          rw [heq, hbefore]
          simp
        | cons next rest =>
          refine hmiss (.inr ⟨shorts,first,next,rest ++ data :: more,?_,hcount,
            fun d hd => ⟨hshorts d hd,hmem d hd⟩,hfirst'⟩)
          rw [heq, hbefore]
          simp
    · rintro before more rfl ⟨data,hdata,hhello⟩
      refine absurd hhello (hnone data ?_)
      simp only [List.mem_append] at hdata ⊢
      tauto
    · exact ⟨_,rfl,bridgeUplink_commands rfl hne⟩

/-- A ClientHello that is read first, and what comes next: the block behind it ends the padding
with command 1. -/
theorem first_payload_unseen :
    bridgeVlessStream (Vector.replicate 16 7) (some [0x16, 0x03, 0x01, 0x00, 0x01, 0x01])
        [[0x14, 0x03, 0x03, 0x00, 0x01, 0x01]] =
      [.block (some [0x16, 0x03, 0x01, 0x00, 0x01, 0x01]) 0 (some (Vector.replicate 16 7)),
        .block (some [0x14, 0x03, 0x03, 0x00, 0x01, 0x01]) 1 none] ∧
    ¬ SeesUplink (Vector.replicate 16 7) (some [0x16, 0x03, 0x01, 0x00, 0x01, 0x01])
        [[0x14, 0x03, 0x03, 0x00, 0x01, 0x01]] := by
  refine ⟨by decide +kernel,not_sees_of_misses (.inl ⟨⟨_,rfl,?_⟩,?_⟩)⟩
  · exact ⟨by decide,by decide⟩
  · exact List.cons_ne_nil _ _

end AtlasKernel.Vless
