import AtlasKernel.Shadowsocks.TlsTicketHandshake

/-! The record layer of `tls1.2_ticket`: how a payload is cut into application records, and
what the reader's loop gets out of bytes that come in pieces.
Source: `ssr_tls_ticket_records` and `ssr_tls_ticket_drain_records` in
`shadowsocks/ssr/obfs/tls_ticket.rs`. -/
namespace AtlasKernel.Shadowsocks
open AtlasKernel.Lib

/-- The records of these bodies. -/
def packed (bodies : List Bytes) : Bytes := bodies.flatMap ssrTlsTicketPackRecord

@[simp] theorem packed_nil : packed [] = [] := rfl

@[simp] theorem packed_cons (body : Bytes) (bodies : List Bytes) :
    packed (body :: bodies) = ssrTlsTicketPackRecord body ++ packed bodies := List.flatMap_cons

@[simp] theorem packRecord_length (body : Bytes) :
    (ssrTlsTicketPackRecord body).length = 5 + body.length := by
  simp only [ssrTlsTicketPackRecord, List.length_append, List.length_cons, List.length_nil,
    be16_length]

/-- The two bytes of a record's length. -/
def lengthField (record : Bytes) : Nat := ofBe16 (record.getD 3 0) (record.getD 4 0)

theorem packRecord_field {body : Bytes} (h : body.length < 65536) :
    lengthField (ssrTlsTicketPackRecord body) = body.length := ofBe16_of_lt h

theorem appRecords_packed {bodies : List Bytes} (h : ∀ body ∈ bodies, body.length < 65536) :
    AppRecords (packed bodies) bodies.flatten := by
  induction bodies with
  | nil => exact .nil
  | cons body bodies ih =>
    rw [packed_cons, List.flatten_cons]
    exact .cons (h body List.mem_cons_self) (ih fun b hb => h b (List.mem_cons_of_mem _ hb))

/-! ## The records of a payload -/

/-- How the loop cuts: every piece but the last has at least a hundred bytes. -/
structure Cut (bodies : List Bytes) (payload : Bytes) : Prop where
  whole : bodies.flatten = payload
  fits : ∀ body ∈ bodies, body ≠ [] ∧ body.length < 65536
  few : 100 * bodies.length ≤ payload.length + 99

theorem Cut.nil : Cut [] [] where
  whole := rfl
  fits := fun _ hbody => absurd hbody List.not_mem_nil
  few := Nat.zero_le _

theorem Cut.last {payload : Bytes} (hne : payload ≠ []) (h : payload.length < 65536) :
    Cut [payload] payload where
  whole := List.flatten_singleton
  fits := by
    intro body hbody
    rw [List.mem_singleton.mp hbody]
    exact ⟨hne,h⟩
  few := by
    have hpos := List.length_pos_of_ne_nil hne
    rw [List.length_singleton]
    omega

theorem Cut.cons {size : Nat} {bodies : List Bytes} {remaining : Bytes}
    (h : Cut bodies (remaining.drop size)) (hmin : 100 ≤ size) (hle : size ≤ remaining.length)
    (hmax : size < 65536) : Cut (remaining.take size :: bodies) remaining where
  whole := by rw [List.flatten_cons, h.whole, List.take_append_drop]
  fits := by
    intro body hbody
    cases List.mem_cons.mp hbody with
    | inl heq =>
      subst heq
      have hlength : (remaining.take size).length = size := by
        rw [List.length_take, Nat.min_eq_left hle]
      refine ⟨?_,by rw [hlength]; exact hmax⟩
      intro hnil
      rw [hnil, List.length_nil] at hlength
      omega
    | inr hmem => exact h.fits body hmem
  few := by
    have hfew := h.few
    rw [List.length_drop] at hfew
    rw [List.length_cons]
    omega

theorem ssrTlsTicketRecords_cut (draw : Nat → UInt16) (randomChunks : Bool) (payload : Bytes) :
    ∃ bodies, ssrTlsTicketRecords draw randomChunks payload = packed bodies ∧ Cut bodies payload := by
  induction draw, payload using ssrTlsTicketRecords.induct randomChunks with
  | case1 draw remaining hlong size ih =>
    obtain ⟨bodies,heq,hcut⟩ := ih
    have hdrawn : 100 ≤ (if randomChunks then (draw 0).toNat % 4096 + 100 else 2048) ∧
        (if randomChunks then (draw 0).toNat % 4096 + 100 else 2048) < 65536 := by
      split <;> omega
    have hsize : 100 ≤ size ∧ size ≤ remaining.length ∧ size < 65536 := by
      refine ⟨Nat.le_min.mpr ⟨hdrawn.1,by omega⟩,Nat.min_le_right ..,?_⟩
      exact (Nat.min_le_left ..).trans_lt hdrawn.2
    refine ⟨remaining.take size :: bodies,?_,hcut.cons hsize.1 hsize.2.1 hsize.2.2⟩
    rw [ssrTlsTicketRecords, dif_pos hlong, packed_cons, ← heq]
    rfl
  | case2 draw remaining hshort hne =>
    refine ⟨[remaining],?_,.last hne (by omega)⟩
    rw [ssrTlsTicketRecords, dif_neg hshort, if_pos hne, packed_cons, packed_nil, List.append_nil]
  | case3 draw remaining hshort hnil =>
    obtain rfl := not_not.mp hnil
    exact ⟨[],ssrTlsTicketRecords_nil ..,.nil⟩

/-! ## Bytes that come in pieces -/

/-- What is behind the last whole record does not begin like one. -/
def Foreign (rest : Bytes) : Prop := 5 ≤ rest.length ∧ rest.take 3 ≠ [0x17, 0x03, 0x03]

theorem Foreign.append {rest : Bytes} (h : Foreign rest) (more : Bytes) : Foreign (rest ++ more) := by
  have hfive := h.1
  refine ⟨?_,?_⟩
  · rw [List.length_append]
    omega
  · rw [List.take_append_of_le_length (by omega)]
    exact h.2

def invalidHeader : IoError :=
  ⟨.invalidData, "ShadowsocksR TLS ticket record header is invalid"⟩

theorem Foreign.drain {rest : Bytes} (h : Foreign rest) (output : Bytes) :
    drainOutcome rest output = (.error invalidHeader, [], output) := by
  rw [drainOutcome, ssrTlsTicketDrainRecords, dif_neg (Nat.not_lt.mpr h.1), if_pos h.2]
  rfl

theorem Unfinished.outcome {rest : Bytes} (h : Unfinished rest) (output : Bytes) :
    drainOutcome rest output = (.ok (), rest, output) := by
  rw [drainOutcome, h.drain]
  rfl

theorem unfinished_nil : Unfinished [] := .inl (Nat.zero_lt_succ 4)

/-- Whole records, and what stops the loop. -/
theorem records_then (raw : Bytes) : ∃ bodies rest, raw = packed bodies ++ rest ∧
    (∀ body ∈ bodies, body.length < 65536) ∧ (Unfinished rest ∨ Foreign rest) := by
  induction hn : raw.length using Nat.strong_induction_on generalizing raw with
  | _ n ih =>
    by_cases hshort : raw.length < 5
    · exact ⟨[],raw,rfl,fun _ hbody => absurd hbody List.not_mem_nil,.inl (.inl hshort)⟩
    by_cases hhead : raw.take 3 = [0x17, 0x03, 0x03]
    · by_cases hwait : raw.length < 5 + ofBe16 (raw.getD 3 0) (raw.getD 4 0)
      · exact ⟨[],raw,rfl,fun _ hbody => absurd hbody List.not_mem_nil,.inl (.inr ⟨hhead,hwait⟩)⟩
      · obtain ⟨size,hfirst⟩ : ∃ size, RecordFirst raw size := ⟨_,hhead,rfl,Nat.not_lt.mp hwait⟩
        obtain ⟨hpacked,hlt⟩ := hfirst.packed
        have hshorter : (raw.drop size).length < n := by
          have hsize := hfirst.2.1
          rw [List.length_drop]
          omega
        obtain ⟨bodies,rest,hrest,hfits,hstop⟩ := ih _ hshorter (raw.drop size) rfl
        refine ⟨(raw.take size).drop 5 :: bodies,rest,?_,?_,hstop⟩
        · rw [packed_cons, List.append_assoc, ← hrest]
          exact hpacked
        · intro body hbody
          cases List.mem_cons.mp hbody with
          | inl heq => exact heq ▸ hlt
          | inr hmem => exact hfits body hmem
    · exact ⟨[],raw,rfl,fun _ hbody => absurd hbody List.not_mem_nil,
        .inr ⟨Nat.not_lt.mp hshort,hhead⟩⟩

/-- The reader: what comes goes behind the raw bytes, and the whole records are drained. -/
def ssrTlsTicketDrainPieces : List Bytes → Bytes → Bytes → IoResult Unit × Bytes × Bytes
  | [], raw, output => (.ok (), raw, output)
  | piece :: pieces, raw, output =>
    match ssrTlsTicketDrainRecords (raw ++ piece) output false with
    | (.ok _, raw, output) => ssrTlsTicketDrainPieces pieces raw output
    | (.error err, raw, output) => (.error err, raw, output)

theorem drainPieces_cons (piece : Bytes) (pieces : List Bytes) (raw output : Bytes) :
    ssrTlsTicketDrainPieces (piece :: pieces) raw output =
      match drainOutcome (raw ++ piece) output with
      | (.ok (), raw, output) => ssrTlsTicketDrainPieces pieces raw output
      | (.error err, raw, output) => (.error err, raw, output) := by
  rw [ssrTlsTicketDrainPieces, drainOutcome]
  generalize ssrTlsTicketDrainRecords (raw ++ piece) output false = r
  obtain ⟨_ | _,_,_⟩ := r <;> rfl

/-- However the bytes are cut, the result is that of all of them at once. -/
theorem drainPieces_flatten {raw : Bytes} (h : Unfinished raw) (pieces : List Bytes) (output : Bytes) :
    ssrTlsTicketDrainPieces pieces raw output = drainOutcome (raw ++ pieces.flatten) output := by
  induction pieces generalizing raw output with
  | nil =>
    rw [List.flatten_nil, List.append_nil, h.outcome]
    rfl
  | cons piece pieces ih =>
    obtain ⟨bodies,rest,hparts,hfits,hstop⟩ := records_then (raw ++ piece)
    have hrecords := appRecords_packed hfits
    rw [drainPieces_cons, List.flatten_cons, ← List.append_assoc, hparts, List.append_assoc,
      hrecords.outcome, hrecords.outcome]
    obtain hwait | hforeign := hstop
    · rw [hwait.outcome]
      exact ih hwait _
    · rw [hforeign.drain, (hforeign.append _).drain]

/-- What becomes of a stream: the bodies of its whole records are put out. What is behind them
stays in the raw buffer, or is no record. -/
def Drained (wire output : Bytes) (r : IoResult Unit × Bytes × Bytes) : Prop :=
  ∃ bodies rest, wire = packed bodies ++ rest ∧ (∀ body ∈ bodies, body.length < 65536) ∧
    (Unfinished rest ∧ r = (.ok (), rest, output ++ bodies.flatten) ∨
      Foreign rest ∧ r = (.error invalidHeader, [], output ++ bodies.flatten))

theorem drainPieces_drained (pieces : List Bytes) (output : Bytes) :
    Drained pieces.flatten output (ssrTlsTicketDrainPieces pieces [] output) := by
  obtain ⟨bodies,rest,hparts,hfits,hstop⟩ := records_then pieces.flatten
  refine ⟨bodies,rest,hparts,hfits,?_⟩
  rw [drainPieces_flatten unfinished_nil, List.nil_append, hparts, (appRecords_packed hfits).outcome]
  obtain hwait | hforeign := hstop
  · exact .inl ⟨hwait,hwait.outcome _⟩
  · exact .inr ⟨hforeign,hforeign.drain _⟩

/-! ## A payload that arrives -/

/-- The front of a record is less than a record. -/
theorem unfinished_front {wire body more : Bytes} (h : wire <+: ssrTlsTicketPackRecord body ++ more)
    (hfits : body.length < 65536) (hshort : wire.length < 5 + body.length) : Unfinished wire := by
  by_cases hfive : wire.length < 5
  · exact .inl hfive
  · obtain ⟨tail,htail⟩ := h
    have hfirst := recordFirst_pack hfits more
    rw [← htail] at hfirst
    obtain ⟨hhead,hsize,_⟩ := hfirst
    rw [List.take_append_of_le_length (by omega)] at hhead
    rw [List.getD_append _ _ _ _ (by omega), List.getD_append _ _ _ _ (by omega)] at hsize
    exact .inr ⟨hhead,hsize ▸ hshort⟩

/-- A cut through records leaves whole ones and the front of the next. -/
theorem packed_front {bodies : List Bytes} (hfits : ∀ body ∈ bodies, body.length < 65536) {wire : Bytes}
    (h : wire <+: packed bodies) :
    ∃ k rest, wire = packed (bodies.take k) ++ rest ∧ Unfinished rest := by
  induction bodies generalizing wire with
  | nil =>
    obtain rfl := List.prefix_nil.mp h
    exact ⟨0,[],rfl,unfinished_nil⟩
  | cons body bodies ih =>
    have hbody := hfits body List.mem_cons_self
    rw [packed_cons] at h
    by_cases hshort : wire.length < 5 + body.length
    · exact ⟨0,wire,rfl,unfinished_front h hbody hshort⟩
    · have hlong : (ssrTlsTicketPackRecord body).length ≤ wire.length := by
        rw [packRecord_length]
        omega
      obtain ⟨later,rfl⟩ := List.prefix_of_prefix_length_le (List.prefix_append _ _) h hlong
      rw [List.prefix_append_right_inj] at h
      obtain ⟨k,rest,rfl,hrest⟩ := ih (fun b hb => hfits b (List.mem_cons_of_mem _ hb)) h
      refine ⟨k+1,rest,?_,hrest⟩
      rw [List.take_succ_cons, packed_cons, List.append_assoc]

/-- The records of a payload are whole and say how long they are. However they come, the reader
has put out what the whole ones carry, and keeps the front of the next: in the end it has put
out the payload. Of anything else it puts out no more than the bodies of whole records. -/
theorem tlsTicket_record_layer (draw : Nat → UInt16) (randomChunks : Bool) (payload : Bytes) :
    (∃ bodies, ssrTlsTicketRecords draw randomChunks payload = packed bodies ∧ Cut bodies payload ∧
      (∀ body ∈ bodies, lengthField (ssrTlsTicketPackRecord body) = body.length) ∧
      ∀ pieces output, pieces.flatten <+: ssrTlsTicketRecords draw randomChunks payload →
        ∃ k rest, pieces.flatten = packed (bodies.take k) ++ rest ∧ Unfinished rest ∧
          ssrTlsTicketDrainPieces pieces [] output =
            (.ok (), rest, output ++ (bodies.take k).flatten)) ∧
    (∀ pieces output, pieces.flatten = ssrTlsTicketRecords draw randomChunks payload →
      ssrTlsTicketDrainPieces pieces [] output = (.ok (), [], output ++ payload)) ∧
    ∀ pieces output, Drained pieces.flatten output (ssrTlsTicketDrainPieces pieces [] output) := by
  refine ⟨?_,?_,drainPieces_drained⟩
  · obtain ⟨bodies,hrecords,hcut⟩ := ssrTlsTicketRecords_cut draw randomChunks payload
    have hfits : ∀ body ∈ bodies, body.length < 65536 := fun body hbody => (hcut.fits body hbody).2
    refine ⟨bodies,hrecords,hcut,fun body hbody => packRecord_field (hfits body hbody),?_⟩
    intro pieces output hprefix
    rw [hrecords] at hprefix
    obtain ⟨k,rest,hparts,hrest⟩ := packed_front hfits hprefix
    refine ⟨k,rest,hparts,hrest,?_⟩
    have htake : ∀ body ∈ bodies.take k, body.length < 65536 := fun body hbody =>
      hfits body (List.mem_of_mem_take hbody)
    rw [drainPieces_flatten unfinished_nil, List.nil_append, hparts, (appRecords_packed htake).outcome,
      hrest.outcome]
  · intro pieces output hpieces
    have hcarry := ssrTlsTicketRecords_carry draw randomChunks payload
    have hall := hcarry.outcome [] output
    rw [List.append_nil] at hall
    rw [drainPieces_flatten unfinished_nil, List.nil_append, hpieces, hall, unfinished_nil.outcome]

end AtlasKernel.Shadowsocks
