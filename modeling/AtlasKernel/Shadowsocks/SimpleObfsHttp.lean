import AtlasKernel.Shadowsocks.PendingWrite

/-! The download half of simple-obfs HTTP: the stream reads until it has the response
header, drops it, and from then on hands out the inner stream.
Source: `shadowsocks/obfs.rs`. -/
namespace AtlasKernel.Shadowsocks
open AtlasKernel.Lib

def headerTerminator : Bytes := [13, 10, 13, 10]

/-- `buffer.windows(4).position(|window| window == b"\r\n\r\n")` -/
def findHeaderEnd : Bytes → Option Nat
  | [] => none
  | b :: bs =>
    if (b::bs).take 4 = headerTerminator then some 0 else (findHeaderEnd bs).map (· + 1)

structure SimpleObfsHttpStream where
  inner : Source UInt8
  firstResponse : Bool
  readBuffer : Bytes
deriving DecidableEq, Repr

namespace SimpleObfsHttpStream

def new (inner : Source UInt8) : SimpleObfsHttpStream := ⟨inner, true, []⟩

/-- The loop state: the read buffer, and where the header ends once that is seen. -/
def responseWant (s : Bytes × Option Nat) : Option Nat :=
  match s.2 with
  | some _ => none
  | none => some 8192

@[simp] theorem responseWant_none (buffer : Bytes) : responseWant (buffer, none) = some 8192 := rfl
@[simp] theorem responseWant_some (buffer : Bytes) (n : Nat) :
    responseWant (buffer, some n) = none := rfl

def responseFeed (s : Bytes × Option Nat) (filled : Bytes) : Bytes × Option Nat :=
  (s.1 ++ filled, findHeaderEnd (s.1 ++ filled))

/-- The loop of `poll_read`, entered while the header is awaited. -/
def readResponse (s : SimpleObfsHttpStream) (room : Nat) :
    Poll (IoResult Bytes) × SimpleObfsHttpStream :=
  match readLoop responseWant responseFeed (s.readBuffer, none) s.inner with
  | (.pending, (buffer, _), inner) => (.pending, { s with inner := inner, readBuffer := buffer })
  | (.failed err, (buffer, _), inner) =>
    (.ready (.error err), { s with inner := inner, readBuffer := buffer })
  | (.eof, (buffer, _), inner) =>
    (.ready (.error ⟨.unexpectedEof, "simple-obfs HTTP response ended before headers"⟩),
      { s with inner := inner, readBuffer := buffer })
  | (.done, (buffer, headerEnd), inner) =>
    let body := buffer.drop (headerEnd.getD 0 + 4)
    match drainBuffer body room with
    | some (out, rest) => (.ready (.ok out), ⟨inner, false, rest⟩)
    | none => (.ready (.ok []), ⟨inner, false, body⟩)

def pollRead (s : SimpleObfsHttpStream) (room : Nat) :
    Poll (IoResult Bytes) × SimpleObfsHttpStream :=
  match drainBuffer s.readBuffer room with
  | some (out, rest) => (.ready (.ok out), { s with readBuffer := rest })
  | none =>
    if s.firstResponse then s.readResponse room
    else
      let r := Lib.pollRead room s.inner
      (r.1, { s with inner := r.2 })

end SimpleObfsHttpStream

/-- The upload half. -/
structure SimpleObfsHttpUpload where
  inner : Sink UInt8
  firstRequest : Bool
  pendingWrite : Option PendingWrite
deriving DecidableEq, Repr

namespace SimpleObfsHttpUpload

/-- `poll_write` behind the pending write; `request` is `http_obfs_request` for this host and
port. -/
def writeRest (request : Bytes → Bytes) (s : SimpleObfsHttpUpload) (buf : Bytes) :
    Poll (IoResult Nat) × SimpleObfsHttpUpload :=
  if s.firstRequest then
    let r := (PendingWrite.new (request buf) buf.length).resume s.inner
    (r.1, ⟨r.2.2, false, r.2.1⟩)
  else
    let r := s.inner.pollWrite buf
    (r.1, { s with inner := r.2 })

def pollWrite (request : Bytes → Bytes) (s : SimpleObfsHttpUpload) (buf : Bytes) :
    Poll (IoResult Nat) × SimpleObfsHttpUpload :=
  match takePending s.pendingWrite s.inner with
  | (none, pending, inner) => writeRest request { s with inner := inner, pendingWrite := pending } buf
  | (some (.ready (.ok 0)), pending, inner) =>
    writeRest request { s with inner := inner, pendingWrite := pending } buf
  | (some r, pending, inner) => (r, { s with inner := inner, pendingWrite := pending })

end SimpleObfsHttpUpload

namespace SimpleObfsHttpStream

/-! ## The header -/

/-- `h` ends at its first `CRLF CRLF`. -/
def IsHeader (h : Bytes) : Prop := ∃ n, findHeaderEnd h = some n ∧ h.length = n+4

theorem findHeaderEnd_le {bs : Bytes} {n : Nat} (h : findHeaderEnd bs = some n) :
    n+4 ≤ bs.length := by
  induction bs generalizing n with
  | nil => cases h
  | cons b bs ih =>
    simp only [findHeaderEnd] at h
    split at h
    · rename_i ht
      cases h
      have hlen := congrArg List.length ht
      simp [headerTerminator] at hlen
      simp; omega
    · obtain ⟨m,hm,rfl⟩ := Option.map_eq_some_iff.mp h
      have := ih hm
      simp; omega

/-- What follows does not move the first occurrence. -/
theorem findHeaderEnd_append {bs : Bytes} {n : Nat} (h : findHeaderEnd bs = some n)
    (more : Bytes) : findHeaderEnd (bs ++ more) = some n := by
  induction bs generalizing n with
  | nil => cases h
  | cons b bs ih =>
    have hlen := findHeaderEnd_le h
    have htake : (b :: (bs ++ more)).take 4 = (b::bs).take 4 := by
      rw [← List.cons_append, List.take_append_of_le_length (by omega)]
    simp only [findHeaderEnd, List.cons_append, htake] at h ⊢
    split
    · rename_i ht
      simpa [ht] using h
    · rename_i ht
      simp only [if_neg ht] at h
      obtain ⟨m,hm,rfl⟩ := Option.map_eq_some_iff.mp h
      rw [ih hm]
      rfl

/-- A part of the header does not show its end. -/
theorem IsHeader.part {h got : Bytes} (hh : IsHeader h) (hpre : got <+: h)
    (hlt : got.length < h.length) : findHeaderEnd got = none := by
  obtain ⟨n,hn,hlen⟩ := hh
  obtain ⟨more,rfl⟩ := hpre
  cases hg : findHeaderEnd got with
  | none => rfl
  | some m =>
    have hle := findHeaderEnd_le hg
    rw [findHeaderEnd_append hg more] at hn
    cases hn
    omega

theorem IsHeader.whole {h : Bytes} (hh : IsHeader h) (more : Bytes) :
    ∃ n, findHeaderEnd (h ++ more) = some n ∧ (h ++ more).drop (n+4) = more := by
  obtain ⟨n,hn,hlen⟩ := hh
  exact ⟨n,findHeaderEnd_append hn more,by rw [← hlen, List.drop_left]⟩

/-! ## Runs -/

/-- How the inner stream delivers a header of length `len`, `n` bytes of which have been
read: no `Pending` after the first of them, and the read that brings the last byte
brings a byte of the body too, or reaches the end of the stream. -/
inductive HeaderArrives (len : Nat) : Nat → Source UInt8 → Prop where
  | wait {src} : HeaderArrives len 0 src → HeaderArrives len 0 (.pending :: src)
  | part {n src p src'} : Lib.pollRead 8192 src = (.ready (.ok p), src') → n+p.length < len →
      HeaderArrives len (n+p.length) src' → HeaderArrives len n src
  | last {n src p src'} : Lib.pollRead 8192 src = (.ready (.ok p), src') → len < n+p.length →
      HeaderArrives len n src
  | atEnd {n src p} : Lib.pollRead 8192 src = (.ready (.ok p), []) → len = n+p.length →
      HeaderArrives len n src
  | failed {n src e} : HeaderArrives len n (.fail e :: src)

/-- A read of the header hands out something. -/
theorem header_read {h body got p : Bytes} {src src' : Source UInt8}
    (hsrc : got ++ sourceBytes src = h ++ body) (hgot : got.length < h.length)
    (hr : Lib.pollRead 8192 src = (.ready (.ok p), src')) :
    p ≠ [] ∧ (got ++ p) ++ sourceBytes src' = h ++ body := by
  obtain ⟨hb,_,_,hempty⟩ := pollRead_ok hr
  refine ⟨?_,by rw [← hsrc, hb, List.append_assoc]⟩
  intro hp
  obtain ⟨_,rfl | h0⟩ := hempty hp
  · have hlen := congrArg List.length hsrc
    simp at hlen
    omega
  · cases h0

/-- The read that brings the last byte of the header ends the loop. -/
theorem responseLoop_last {h body got p : Bytes} {src src' : Source UInt8} (hh : IsHeader h)
    (hsrc : got ++ sourceBytes src = h ++ body) (hgot : got.length < h.length)
    (hr : Lib.pollRead 8192 src = (.ready (.ok p), src')) (hle : h.length ≤ got.length+p.length) :
    ∃ b headerEnd, readLoop responseWant responseFeed (got, none) src =
        (.done, (h ++ b, some headerEnd), src') ∧ (h ++ b).drop (headerEnd+4) = b ∧
      b ++ sourceBytes src' = body ∧ h.length+b.length = got.length+p.length := by
  obtain ⟨hp,hcat⟩ := header_read hsrc hgot hr
  have hpre : h <+: got ++ p :=
    List.prefix_of_prefix_length_le ⟨body,hcat.symm⟩ (List.prefix_append ..)
      (by rw [List.length_append]; exact hle)
  obtain ⟨b,hb⟩ := hpre
  obtain ⟨headerEnd,hfound,hdrop⟩ := hh.whole b
  refine ⟨b,headerEnd,?_,hdrop,?_,?_⟩
  · have hfeed : responseFeed (got, none) p = (h ++ b, some headerEnd) := by
      simp only [responseFeed, ← hb, hfound]
    rw [readLoop_feed (responseWant_none got) hr hp, hfeed,
      readLoop_done responseFeed src' (responseWant_some ..)]
  · rw [← hb, List.append_assoc] at hcat
    exact List.append_cancel_left hcat
  · rw [← List.length_append, hb, List.length_append]

/-- What the loop leaves behind when it starts with `got`, a part of the header: the
header and some of the body, or a `Pending` from before the first byte, or an error. -/
theorem responseLoop_cases {h body got : Bytes} {n : Nat} {src : Source UInt8}
    (hh : IsHeader h) (harr : HeaderArrives h.length n src) (hn : got.length = n)
    (hlt : n < h.length) (hsrc : got ++ sourceBytes src = h ++ body) :
    (∃ b headerEnd src', readLoop responseWant responseFeed (got, none) src =
        (.done, (h ++ b, some headerEnd), src') ∧ (h ++ b).drop (headerEnd+4) = b ∧
      b ++ sourceBytes src' = body ∧ (b = [] → src' = [])) ∨
    (∃ src', readLoop responseWant responseFeed (got, none) src = (.pending, ([], none), src') ∧
      HeaderArrives h.length 0 src' ∧ sourceBytes src' = h ++ body) ∨
    (∃ e s' src', readLoop responseWant responseFeed (got, none) src = (.failed e, s', src') ∧
      s'.1 ++ sourceBytes src' = h ++ body) := by
  induction harr generalizing got with
  | wait harr _ =>
    obtain rfl := List.length_eq_zero_iff.mp hn
    exact .inr (.inl ⟨_,readLoop_pending responseFeed rfl rfl,harr,hsrc⟩)
  | @part n src p src' hr hlt' _ ih =>
    subst hn
    obtain ⟨hp,hcat⟩ := header_read hsrc hlt hr
    have hpre : got ++ p <+: h :=
      List.prefix_of_prefix_length_le ⟨_,hcat⟩ (List.prefix_append h body)
        (by rw [List.length_append]; omega)
    have hnone : findHeaderEnd (got ++ p) = none :=
      hh.part hpre (by rw [List.length_append]; exact hlt')
    have hfeed : responseFeed (got, none) p = (got ++ p, none) := by
      simp only [responseFeed, hnone]
    rw [readLoop_feed (responseWant_none got) hr hp, hfeed]
    exact ih (List.length_append ..) hlt' hcat
  | @last n src p src' hr hlt' =>
    subst hn
    obtain ⟨b,headerEnd,hloop,hdrop,hbody,hlen⟩ :=
      responseLoop_last hh hsrc hlt hr (Nat.le_of_lt hlt')
    refine .inl ⟨b,headerEnd,src',hloop,hdrop,hbody,?_⟩
    intro hb
    rw [hb, List.length_nil] at hlen
    omega
  | @atEnd n src p hr heq =>
    subst hn
    obtain ⟨b,headerEnd,hloop,hdrop,hbody,_⟩ :=
      responseLoop_last hh hsrc hlt hr (Nat.le_of_eq heq)
    exact .inl ⟨b,headerEnd,[],hloop,hdrop,hbody,fun _ => rfl⟩
  | @failed n src e => exact .inr (.inr ⟨e,_,_,readLoop_error responseFeed rfl rfl,hsrc⟩)

/-- What a reader has got is always a beginning of the body, and all of it once every
byte of the stream is read and handed on; an empty read means that the inner stream has
ended. -/
def BodyExact (body : Bytes) (s : ReadSession SimpleObfsHttpStream UInt8) : Prop :=
  s.delivered <+: body ∧
  (sourceBytes s.stream.inner = [] → s.stream.readBuffer = [] → s.delivered = body) ∧
  (s.last = some (.ready (.ok [])) → s.stream.inner = [])

instance (body : Bytes) (s : ReadSession SimpleObfsHttpStream UInt8) :
    Decidable (BodyExact body s) :=
  inferInstanceAs (Decidable (_ ∧ (_ → _ → _) ∧ (_ → _)))

/-- The header is still to come, or it is gone and nothing of the body is lost. -/
inductive Phase (h body got : Bytes) : SimpleObfsHttpStream → Prop where
  | header {src} : got = [] → HeaderArrives h.length 0 src → sourceBytes src = h ++ body →
      Phase h body got ⟨src,true,[]⟩
  | body {src buffer} : got ++ (buffer ++ sourceBytes src) = body →
      Phase h body got ⟨src,false,buffer⟩

def Inv (h body : Bytes) (s : ReadSession SimpleObfsHttpStream UInt8) : Prop :=
  (s.failed = false → Phase h body s.delivered s.stream) ∧ BodyExact body s

theorem IsHeader.length_pos {h : Bytes} (hh : IsHeader h) : 0 < h.length := by
  obtain ⟨n,_,hlen⟩ := hh
  omega

theorem IsHeader.append_ne_nil {h : Bytes} (hh : IsHeader h) (body : Bytes) : h ++ body ≠ [] := by
  intro hnil
  have hpos := hh.length_pos
  rw [(List.append_eq_nil_iff.mp hnil).1] at hpos
  exact Nat.lt_irrefl 0 hpos

/-- Behind the header, what is delivered, buffered and still to come is the body. -/
theorem inv_body {h body got buffer : Bytes} {src : Source UInt8}
    {last : Option (Poll (IoResult Bytes))} (hcat : got ++ (buffer ++ sourceBytes src) = body)
    (hlast : last = some (.ready (.ok [])) → src = []) :
    Inv h body ⟨⟨src,false,buffer⟩,got,last⟩ := by
  refine ⟨fun _ => .body hcat,⟨_,hcat⟩,?_,hlast⟩
  intro hsrc hbuf
  simp only at hsrc hbuf
  simpa [hsrc, hbuf] using hcat

theorem readResponse_inv {h body : Bytes} (hh : IsHeader h) {src : Source UInt8} {room : Nat}
    (hroom : 0 < room) (harr : HeaderArrives h.length 0 src) (hsrc : sourceBytes src = h ++ body)
    (last : Option (Poll (IoResult Bytes))) :
    Inv h body ((⟨⟨src,true,[]⟩,[],last⟩ : ReadSession SimpleObfsHttpStream UInt8).settle
      (readResponse ⟨src,true,[]⟩ room)) := by
  have hpos := hh.length_pos
  rw [readResponse]
  obtain ⟨b,headerEnd,src',hloop,hdrop,hbody,hend⟩ | ⟨src',hloop,harr',hsrc'⟩ |
    ⟨e,⟨buffer,found⟩,src',hloop,hcat⟩ :=
      responseLoop_cases hh harr List.length_nil hpos hsrc
  · simp only [hloop, Option.getD_some, hdrop]
    cases hd : drainBuffer b room with
    | some r =>
      obtain ⟨out,rest⟩ := r
      obtain ⟨hout,hne⟩ := drainBuffer_some hd
      refine inv_body ?_ ?_
      · rw [← hbody, ← hout]
        simp
      · intro hl
        cases hl
        exact absurd rfl hne
    | none =>
      have hb := (drainBuffer_none hd).resolve_right (Nat.ne_of_gt hroom)
      exact inv_body (by simpa using hbody) fun _ => hend hb
  · simp only [hloop]
    refine ⟨fun _ => .header rfl harr' hsrc',List.nil_prefix,?_,nofun⟩
    intro hempty _
    exact absurd (hsrc'.symm.trans hempty) (hh.append_ne_nil body)
  · simp only [hloop]
    refine ⟨nofun,List.nil_prefix,?_,nofun⟩
    intro hempty hbuf
    have hempty' : sourceBytes src' = [] := hempty
    have hbuf' : buffer = [] := hbuf
    simp only [hempty', hbuf', List.append_nil] at hcat
    exact absurd hcat.symm (hh.append_ne_nil body)

theorem pollRead_inv {h body : Bytes} (hh : IsHeader h)
    (s : ReadSession SimpleObfsHttpStream UInt8) (room : Nat) (hinv : Inv h body s)
    (hopen : s.failed = false) (hroom : 0 < room) : Inv h body (s.read pollRead room) := by
  obtain ⟨st,got,last⟩ := s
  have hphase : Phase h body got st := hinv.1 hopen
  rw [ReadSession.read, pollRead]
  cases hphase with
  | @header src hgot harr hsrc =>
    subst hgot
    exact readResponse_inv hh hroom harr hsrc last
  | @body src buffer hcat =>
    cases hd : drainBuffer buffer room with
    | some r =>
      obtain ⟨out,rest⟩ := r
      obtain ⟨hout,hne⟩ := drainBuffer_some hd
      refine inv_body ?_ ?_
      · rw [← hcat, ← hout]
        simp
      · intro hl
        cases hl
        exact absurd rfl hne
    | none =>
      have hb := (drainBuffer_none hd).resolve_right (Nat.ne_of_gt hroom)
      subst hb
      have hgot : got ++ sourceBytes src = body := hcat
      simp only [Bool.false_eq_true, if_false]
      obtain ⟨rfl,hr⟩ | ⟨es,rfl,hr⟩ | ⟨e,es,rfl,hr⟩ | ⟨b,bs,es,p,src',rfl,hr,hb,_,hne,_⟩ :=
        pollRead_cases room src
      · rw [hr]
        exact inv_body (by simpa [ReadSession.settle] using hgot) fun _ => rfl
      · rw [hr]
        exact inv_body (by simpa [ReadSession.settle] using hgot) fun hl => by cases hl
      · rw [hr]
        exact inv_body (by simpa [ReadSession.settle] using hgot) fun hl => by cases hl
      · rw [hr]
        refine inv_body ?_ ?_
        · rw [← hgot, hb]
          simp
        · intro hl
          cases hl
          exact absurd (hne.mp rfl) (Nat.ne_of_gt hroom)

end SimpleObfsHttpStream
end AtlasKernel.Shadowsocks
