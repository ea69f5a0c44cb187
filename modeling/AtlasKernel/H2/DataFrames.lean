import AtlasKernel.H2.Transport

/-! A payload sent over an HTTP/2 stream, in frames as long as the capacity that the other
side grants. Source: `h2_reserved_capacity` and `send_h2_data_frames` in
`adapter/shadowsocks/transport.rs`. -/
namespace AtlasKernel.H2
open AtlasKernel.Lib

structure DataFrame where
  data : Bytes
  endStream : Bool
deriving DecidableEq, Repr

/-- The sending half, with what `poll_capacity` and `send_data` answer; with no answer left
the first stays pending and the second takes every frame. -/
structure DataStream where
  capacities : List CapacityAnswer
  refusals : List (Option IoError)
  reserved : Nat
  frames : List DataFrame
deriving DecidableEq, Repr

namespace DataStream

def sendData (s : DataStream) (data : Bytes) (endOfStream : Bool) :
    Except TransportError Unit × DataStream :=
  match s.refusals with
  | some err :: refusals => (.error (.brokenPipe err), { s with refusals := refusals })
  | refusals =>
    (.ok (), { s with refusals := refusals.tail, frames := s.frames ++ [⟨data, endOfStream⟩] })

end DataStream

/-- The loop of `h2_reserved_capacity`, with the answers that are left. -/
def awaitCapacity (requested : Nat) :
    List CapacityAnswer → Poll (Except TransportError Nat) × List CapacityAnswer
  | [] => (.pending, [])
  | .pending :: answers | .capacity 0 :: answers => awaitCapacity requested answers
  | .capacity (n+1) :: answers => (.ready (.ok (min (n+1) requested)), answers)
  | .fail err :: answers => (.ready (.error (.brokenPipe err)), answers)
  | .closed :: answers => (.ready (.error .sendStreamClosed), answers)

def h2ReservedCapacity (s : DataStream) (requested : Nat) :
    Poll (Except TransportError Nat) × DataStream :=
  let r := awaitCapacity requested s.capacities
  (r.1, { s with reserved := requested, capacities := r.2 })

/-- The capacities that an answer grants, in order. -/
def grants (answers : List CapacityAnswer) : List Nat :=
  answers.filterMap fun
    | .capacity (n+1) => some (n+1)
    | _ => none

theorem awaitCapacity_ok {requested capacity : Nat} {answers rest : List CapacityAnswer}
    (h : awaitCapacity requested answers = (.ready (.ok capacity), rest)) :
    ∃ n, capacity = min (n+1) requested ∧ grants answers = (n+1) :: grants rest := by
  induction answers with
  | nil => cases h
  | cons answer answers ih =>
    cases answer with
    | pending => exact ih h
    | capacity n =>
      cases n with
      | zero => exact ih h
      | succ n =>
        cases h
        exact ⟨n,rfl,rfl⟩
    | fail err => cases h
    | closed => cases h

theorem h2ReservedCapacity_ok {s s' : DataStream} {requested capacity : Nat}
    (h : h2ReservedCapacity s requested = (.ready (.ok capacity), s')) :
    (∃ n, capacity = min (n+1) requested ∧ grants s.capacities = (n+1) :: grants s'.capacities) ∧
    s'.refusals = s.refusals ∧ s'.frames = s.frames := by
  obtain ⟨hanswer,rfl⟩ := Prod.mk.inj h
  exact ⟨awaitCapacity_ok (Prod.ext hanswer rfl), rfl, rfl⟩

/-- What is left after a frame is shorter. -/
theorem rest_length_lt {s s' : DataStream} {payload : Bytes} {capacity : Nat} (hne : payload ≠ [])
    (h : h2ReservedCapacity s (min payload.length h2MaxDataFrame) = (.ready (.ok capacity), s')) :
    (payload.drop (min capacity payload.length)).length < payload.length := by
  obtain ⟨⟨n,hn,_⟩,_⟩ := h2ReservedCapacity_ok h
  have hlen : 0 < payload.length := List.length_pos_iff.mpr hne
  rw [h2MaxDataFrame] at hn
  rw [List.length_drop]
  omega

/-- `while !payload.is_empty()` -/
def sendFrames (endOfStream : Bool) (payload : Bytes) (s : DataStream) :
    Poll (Except TransportError Unit) × DataStream :=
  if _hne : payload = [] then (.ready (.ok ()), s)
  else
    let requested := min payload.length h2MaxDataFrame
    match _hcap : h2ReservedCapacity s requested with
    | (.pending, s) => (.pending, s)
    | (.ready (.error err), s) => (.ready (.error err), s)
    | (.ready (.ok capacity), s) =>
      let frame := payload.take (min capacity payload.length)
      let payload' := payload.drop (min capacity payload.length)
      match s.sendData frame (endOfStream && payload'.isEmpty) with
      | (.error err, s) => (.ready (.error err), s)
      | (.ok (), s) => sendFrames endOfStream payload' s
termination_by payload.length
decreasing_by
  exact rest_length_lt _hne _hcap

def sendH2DataFrames (s : DataStream) (payload : Bytes) (endOfStream : Bool) :
    Poll (Except TransportError Unit) × DataStream :=
  if payload = [] then
    match s.sendData [] endOfStream with
    | (.error err, s) => (.ready (.error err), s)
    | (.ok (), s) => (.ready (.ok ()), s)
  else sendFrames endOfStream payload s

/-! ## What is sent -/

/-- END_STREAM is on the last frame, if it is asked for, and on no other. -/
def EndsWith (endOfStream : Bool) (frames : List DataFrame) : Prop :=
  ∃ k, frames.map (·.endStream) = List.replicate k false ++ [endOfStream]

/-- Frames that carry a payload as far as it has come; `granted` is for each the capacity it
has been granted. -/
structure Carry (payload : Bytes) (endOfStream : Bool) (granted : List Nat) (frames : List DataFrame)
    (answer : Poll (Except TransportError Unit)) : Prop where
  carried : frames.flatMap (·.data) <+: payload
  within : ∀ i (hi : i < frames.length),
    frames[i].data.length ≤ min h2MaxDataFrame (granted.getD i 0)
  whole : answer = .ready (.ok ()) →
    frames.flatMap (·.data) = payload ∧ EndsWith endOfStream frames
  unfinished : answer ≠ .ready (.ok ()) → ∀ f ∈ frames, f.endStream = false

/-- What has been sent so far, and the answer. -/
def Sends (payload : Bytes) (endOfStream : Bool) (s : DataStream)
    (r : Poll (Except TransportError Unit) × DataStream) : Prop :=
  ∃ frames, r.2.frames = s.frames ++ frames ∧
    Carry payload endOfStream (grants s.capacities) frames r.1

variable {payload : Bytes} {endOfStream : Bool}

theorem sendData_ok {s s' : DataStream} {data : Bytes}
    (h : s.sendData data endOfStream = (.ok (), s')) :
    s'.frames = s.frames ++ [⟨data, endOfStream⟩] ∧ s'.capacities = s.capacities := by
  rw [DataStream.sendData] at h
  split at h
  · cases h
  · obtain ⟨_,rfl⟩ := Prod.mk.inj h
    exact ⟨rfl,rfl⟩

theorem sendData_error {s s' : DataStream} {data : Bytes} {err : TransportError}
    (h : s.sendData data endOfStream = (.error err, s')) : s'.frames = s.frames := by
  rw [DataStream.sendData] at h
  split at h
  · obtain ⟨_,rfl⟩ := Prod.mk.inj h
    rfl
  · cases h

/-- Nothing is sent, and the answer is not the good one. -/
theorem Sends.nothing {s : DataStream} {r : Poll (Except TransportError Unit) × DataStream}
    (hframes : r.2.frames = s.frames) (hanswer : r.1 ≠ .ready (.ok ())) :
    Sends payload endOfStream s r := by
  refine ⟨[],?_,List.nil_prefix,?_,fun h => absurd h hanswer,?_⟩
  · rw [hframes, List.append_nil]
  · intro i hi
    exact absurd hi (Nat.not_lt_zero i)
  · intro _ f hf
    exact absurd hf List.not_mem_nil

/-- One frame, and what is sent after it. -/
theorem Carry.cons {frames : List DataFrame} {granted : List Nat} {frame rest : Bytes} {n : Nat}
    {answer : Poll (Except TransportError Unit)}
    (h : Carry rest endOfStream granted frames answer)
    (hlen : frame.length ≤ min h2MaxDataFrame n) :
    Carry (frame ++ rest) endOfStream (n :: granted) (⟨frame, false⟩ :: frames) answer := by
  constructor
  · rw [List.flatMap_cons]
    exact List.prefix_append_right_inj .. |>.mpr h.carried
  · intro i hi
    cases i with
    | zero => exact hlen
    | succ i => exact h.within i (Nat.lt_of_succ_lt_succ hi)
  · intro hanswer
    obtain ⟨hflat,k,hk⟩ := h.whole hanswer
    refine ⟨?_,k+1,?_⟩
    · rw [List.flatMap_cons, hflat]
    · rw [List.map_cons, hk, List.replicate_succ]
      rfl
  · intro hanswer f hf
    cases List.mem_cons.mp hf with
    | inl heq => rw [heq]
    | inr hmem => exact h.unfinished hanswer f hmem

/-- The last frame. -/
theorem Carry.last {granted : List Nat} {frame : Bytes} {n : Nat}
    (hlen : frame.length ≤ min h2MaxDataFrame n) :
    Carry frame endOfStream (n :: granted) [⟨frame, endOfStream⟩] (.ready (.ok ())) := by
  refine ⟨?_,?_,fun _ => ⟨?_,0,rfl⟩,fun h => absurd rfl h⟩
  · simp
  · intro i hi
    cases i with
    | zero => exact hlen
    | succ i => exact absurd hi (by simp)
  · simp

theorem sendFrames_done (s : DataStream) : sendFrames endOfStream [] s = (.ready (.ok ()), s) := by
  rw [sendFrames, dif_pos rfl]

/-- One round of the loop. -/
theorem sendFrames_round (s : DataStream) (hne : payload ≠ []) :
    sendFrames endOfStream payload s =
      match h2ReservedCapacity s (min payload.length h2MaxDataFrame) with
      | (.pending, s) => (.pending, s)
      | (.ready (.error err), s) => (.ready (.error err), s)
      | (.ready (.ok capacity), s) =>
        let payload' := payload.drop (min capacity payload.length)
        match s.sendData (payload.take (min capacity payload.length))
            (endOfStream && payload'.isEmpty) with
        | (.error err, s) => (.ready (.error err), s)
        | (.ok (), s) => sendFrames endOfStream payload' s := by
  rw [sendFrames, dif_neg hne]
  dsimp only
  split <;> simp only [*]

/-- Of a payload that is not empty, one frame goes out for each grant, whatever is granted. -/
theorem sendFrames_sends (s : DataStream) (hne : payload ≠ []) :
    Sends payload endOfStream s (sendFrames endOfStream payload s) := by
  induction payload, s using sendFrames.induct endOfStream with
  | case1 s => exact absurd rfl hne
  | case2 payload s _ requested s' hcap =>
    rw [sendFrames_round s hne, hcap]
    have hframes : s'.frames = s.frames := congrArg (·.2.frames) hcap.symm
    exact Sends.nothing hframes (by simp)
  | case3 payload s _ requested err s' hcap =>
    rw [sendFrames_round s hne, hcap]
    have hframes : s'.frames = s.frames := congrArg (·.2.frames) hcap.symm
    exact Sends.nothing hframes (by simp)
  | case4 payload s _ requested capacity s' hcap frame payload' err s'' hsend =>
    obtain ⟨_,_,hframes⟩ := h2ReservedCapacity_ok hcap
    rw [sendFrames_round s hne, hcap]
    simp only [payload', frame] at hsend
    simp only [hsend]
    exact Sends.nothing ((sendData_error hsend).trans hframes) (by simp)
  | case5 payload s _ requested capacity s' hcap frame payload' s'' hsend ih =>
    obtain ⟨⟨n,hn,hgrants⟩,_,hframes⟩ := h2ReservedCapacity_ok hcap
    obtain ⟨hsent,hcapacities⟩ := sendData_ok hsend
    have hpayload : frame ++ payload' = payload := List.take_append_drop ..
    have hlen : frame.length ≤ min h2MaxDataFrame (n+1) := by
      simp only [frame, requested, List.length_take] at hn ⊢
      omega
    rw [sendFrames_round s hne, hcap]
    simp only [payload', frame] at hsend
    simp only [hsend]
    by_cases hlast : payload' = []
    · rw [hlast, List.append_nil] at hpayload
      have hend : sendFrames endOfStream payload' s'' = (.ready (.ok ()), s'') := by
        rw [hlast, sendFrames_done]
      simp only [payload'] at hend
      rw [hend]
      refine ⟨[⟨frame, endOfStream⟩],?_,?_⟩
      · rw [hsent, hframes, hlast]
        simp
      · rw [hgrants, ← hpayload]
        exact .last hlen
    · obtain ⟨frames,hrest,hcarry⟩ := ih hlast
      refine ⟨⟨frame, false⟩ :: frames,?_,?_⟩
      · rw [hrest, hsent, hframes, List.isEmpty_eq_false_iff.mpr hlast, Bool.and_false]
        simp
      · rw [hgrants, ← hcapacities]
        conv => arg 1; rw [← hpayload]
        exact hcarry.cons hlen

/-- Every answer is `Pending` or a capacity, and every frame is taken. -/
structure DataStream.Willing (s : DataStream) : Prop where
  capacities : ∀ a ∈ s.capacities, a = .pending ∨ ∃ n, a = .capacity n
  refusals : ∀ refusal ∈ s.refusals, refusal = none

theorem awaitCapacity_willing {requested : Nat} {answers : List CapacityAnswer}
    (h : ∀ a ∈ answers, a = .pending ∨ ∃ n, a = .capacity n) (hgrants : grants answers ≠ []) :
    ∃ capacity rest, awaitCapacity requested answers = (.ready (.ok capacity), rest) ∧
      ∀ a ∈ rest, a = .pending ∨ ∃ n, a = .capacity n := by
  induction answers with
  | nil => exact absurd rfl hgrants
  | cons answer answers ih =>
    have hrest : ∀ a ∈ answers, a = .pending ∨ ∃ n, a = .capacity n :=
      fun a ha => h a (List.mem_cons_of_mem _ ha)
    obtain rfl | ⟨n,rfl⟩ := h answer List.mem_cons_self
    · exact ih hrest hgrants
    · cases n with
      | zero => exact ih hrest hgrants
      | succ n => exact ⟨_,answers,rfl,hrest⟩

theorem h2ReservedCapacity_willing {s : DataStream} (h : s.Willing) (requested : Nat)
    (hgrants : grants s.capacities ≠ []) :
    ∃ capacity s', h2ReservedCapacity s requested = (.ready (.ok capacity), s') ∧ s'.Willing := by
  obtain ⟨capacity,rest,hanswer,hrest⟩ := @awaitCapacity_willing requested _ h.capacities hgrants
  refine ⟨capacity,{ s with reserved := requested, capacities := rest },?_,hrest,h.refusals⟩
  rw [h2ReservedCapacity, hanswer]

theorem sendData_willing {s : DataStream} (h : s.Willing) (data : Bytes) (endOfStream : Bool) :
    ∃ s', s.sendData data endOfStream = (.ok (), s') ∧ s'.Willing ∧ s'.capacities = s.capacities := by
  rw [DataStream.sendData]
  split
  case h_1 err refusals hrefusals =>
    have hnone := h.refusals (some err) (by rw [hrefusals]; exact List.mem_cons_self)
    cases hnone
  case h_2 =>
    exact ⟨_,rfl,⟨h.capacities,fun r hr => h.refusals r (List.mem_of_mem_tail hr)⟩,rfl⟩

/-- With a grant for every byte the payload goes out as a whole. -/
theorem sendFrames_willing {s : DataStream} (h : s.Willing)
    (hgrants : payload.length ≤ (grants s.capacities).length) :
    (sendFrames endOfStream payload s).1 = .ready (.ok ()) := by
  induction hn : payload.length using Nat.strong_induction_on generalizing payload s with
  | _ n ih =>
    subst hn
    by_cases hne : payload = []
    · rw [hne, sendFrames_done]
    · have hpos : 0 < payload.length := List.length_pos_iff.mpr hne
      obtain ⟨capacity,s',hcap,hs'⟩ := h2ReservedCapacity_willing h
        (min payload.length h2MaxDataFrame) (by rw [← List.length_pos_iff]; omega)
      obtain ⟨⟨n,_,hcount⟩,_⟩ := h2ReservedCapacity_ok hcap
      have hlt := rest_length_lt hne hcap
      obtain ⟨s'',hsend,hs'',hcapacities⟩ := sendData_willing hs'
        (payload.take (min capacity payload.length))
        (endOfStream && (payload.drop (min capacity payload.length)).isEmpty)
      rw [hcount, List.length_cons] at hgrants
      rw [sendFrames_round s hne, hcap]
      dsimp only
      rw [hsend]
      refine ih _ hlt hs'' ?_ rfl
      rw [hcapacities]
      omega

/-- The frames of a payload, for every payload and whatever is granted: what has been sent
carries it as far as it has come, and all of it when the answer is good. -/
theorem sendH2DataFrames_sends (s : DataStream) (payload : Bytes) (endOfStream : Bool) :
    Sends payload endOfStream s (sendH2DataFrames s payload endOfStream) := by
  rw [sendH2DataFrames]
  split
  case isTrue hempty =>
    subst hempty
    split
    case h_1 err s' hsend => exact Sends.nothing (sendData_error hsend) (by simp)
    case h_2 s' hsend =>
      obtain ⟨hframes,_⟩ := sendData_ok hsend
      refine ⟨_,hframes,?_,?_,fun _ => ⟨?_,0,rfl⟩,fun h => absurd rfl h⟩
      · exact List.nil_prefix
      · intro i hi
        cases i with
        | zero => exact Nat.zero_le _
        | succ i => exact absurd hi (by simp)
      · rfl
  case isFalse hne => exact sendFrames_sends s hne

theorem sendH2DataFrames_willing {s : DataStream} (h : s.Willing)
    (hgrants : payload.length ≤ (grants s.capacities).length) :
    (sendH2DataFrames s payload endOfStream).1 = .ready (.ok ()) := by
  rw [sendH2DataFrames]
  split
  case isTrue =>
    obtain ⟨s',hsend,_⟩ := sendData_willing h [] endOfStream
    rw [hsend]
  case isFalse => exact sendFrames_willing h hgrants

end AtlasKernel.H2
