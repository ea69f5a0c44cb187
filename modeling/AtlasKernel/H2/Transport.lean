import AtlasKernel.Lib.PollIo
import AtlasKernel.Shadowsocks.PendingWrite

/-! A proxy stream over one HTTP/2 stream. The two halves of the HTTP/2 stream are the
library's: the half that receives is a parameter, the half that sends answers as it likes.
Source: `H2Transport` in `adapter/shadowsocks/transport.rs`. -/
namespace AtlasKernel.H2
open AtlasKernel.Lib AtlasKernel.Shadowsocks

def h2MaxDataFrame : Nat := 16 * 1024

inductive TransportError where
  | connectionAborted (err : IoError)
  | brokenPipe (err : IoError)
  | transportClosed
  | sendStreamClosed
deriving DecidableEq, Repr

/-- What `poll_capacity` answers; `closed` is `None`. -/
inductive CapacityAnswer where
  | pending
  | capacity (n : Nat)
  | fail (err : IoError)
  | closed
deriving DecidableEq, Repr

/-- With no answer left it stays pending. If it is `broken`, it takes no data. -/
structure SendStream where
  answers : List CapacityAnswer
  broken : Option IoError
  reserved : Nat
  sent : List Bytes
deriving DecidableEq, Repr

namespace SendStream

def reserveCapacity (s : SendStream) (n : Nat) : SendStream := { s with reserved := n }

def pollCapacity (s : SendStream) : CapacityAnswer × SendStream :=
  match s.answers with
  | [] => (.pending, s)
  | a :: as => (a, { s with answers := as })

def sendData (s : SendStream) (data : Bytes) : IoResult SendStream :=
  match s.broken with
  | some err => .error err
  | none => .ok { s with sent := s.sent ++ [data] }

end SendStream

/-- `poll_data` of the receiving half; `none` is the end of the stream. -/
abbrev PollData (ρ : Type*) := ρ → Poll (Option (IoResult Bytes)) × ρ

structure H2Transport (ρ : Type*) where
  recv : ρ
  send : SendStream
  readBuffer : Bytes
  requestedWriteCapacity : Nat
  closed : Bool
deriving DecidableEq, Repr

namespace H2Transport
variable {ρ : Type*}

def new (recv : ρ) (send : SendStream) : H2Transport ρ := ⟨recv, send, [], 0, false⟩

/-- Every answer of the loop leaves it. -/
def pollRead (pollData : PollData ρ) (s : H2Transport ρ) (room : Nat) :
    Poll (Except TransportError Bytes) × H2Transport ρ :=
  match drainBuffer s.readBuffer room with
  | some (out, rest) => (.ready (.ok out), { s with readBuffer := rest })
  | none =>
    match pollData s.recv with
    | (.pending, recv) => (.pending, { s with recv := recv })
    | (.ready none, recv) => (.ready (.ok []), { s with recv := recv })
    | (.ready (some (.error err)), recv) =>
      (.ready (.error (.connectionAborted err)), { s with recv := recv })
    | (.ready (some (.ok data)), recv) =>
      if data.length ≤ room then (.ready (.ok data), { s with recv := recv })
      else
        (.ready (.ok (data.take room)),
          { s with recv := recv, readBuffer := s.readBuffer ++ data.drop room })

def pollWrite (s : H2Transport ρ) (data : Bytes) :
    Poll (Except TransportError Nat) × H2Transport ρ :=
  if s.closed then (.ready (.error .transportClosed), s)
  else if data = [] then (.ready (.ok 0), s)
  else
    let requested := min data.length h2MaxDataFrame
    let s :=
      if s.requestedWriteCapacity = 0 then
        { s with send := s.send.reserveCapacity requested, requestedWriteCapacity := requested }
      else s
    match s.send.pollCapacity with
    | (.pending, send) => (.pending, { s with send := send })
    | (.fail err, send) =>
      (.ready (.error (.brokenPipe err)), { s with send := send, requestedWriteCapacity := 0 })
    | (.closed, send) =>
      (.ready (.error .sendStreamClosed), { s with send := send, requestedWriteCapacity := 0 })
    | (.capacity 0, send) =>
      (.pending,
        { s with send := send.reserveCapacity requested, requestedWriteCapacity := requested })
    | (.capacity (n+1), send) =>
      let n := min requested (n+1)
      match send.sendData (data.take n) with
      | .error err =>
        (.ready (.error (.brokenPipe err)), { s with send := send, requestedWriteCapacity := 0 })
      | .ok send => (.ready (.ok n), { s with send := send, requestedWriteCapacity := 0 })

end H2Transport
end AtlasKernel.H2
