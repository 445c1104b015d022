import Mathlib.Data.Nat.Notation
import Mathlib.Logic.Function.Basic
import Rustils.Platform.Error

namespace Rustils.Mock

open Platform

abbrev Chunk := List UInt8

structure Receiver where
  queue : List Chunk
  connected : Bool

inductive RecvTimeoutError
  | timeout
  | disconnected

/-- No result where the receiver goes on waiting. -/
def Receiver.recv : Receiver → Option (Except Unit Chunk × Receiver)
  | ⟨chunk :: queue, connected⟩ => some (.ok chunk, ⟨queue, connected⟩)
  | ⟨[], false⟩ => some (.error (), ⟨[], false⟩)
  | ⟨[], true⟩ => none

def Receiver.recvTimeout : Receiver → Except RecvTimeoutError Chunk × Receiver
  | ⟨chunk :: queue, connected⟩ => (.ok chunk, ⟨queue, connected⟩)
  | ⟨[], false⟩ => (.error .disconnected, ⟨[], false⟩)
  | ⟨[], true⟩ => (.error .timeout, ⟨[], true⟩)

def err (kind : ErrorKind) (op : String) : PlatformError := .new kind .none op

def copyOut (readBuf : Chunk) (readPos len : ℕ) : List UInt8 × ℕ :=
  let n := min len (readBuf.length - readPos)
  ((readBuf.drop readPos).take n, readPos + n)

structure MockTcpStream where
  readBuf : Chunk := []
  readPos : ℕ := 0
  readTimeout : Option ℕ := none

structure MockUnixStream where
  readBuf : Chunk := []
  readPos : ℕ := 0

def MockTcpStream.read (self : MockTcpStream) (rx : Receiver) (len : ℕ) :
    Option (Result (List UInt8) × MockTcpStream × Receiver) :=
  let copy (self : MockTcpStream) (rx : Receiver) :=
    let (bytes, readPos) := copyOut self.readBuf self.readPos len
    some (.ok bytes, { self with readPos }, rx)
  if self.readBuf.length ≤ self.readPos then
    match self.readTimeout with
    | some _ =>
      match rx.recvTimeout with
      | (.ok chunk, rx) => copy { self with readBuf := chunk, readPos := 0 } rx
      | (.error .disconnected, rx) => some (.ok [], self, rx)
      | (.error .timeout, rx) => some (.error (err .wouldBlock "read"), self, rx)
    | none =>
      match rx.recv with
      | some (.ok chunk, rx) => copy { self with readBuf := chunk, readPos := 0 } rx
      | some (.error (), rx) => some (.ok [], self, rx)
      | none => none
  else copy self rx

def MockUnixStream.read (self : MockUnixStream) (rx : Receiver) (len : ℕ) :
    Option (Result (List UInt8) × MockUnixStream × Receiver) :=
  let copy (self : MockUnixStream) (rx : Receiver) :=
    let (bytes, readPos) := copyOut self.readBuf self.readPos len
    some (.ok bytes, { self with readPos }, rx)
  if self.readBuf.length ≤ self.readPos then
    match rx.recv with
    | some (.ok chunk, rx) => copy { self with readBuf := chunk, readPos := 0 } rx
    | some (.error (), rx) => some (.ok [], self, rx)
    | none => none
  else copy self rx

inductive MockStream
  | tcp (s : MockTcpStream)
  | unix (s : MockUnixStream)

namespace MockStream

def read (rx : Receiver) (len : ℕ) : MockStream → Option (Result (List UInt8) × MockStream × Receiver)
  | .tcp s => (s.read rx len).map fun (r, s, rx) => (r, .tcp s, rx)
  | .unix s => (s.read rx len).map fun (r, s, rx) => (r, .unix s, rx)

def setReadTimeout (timeout : Option ℕ) : MockStream → MockStream
  | .tcp s => .tcp { s with readTimeout := timeout }
  | .unix s => .unix s

def residue : MockStream → List UInt8
  | .tcp s => s.readBuf.drop s.readPos
  | .unix s => s.readBuf.drop s.readPos

end MockStream

inductive Side
  | client
  | server
  deriving DecidableEq

def Side.peer : Side → Side
  | .client => .server
  | .server => .client

@[simp] theorem Side.peer_peer (side : Side) : side.peer.peer = side := by cases side <;> rfl

theorem Side.peer_ne (side : Side) : side.peer ≠ side := by
  cases side <;> rintro ⟨⟩

structure End where
  stream : MockStream
  queue : List Chunk

abbrev Conn := Side → Option End

def tcpConnect : Conn := fun _ => some ⟨.tcp {}, []⟩

def unixConnect : Conn := fun _ => some ⟨.unix {}, []⟩

namespace Conn

def receiver (c : Conn) (side : Side) (e : End) : Receiver := ⟨e.queue, (c side.peer).isSome⟩

/-- `write` of either kind sends the whole buffer as one chunk. -/
def write (c : Conn) (side : Side) (buf : List UInt8) : Result ℕ × Conn :=
  match c side.peer with
  | some e => (.ok buf.length, Function.update c side.peer (some { e with queue := e.queue ++ [buf] }))
  | none => (.error (err .brokenPipe "write"), c)

end Conn

inductive Event
  | read (side : Side) (len : ℕ) (r : Result (List UInt8))
  | write (side : Side) (buf : List UInt8) (r : Result ℕ)
  | setReadTimeout (side : Side) (timeout : Option ℕ)
  | drop (side : Side)

/-- A read that finds nothing waits until it can go on, so it stands where it goes on. -/
inductive Step (c : Conn) : Event → Conn → Prop
  | read {side : Side} {len : ℕ} {e : End} {r : Result (List UInt8)} {s : MockStream} {rx : Receiver}
    (he : c side = some e) (hr : e.stream.read (c.receiver side e) len = some (r, s, rx)) :
    Step c (.read side len r) (Function.update c side (some ⟨s, rx.queue⟩))
  | write {side : Side} {buf : List UInt8} {e : End} (he : c side = some e) :
    Step c (.write side buf (c.write side buf).1) (c.write side buf).2
  | setReadTimeout {side : Side} {timeout : Option ℕ} {e : End} (he : c side = some e) :
    Step c (.setReadTimeout side timeout)
      (Function.update c side (some ⟨e.stream.setReadTimeout timeout, e.queue⟩))
  | drop {side : Side} {e : End} (he : c side = some e) :
    Step c (.drop side) (Function.update c side none)

end Rustils.Mock
