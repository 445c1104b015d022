import Rustils.Dbus.Message
import Rustils.Platform.Fdio

namespace Rustils.Dbus

open Platform Lib.Fuel Lib.Machine Lib.Utf8

abbrev Read := Except Int32 (List UInt8)

abbrev Write := Except Int32 ℕ

structure Socket where
  reads : List Read
  writes : List Write

def osErr (op : String) (errno : Int32) : PlatformError := Fdio.osErr op [] errno

def protoErr (detail : String) : PlatformError := .new .invalidInput .none detail

def lineTooLong : PlatformError := protoErr "SASL line exceeded the maximum accepted length"

def closedInAuth : PlatformError := protoErr "D-Bus peer closed the connection during SASL auth"

def wroteNothing : PlatformError := protoErr "write to D-Bus socket accepted zero bytes"

def peerClosed : PlatformError := protoErr "D-Bus peer closed the connection"

def unexpectedType : PlatformError := protoErr "unexpected reply message type to a method call"

def callError (detail : String) : PlatformError :=
  (PlatformError.new .other .none "D-Bus call returned an error").withPath (asBytes detail)

def crlfPos : List UInt8 → Option ℕ
  | a :: b :: rest => if a = 13 ∧ b = 10 then some 0 else (crlfPos (b :: rest)).map (· + 1)
  | _ => none

def maxLine : ℕ := 4096

def readSaslLineLoop (buf : List UInt8) (reads : List Read) :
    Option (Outcome (List UInt8 × List UInt8) × List Read) :=
  match crlfPos buf with
  | some pos => some (pure (buf.take pos, buf.drop (pos + 2)), reads)
  | none =>
    if maxLine ≤ buf.length then some (fail lineTooLong, reads)
    else
      match reads with
      | [] => none
      | .error e :: reads => some (fail (osErr "read" e), reads)
      | .ok [] :: reads => some (fail closedInAuth, reads)
      | .ok bytes :: reads => readSaslLineLoop (buf ++ bytes) reads

def readSaslLine (reads : List Read) : Option (Outcome (List UInt8 × List UInt8) × List Read) :=
  readSaslLineLoop [] reads

def writeAll (bytes : List UInt8) (writes : List Write) : Option (Outcome Unit × List Write) :=
  if bytes = [] then some (pure (), writes)
  else
    match writes with
    | [] => none
    | .error e :: writes => some (fail (osErr "write" e), writes)
    | .ok n :: writes =>
      if n = 0 then some (fail wroteNothing, writes)
      else if bytes.length < n then some (panicked, writes)
      else writeAll (bytes.drop n) writes

structure Connection where
  nextSerial : UInt32
  readBuf : Slice

def typeMethodCall : UInt8 := 1
def typeMethodReturn : UInt8 := 2
def typeError : UInt8 := 3

structure Request where
  destination : String
  path : String
  interface : String
  member : String
  signature : String
  body : List Value

def Message.methodCall (serial : UInt32) (req : Request) : Message where
  messageType := typeMethodCall
  flags := 0
  serial := serial
  path := some req.path
  interface := some req.interface
  member := some req.member
  destination := some req.destination
  signature := req.signature
  body := req.body

def answerOf (reply : Message) : Outcome Message :=
  if reply.messageType = typeMethodReturn then pure reply
  else if reply.messageType = typeError then fail (callError (reply.errorName.getD "unknown"))
  else fail unexpectedType

section Receive

variable (decode : Slice → Outcome (Message × ℕ))

/-- The decoding half of the receive loop: `none` when it goes on to read. -/
def takeMessage (buf : Slice) : Option (Outcome (Message × Slice)) :=
  match decode buf with
  | .ok (msg, consumed) => some do
    let buf ← buf.drain consumed
    pure (msg, buf)
  | .error (.err e) => if e.kind = .wouldBlock then none else some (fail e)
  | .error s => some (.error s)

def readOneMessageWith (buf : Slice) (reads : List Read) : Option (Outcome Message × Slice × List Read) :=
  match takeMessage decode buf with
  | some (.ok (msg, buf)) => some (pure msg, buf, reads)
  | some (.error s) => some (.error s, buf, reads)
  | none =>
    match reads with
    | [] => none
    | .error e :: reads => some (fail (osErr "read" e), buf, reads)
    | .ok [] :: reads => some (fail peerClosed, buf, reads)
    | .ok bytes :: reads =>
      match buf.extend bytes with
      | .ok buf => readOneMessageWith buf reads
      | .error s => some (.error s, buf, reads)

/-- The loop at the end of `call`. It runs at most once for each message there is to come. -/
def awaitReplyFuel (serial : UInt32) (buf : Slice) (reads : List Read) :
    ℕ → Option (Outcome Message × Slice × List Read)
  | 0 => some (unfinished, buf, reads)
  | fuel + 1 =>
    match readOneMessageWith decode buf reads with
    | some (.ok reply, buf, reads) =>
      if reply.replySerial ≠ some serial then awaitReplyFuel serial buf reads fuel
      else some (answerOf reply, buf, reads)
    | r => r

end Receive

def received : List Read → List UInt8
  | [] => []
  | .ok bytes :: reads => bytes ++ received reads
  | .error _ :: reads => received reads

section Call

variable (decode : Slice → Outcome (Message × ℕ))

def awaitReplyWith (serial : UInt32) (buf : Slice) (reads : List Read) :
    Option (Outcome Message × Slice × List Read) :=
  awaitReplyFuel decode serial buf reads (buf.length + (received reads).length + 1)

def Connection.callWith (conn : Connection) (req : Request) (sock : Socket) :
    Option (Outcome Message × Connection × Socket) :=
  let serial := conn.nextSerial
  match (addU32 serial 1 : Outcome UInt32) with
  | .error s => some (.error s, conn, sock)
  | .ok nextSerial =>
    match encode (.methodCall serial req) with
    | .error s => some (.error s, { conn with nextSerial }, sock)
    | .ok bytes =>
      match writeAll bytes sock.writes with
      | none => none
      | some (.error s, writes) => some (.error s, { conn with nextSerial }, { sock with writes })
      | some (.ok _, writes) =>
        match awaitReplyWith decode serial conn.readBuf sock.reads with
        | none => none
        | some (r, readBuf, reads) => some (r, { nextSerial, readBuf }, { reads, writes })

end Call

noncomputable def readOneMessage : Slice → List Read → Option (Outcome Message × Slice × List Read) :=
  readOneMessageWith decode

noncomputable def awaitReply : UInt32 → Slice → List Read → Option (Outcome Message × Slice × List Read) :=
  awaitReplyWith decode

noncomputable def Connection.call :
    Connection → Request → Socket → Option (Outcome Message × Connection × Socket) :=
  callWith decode

end Rustils.Dbus
