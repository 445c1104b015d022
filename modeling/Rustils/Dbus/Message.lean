import Rustils.Dbus.Decoder

namespace Rustils.Dbus

open Platform Lib.Fuel Lib.Machine Lib.Utf8 Lib.LittleEndian

structure Message where
  messageType : UInt8 := 0
  flags : UInt8 := 0
  serial : UInt32 := 0
  path : Option String := none
  interface : Option String := none
  member : Option String := none
  errorName : Option String := none
  replySerial : Option UInt32 := none
  destination : Option String := none
  sender : Option String := none
  signature : String := ""
  body : List Value := []

def fieldPath : UInt8 := 1
def fieldInterface : UInt8 := 2
def fieldMember : UInt8 := 3
def fieldErrorName : UInt8 := 4
def fieldReplySerial : UInt8 := 5
def fieldDestination : UInt8 := 6
def fieldSender : UInt8 := 7
def fieldSignature : UInt8 := 8

def field (code : UInt8) (value : Value) : Value := .struct [.byte code, .variant value]

def optField {α : Type} (code : UInt8) (value : α → Value) (x : Option α) : List Value :=
  (x.map fun a => field code (value a)).toList

def Message.fields (msg : Message) : List Value :=
  optField fieldPath .objectPath msg.path ++
  optField fieldInterface .string msg.interface ++
  optField fieldMember .string msg.member ++
  optField fieldErrorName .string msg.errorName ++
  optField fieldReplySerial .uint32 msg.replySerial ++
  optField fieldDestination .string msg.destination ++
  optField fieldSender .string msg.sender ++
  (if msg.signature = "" then [] else [field fieldSignature (.signature msg.signature)])

def Message.fixed (msg : Message) (bodyLen : ℕ) : List UInt8 :=
  [0x6C, msg.messageType, msg.flags, 1] ++ leBytes 4 bodyLen ++ leBytes 4 msg.serial.toNat

def Message.bodyBytes (msg : Message) : Outcome (List UInt8) :=
  if msg.signature = "" then pure [] else marshal msg.signature msg.body []

def encode (msg : Message) : Outcome (List UInt8) := do
  let bodyBytes ← msg.bodyBytes
  let out ← marshal "a(yv)" [.array "(yv)" msg.fields] (msg.fixed bodyBytes.length)
  pure (padTo out 8 ++ bodyBytes)

def needMoreData : PlatformError :=
  .new .wouldBlock .none "D-Bus message incomplete, more bytes needed"

def bigEndian : PlatformError :=
  .new .unsupported .none "big-endian D-Bus messages are not supported"

def byteAt (buf : Slice) (i : ℕ) : Outcome UInt8 :=
  match buf.bytes[i]? with
  | some b => pure b
  | none => panicked

def u32At (buf : Slice) (i : ℕ) : Outcome UInt32 :=
  if i + 4 ≤ buf.length then pure (UInt32.ofNat (leNat ((buf.bytes.drop i).take 4))) else panicked

/-- The match on the header's outcome: `InvalidInput` is taken to mean a short buffer. -/
def shortHeader {α : Type} : Outcome α → Outcome α
  | .error (.err e) => if e.kind = .invalidInput then fail needMoreData else fail e
  | r => r

/-- One pass of the loop over the header fields; a field of the wrong shape is passed over. -/
def Message.applyField (msg : Message) : Value → Message
  | .struct (.byte code :: .variant val :: _) =>
    match val with
    | .objectPath p => if code = fieldPath then { msg with path := some p } else msg
    | .string s =>
      if code = fieldInterface then { msg with interface := some s }
      else if code = fieldMember then { msg with member := some s }
      else if code = fieldErrorName then { msg with errorName := some s }
      else if code = fieldDestination then { msg with destination := some s }
      else if code = fieldSender then { msg with sender := some s }
      else msg
    | .uint32 u => if code = fieldReplySerial then { msg with replySerial := some u } else msg
    | .signature s => if code = fieldSignature then { msg with signature := s } else msg
    | _ => msg
  | _ => msg

def fieldStructs : List Value → Outcome (List Value)
  | [] => panicked
  | .array _ items :: _ => pure items
  | _ :: _ => fail (badSignature "header fields value was not the expected array")

section Decode

variable (unmarshal : String → Slice → ℕ → Outcome (List Value × ℕ))

def decodeHeader (buf : Slice) : Outcome (Message × ℕ × ℕ) := do
  let messageType ← byteAt buf 1
  let flags ← byteAt buf 2
  let bodyLen ← u32At buf 4
  let serial ← u32At buf 8
  let (headerFields, offset) ← shortHeader (unmarshal "a(yv)" buf 12)
  -- the loop that steps `offset` to a multiple of 8
  let bodyStart ← addUsize offset (padding offset 8)
  let frameEnd ← addUsize bodyStart bodyLen.toNat
  if buf.length < frameEnd then fail needMoreData
  else do
    let items ← fieldStructs headerFields
    pure (items.foldl Message.applyField { messageType, flags, serial }, bodyStart, frameEnd)

def decodeBody (sig : String) (buf : Slice) (bodyStart : ℕ) : Outcome (List Value) :=
  if sig = "" then pure []
  else do
    let (values, _) ← unmarshal sig buf bodyStart
    pure values

def decodeWith (buf : Slice) : Outcome (Message × ℕ) :=
  if buf.length < 16 then fail needMoreData
  else do
    let endian ← byteAt buf 0
    if endian ≠ 0x6C then fail bigEndian
    else do
      let (msg, bodyStart, frameEnd) ← decodeHeader unmarshal buf
      let body ← decodeBody unmarshal msg.signature buf bodyStart
      pure ({ msg with body := body }, frameEnd)

end Decode

noncomputable def decode (buf : Slice) : Outcome (Message × ℕ) := decodeWith unmarshal buf

def decodeFuel (fuel : ℕ) (buf : Slice) : Outcome (Message × ℕ) := decodeWith (unmarshalFuel fuel) buf

theorem unmarshalFuel_extends (fuel : ℕ) (sig : String) (buf : Slice) (offset : ℕ) :
    Extends (unmarshalFuel fuel sig buf offset) (unmarshal sig buf offset) :=
  (unmarshalFuel_steady sig buf offset).extends_limit fuel

theorem shortHeader_extends {α : Type} {x y : Outcome α} (h : Extends x y) :
    Extends (shortHeader x) (shortHeader y) := by
  rcases h with rfl | rfl
  · exact .inl rfl
  · exact .refl _

theorem decodeFuel_extends (fuel : ℕ) (buf : Slice) : Extends (decodeFuel fuel buf) (decode buf) := by
  unfold decodeFuel decode decodeWith
  split_ifs
  · exact .refl _
  · refine .bind (.refl _) fun endian => ?_
    split_ifs
    · exact .refl _
    · refine .bind ?_ fun p => .bind ?_ fun _ => .refl _
      · unfold decodeHeader
        exact .bind (.refl _) fun _ => .bind (.refl _) fun _ => .bind (.refl _) fun _ =>
          .bind (.refl _) fun _ => .bind (shortHeader_extends (unmarshalFuel_extends _ _ _ _)) fun _ => .refl _
      · unfold decodeBody
        split_ifs
        · exact .refl _
        · exact .bind (unmarshalFuel_extends _ _ _ _) fun _ => .refl _

theorem decode_of_fuel {fuel : ℕ} {buf : Slice} {r : Outcome (Message × ℕ)} (h : decodeFuel fuel buf = r)
    (hr : r ≠ unfinished) : decode buf = r :=
  ((decodeFuel_extends fuel buf).resolve_left (h ▸ hr)).symm.trans h

end Rustils.Dbus
