import Rustils.Dbus.Marshal

namespace Rustils.Dbus

open Platform Lib.Fuel Lib.Machine Lib.Utf8 Lib.LittleEndian

def truncated : PlatformError := .new .invalidInput .none "D-Bus message truncated (need more bytes)"

def take (buf : Slice) (offset n : ℕ) : Outcome (List UInt8 × ℕ) := do
  let stop ← addUsize offset n
  if stop > buf.length then fail truncated
  else pure ((buf.bytes.drop offset).take n, stop)

def alignRead (buf : Slice) (offset align : ℕ) : Outcome ℕ := do
  let target ← mulUsize ((offset + align - 1) / align) align
  if target > buf.length then fail truncated else pure target

def takeLe (buf : Slice) (offset n : ℕ) : Outcome (ℕ × ℕ) := do
  let (bytes, offset) ← take buf offset n
  if bytes.length = n then pure (leNat bytes, offset) else panicked

def takeByte (buf : Slice) (offset : ℕ) : Outcome (UInt8 × ℕ) := do
  let (bytes, offset) ← take buf offset 1
  match bytes with
  | b :: _ => pure (b, offset)
  | [] => panicked

def Num.ofLe : Num → ℕ → Value
  | .int16, x => .int16 (UInt16.ofNat x).toInt16
  | .uint16, x => .uint16 (UInt16.ofNat x)
  | .int32, x => .int32 (UInt32.ofNat x).toInt32
  | .uint32, x => .uint32 (UInt32.ofNat x)
  | .int64, x => .int64 (UInt64.ofNat x).toInt64
  | .uint64, x => .uint64 (UInt64.ofNat x)
  | .double, x => .double (UInt64.ofNat x)

def takeText (buf : Slice) (offset n : ℕ) (detail : String) : Outcome (String × ℕ) := do
  let (bytes, offset) ← take buf offset n
  let (_, offset) ← take buf offset 1
  match fromUtf8 bytes with
  | some s => pure (s, offset)
  | none => fail (badSignature detail)

def unmarshalString (buf : Slice) (offset : ℕ) : Outcome (String × ℕ) := do
  let offset ← alignRead buf offset 4
  let (n, offset) ← takeLe buf offset 4
  takeText buf offset n "string body is not valid UTF-8"

def unmarshalSignature (buf : Slice) (offset : ℕ) : Outcome (String × ℕ) := do
  let (n, offset) ← takeByte buf offset
  takeText buf offset n.toNat "signature body is not valid UTF-8"

def unmarshalBasic (b : Basic) (buf : Slice) (offset : ℕ) : Outcome (Value × ℕ) :=
  match b with
  | .byte => do
    let (x, offset) ← takeByte buf offset
    pure (.byte x, offset)
  | .boolean => do
    let offset ← alignRead buf offset 4
    let (x, offset) ← takeLe buf offset 4
    pure (.boolean (x != 0), offset)
  | .num k => do
    let offset ← alignRead buf offset k.width
    let (x, offset) ← takeLe buf offset k.width
    pure (k.ofLe x, offset)
  | .string => do
    let (s, offset) ← unmarshalString buf offset
    pure (.string s, offset)
  | .objectPath => do
    let (s, offset) ← unmarshalString buf offset
    pure (.objectPath s, offset)
  | .signature => do
    let (s, offset) ← unmarshalSignature buf offset
    pure (.signature s, offset)

def arrayHeader (ty : String) (buf : Slice) (offset : ℕ) : Outcome (String × ℕ × ℕ) := do
  let offset ← alignRead buf offset 4
  let (byteLen, offset) ← takeLe buf offset 4
  let elemSig ← sliceOrPanic ty 1 (len ty)
  let e ← firstByte elemSig
  let offset ← alignRead buf offset (alignOf e)
  let contentEnd ← addUsize offset byteLen
  if contentEnd > buf.length then fail truncated else pure (elemSig, offset, contentEnd)

def bracketHeader (ty : String) (buf : Slice) (offset : ℕ) : Outcome (String × ℕ) := do
  let offset ← alignRead buf offset 8
  let inner ← sliceOrPanic ty 1 (len ty - 1)
  pure (inner, offset)

def variantHeader (buf : Slice) (offset : ℕ) : Outcome (String × ℕ) := do
  let (innerSig, offset) ← unmarshalSignature buf offset
  let n ← typeLen (asBytes innerSig)
  if n ≠ len innerSig then fail (badSignature "variant signature is not a single complete type")
  else pure (innerSig, offset)

mutual

def unmarshalFuel : ℕ → String → Slice → ℕ → Outcome (List Value × ℕ)
  | 0, _, _, _ => unfinished
  | fuel + 1, sig, buf, offset =>
    if sig = "" then pure ([], offset)
    else do
      let (thisTy, rest) ← splitOne sig
      let (v, offset) ← unmarshalOneFuel fuel thisTy buf offset
      let (vs, offset) ← unmarshalFuel fuel rest buf offset
      pure (v :: vs, offset)

def unmarshalOneFuel : ℕ → String → Slice → ℕ → Outcome (Value × ℕ)
  | 0, _, _, _ => unfinished
  | fuel + 1, ty, buf, offset => do
    let c ← firstByte ty
    match TypeCode.ofByte c with
    | none => fail (badSignature "unsupported type code")
    | some (.basic b) => unmarshalBasic b buf offset
    | some .array => do
      let (elemSig, offset, contentEnd) ← arrayHeader ty buf offset
      let (items, offset) ← unmarshalItemsFuel fuel elemSig contentEnd buf offset
      if offset ≠ contentEnd then
        fail (badSignature "array element did not end exactly at the declared length")
      else pure (.array elemSig items, offset)
    | some .struct => do
      let (inner, offset) ← bracketHeader ty buf offset
      let (fields, offset) ← unmarshalFuel fuel inner buf offset
      pure (.struct fields, offset)
    | some .variant => do
      let (innerSig, offset) ← variantHeader buf offset
      let (v, offset) ← unmarshalOneFuel fuel innerSig buf offset
      pure (.variant v, offset)
    | some .dictEntry => do
      let (inner, offset) ← bracketHeader ty buf offset
      let (keyTy, valTy) ← splitOne inner
      let (key, offset) ← unmarshalOneFuel fuel keyTy buf offset
      let (val, offset) ← unmarshalOneFuel fuel valTy buf offset
      pure (.dictEntry key val, offset)

def unmarshalItemsFuel : ℕ → String → ℕ → Slice → ℕ → Outcome (List Value × ℕ)
  | 0, _, _, _, _ => unfinished
  | fuel + 1, elemSig, contentEnd, buf, offset =>
    if offset < contentEnd then do
      let (item, offset) ← unmarshalOneFuel fuel elemSig buf offset
      let (items, offset) ← unmarshalItemsFuel fuel elemSig contentEnd buf offset
      pure (item :: items, offset)
    else pure ([], offset)

end

end Rustils.Dbus
