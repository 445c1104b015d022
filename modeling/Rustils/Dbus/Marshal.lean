import Rustils.Dbus.Signature
import Rustils.Lib.LittleEndian

namespace Rustils.Dbus

open Platform Lib.Fuel Lib.Utf8 Lib.LittleEndian

def padding (n align : ℕ) : ℕ := (align - n % align) % align

def padTo (buf : List UInt8) (align : ℕ) : List UInt8 :=
  buf ++ List.replicate (padding buf.length align) 0

def mismatch : PlatformError := badSignature "value does not match signature"

/-- The unsigned integer with the bytes of `x.to_le_bytes()`, for the value the type wants. -/
def Num.payload : Num → Value → Option ℕ
  | .int16, .int16 x => some x.toUInt16.toNat
  | .uint16, .uint16 x => some x.toNat
  | .int32, .int32 x => some x.toUInt32.toNat
  | .uint32, .uint32 x => some x.toNat
  | .int64, .int64 x => some x.toUInt64.toNat
  | .uint64, .uint64 x => some x.toNat
  | .double, .double bits => some bits.toNat
  | _, _ => none

/-- The `g` branch: the length is cast to `u8`. -/
def marshalSignature (s : String) (buf : List UInt8) : List UInt8 :=
  buf ++ UInt8.ofNat (len s) :: (asBytes s ++ [0])

def marshalString (s : String) (buf : List UInt8) : List UInt8 :=
  padTo buf 4 ++ (leBytes 4 (len s) ++ asBytes s ++ [0])

def marshalBasic : Basic → Value → List UInt8 → Outcome (List UInt8)
  | .byte, .byte x, buf => pure (buf ++ [x])
  | .boolean, .boolean x, buf => pure (padTo buf 4 ++ leBytes 4 x.toNat)
  | .num k, v, buf =>
    match k.payload v with
    | some x => pure (padTo buf k.width ++ leBytes k.width x)
    | none => fail mismatch
  | .string, .string s, buf | .string, .objectPath s, buf => pure (marshalString s buf)
  | .objectPath, .string s, buf | .objectPath, .objectPath s, buf => pure (marshalString s buf)
  | .signature, .signature s, buf => pure (marshalSignature s buf)
  | _, _, _ => fail mismatch

def firstByte (ty : String) : Outcome UInt8 :=
  match asBytes ty with
  | c :: _ => pure c
  | [] => panicked

def leading (ty : String) : Option TypeCode := (asBytes ty).head?.bind TypeCode.ofByte

theorem firstByte_of_leading {ty : String} {code : TypeCode} (h : leading ty = some code) :
    ∃ c, firstByte ty = .ok c ∧ TypeCode.ofByte c = some code := by
  unfold leading at h
  unfold firstByte
  split
  case h_1 c cs hc =>
    rw [hc] at h
    exact ⟨c, rfl, h⟩
  case h_2 hc =>
    rw [hc] at h
    cases h

theorem leading_of_firstByte {ty : String} {c : UInt8} (h : firstByte ty = .ok c) :
    leading ty = TypeCode.ofByte c := by
  unfold firstByte at h
  split at h
  case h_1 c' cs hc =>
    rw [leading, hc]
    exact congrArg TypeCode.ofByte (Except.ok.inj h)
  case h_2 => cases h

mutual

def marshalOne (ty : String) (v : Value) (buf : List UInt8) : Outcome (List UInt8) := do
  let c ← firstByte ty
  match TypeCode.ofByte c with
  | none => fail (badSignature "unsupported type code")
  | some (.basic b) => marshalBasic b v buf
  | some .array =>
    match v with
    | .array elemSig items => do
      let buf := padTo buf 4
      let tail ← sliceOrPanic ty 1 (len ty)
      if elemSig ≠ tail then
        fail (badSignature "array element signature does not match its own value's")
      else do
        let lenPos := buf.length
        let buf := buf ++ [0, 0, 0, 0]
        let e ← firstByte elemSig
        let buf := padTo buf (alignOf e)
        let contentStart := buf.length
        let buf ← marshalItems elemSig items buf
        -- the length field, back-patched: the padding before the first element is not counted
        pure (buf.take lenPos ++ leBytes 4 (buf.length - contentStart) ++ buf.drop (lenPos + 4))
    | _ => fail mismatch
  | some .struct =>
    match v with
    | .struct fields => do
      let inner ← sliceOrPanic ty 1 (len ty - 1)
      marshal inner fields (padTo buf 8)
    | _ => fail mismatch
  | some .variant =>
    match v with
    | .variant inner =>
      marshalOne (signatureOf inner) inner (marshalSignature (signatureOf inner) buf)
    | _ => fail mismatch
  | some .dictEntry =>
    match v with
    | .dictEntry key val => do
      let keyTy ← sliceOrPanic ty 1 2
      let buf ← marshalOne keyTy key (padTo buf 8)
      let valTy ← sliceOrPanic ty 2 (len ty - 1)
      marshalOne valTy val buf
    | _ => fail mismatch

def marshalItems (elemSig : String) : List Value → List UInt8 → Outcome (List UInt8)
  | [], buf => pure buf
  | item :: items, buf => do
    let buf ← marshalOne elemSig item buf
    marshalItems elemSig items buf

def marshal (sig : String) : List Value → List UInt8 → Outcome (List UInt8)
  | [], buf =>
    if sig = "" then pure buf
    else do
      let _ ← splitOne sig
      fail (badSignature "fewer values than the signature requires")
  | v :: values, buf =>
    if sig = "" then fail (badSignature "more values than the signature requires")
    else do
      let (thisTy, rest) ← splitOne sig
      let buf ← marshalOne thisTy v buf
      marshal rest values buf

end

section Composites

variable {ty : String}

theorem marshalOne_array (h : leading ty = some .array) {elemSig : String} {e : UInt8}
    (hslice : sliceOrPanic ty 1 (len ty) = .ok elemSig) (he : firstByte elemSig = .ok e) (items : List Value)
    {buf start : List UInt8} (hstart : start = padTo (padTo buf 4 ++ [0, 0, 0, 0]) (alignOf e)) :
    marshalOne ty (.array elemSig items) buf = (do
      let full ← marshalItems elemSig items start
      pure (full.take (padTo buf 4).length ++ leBytes 4 (full.length - start.length) ++
        full.drop ((padTo buf 4).length + 4))) := by
  obtain ⟨c, hc, hcode⟩ := firstByte_of_leading h
  unfold marshalOne
  simp only [hc, ok_bind, hcode, hslice, ne_eq, not_true_eq_false, ↓reduceIte, he, hstart]

theorem marshalOne_struct (h : leading ty = some .struct) (fields : List Value) (buf : List UInt8) :
    marshalOne ty (.struct fields) buf = (do
      let inner ← sliceOrPanic ty 1 (len ty - 1)
      marshal inner fields (padTo buf 8)) := by
  obtain ⟨c, hc, hcode⟩ := firstByte_of_leading h
  unfold marshalOne
  simp only [hc, ok_bind, hcode]

theorem marshalOne_variant (h : leading ty = some .variant) (inner : Value) (buf : List UInt8) :
    marshalOne ty (.variant inner) buf =
      marshalOne (signatureOf inner) inner (marshalSignature (signatureOf inner) buf) := by
  obtain ⟨c, hc, hcode⟩ := firstByte_of_leading h
  rw [marshalOne]
  simp only [hc, ok_bind, hcode]

theorem marshalOne_dictEntry (h : leading ty = some .dictEntry) (key val : Value) (buf : List UInt8) :
    marshalOne ty (.dictEntry key val) buf = (do
      let keyTy ← sliceOrPanic ty 1 2
      let buf ← marshalOne keyTy key (padTo buf 8)
      let valTy ← sliceOrPanic ty 2 (len ty - 1)
      marshalOne valTy val buf) := by
  obtain ⟨c, hc, hcode⟩ := firstByte_of_leading h
  rw [marshalOne]
  simp only [hc, ok_bind, hcode]

end Composites

end Rustils.Dbus
