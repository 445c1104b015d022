import Rustils.Lib.Machine
import Rustils.Lib.Utf8
import Rustils.Platform.Error

namespace Rustils.Dbus

open Platform Lib.Fuel Lib.Machine Lib.Utf8

abbrev Outcome (α : Type) := Exec PlatformError α

inductive Value
  | byte (x : UInt8)
  | boolean (x : Bool)
  | int16 (x : Int16)
  | uint16 (x : UInt16)
  | int32 (x : Int32)
  | uint32 (x : UInt32)
  | int64 (x : Int64)
  | uint64 (x : UInt64)
  | double (bits : UInt64)
  | string (s : String)
  | objectPath (s : String)
  | signature (s : String)
  | array (elemSig : String) (items : List Value)
  | struct (fields : List Value)
  | variant (inner : Value)
  | dictEntry (key val : Value)

inductive Num
  | int16 | uint16 | int32 | uint32 | int64 | uint64 | double
  deriving DecidableEq

inductive Basic
  | byte | boolean | num (k : Num) | string | objectPath | signature
  deriving DecidableEq

inductive TypeCode
  | basic (b : Basic) | array | struct | variant | dictEntry
  deriving DecidableEq

def TypeCode.ofByte (c : UInt8) : Option TypeCode :=
  match Char.ofNat c.toNat with
  | 'y' => some (.basic .byte)
  | 'b' => some (.basic .boolean)
  | 'n' => some (.basic (.num .int16))
  | 'q' => some (.basic (.num .uint16))
  | 'i' => some (.basic (.num .int32))
  | 'u' => some (.basic (.num .uint32))
  | 'x' => some (.basic (.num .int64))
  | 't' => some (.basic (.num .uint64))
  | 'd' => some (.basic (.num .double))
  | 's' => some (.basic .string)
  | 'o' => some (.basic .objectPath)
  | 'g' => some (.basic .signature)
  | 'a' => some .array
  | '(' => some .struct
  | 'v' => some .variant
  | '\x7b' => some .dictEntry
  | _ => none

def badSignature (detail : String) : PlatformError := .new .invalidInput .none detail

def Num.width : Num → ℕ
  | .int16 | .uint16 => 2
  | .int32 | .uint32 => 4
  | .int64 | .uint64 | .double => 8

def Basic.align : Basic → ℕ
  | .byte | .signature => 1
  | .boolean | .string | .objectPath => 4
  | .num k => k.width

def TypeCode.align : TypeCode → ℕ
  | .basic b => b.align
  | .array => 4
  | .struct | .dictEntry => 8
  | .variant => 1

def alignOf (typeChar : UInt8) : ℕ :=
  match TypeCode.ofByte typeChar with
  | some c => c.align
  | none => 1

def bracketedLoop (opening closing : UInt8) : List UInt8 → ℕ → ℤ → Outcome ℕ
  | [], _, _ => fail (badSignature "unterminated container type")
  | b :: bs, i, depth =>
    if b = opening then do
      let depth ← addI32 depth 1
      bracketedLoop opening closing bs (i + 1) depth
    else if b = closing then do
      let depth ← addI32 depth (-1)
      if depth = 0 then pure (i + 1) else bracketedLoop opening closing bs (i + 1) depth
    else bracketedLoop opening closing bs (i + 1) depth

def bracketedLen (sig : List UInt8) (opening closing : UInt8) : Outcome ℕ :=
  bracketedLoop opening closing sig 0 0

def typeLen : List UInt8 → Outcome ℕ
  | [] => fail (badSignature "empty signature where a type was expected")
  | first :: rest =>
    match TypeCode.ofByte first with
    | some .array => do
      let n ← typeLen rest
      pure (1 + n)
    | some .struct => bracketedLen (first :: rest) 0x28 0x29
    | some .dictEntry => bracketedLen (first :: rest) 0x7B 0x7D
    | some (.basic _) | some .variant => pure 1
    | none => fail (badSignature "unrecognized or unsupported type code")

def splitAtOrPanic (s : String) (n : ℕ) : Outcome (String × String) :=
  match splitAt s n with
  | some p => pure p
  | none => panicked

def sliceOrPanic (s : String) (a b : ℕ) : Outcome String :=
  match slice s a b with
  | some t => pure t
  | none => panicked

def splitOne (sig : String) : Outcome (String × String) := do
  let n ← typeLen (asBytes sig)
  splitAtOrPanic sig n

mutual

def signatureOf : Value → String
  | .byte _ => "y"
  | .boolean _ => "b"
  | .int16 _ => "n"
  | .uint16 _ => "q"
  | .int32 _ => "i"
  | .uint32 _ => "u"
  | .int64 _ => "x"
  | .uint64 _ => "t"
  | .double _ => "d"
  | .string _ => "s"
  | .objectPath _ => "o"
  | .signature _ => "g"
  | .array elemSig _ => "a" ++ elemSig
  | .struct fields => "(" ++ signaturesOf fields ++ ")"
  | .variant _ => "v"
  | .dictEntry key val => "\x7b" ++ (signatureOf key ++ signatureOf val) ++ "\x7d"

def signaturesOf : List Value → String
  | [] => ""
  | v :: vs => signatureOf v ++ signaturesOf vs

end

end Rustils.Dbus
