import Rustils.Dbus.Marshal
import Rustils.Dbus.Types

namespace Rustils.Dbus

open Lib.Utf8 Lib.LittleEndian

def Basic.Has : Basic → Value → Prop
  | .byte, .byte _ => True
  | .boolean, .boolean _ => True
  | .num k, v => (k.payload v).isSome
  | .string, .string s => len s < 2 ^ 32
  | .objectPath, .objectPath s => len s < 2 ^ 32
  | .signature, .signature s => len s ≤ 255
  | _, _ => False

mutual

def HasTy : Ty → Value → Prop
  | .basic b, v => b.Has v
  | .variant, .variant inner => ∃ t, HasTy t inner ∧ len t.sig ≤ 255
  | .array elem, .array elemSig items => elemSig = elem.sig ∧ HasItems elem items
  | .struct first rest, .struct fields => HasTys (first :: rest) fields
  | .dict key val, .dictEntry k v => HasTy (.basic key) k ∧ HasTy val v
  | _, _ => False

def HasItems (elem : Ty) : List Value → Prop
  | [] => True
  | v :: vs => HasTy elem v ∧ HasItems elem vs

def HasTys : List Ty → List Value → Prop
  | [], [] => True
  | t :: ts, v :: vs => HasTy t v ∧ HasTys ts vs
  | _, _ => False

end

def zeros (n : ℕ) : List UInt8 := List.replicate n 0

def wireString (s : String) : List UInt8 := leBytes 4 (len s) ++ asBytes s ++ [0]

def wireSignature (s : String) : List UInt8 := UInt8.ofNat (len s) :: (asBytes s ++ [0])

def elemAlign (elemSig : String) : ℕ :=
  match asBytes elemSig with
  | c :: _ => alignOf c
  | [] => 1

/-- Where the elements of an array at `pos` start: after its length field and the padding to the
first element, which is there even when there is none. -/
def contentStart (pos : ℕ) (elemSig : String) : ℕ :=
  pos + padding pos 4 + 4 + padding (pos + padding pos 4 + 4) (elemAlign elemSig)

mutual

def wire : ℕ → Value → List UInt8
  | _, .byte x => [x]
  | pos, .boolean x => zeros (padding pos 4) ++ leBytes 4 x.toNat
  | pos, .int16 x => zeros (padding pos 2) ++ leBytes 2 x.toUInt16.toNat
  | pos, .uint16 x => zeros (padding pos 2) ++ leBytes 2 x.toNat
  | pos, .int32 x => zeros (padding pos 4) ++ leBytes 4 x.toUInt32.toNat
  | pos, .uint32 x => zeros (padding pos 4) ++ leBytes 4 x.toNat
  | pos, .int64 x => zeros (padding pos 8) ++ leBytes 8 x.toUInt64.toNat
  | pos, .uint64 x => zeros (padding pos 8) ++ leBytes 8 x.toNat
  | pos, .double bits => zeros (padding pos 8) ++ leBytes 8 bits.toNat
  | pos, .string s => zeros (padding pos 4) ++ wireString s
  | pos, .objectPath s => zeros (padding pos 4) ++ wireString s
  | _, .signature s => wireSignature s
  | pos, .array elemSig items =>
    zeros (padding pos 4) ++ leBytes 4 (wireAll (contentStart pos elemSig) items).length ++
      zeros (padding (pos + padding pos 4 + 4) (elemAlign elemSig)) ++
      wireAll (contentStart pos elemSig) items
  | pos, .struct fields => zeros (padding pos 8) ++ wireAll (pos + padding pos 8) fields
  | pos, .variant inner =>
    wireSignature (signatureOf inner) ++ wire (pos + (len (signatureOf inner) + 2)) inner
  | pos, .dictEntry key val =>
    zeros (padding pos 8) ++ wire (pos + padding pos 8) key ++
      wire (pos + padding pos 8 + (wire (pos + padding pos 8) key).length) val

def wireAll : ℕ → List Value → List UInt8
  | _, [] => []
  | pos, v :: vs => wire pos v ++ wireAll (pos + (wire pos v).length) vs

end

mutual

def ArraysFit : ℕ → Value → Prop
  | pos, .array elemSig items =>
    (wireAll (contentStart pos elemSig) items).length < 2 ^ 32 ∧
      AllArraysFit (contentStart pos elemSig) items
  | pos, .struct fields => AllArraysFit (pos + padding pos 8) fields
  | pos, .variant inner => ArraysFit (pos + (len (signatureOf inner) + 2)) inner
  | pos, .dictEntry key val =>
    ArraysFit (pos + padding pos 8) key ∧
      ArraysFit (pos + padding pos 8 + (wire (pos + padding pos 8) key).length) val
  | _, _ => True

def AllArraysFit : ℕ → List Value → Prop
  | _, [] => True
  | pos, v :: vs => ArraysFit pos v ∧ AllArraysFit (pos + (wire pos v).length) vs

end

theorem firstByte_sig (t : Ty) : ∃ c, firstByte t.sig = .ok c ∧ TypeCode.ofByte c = some t.code ∧
    alignOf c = elemAlign t.sig := by
  obtain ⟨c, cs, hc, hcode⟩ := t.exists_sig
  refine ⟨c, ?_, hcode, ?_⟩
  · rw [firstByte, hc]
    rfl
  · rw [elemAlign, hc]

def IsAlign (a : ℕ) : Prop := a = 1 ∨ a = 2 ∨ a = 4 ∨ a = 8

theorem isAlign_two : IsAlign 2 := .inr (.inl rfl)
theorem isAlign_four : IsAlign 4 := .inr (.inr (.inl rfl))
theorem isAlign_eight : IsAlign 8 := .inr (.inr (.inr rfl))

theorem Num.isAlign_width (k : Num) : IsAlign k.width := by
  cases k <;> simp [IsAlign, Num.width]

theorem TypeCode.isAlign (c : TypeCode) : IsAlign c.align := by
  rcases c with (_ | _ | k | _ | _ | _) | _ | _ | _ | _
  case basic.num => exact k.isAlign_width
  all_goals simp [IsAlign, TypeCode.align, Basic.align]

theorem isAlign_alignOf (c : UInt8) : IsAlign (alignOf c) := by
  unfold alignOf
  split
  · exact TypeCode.isAlign _
  · exact .inl rfl

theorem isAlign_elemAlign (s : String) : IsAlign (elemAlign s) := by
  unfold elemAlign
  split
  · exact isAlign_alignOf _
  · exact .inl rfl

theorem add_padding {a : ℕ} (ha : IsAlign a) (n : ℕ) : n + padding n a = (n + a - 1) / a * a := by
  unfold padding
  rcases ha with rfl | rfl | rfl | rfl <;> omega

theorem padding_add_mul {a : ℕ} (ha : IsAlign a) (n k : ℕ) :
    padding (n + 8 * k) a = padding n a := by
  unfold padding
  rcases ha with rfl | rfl | rfl | rfl <;> omega

theorem contentStart_add_mul (pos k : ℕ) (elemSig : String) :
    contentStart (pos + 8 * k) elemSig = contentStart pos elemSig + 8 * k := by
  unfold contentStart
  rw [padding_add_mul isAlign_four, show pos + 8 * k + padding pos 4 + 4 = pos + padding pos 4 + 4 + 8 * k by omega,
    padding_add_mul (isAlign_elemAlign elemSig)]
  omega

theorem wire_num {k : Num} {v : Value} {x : ℕ} (h : k.payload v = some x) (pos : ℕ) :
    wire pos v = zeros (padding pos k.width) ++ leBytes k.width x := by
  cases k <;> cases v <;> simp_all [Num.payload, wire, Num.width]

mutual

theorem wire_add_mul (pos k : ℕ) (v : Value) : wire (pos + 8 * k) v = wire pos v := by
  have h2 := padding_add_mul isAlign_two
  have h4 := padding_add_mul isAlign_four
  have h8 := padding_add_mul isAlign_eight
  match v with
  | .byte _ | .signature _ => rfl
  | .boolean _ | .int16 _ | .uint16 _ | .int32 _ | .uint32 _ | .int64 _ | .uint64 _ | .double _
  | .string _ | .objectPath _ => simp only [wire, h2, h4, h8]
  | .array elemSig items =>
    simp only [wire, contentStart_add_mul, wireAll_add_mul _ k items, h4]
    rw [show pos + 8 * k + padding pos 4 + 4 = pos + padding pos 4 + 4 + 8 * k by omega,
      padding_add_mul (isAlign_elemAlign elemSig)]
  | .struct fields =>
    simp only [wire, h8]
    rw [show pos + 8 * k + padding pos 8 = pos + padding pos 8 + 8 * k by omega, wireAll_add_mul]
  | .variant inner =>
    simp only [wire]
    rw [Nat.add_right_comm, wire_add_mul]
  | .dictEntry key val =>
    simp only [wire, h8]
    rw [show pos + 8 * k + padding pos 8 = pos + padding pos 8 + 8 * k by omega, wire_add_mul _ k key,
      Nat.add_right_comm, wire_add_mul _ k val]

theorem wireAll_add_mul (pos k : ℕ) (vs : List Value) : wireAll (pos + 8 * k) vs = wireAll pos vs := by
  match vs with
  | [] => rfl
  | v :: vs => rw [wireAll, wireAll, wire_add_mul, Nat.add_right_comm, wireAll_add_mul]

end

mutual

theorem arraysFit_add_mul (pos k : ℕ) (v : Value) : ArraysFit (pos + 8 * k) v ↔ ArraysFit pos v := by
  have h8 := padding_add_mul isAlign_eight pos k
  match v with
  | .byte _ | .boolean _ | .int16 _ | .uint16 _ | .int32 _ | .uint32 _ | .int64 _ | .uint64 _ | .double _
  | .string _ | .objectPath _ | .signature _ => simp only [ArraysFit]
  | .array elemSig items =>
    simp only [ArraysFit, contentStart_add_mul, wireAll_add_mul, allArraysFit_add_mul]
  | .struct fields =>
    simp only [ArraysFit, h8]
    rw [Nat.add_right_comm, allArraysFit_add_mul]
  | .variant inner =>
    simp only [ArraysFit]
    rw [Nat.add_right_comm, arraysFit_add_mul]
  | .dictEntry key val =>
    simp only [ArraysFit, h8]
    rw [Nat.add_right_comm pos, wire_add_mul, Nat.add_right_comm _ (8 * k), arraysFit_add_mul _ k key,
      arraysFit_add_mul _ k val]

theorem allArraysFit_add_mul (pos k : ℕ) (vs : List Value) :
    AllArraysFit (pos + 8 * k) vs ↔ AllArraysFit pos vs := by
  match vs with
  | [] => rfl
  | v :: vs =>
    simp only [AllArraysFit]
    rw [wire_add_mul, Nat.add_right_comm, arraysFit_add_mul, allArraysFit_add_mul]

end

end Rustils.Dbus
