import Rustils.Dbus.Accepted
import Rustils.Dbus.Message

namespace Rustils.Dbus

open Platform Lib.Fuel Lib.Machine Lib.Utf8

variable {α β : Type}

def Refuses (x : Outcome α) : Prop := ∀ e, x = fail e → e.kind = .invalidInput

theorem refuses_ok (a : α) : Refuses (.ok a) := by rintro e ⟨⟩

theorem refuses_panicked : Refuses (panicked : Outcome α) := by rintro e ⟨⟩

theorem refuses_badSignature (detail : String) : Refuses (fail (badSignature detail) : Outcome α) := by
  rintro e ⟨⟩
  rfl

theorem Refuses.bind {x : Outcome α} {f : α → Outcome β} (hx : Refuses x)
    (hf : ∀ a, Refuses (f a)) : Refuses (x >>= f) := by
  intro e he
  rcases bind_eq_error.mp he with h | ⟨a, -, h⟩
  · exact hx e h
  · exact hf a e h

theorem refuses_firstByte (ty : String) : Refuses (firstByte ty) := by
  unfold firstByte
  split
  · exact refuses_ok _
  · exact refuses_panicked

theorem refuses_sliceOrPanic (t : String) (a b : ℕ) : Refuses (sliceOrPanic t a b) := by
  unfold sliceOrPanic
  split
  · exact refuses_ok _
  · exact refuses_panicked

theorem refuses_addI32 (a b : ℤ) : Refuses (addI32 a b : Outcome ℤ) := by
  unfold addI32
  split_ifs
  · exact refuses_ok _
  · exact refuses_panicked

theorem refuses_bracketedLoop (opening closing : UInt8) (bytes : List UInt8) (i : ℕ) (depth : ℤ) :
    Refuses (bracketedLoop opening closing bytes i depth) := by
  induction bytes generalizing i depth with
  | nil => exact refuses_badSignature _
  | cons b bs ih =>
    unfold bracketedLoop
    split_ifs
    · exact (refuses_addI32 _ _).bind fun _ => ih _ _
    · refine (refuses_addI32 _ _).bind fun d => ?_
      split_ifs
      · exact refuses_ok _
      · exact ih _ _
    · exact ih _ _

theorem refuses_typeLen (bytes : List UInt8) : Refuses (typeLen bytes) := by
  induction bytes with
  | nil => exact refuses_badSignature _
  | cons b bs ih =>
    unfold typeLen
    split
    · exact ih.bind fun _ => refuses_ok _
    · exact refuses_bracketedLoop _ _ _ _ _
    · exact refuses_bracketedLoop _ _ _ _ _
    · exact refuses_ok _
    · exact refuses_ok _
    · exact refuses_badSignature _

theorem refuses_splitOne (sig : String) : Refuses (splitOne sig) := by
  refine (refuses_typeLen _).bind fun n => ?_
  unfold splitAtOrPanic
  split
  · exact refuses_ok _
  · exact refuses_panicked

theorem refuses_marshalBasic (b : Basic) (v : Value) (buf : List UInt8) : Refuses (marshalBasic b v buf) := by
  unfold marshalBasic
  split
  case h_3 =>
    split
    · exact refuses_ok _
    · exact refuses_badSignature _
  case h_9 => exact refuses_badSignature _
  all_goals exact refuses_ok _

mutual

theorem refuses_marshalOne (ty : String) (v : Value) (buf : List UInt8) : Refuses (marshalOne ty v buf) := by
  unfold marshalOne
  refine (refuses_firstByte ty).bind fun c => ?_
  split
  · exact refuses_badSignature _
  · exact refuses_marshalBasic _ _ _
  · split
    · refine (refuses_sliceOrPanic _ _ _).bind fun tail => ?_
      split_ifs
      · exact refuses_badSignature _
      · exact (refuses_firstByte _).bind fun e => (refuses_marshalItems _ _ _).bind fun _ => refuses_ok _
    · exact refuses_badSignature _
  · split
    · exact (refuses_sliceOrPanic _ _ _).bind fun inner => refuses_marshal _ _ _
    · exact refuses_badSignature _
  · split
    · exact refuses_marshalOne _ _ _
    · exact refuses_badSignature _
  · split
    · exact (refuses_sliceOrPanic _ _ _).bind fun _ => (refuses_marshalOne _ _ _).bind fun _ =>
        (refuses_sliceOrPanic _ _ _).bind fun _ => refuses_marshalOne _ _ _
    · exact refuses_badSignature _

theorem refuses_marshalItems (elemSig : String) (items : List Value) (buf : List UInt8) :
    Refuses (marshalItems elemSig items buf) := by
  match items with
  | [] => exact refuses_ok _
  | item :: items =>
    unfold marshalItems
    exact (refuses_marshalOne _ _ _).bind fun _ => refuses_marshalItems _ _ _

theorem refuses_marshal (sig : String) (values : List Value) (buf : List UInt8) :
    Refuses (marshal sig values buf) := by
  match values with
  | [] =>
    unfold marshal
    split_ifs
    · exact refuses_ok _
    · exact (refuses_splitOne _).bind fun _ => refuses_badSignature _
  | v :: values =>
    unfold marshal
    split_ifs
    · exact refuses_badSignature _
    · exact (refuses_splitOne _).bind fun _ => (refuses_marshalOne _ _ _).bind fun _ =>
        refuses_marshal _ _ _

end

theorem refuses_encode (msg : Message) : Refuses (encode msg) := by
  unfold encode
  refine Refuses.bind ?_ fun _ => (refuses_marshal _ _ _).bind fun _ => refuses_ok _
  unfold Message.bodyBytes
  split_ifs
  · exact refuses_ok _
  · exact refuses_marshal _ _ _

end Rustils.Dbus
