import Rustils.Dbus.Decoder
import Rustils.Dbus.MarshalCorrect
import Rustils.Dbus.ReaderBounds

namespace Rustils.Dbus

open Platform Lib.Fuel Lib.Machine Lib.Utf8 Lib.LittleEndian

structure HasAt (buf : Slice) (off : ℕ) (x : List UInt8) : Prop where
  le : off + x.length ≤ buf.length
  bytes : (buf.bytes.drop off).take x.length = x

theorem hasAt_of_append {buf : Slice} {pre x suf : List UInt8} (h : buf.bytes = pre ++ x ++ suf) :
    HasAt buf pre.length x where
  le := by simp [Slice.length, h]
  bytes := by rw [h, List.append_assoc, List.drop_left' rfl, List.take_left' rfl]

theorem hasAt_append {buf : Slice} {off : ℕ} {x y : List UInt8} :
    HasAt buf off (x ++ y) ↔ HasAt buf off x ∧ HasAt buf (off + x.length) y := by
  constructor
  · rintro ⟨hle, hbytes⟩
    rw [List.length_append] at hle hbytes
    have hx := congrArg (List.take x.length) hbytes
    have hy := congrArg (List.drop x.length) hbytes
    rw [List.take_take, Nat.min_eq_left (by omega), List.take_left' rfl] at hx
    rw [List.drop_take, List.drop_drop, Nat.add_sub_cancel_left, List.drop_left' rfl] at hy
    exact ⟨⟨by omega, hx⟩, ⟨by omega, hy⟩⟩
  · rintro ⟨⟨hle, hx⟩, ⟨hle', hy⟩⟩
    refine ⟨by rw [List.length_append]; omega, ?_⟩
    rw [List.length_append, List.take_add, List.drop_drop, hx, hy]

theorem take_hasAt {buf : Slice} {off : ℕ} {x : List UInt8} (h : HasAt buf off x) :
    take buf off x.length = .ok (x, off + x.length) := by
  have hle := h.le
  have hfit := buf.length_lt
  rw [take, addUsize_eq rfl (by omega), ok_bind, if_neg (by omega), h.bytes, pure_eq_ok]

theorem alignRead_hasAt {buf : Slice} {off a : ℕ} (ha : IsAlign a)
    (h : HasAt buf off (zeros (padding off a))) : alignRead buf off a = .ok (off + padding off a) := by
  have hle := h.le
  rw [length_zeros] at hle
  exact alignRead_of_le ha hle

theorem takeLe_mod {buf : Slice} {off w x : ℕ} (h : HasAt buf off (leBytes w x)) :
    takeLe buf off w = .ok (x % 256 ^ w, off + w) := by
  have ht := take_hasAt h
  rw [length_leBytes] at ht
  simp only [takeLe, ht, ok_bind, length_leBytes, ↓reduceIte, leNat_leBytes, pure_eq_ok]

theorem takeLe_hasAt {buf : Slice} {off w x : ℕ} (hx : x < 256 ^ w) (h : HasAt buf off (leBytes w x)) :
    takeLe buf off w = .ok (x, off + w) := by
  rw [takeLe_mod h, Nat.mod_eq_of_lt hx]

theorem takeByte_hasAt {buf : Slice} {off : ℕ} {b : UInt8} (h : HasAt buf off [b]) :
    takeByte buf off = .ok (b, off + 1) := by
  have ht := take_hasAt h
  rw [List.length_singleton] at ht
  simp only [takeByte, ht, ok_bind, pure_eq_ok]

theorem takeText_hasAt {buf : Slice} {off : ℕ} {s : String} (detail : String)
    (h : HasAt buf off (asBytes s ++ [0])) :
    takeText buf off (len s) detail = .ok (s, off + (len s + 1)) := by
  obtain ⟨hs, hnul⟩ := hasAt_append.mp h
  have ht := take_hasAt hs
  have ht' := take_hasAt hnul
  rw [List.length_singleton] at ht'
  simp only [takeText, len, ht, ok_bind, ht', fromUtf8_asBytes, pure_eq_ok, Nat.add_assoc]

theorem unmarshalSignature_hasAt {buf : Slice} {off : ℕ} {s : String} (hs : len s ≤ 255)
    (h : HasAt buf off (wireSignature s)) :
    unmarshalSignature buf off = .ok (s, off + (len s + 2)) := by
  have hcons : HasAt buf off ([UInt8.ofNat (len s)] ++ (asBytes s ++ [0])) := h
  obtain ⟨hlen, htext⟩ := hasAt_append.mp hcons
  rw [List.length_singleton] at htext
  have hn : (UInt8.ofNat (len s)).toNat = len s := by
    rw [UInt8.toNat_ofNat']
    exact Nat.mod_eq_of_lt (by omega)
  simp only [unmarshalSignature, takeByte_hasAt hlen, ok_bind, hn]
  rw [takeText_hasAt _ htext]
  congr 2
  omega

theorem unmarshalString_hasAt {buf : Slice} {off : ℕ} {s : String} (hs : len s < 2 ^ 32)
    (h : HasAt buf off (zeros (padding off 4) ++ wireString s)) :
    unmarshalString buf off = .ok (s, off + (zeros (padding off 4) ++ wireString s).length) := by
  obtain ⟨hpad, hrest⟩ := hasAt_append.mp h
  rw [wireString, List.append_assoc, length_zeros] at hrest
  obtain ⟨hlen, htext⟩ := hasAt_append.mp hrest
  rw [length_leBytes] at htext
  simp only [unmarshalString, alignRead_hasAt isAlign_four hpad, ok_bind, takeLe_hasAt hs hlen]
  rw [takeText_hasAt _ htext]
  simp only [wireString, List.length_append, length_zeros, length_leBytes, List.length_singleton, len]
  congr 2
  omega

theorem Num.ofLe_payload {k : Num} {v : Value} {x : ℕ} (h : k.payload v = some x) : k.ofLe x = v := by
  cases k <;> cases v <;> simp only [Num.payload, Option.some.injEq, reduceCtorEq] at h <;> subst h <;>
    simp [Num.ofLe]

theorem Num.payload_lt {k : Num} {v : Value} {x : ℕ} (h : k.payload v = some x) : x < 256 ^ k.width := by
  cases k <;> cases v <;> simp_all [Num.payload, Num.width] <;> subst h
  · exact UInt16.toNat_lt _
  · exact UInt16.toNat_lt _
  · exact UInt32.toNat_lt _
  · exact UInt32.toNat_lt _
  · exact UInt64.toNat_lt _
  · exact UInt64.toNat_lt _
  · exact UInt64.toNat_lt _

theorem unmarshalBasic_wire {b : Basic} {v : Value} {buf : Slice} {off : ℕ} (h : b.Has v)
    (hat : HasAt buf off (wire off v)) :
    unmarshalBasic b buf off = .ok (v, off + (wire off v).length) := by
  rcases b with _ | _ | k | _ | _ | _
  case num =>
    obtain ⟨x, hx⟩ := Option.isSome_iff_exists.mp h
    rw [wire_num hx] at hat ⊢
    obtain ⟨hpad, hbytes⟩ := hasAt_append.mp hat
    rw [length_zeros] at hbytes
    simp only [unmarshalBasic, alignRead_hasAt k.isAlign_width hpad, ok_bind,
      takeLe_hasAt (Num.payload_lt hx) hbytes, Num.ofLe_payload hx, List.length_append, length_zeros,
      length_leBytes, pure_eq_ok, Nat.add_assoc]
  case byte =>
    cases v <;> try exact h.elim
    simp only [unmarshalBasic, takeByte_hasAt hat, ok_bind, pure_eq_ok]
    rfl
  case boolean =>
    cases v <;> try exact h.elim
    rename_i x
    obtain ⟨hpad, hbytes⟩ := hasAt_append.mp hat
    rw [length_zeros] at hbytes
    have hx : x.toNat < 256 ^ 4 := by cases x <;> decide
    simp only [unmarshalBasic, alignRead_hasAt isAlign_four hpad, ok_bind, takeLe_hasAt hx hbytes, wire,
      List.length_append, length_zeros, length_leBytes, pure_eq_ok, Nat.add_assoc]
    cases x <;> rfl
  case string =>
    cases v <;> try exact h.elim
    simp only [unmarshalBasic, unmarshalString_hasAt h hat, ok_bind, pure_eq_ok, wire]
  case objectPath =>
    cases v <;> try exact h.elim
    simp only [unmarshalBasic, unmarshalString_hasAt h hat, ok_bind, pure_eq_ok, wire]
  case signature =>
    cases v <;> try exact h.elim
    simp only [unmarshalBasic, unmarshalSignature_hasAt h hat, ok_bind, pure_eq_ok, wire, wireSignature,
      List.length_cons, List.length_append, List.length_nil, len]

end Rustils.Dbus
