import Rustils.Lib.Fuel
import Rustils.Lib.LittleEndian

namespace Rustils.Lib.Buffer

open Fuel LittleEndian

variable {ε : Type}

def write (buf : List UInt8) (start : ℕ) (bytes : List UInt8) : Exec ε (List UInt8) :=
  if start + bytes.length ≤ buf.length then .ok (buf.take start ++ bytes ++ buf.drop (start + bytes.length))
  else panicked

def writeUnits (buf : List UInt8) (start : ℕ) : List UInt16 → Exec ε (List UInt8)
  | [] => .ok buf
  | u :: us => do
    let buf ← write buf start (leBytes 2 u.toNat)
    writeUnits buf (start + 2) us

def readNat (buf : List UInt8) (start width : ℕ) : Exec ε ℕ :=
  if start + width ≤ buf.length then .ok (leNat ((buf.drop start).take width)) else panicked

def unitBytes (us : List UInt16) : List UInt8 := us.flatMap fun u => leBytes 2 u.toNat

def units : List UInt8 → List UInt16
  | a :: b :: rest => UInt16.ofNat (leNat [a, b]) :: units rest
  | _ => []

section Writes

variable {front bytes : List UInt8} {n start : ℕ}

theorem write_next (hstart : start = front.length) (h : bytes.length ≤ n) :
    (write (front ++ List.replicate n 0) start bytes : Exec ε _) =
      .ok (front ++ bytes ++ List.replicate (n - bytes.length) 0) := by
  subst hstart
  rw [write, if_pos (by simp; omega), List.take_left, List.drop_append, List.drop_replicate]
  simp

theorem write_past (hstart : start = front.length) (h : n < bytes.length) :
    (write (front ++ List.replicate n 0) start bytes : Exec ε _) = panicked := by
  rw [write, if_neg (by simp; omega)]

@[simp] theorem length_unitBytes (us : List UInt16) : (unitBytes us).length = 2 * us.length := by
  induction us with
  | nil => rfl
  | cons u us ih =>
    rw [unitBytes, List.flatMap_cons, List.length_append, length_leBytes, List.length_cons]
    rw [unitBytes] at ih
    omega

theorem writeUnits_next {us : List UInt16} (hstart : start = front.length) (h : 2 * us.length ≤ n) :
    (writeUnits (front ++ List.replicate n 0) start us : Exec ε _) =
      .ok (front ++ unitBytes us ++ List.replicate (n - 2 * us.length) 0) := by
  induction us generalizing front n start with
  | nil => simp [writeUnits, unitBytes]
  | cons u us ih =>
    rw [List.length_cons] at h
    rw [writeUnits, write_next hstart (by rw [length_leBytes]; omega), ok_bind,
      ih (by simp [hstart]) (by rw [length_leBytes]; omega)]
    have hleft : n - 2 - 2 * us.length = n - 2 * (us.length + 1) := by omega
    simp only [unitBytes, List.flatMap_cons, List.append_assoc, length_leBytes, List.length_cons, hleft]

theorem writeUnits_past {us : List UInt16} (hstart : start = front.length) (h : n < 2 * us.length) :
    (writeUnits (front ++ List.replicate n 0) start us : Exec ε _) = panicked := by
  induction us generalizing front n start with
  | nil => simp at h
  | cons u us ih =>
    rw [List.length_cons] at h
    by_cases hn : n < 2
    · rw [writeUnits, write_past hstart (by rwa [length_leBytes]), error_bind]
    · rw [writeUnits, write_next hstart (by rw [length_leBytes]; omega), ok_bind]
      apply ih
      · simp [hstart]
      · rw [length_leBytes]
        omega

end Writes

theorem take_drop_append {bytes pad : List UInt8} {start width : ℕ} (h : start + width ≤ bytes.length) :
    ((bytes ++ pad).drop start).take width = (bytes.drop start).take width := by
  rw [List.drop_append_of_le_length (by omega), List.take_append_of_le_length (by rw [List.length_drop]; omega)]

theorem readNat_append {bytes pad : List UInt8} {start width : ℕ} (h : start + width ≤ bytes.length) :
    (readNat (bytes ++ pad) start width : Exec ε ℕ) = .ok (leNat ((bytes.drop start).take width)) := by
  rw [readNat, if_pos (by rw [List.length_append]; omega), take_drop_append h]

theorem units_unitBytes (us : List UInt16) : units (unitBytes us) = us := by
  induction us with
  | nil => rfl
  | cons u us ih =>
    have hbytes : unitBytes (u :: us) = UInt8.ofNat u.toNat :: UInt8.ofNat (u.toNat / 256) :: unitBytes us := rfl
    have hunit : leNat [UInt8.ofNat u.toNat, UInt8.ofNat (u.toNat / 256)] = u.toNat := by
      exact (leNat_leBytes 2 u.toNat).trans (Nat.mod_eq_of_lt u.toNat_lt)
    rw [hbytes, units, ih, hunit, UInt16.ofNat_toNat]

theorem leBytes_pair (a b : UInt8) : leBytes 2 (UInt16.ofNat (leNat [a, b])).toNat = [a, b] := by
  have ha := a.toNat_lt
  have hb := b.toNat_lt
  have hunit : (UInt16.ofNat (leNat [a, b])).toNat = a.toNat + 256 * b.toNat := by
    rw [UInt16.toNat_ofNat', leNat, leNat, leNat]
    omega
  have hlow : UInt8.ofNat (a.toNat + 256 * b.toNat) = a := by
    rw [← UInt8.toNat_inj, UInt8.toNat_ofNat']
    omega
  have hhigh : UInt8.ofNat ((a.toNat + 256 * b.toNat) / 256) = b := by
    rw [← UInt8.toNat_inj, UInt8.toNat_ofNat']
    omega
  rw [hunit, leBytes, leBytes, leBytes, hlow, hhigh]

theorem unitBytes_units (bytes : List UInt8) : unitBytes (units bytes) = bytes.take (2 * (bytes.length / 2)) := by
  fun_induction units bytes with
  | case1 a b rest ih =>
    have hlength : 2 * ((a :: b :: rest).length / 2) = 2 * (rest.length / 2) + 2 := by
      rw [List.length_cons, List.length_cons]
      omega
    rw [hlength, List.take_succ_cons, List.take_succ_cons, ← ih, unitBytes, List.flatMap_cons, leBytes_pair]
    rfl
  | case2 bytes h =>
    match bytes, h with
    | [], _ => rfl
    | [a], _ => simp [unitBytes]
    | a :: b :: rest, h => exact absurd rfl (h a b rest)

theorem units_congr {xs ys : List UInt8} (hlength : xs.length = ys.length) :
    units xs = units ys ↔ xs.take (2 * (xs.length / 2)) = ys.take (2 * (xs.length / 2)) := by
  constructor
  · intro h
    rw [← unitBytes_units, h, unitBytes_units, hlength]
  · intro h
    rw [← units_unitBytes (units xs), unitBytes_units, h, hlength, ← unitBytes_units, units_unitBytes]

theorem length_units (bytes : List UInt8) : (units bytes).length = bytes.length / 2 := by
  have h := congrArg List.length (unitBytes_units bytes)
  rw [length_unitBytes, List.length_take] at h
  omega

end Rustils.Lib.Buffer
