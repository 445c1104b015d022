import Mathlib.Algebra.Order.Ring.Nat
import Mathlib.Tactic.Ring

namespace Rustils.Lib.LittleEndian

def leBytes : ℕ → ℕ → List UInt8
  | 0, _ => []
  | w + 1, x => UInt8.ofNat x :: leBytes w (x / 256)

def leNat : List UInt8 → ℕ
  | [] => 0
  | b :: bs => b.toNat + 256 * leNat bs

@[simp] theorem length_leBytes (w x : ℕ) : (leBytes w x).length = w := by
  induction w generalizing x with
  | zero => rfl
  | succ w ih => simp [leBytes, ih]

theorem take_leBytes {v w : ℕ} (x : ℕ) (h : v ≤ w) : (leBytes w x).take v = leBytes v x := by
  induction v generalizing w x with
  | zero => rfl
  | succ v ih =>
    obtain ⟨w, rfl⟩ := Nat.exists_eq_succ_of_ne_zero (Nat.ne_of_gt (Nat.lt_of_lt_of_le v.succ_pos h))
    rw [leBytes, leBytes, List.take_succ_cons, ih _ (Nat.le_of_succ_le_succ h)]

theorem leNat_leBytes (w x : ℕ) : leNat (leBytes w x) = x % 256 ^ w := by
  induction w generalizing x with
  | zero => simp [leBytes, leNat, Nat.mod_one]
  | succ w ih =>
    rw [leBytes, leNat, ih, UInt8.toNat_ofNat', pow_succ' 256 w]
    exact Nat.mod_mul.symm

theorem leNat_lt (bytes : List UInt8) : leNat bytes < 256 ^ bytes.length := by
  induction bytes with
  | nil => simp [leNat]
  | cons b bs ih =>
    have hb := b.toNat_lt
    rw [leNat, List.length_cons, pow_succ']
    omega

end Rustils.Lib.LittleEndian
