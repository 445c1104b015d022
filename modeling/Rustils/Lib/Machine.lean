import Mathlib.Algebra.Group.Int.Defs
import Mathlib.Algebra.Group.Nat.Defs
import Rustils.Lib.Fuel

namespace Rustils.Lib.Machine

open Fuel

variable {ε : Type}

def addUsize (a b : ℕ) : Exec ε ℕ := if a + b < 2 ^ 64 then pure (a + b) else panicked

def mulUsize (a b : ℕ) : Exec ε ℕ := if a * b < 2 ^ 64 then pure (a * b) else panicked

def addI32 (a b : ℤ) : Exec ε ℤ :=
  if -2 ^ 31 ≤ a + b ∧ a + b < 2 ^ 31 then pure (a + b) else panicked

def addU32 (a b : UInt32) : Exec ε UInt32 :=
  if a.toNat + b.toNat < 2 ^ 32 then pure (a + b) else panicked

def I64 (z : ℤ) : Prop := -0x8000000000000000 ≤ z ∧ z < 0x8000000000000000

instance : DecidablePred I64 := fun z =>
  inferInstanceAs (Decidable (-0x8000000000000000 ≤ z ∧ z < 0x8000000000000000))

def checkedI64 (z : ℤ) : Exec ε ℤ := if I64 z then pure z else panicked

def addI64 (a b : ℤ) : Exec ε ℤ := checkedI64 (a + b)

def subI64 (a b : ℤ) : Exec ε ℤ := checkedI64 (a - b)

def mulI64 (a b : ℤ) : Exec ε ℤ := checkedI64 (a * b)

def negI64 (a : ℤ) : Exec ε ℤ := checkedI64 (-a)

def addU64 (a b : ℕ) : Exec ε ℕ := if a + b < 0x10000000000000000 then pure (a + b) else panicked

def mulU64 (a b : ℕ) : Exec ε ℕ := if a * b < 0x10000000000000000 then pure (a * b) else panicked

def subUnsigned (a b : ℕ) : Exec ε ℕ := if b ≤ a then pure (a - b) else panicked

def asU64 (z : ℤ) : ℕ := (z % 0x10000000000000000).toNat

def asU32 (z : ℤ) : ℕ := (z % 0x100000000).toNat

def asI64 (n : ℕ) : ℤ := if n < 0x8000000000000000 then n else n - 0x10000000000000000

theorem checkedI64_eq {z : ℤ} (h : I64 z) : (checkedI64 z : Exec ε ℤ) = .ok z := if_pos h

theorem checkedI64_panics {z : ℤ} (h : ¬ I64 z) : (checkedI64 z : Exec ε ℤ) = panicked := if_neg h

theorem addU64_eq {a b : ℕ} (h : a + b < 0x10000000000000000) : (addU64 a b : Exec ε ℕ) = .ok (a + b) :=
  if_pos h

theorem mulU64_eq {a b : ℕ} (h : a * b < 0x10000000000000000) : (mulU64 a b : Exec ε ℕ) = .ok (a * b) :=
  if_pos h

theorem subUnsigned_eq {a b : ℕ} (h : b ≤ a) : (subUnsigned a b : Exec ε ℕ) = .ok (a - b) := if_pos h

theorem tdiv_of_pos {n : ℤ} (hn : 0 < n) (a : ℤ) : a.tdiv n = a / n + if 0 ≤ a ∨ n ∣ a then 0 else 1 := by
  rw [Int.tdiv_eq_ediv, Int.sign_eq_one_of_pos hn]

theorem asU64_natCast {n : ℕ} (h : n < 0x10000000000000000) : asU64 n = n := by
  unfold asU64
  omega

theorem asU32_natCast {n : ℕ} (h : n < 0x100000000) : asU32 n = n := by
  unfold asU32
  omega

theorem asI64_eq {n : ℕ} (h : n < 0x8000000000000000) : asI64 n = n := if_pos h

theorem addUsize_eq {a b c : ℕ} (h : a + b = c) (hc : c < 2 ^ 64) : addUsize a b = (.ok c : Exec ε ℕ) := by
  rw [addUsize, h, if_pos hc, pure_eq_ok]

structure Slice where
  bytes : List UInt8
  fits : bytes.length < 2 ^ 63

theorem Slice.eq_of_bytes {s t : Slice} (h : s.bytes = t.bytes) : s = t := by
  cases s
  cases h
  rfl

def Slice.length (s : Slice) : ℕ := s.bytes.length

theorem Slice.length_lt (s : Slice) : s.length < 2 ^ 63 := s.fits

def Slice.extend (s : Slice) (bytes : List UInt8) : Exec ε Slice :=
  if h : (s.bytes ++ bytes).length < 2 ^ 63 then pure ⟨s.bytes ++ bytes, h⟩ else panicked

def Slice.drain (s : Slice) (n : ℕ) : Exec ε Slice :=
  if n ≤ s.length then
    pure ⟨s.bytes.drop n, Nat.lt_of_le_of_lt (List.length_drop ▸ Nat.sub_le _ _) s.fits⟩
  else panicked

end Rustils.Lib.Machine
