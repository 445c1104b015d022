import Mathlib.Data.List.Basic
import Mathlib.Data.UInt

namespace Rustils.Lib.Base64

def bytesOf : List ℕ → List UInt8
  | a :: b :: c :: d :: rest =>
    .ofNat (a * 4 + b / 16) :: .ofNat (b * 16 + c / 4) :: .ofNat (c * 64 + d) :: bytesOf rest
  | [a, b, c] => [.ofNat (a * 4 + b / 16), .ofNat (b * 16 + c / 4)]
  | [a, b] => [.ofNat (a * 4 + b / 16)]
  | _ => []

def sextetsOf : List UInt8 → List ℕ
  | x :: y :: z :: rest =>
    x.toNat / 4 :: (x.toNat % 4 * 16 + y.toNat / 16) :: (y.toNat % 16 * 4 + z.toNat / 64) ::
      z.toNat % 64 :: sextetsOf rest
  | [x, y] => [x.toNat / 4, x.toNat % 4 * 16 + y.toNat / 16, y.toNat % 16 * 4]
  | [x] => [x.toNat / 4, x.toNat % 4 * 16]
  | [] => []

def padding (bytes : List UInt8) : ℕ := (3 - bytes.length % 3) % 3

def letter (v : ℕ) : UInt8 :=
  .ofNat (if v < 26 then v + 0x41 else if v < 52 then v - 26 + 0x61 else if v < 62 then v - 52 + 0x30
    else if v = 62 then 0x2B else 0x2F)

def PAD : UInt8 := 0x3D

def encode (bytes : List UInt8) : List UInt8 :=
  (sextetsOf bytes).map letter ++ List.replicate (padding bytes) PAD

theorem bytesOf_sextetsOf (bytes : List UInt8) : bytesOf (sextetsOf bytes) = bytes := by
  fun_induction sextetsOf bytes with
  | case1 x y z rest ih =>
    have hx := x.toNat_lt
    have hy := y.toNat_lt
    have hz := z.toNat_lt
    rw [bytesOf, ih]
    simp only [List.cons.injEq, ← UInt8.toNat_inj, UInt8.toNat_ofNat', and_true]
    omega
  | case2 x y =>
    have hx := x.toNat_lt
    have hy := y.toNat_lt
    simp only [bytesOf, List.cons.injEq, ← UInt8.toNat_inj, UInt8.toNat_ofNat', and_true]
    omega
  | case3 x =>
    have hx := x.toNat_lt
    simp only [bytesOf, List.cons.injEq, ← UInt8.toNat_inj, UInt8.toNat_ofNat', and_true]
    omega
  | case4 => rfl

theorem sextetsOf_lt {bytes : List UInt8} {v : ℕ} (h : v ∈ sextetsOf bytes) : v < 64 := by
  fun_induction sextetsOf bytes with
  | case1 x y z rest ih =>
    have hx := x.toNat_lt
    have hy := y.toNat_lt
    have hz := z.toNat_lt
    simp only [List.mem_cons] at h
    rcases h with rfl | rfl | rfl | rfl | h
    · omega
    · omega
    · omega
    · omega
    · exact ih h
  | case2 x y =>
    have hx := x.toNat_lt
    have hy := y.toNat_lt
    simp only [List.mem_cons, List.not_mem_nil, or_false] at h
    omega
  | case3 x =>
    have hx := x.toNat_lt
    simp only [List.mem_cons, List.not_mem_nil, or_false] at h
    omega
  | case4 => cases h

end Rustils.Lib.Base64
