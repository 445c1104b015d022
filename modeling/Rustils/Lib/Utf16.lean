import Mathlib.Data.Nat.Notation
import Mathlib.Data.Char
import Mathlib.Data.UInt
import Mathlib.Data.List.Basic

namespace Rustils.Lib.Utf16

def encodeChar (c : Char) : List UInt16 :=
  if c.toNat < 0x10000 then [UInt16.ofNat c.toNat]
  else [UInt16.ofNat (0xD800 + (c.toNat - 0x10000) / 0x400),
    UInt16.ofNat (0xDC00 + (c.toNat - 0x10000) % 0x400)]

def encode (s : List Char) : List UInt16 := s.flatMap encodeChar

def codePoint (n : ℕ) : List UInt8 :=
  if n < 0x80 then [.ofNat n]
  else if n < 0x800 then [.ofNat (0xC0 + n / 0x40), .ofNat (0x80 + n % 0x40)]
  else if n < 0x10000 then
    [.ofNat (0xE0 + n / 0x1000), .ofNat (0x80 + n / 0x40 % 0x40), .ofNat (0x80 + n % 0x40)]
  else
    [.ofNat (0xF0 + n / 0x40000), .ofNat (0x80 + n / 0x1000 % 0x40), .ofNat (0x80 + n / 0x40 % 0x40),
      .ofNat (0x80 + n % 0x40)]

def wtf8 : List UInt16 → List UInt8
  | [] => []
  | [u] => codePoint u.toNat
  | u :: v :: rest =>
    if 0xD800 ≤ u ∧ u < 0xDC00 ∧ 0xDC00 ≤ v ∧ v < 0xE000 then
      codePoint (0x10000 + (u.toNat - 0xD800) * 0x400 + (v.toNat - 0xDC00)) ++ wtf8 rest
    else codePoint u.toNat ++ wtf8 (v :: rest)

theorem encode_cons (c : Char) (s : List Char) : encode (c :: s) = encodeChar c ++ encode s := rfl

theorem encode_append (s t : List Char) : encode (s ++ t) = encode s ++ encode t :=
  List.flatMap_append

theorem char_valid (c : Char) : c.toNat < 0xD800 ∨ 0xDFFF < c.toNat ∧ c.toNat < 0x110000 := c.valid

theorem encodeChar_ne_nil (c : Char) : encodeChar c ≠ [] := by
  unfold encodeChar
  split_ifs <;> exact List.cons_ne_nil _ _

theorem mem_encodeChar {u : UInt16} (c : Char) (hu : u.toNat < 0xD800) :
    u ∈ encodeChar c ↔ c.toNat = u.toNat := by
  have hc := char_valid c
  unfold encodeChar
  split_ifs with h
  · rw [List.mem_singleton, ← UInt16.toNat_inj, UInt16.toNat_ofNat']
    omega
  · simp only [List.mem_cons, List.not_mem_nil, or_false, ← UInt16.toNat_inj, UInt16.toNat_ofNat']
    omega

theorem mem_encode {u : UInt16} (s : List Char) (hu : u.toNat < 0xD800) :
    u ∈ encode s ↔ ∃ c ∈ s, c.toNat = u.toNat := by
  rw [encode, List.mem_flatMap]
  simp only [mem_encodeChar _ hu]

theorem encodeChar_append_inj {c d : Char} {r r' : List UInt16}
    (h : encodeChar c ++ r = encodeChar d ++ r') : c = d ∧ r = r' := by
  have hc := char_valid c
  have hd := char_valid d
  rw [← Char.toNat_inj]
  unfold encodeChar at h
  split_ifs at h with h₁ h₂ h₂ <;>
    simp only [List.cons_append, List.nil_append, List.cons.injEq, ← UInt16.toNat_inj,
      UInt16.toNat_ofNat'] at h
  · exact ⟨by omega, h.2⟩
  · omega
  · omega
  · exact ⟨by omega, h.2.2⟩

theorem encode_inj {s t : List Char} (h : encode s = encode t) : s = t := by
  induction s generalizing t with
  | nil =>
    cases t with
    | nil => rfl
    | cons d t =>
      rw [encode_cons] at h
      exact absurd (List.append_eq_nil_iff.mp h.symm).1 (encodeChar_ne_nil d)
  | cons c s ih =>
    cases t with
    | nil =>
      rw [encode_cons] at h
      exact absurd (List.append_eq_nil_iff.mp h).1 (encodeChar_ne_nil c)
    | cons d t =>
      rw [encode_cons, encode_cons] at h
      obtain ⟨rfl, hst⟩ := encodeChar_append_inj h
      rw [ih hst]

def decode : List UInt16 → Option (List Char)
  | [] => some []
  | u :: rest =>
    if u.toNat < 0xD800 ∨ 0xDFFF < u.toNat then (decode rest).map (Char.ofNat u.toNat :: ·)
    else
      match rest with
      | [] => none
      | v :: rest =>
        if u.toNat < 0xDC00 ∧ 0xDC00 ≤ v.toNat ∧ v.toNat < 0xE000 then
          (decode rest).map (Char.ofNat (0x10000 + (u.toNat - 0xD800) * 0x400 + (v.toNat - 0xDC00)) :: ·)
        else none

theorem toNat_ofNat_of_valid {n : ℕ} (h : n < 0xD800 ∨ 0xDFFF < n ∧ n < 0x110000) : (Char.ofNat n).toNat = n := by
  rw [Char.ofNat, dif_pos h]
  rfl

theorem decode_unit {u : UInt16} (h : u.toNat < 0xD800 ∨ 0xDFFF < u.toNat) (rest : List UInt16) :
    decode (u :: rest) = (decode rest).map (Char.ofNat u.toNat :: ·) := by
  rw [decode.eq_def]
  exact if_pos h

theorem decode_pair {u v : UInt16} (hu : 0xD800 ≤ u.toNat ∧ u.toNat < 0xDC00)
    (hv : 0xDC00 ≤ v.toNat ∧ v.toNat < 0xE000) (rest : List UInt16) :
    decode (u :: v :: rest) =
      (decode rest).map (Char.ofNat (0x10000 + (u.toNat - 0xD800) * 0x400 + (v.toNat - 0xDC00)) :: ·) := by
  rw [decode.eq_def]
  dsimp only
  rw [if_neg (by omega), if_pos ⟨hu.2, hv⟩]

theorem decode_encodeChar (c : Char) (rest : List UInt16) :
    decode (encodeChar c ++ rest) = (decode rest).map (c :: ·) := by
  have hc := char_valid c
  unfold encodeChar
  split_ifs with h
  · have hu : (UInt16.ofNat c.toNat).toNat = c.toNat := UInt16.toNat_ofNat_of_lt' h
    rw [List.singleton_append, decode_unit (by omega), hu, Char.ofNat_toNat]
  · have hu : (UInt16.ofNat (0xD800 + (c.toNat - 0x10000) / 0x400)).toNat = 0xD800 + (c.toNat - 0x10000) / 0x400 :=
      UInt16.toNat_ofNat_of_lt' (by rw [UInt16.size]; omega)
    have hv : (UInt16.ofNat (0xDC00 + (c.toNat - 0x10000) % 0x400)).toNat = 0xDC00 + (c.toNat - 0x10000) % 0x400 :=
      UInt16.toNat_ofNat_of_lt' (by rw [UInt16.size]; omega)
    have hn : 0x10000 + (0xD800 + (c.toNat - 0x10000) / 0x400 - 0xD800) * 0x400 +
        (0xDC00 + (c.toNat - 0x10000) % 0x400 - 0xDC00) = c.toNat := by omega
    rw [List.cons_append, List.singleton_append, decode_pair (by omega) (by omega), hu, hv, hn, Char.ofNat_toNat]

theorem decode_of_encode (s : List Char) : decode (encode s) = some s := by
  induction s with
  | nil => rfl
  | cons c s ih => rw [encode_cons, decode_encodeChar, ih, Option.map_some]

theorem encode_of_decode {units : List UInt16} {s : List Char} (h : decode units = some s) : encode s = units := by
  fun_induction decode units generalizing s with
  | case1 =>
    cases h
    rfl
  | case2 u rest hu ih =>
    obtain ⟨t, ht, rfl⟩ := Option.map_eq_some_iff.mp h
    have hlt := u.toNat_lt
    rw [encode_cons, encodeChar, toNat_ofNat_of_valid (by omega), if_pos hlt, ih ht, UInt16.ofNat_toNat]
    rfl
  | case3 => cases h
  | case4 u hu v rest hv ih =>
    obtain ⟨t, ht, rfl⟩ := Option.map_eq_some_iff.mp h
    rw [encode_cons, encodeChar, toNat_ofNat_of_valid (by omega), if_neg (by omega), ih ht]
    have hhigh : 0xD800 + (0x10000 + (u.toNat - 0xD800) * 0x400 + (v.toNat - 0xDC00) - 0x10000) / 0x400 = u.toNat := by omega
    have hlow : 0xDC00 + (0x10000 + (u.toNat - 0xD800) * 0x400 + (v.toNat - 0xDC00) - 0x10000) % 0x400 = v.toNat := by omega
    rw [hhigh, hlow, UInt16.ofNat_toNat, UInt16.ofNat_toNat]
    rfl
  | case5 => cases h

theorem decode_eq_some {units : List UInt16} {s : List Char} : decode units = some s ↔ encode s = units :=
  ⟨encode_of_decode, fun h => h ▸ decode_of_encode s⟩

end Rustils.Lib.Utf16
