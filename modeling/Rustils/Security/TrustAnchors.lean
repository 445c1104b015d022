import Mathlib.Tactic.IntervalCases
import Rustils.Lib.Base64
import Rustils.Lib.Search
import Rustils.Lib.Utf8

namespace Rustils.Security.TrustAnchors

open Lib.Utf8 Lib.Base64

def sextet (c : UInt8) : Option UInt8 :=
  if 0x41 ≤ c ∧ c ≤ 0x5A then some (c - 0x41)
  else if 0x61 ≤ c ∧ c ≤ 0x7A then some (c - 0x61 + 26)
  else if 0x30 ≤ c ∧ c ≤ 0x39 then some (c - 0x30 + 52)
  else if c = 0x2B then some 62
  else if c = 0x2F then some 63
  else none

def isAsciiWhitespace (c : UInt8) : Bool :=
  c == 0x20 || c == 0x09 || c == 0x0A || c == 0x0C || c == 0x0D

structure Decoder where
  acc : UInt32
  bits : UInt32
  out : List UInt8

/-- The shift loses the bits of `acc` that were put out long ago. -/
def Decoder.push (d : Decoder) (v : UInt8) : Decoder :=
  let acc := (d.acc <<< 6) ||| v.toUInt32
  let bits := d.bits + 6
  if 8 ≤ bits then ⟨acc, bits - 8, d.out ++ [(acc >>> (bits - 8)).toUInt8]⟩ else ⟨acc, bits, d.out⟩

def b64Loop : List UInt8 → Decoder → Option (List UInt8)
  | [], d => some d.out
  | c :: input, d =>
    if c = PAD then some d.out
    else if isAsciiWhitespace c then b64Loop input d
    else do
      let v ← sextet c
      b64Loop input (d.push v)

def b64Decode (input : List UInt8) : Option (List UInt8) := b64Loop input ⟨0, 0, []⟩

def BEGIN : String := "-----BEGIN CERTIFICATE-----"

def END : String := "-----END CERTIFICATE-----"

def find (s pat : String) : Option ℕ := Lib.Search.find (asBytes pat) (asBytes s)

theorem len_END : len END = 25 := by decide +kernel

theorem len_slice {s t : String} {a : ℕ} (h : slice s a (len s) = some t) : len t + a = len s := by
  obtain ⟨x, z, -, ha, hb⟩ := slice_eq_some.mp h
  omega

def pushDer (out : List (List UInt8)) : Option (List UInt8) → List (List UInt8)
  | some der => if der.isEmpty then out else out ++ [der]
  | none => out

/-- Nothing is returned where a slice of the text would panic. -/
def pemLoop (rest : String) (out : List (List UInt8)) : Option (List (List UInt8)) :=
  match find rest BEGIN with
  | none => some out
  | some start =>
    match _h₁ : slice rest (start + len BEGIN) (len rest) with
    | none => none
    | some afterBegin =>
      match find afterBegin END with
      | none => some out
      | some stop =>
        match _h₂ : slice afterBegin (stop + len END) (len afterBegin) with
        | none => none
        | some rest => pemLoop rest (pushDer out (b64Decode ((asBytes afterBegin).take stop)))
termination_by len rest
decreasing_by
  have hlen := len_END
  have h₁ := len_slice _h₁
  have h₂ := len_slice _h₂
  omega

def pemToDers (text : String) : Option (List (List UInt8)) := pemLoop text []

def digits (input : List UInt8) : List UInt8 :=
  (input.takeWhile (· != PAD)).filter fun c => !isAsciiWhitespace c

theorem b64Loop_eq (input : List UInt8) (d : Decoder) :
    b64Loop input d = ((digits input).mapM sextet).map fun vs => (vs.foldl .push d).out := by
  induction input generalizing d with
  | nil => rfl
  | cons c input ih =>
    rw [b64Loop]
    by_cases hpad : c = PAD
    · simp [hpad, digits]
    · by_cases hws : isAsciiWhitespace c
      · have hd : digits (c :: input) = digits input := by simp [digits, hpad, hws]
        rw [if_neg hpad, if_pos hws, ih, hd]
      · have hd : digits (c :: input) = c :: digits input := by simp [digits, hpad, hws]
        rw [if_neg hpad, if_neg hws, hd, List.mapM_cons]
        cases sextet c with
        | none => rfl
        | some v =>
          simp only [Option.pure_def, Option.bind_eq_bind, Option.bind_some, ih]
          cases (digits input).mapM sextet <;> rfl

theorem sextet_letter {v : ℕ} (h : v < 64) : sextet (letter v) = some (.ofNat v) := by
  have hall : ∀ v < 64, sextet (letter v) = some (.ofNat v) := by decide +kernel
  exact hall v h

theorem sextet_eq_some {c v : UInt8} (h : sextet c = some v) : v.toNat < 64 ∧ c = letter v.toNat := by
  have hall : ∀ n < 256,
      (sextet (.ofNat n)).all (fun v => v.toNat < 64 ∧ UInt8.ofNat n = letter v.toNat) = true := by decide +kernel
  have hc := hall c.toNat c.toNat_lt
  rw [UInt8.ofNat_toNat, h, Option.all_some] at hc
  exact of_decide_eq_true hc

theorem push_acc (acc : UInt32) {v : UInt8} (hv : v.toNat < 64) :
    ((acc <<< 6) ||| v.toUInt32).toNat = (acc.toNat * 64 + v.toNat) % 2 ^ 32 := by
  have hshift : (acc.toNat <<< 6) % 2 ^ 32 = (acc.toNat % 2 ^ 26) <<< 6 := by
    rw [Nat.shiftLeft_eq, Nat.shiftLeft_eq]
    omega
  rw [UInt32.toNat_or, UInt32.toNat_shiftLeft, UInt8.toNat_toUInt32]
  change (acc.toNat <<< 6) % 2 ^ 32 ||| v.toNat = _
  rw [hshift, ← Nat.shiftLeft_add_eq_or_of_lt (show v.toNat < 2 ^ 6 from hv), Nat.shiftLeft_eq]
  omega

structure Decoder.Holds (d : Decoder) (n r : ℕ) (out : List UInt8) : Prop where
  bits : d.bits.toNat = n
  acc : d.acc.toNat % 2 ^ n = r
  out : d.out = out

theorem Decoder.Holds.keep {d : Decoder} {r : ℕ} {out : List UInt8} (h : d.Holds 0 r out) {v : UInt8}
    (hv : v.toNat < 64) : (d.push v).Holds 6 v.toNat out := by
  have hbits : d.bits = 0 := UInt32.toNat_inj.mp h.bits
  have hpush : d.push v = ⟨(d.acc <<< 6) ||| v.toUInt32, 6, d.out⟩ := by
    rw [Decoder.push, hbits]
    exact if_neg (by decide)
  rw [hpush]
  refine ⟨rfl, ?_, h.out⟩
  rw [push_acc d.acc hv]
  omega

theorem Decoder.Holds.put {d : Decoder} {n r : ℕ} {out : List UInt8} (h : d.Holds (n + 2) r out)
    (hn : n ≤ 4) {v : UInt8} (hv : v.toNat < 64) :
    (d.push v).Holds n (v.toNat % 2 ^ n) (out ++ [.ofNat ((r * 64 + v.toNat) / 2 ^ n)]) := by
  have hsum : (d.bits + 6).toNat = n + 8 := by
    rw [UInt32.toNat_add, h.bits]
    change (n + 2 + 6) % 2 ^ 32 = _
    omega
  have hle : 8 ≤ d.bits + 6 := by
    rw [UInt32.le_iff_toNat_le, hsum]
    exact Nat.le_add_left 8 n
  have hrest : (d.bits + 6 - 8).toNat = n := by
    rw [UInt32.toNat_sub_of_le _ _ hle, hsum]
    exact Nat.add_sub_cancel n 8
  have hpush : d.push v = ⟨(d.acc <<< 6) ||| v.toUInt32, d.bits + 6 - 8,
      d.out ++ [(((d.acc <<< 6) ||| v.toUInt32) >>> (d.bits + 6 - 8)).toUInt8]⟩ := by
    rw [Decoder.push]
    exact if_pos hle
  have hacc := push_acc d.acc hv
  have hr := h.acc
  rw [hpush]
  refine ⟨hrest, ?_, ?_⟩
  · rw [hacc]
    interval_cases n <;> omega
  · have hbyte : (((d.acc <<< 6) ||| v.toUInt32) >>> (d.bits + 6 - 8)).toUInt8 =
        .ofNat ((r * 64 + v.toNat) / 2 ^ n) := by
      rw [← UInt8.toNat_inj, UInt32.toNat_toUInt8, UInt32.toNat_shiftRight, hrest, hacc,
        UInt8.toNat_ofNat', Nat.shiftRight_eq_div_pow, Nat.mod_eq_of_lt (show n < 32 by omega)]
      interval_cases n <;> omega
    rw [hbyte, h.out]

theorem foldl_push (vs : List UInt8) (hvs : ∀ v ∈ vs, v.toNat < 64) {d : Decoder} {r : ℕ}
    {out : List UInt8} (h : d.Holds 0 r out) :
    (vs.foldl Decoder.push d).out = out ++ bytesOf (vs.map UInt8.toNat) := by
  rcases vs with _ | ⟨a, _ | ⟨b, rest⟩⟩
  · simpa [bytesOf] using h.out
  · have h₁ := h.keep (hvs a (by simp))
    simpa [bytesOf] using h₁.out
  · have hb := hvs b (by simp)
    have h₂ := (h.keep (hvs a (by simp))).put (Nat.le_refl 4) hb
    have e₁ : (a.toNat * 64 + b.toNat) / 2 ^ 4 = a.toNat * 4 + b.toNat / 16 := by omega
    rw [e₁] at h₂
    rcases rest with _ | ⟨c, rest⟩
    · simpa [bytesOf] using h₂.out
    · have hc := hvs c (by simp)
      have h₃ := h₂.put (by decide) hc
      have e₂ : UInt8.ofNat ((b.toNat % 2 ^ 4 * 64 + c.toNat) / 2 ^ 2) =
          .ofNat (b.toNat * 16 + c.toNat / 4) := by
        rw [← UInt8.toNat_inj, UInt8.toNat_ofNat', UInt8.toNat_ofNat']
        omega
      rw [e₂] at h₃
      rcases rest with _ | ⟨d', rest⟩
      · simpa [bytesOf] using h₃.out
      · have h₄ := h₃.put (by decide) (hvs d' (by simp))
        have e₃ : UInt8.ofNat ((c.toNat % 2 ^ 2 * 64 + d'.toNat) / 2 ^ 0) =
            .ofNat (c.toNat * 64 + d'.toNat) := by
          rw [← UInt8.toNat_inj, UInt8.toNat_ofNat', UInt8.toNat_ofNat']
          omega
        rw [e₃] at h₄
        have ih := foldl_push rest (fun v hv => hvs v (by simp [hv])) h₄
        simpa [bytesOf] using ih

theorem mapM_sextet_eq_some {cs ws : List UInt8} (h : cs.mapM sextet = some ws) :
    (∀ w ∈ ws, w.toNat < 64) ∧ cs = (ws.map UInt8.toNat).map letter := by
  induction cs generalizing ws with
  | nil =>
    cases h
    simp
  | cons c cs ih =>
    rw [List.mapM_cons] at h
    obtain ⟨v, hv, h⟩ := Option.bind_eq_some_iff.mp h
    obtain ⟨ws, hws, h⟩ := Option.bind_eq_some_iff.mp h
    cases h
    obtain ⟨hlt, rfl⟩ := sextet_eq_some hv
    obtain ⟨hall, hcs⟩ := ih hws
    constructor
    · rintro w (_ | ⟨_, hw⟩)
      · exact hlt
      · exact hall w hw
    · rw [List.map_cons, List.map_cons, ← hcs]

theorem mapM_sextet_letters {vs : List ℕ} (h : ∀ v ∈ vs, v < 64) :
    (vs.map letter).mapM sextet = some (vs.map .ofNat) := by
  induction vs with
  | nil => rfl
  | cons v vs ih =>
    rw [List.map_cons, List.mapM_cons, sextet_letter (h v List.mem_cons_self),
      ih fun w hw => h w (List.mem_cons_of_mem v hw)]
    rfl

theorem b64Decode_eq (input : List UInt8) :
    b64Decode input = ((digits input).mapM sextet).map fun ws => bytesOf (ws.map UInt8.toNat) := by
  rw [b64Decode, b64Loop_eq]
  cases h : (digits input).mapM sextet with
  | none => rfl
  | some ws =>
    have hstart : Decoder.Holds ⟨0, 0, []⟩ 0 0 [] := ⟨rfl, rfl, rfl⟩
    have hfold := foldl_push ws (mapM_sextet_eq_some h).1 hstart
    simpa using hfold

theorem b64Decode_letters {input : List UInt8} {vs : List ℕ} (hvs : ∀ v ∈ vs, v < 64)
    (h : digits input = vs.map letter) : b64Decode input = some (bytesOf vs) := by
  have hback : (vs.map UInt8.ofNat).map UInt8.toNat = vs := by
    have hid : ∀ v ∈ vs, (UInt8.toNat ∘ UInt8.ofNat) v = id v := by
      intro v hv
      have hlt := hvs v hv
      rw [Function.comp_apply, UInt8.toNat_ofNat', id]
      omega
    rw [List.map_map, List.map_congr_left hid, List.map_id]
  rw [b64Decode_eq, h, mapM_sextet_letters hvs, Option.map_some, hback]

theorem b64Decode_eq_some {input out : List UInt8} :
    b64Decode input = some out ↔
      ∃ vs, (∀ v ∈ vs, v < 64) ∧ digits input = vs.map letter ∧ out = bytesOf vs := by
  constructor
  · intro h
    rw [b64Decode_eq] at h
    obtain ⟨ws, hws, rfl⟩ := Option.map_eq_some_iff.mp h
    obtain ⟨hlt, hcs⟩ := mapM_sextet_eq_some hws
    refine ⟨ws.map UInt8.toNat, ?_, hcs, rfl⟩
    intro v hv
    obtain ⟨w, hw, rfl⟩ := List.mem_map.mp hv
    exact hlt w hw
  · rintro ⟨vs, hvs, hd, rfl⟩
    exact b64Decode_letters hvs hd

def stripped (input : List UInt8) : List UInt8 := input.filter fun c => !isAsciiWhitespace c

theorem digits_eq (input : List UInt8) : digits input = (stripped input).takeWhile (· != PAD) := by
  induction input with
  | nil => rfl
  | cons c input ih =>
    rw [digits, stripped] at ih ⊢
    by_cases hpad : c = PAD
    · subst hpad
      rw [List.takeWhile_cons_of_neg (by decide), List.filter_cons_of_pos (by decide),
        List.takeWhile_cons_of_neg (by decide)]
      rfl
    · by_cases hws : isAsciiWhitespace c
      · simp [hpad, hws, ih]
      · simp [hpad, hws, ih]

def Standard (text out : List UInt8) : Prop :=
  ∃ vs pads, (∀ v ∈ vs, v < 64) ∧ pads ≤ 2 ∧ text = vs.map letter ++ List.replicate pads PAD ∧
    4 ∣ text.length ∧ out = bytesOf vs

theorem letter_ne_pad {v : ℕ} (h : v < 64) : letter v ≠ PAD := by
  have hall : ∀ v < 64, letter v ≠ PAD := by decide +kernel
  exact hall v h

theorem takeWhile_letters {vs : List ℕ} (h : ∀ v ∈ vs, v < 64) (pads : ℕ) :
    (vs.map letter ++ List.replicate pads PAD).takeWhile (· != PAD) = vs.map letter := by
  rw [List.takeWhile_append_of_pos]
  · cases pads with
    | zero => simp
    | succ n => simp [List.replicate_succ]
  · intro c hc
    obtain ⟨v, hv, rfl⟩ := List.mem_map.mp hc
    simpa using letter_ne_pad (h v hv)

theorem Standard.decode {input out : List UInt8} (h : Standard (stripped input) out) :
    b64Decode input = some out := by
  obtain ⟨vs, pads, hvs, -, htext, -, rfl⟩ := h
  apply b64Decode_letters hvs
  rw [digits_eq, htext, takeWhile_letters hvs]

theorem b64_decodes (input out : List UInt8) :
    (b64Decode input = some out ↔
      ∃ vs, (∀ v ∈ vs, v < 64) ∧ digits input = vs.map letter ∧ out = bytesOf vs) ∧
    (Standard (stripped input) out → b64Decode input = some out) :=
  ⟨b64Decode_eq_some, Standard.decode⟩

theorem b64_accepts_malformed :
    ¬(∀ input out, b64Decode input = some out → Standard (stripped input) out) ∧
    ¬(∀ input, b64Decode input ≠ none → ∀ c ∈ stripped input, c = PAD ∨ sextet c ≠ none) := by
  constructor
  · intro h
    obtain ⟨-, -, -, -, -, hlen, -⟩ := h [0x54, 0x51] [77] (by decide)
    revert hlen
    decide
  · intro h
    have hc := h [0x54, 0x57, 0x46, 0x75, 0x3D, 0x2A] (by decide) 0x2A (by decide)
    revert hc
    decide

end Rustils.Security.TrustAnchors
