import Rustils.Lib.Utf8

namespace Rustils.Lib.Lossy

open Lib.Utf8

def replacement : Char := '\uFFFD'

def decodeHead (bytes : List UInt8) : Option Char := bytes.toByteArray.utf8DecodeChar? 0

def isCont (b : UInt8) : Bool := 0x80 ≤ b && b < 0xC0

def mayFollow (a b : UInt8) : Bool :=
  if a = 0xE0 then 0xA0 ≤ b && b < 0xC0
  else if a = 0xED then 0x80 ≤ b && b < 0xA0
  else if a = 0xF0 then 0x90 ≤ b && b < 0xC0
  else if a = 0xF4 then 0x80 ≤ b && b < 0x90
  else (0xE1 ≤ a && a < 0xF4) && isCont b

def badLength : List UInt8 → ℕ
  | a :: b :: c :: _ =>
    if ¬ mayFollow a b then 1
    else if 0xF0 ≤ a ∧ isCont c then 3
    else 2
  | [a, b] => if mayFollow a b then 2 else 1
  | _ => 1

def lossy : List UInt8 → List Char
  | [] => []
  | a :: rest =>
    match decodeHead (a :: rest) with
    | some c => c :: lossy (rest.drop (c.utf8Size - 1))
    | none => replacement :: lossy (rest.drop (badLength (a :: rest) - 1))
termination_by bytes => bytes.length
decreasing_by all_goals
  simp only [List.length_drop, List.length_cons]
  omega

theorem decodeHead_encodeChar (c : Char) (rest : List UInt8) :
    decodeHead (String.utf8EncodeChar c ++ rest) = some c := by
  rw [decodeHead, List.toByteArray_append]
  exact ByteArray.utf8DecodeChar?_utf8EncodeChar_append

theorem decodeHead_eq_some {bytes : List UInt8} {c : Char} :
    decodeHead bytes = some c ↔ ∃ rest, bytes = String.utf8EncodeChar c ++ rest := by
  constructor
  · intro h
    obtain ⟨l, hl⟩ := ByteArray.exists_of_utf8DecodeChar?_eq_some h
    refine ⟨l.data.toList, ?_⟩
    have hdata := congrArg (fun b => b.data.toList) hl
    simpa using hdata
  · rintro ⟨rest, rfl⟩
    exact decodeHead_encodeChar c rest

theorem isCont_iff {b : UInt8} : isCont b = true ↔ 0x80 ≤ b.toNat ∧ b.toNat < 0xC0 := by
  simp only [isCont, Bool.and_eq_true, decide_eq_true_eq, UInt8.le_iff_toNat_le, UInt8.lt_iff_toNat_lt]
  rfl

theorem encodeChar_eq_cons (c : Char) :
    ∃ a rest, String.utf8EncodeChar c = a :: rest ∧ isCont a = false ∧ ∀ b ∈ rest, isCont b = true := by
  have hv : c.val.toNat < 0x110000 := by
    rcases c.valid with h | h
    · exact Nat.lt_trans h (by decide)
    · exact h.2
  simp only [String.utf8EncodeChar, ← Bool.not_eq_true, isCont_iff]
  split_ifs with h1 h2 h3
  · refine ⟨_, _, rfl, ?_, by simp⟩
    rw [UInt8.toNat_ofNat']
    omega
  all_goals
    refine ⟨_, _, rfl, ?_, ?_⟩
    · rw [UInt8.toNat_ofNat']
      omega
    · simp only [List.forall_mem_cons, List.not_mem_nil, false_imp_iff, implies_true, and_true,
        UInt8.toNat_ofNat']
      omega

theorem mayFollow_isCont {a b : UInt8} (h : mayFollow a b = true) : isCont b = true := by
  rw [isCont_iff]
  unfold mayFollow at h
  split_ifs at h <;>
    simp only [Bool.and_eq_true, decide_eq_true_eq, isCont_iff, UInt8.le_iff_toNat_le,
      UInt8.lt_iff_toNat_lt, UInt8.reduceToNat] at h <;> omega

theorem length_encodeChar (c : Char) : (String.utf8EncodeChar c).length = c.utf8Size :=
  String.length_utf8EncodeChar c

theorem lossy_encodeChar (c : Char) (rest : List UInt8) :
    lossy (String.utf8EncodeChar c ++ rest) = c :: lossy rest := by
  obtain ⟨a, tail, hc, -⟩ := encodeChar_eq_cons c
  have hlen : tail.length = c.utf8Size - 1 := by
    rw [← length_encodeChar, hc, List.length_cons, Nat.add_sub_cancel]
  have hhead : decodeHead (a :: (tail ++ rest)) = some c := by
    rw [← List.cons_append, ← hc, decodeHead_encodeChar]
  rw [hc, List.cons_append, lossy, hhead]
  dsimp only
  rw [← hlen, List.drop_left]

theorem lossy_asBytes_append (s : List Char) (rest : List UInt8) :
    lossy (s.flatMap String.utf8EncodeChar ++ rest) = s ++ lossy rest := by
  induction s with
  | nil => rfl
  | cons c s ih => rw [List.flatMap_cons, List.append_assoc, lossy_encodeChar, ih, List.cons_append]

@[simp] theorem lossy_text (s : List Char) : lossy (s.flatMap String.utf8EncodeChar) = s := by
  have h := lossy_asBytes_append s []
  rwa [List.append_nil, lossy, List.append_nil] at h

theorem lossy_cont (rest : List UInt8) : lossy (0x80 :: rest) = replacement :: lossy rest := by
  have hnone : decodeHead (0x80 :: rest) = none := by
    apply Option.eq_none_iff_forall_not_mem.mpr
    intro c hc
    obtain ⟨t, ht⟩ := decodeHead_eq_some.mp hc
    obtain ⟨a, tail, hchar, ha, -⟩ := encodeChar_eq_cons c
    rw [hchar, List.cons_append] at ht
    rw [← (List.cons.inj ht).1] at ha
    cases ha
  have hfollow : ∀ b, mayFollow 0x80 b = false := fun _ => rfl
  have hone : badLength (0x80 :: rest) = 1 := by
    rcases rest with _ | ⟨b, _ | ⟨c, rest⟩⟩
    · rfl
    · rw [badLength, hfollow]
      rfl
    · rw [badLength, hfollow]
      rfl
  rw [lossy, hnone, hone]
  rfl

theorem badLength_le (a : UInt8) (rest : List UInt8) : badLength (a :: rest) - 1 ≤ rest.length := by
  unfold badLength
  split <;> rename_i h <;> simp only [List.cons.injEq] at h
  · obtain ⟨-, rfl⟩ := h
    split_ifs <;> simp
  · obtain ⟨-, rfl⟩ := h
    split_ifs <;> simp
  · simp

/-- Bytes that no character can run into. -/
def Fresh (bytes : List UInt8) : Prop := ∀ b ∈ bytes.head?, isCont b = false

theorem badLength_append {a : UInt8} {rest r : List UInt8} (hr : Fresh r) :
    badLength (a :: (rest ++ r)) = badLength (a :: rest) := by
  cases r with
  | nil => rw [List.append_nil]
  | cons b r =>
    have hb : isCont b = false := hr b rfl
    cases rest with
    | nil =>
      have hnot : ¬ mayFollow a b = true := fun h => by rw [mayFollow_isCont h] at hb; cases hb
      cases r <;> simp [badLength, hnot]
    | cons c rest =>
      cases rest with
      | nil => simp only [List.cons_append, List.nil_append, badLength, hb]; split_ifs <;> simp_all
      | cons d rest => rfl

theorem decodeHead_append {a : UInt8} {rest r : List UInt8} (hr : Fresh r) :
    decodeHead (a :: (rest ++ r)) = decodeHead (a :: rest) := by
  apply Option.ext
  intro c
  rw [decodeHead_eq_some, decodeHead_eq_some]
  constructor
  · rintro ⟨t, ht⟩
    obtain ⟨a', tail, hc, -, hcont⟩ := encodeChar_eq_cons c
    rw [hc, List.cons_append] at ht
    obtain ⟨rfl, htail⟩ := List.cons.inj ht
    obtain ⟨u, rfl, hu⟩ | ⟨u, hu, rfl⟩ := List.append_eq_append_iff.mp htail
    · -- the encoding would run into what follows
      cases u with
      | nil => exact ⟨[], by simp [hc]⟩
      | cons b u =>
        have hb : isCont b = false := hr b (by rw [hu]; rfl)
        rw [hcont b (by simp)] at hb
        cases hb
    · exact ⟨u, by rw [hc, hu, List.cons_append]⟩
  · rintro ⟨t, ht⟩
    exact ⟨t ++ r, by rw [← List.append_assoc, ← ht, List.cons_append]⟩

theorem lossy_append (bytes : List UInt8) {r : List UInt8} (hr : Fresh r) :
    lossy (bytes ++ r) = lossy bytes ++ lossy r := by
  induction bytes using lossy.induct with
  | case1 => rw [lossy, List.nil_append, List.nil_append]
  | case2 a rest c hc ih =>
    have hlen : c.utf8Size - 1 ≤ rest.length := by
      obtain ⟨t, ht⟩ := decodeHead_eq_some.mp hc
      have hl := congrArg List.length ht
      rw [List.length_append, length_encodeChar, List.length_cons] at hl
      omega
    rw [List.cons_append, lossy, decodeHead_append hr, hc, lossy, hc]
    dsimp only
    rw [List.drop_append_of_le_length hlen, ih, List.cons_append]
  | case3 a rest hc ih =>
    rw [List.cons_append, lossy, decodeHead_append hr, hc, lossy, hc]
    dsimp only
    rw [badLength_append hr, List.drop_append_of_le_length (badLength_le a rest), ih, List.cons_append]

theorem fresh_encodeChar (c : Char) (rest : List UInt8) : Fresh (String.utf8EncodeChar c ++ rest) := by
  obtain ⟨a, tail, hc, ha, -⟩ := encodeChar_eq_cons c
  rw [hc]
  rintro b ⟨⟩
  exact ha

theorem lossy_eq_cons {bytes : List UInt8} {c : Char} {cs : List Char} (hc : c ≠ replacement)
    (h : lossy bytes = c :: cs) : ∃ rest, bytes = String.utf8EncodeChar c ++ rest ∧ lossy rest = cs := by
  cases bytes with
  | nil =>
    rw [lossy] at h
    cases h
  | cons a rest =>
    rw [lossy] at h
    cases hd : decodeHead (a :: rest) with
    | none =>
      rw [hd] at h
      exact absurd (List.cons.inj h).1.symm hc
    | some c' =>
      obtain ⟨t, ht⟩ := decodeHead_eq_some.mp hd
      have hlossy : lossy (a :: rest) = c :: cs := by rw [lossy, hd]; rw [hd] at h; exact h
      rw [ht, lossy_encodeChar] at hlossy
      obtain ⟨rfl, hcs⟩ := List.cons.inj hlossy
      exact ⟨t, ht, hcs⟩

theorem lossy_suffix {bytes : List UInt8} {u v : List Char} (h : lossy bytes = u ++ v) :
    ∃ x y, bytes = x ++ y ∧ lossy y = v := by
  induction u generalizing bytes with
  | nil => exact ⟨[], bytes, rfl, h⟩
  | cons c u ih =>
    cases bytes with
    | nil =>
      rw [lossy] at h
      cases h
    | cons a rest =>
      have hdrop : ∃ n, lossy (rest.drop n) = u ++ v := by
        rw [lossy] at h
        cases hd : decodeHead (a :: rest) with
        | none =>
          rw [hd] at h
          exact ⟨_, (List.cons.inj h).2⟩
        | some c' =>
          rw [hd] at h
          exact ⟨_, (List.cons.inj h).2⟩
      obtain ⟨n, hn⟩ := hdrop
      obtain ⟨x, y, hxy, hy⟩ := ih hn
      refine ⟨a :: (rest.take n ++ x), y, ?_, hy⟩
      rw [List.cons_append, List.append_assoc, ← hxy, List.take_append_drop]

@[simp] theorem lossy_eq_nil {bytes : List UInt8} : lossy bytes = [] ↔ bytes = [] := by
  cases bytes with
  | nil => simp [lossy]
  | cons a rest =>
    rw [lossy]
    split <;> simp

theorem length_lossy_le (bytes : List UInt8) : (lossy bytes).length ≤ bytes.length := by
  induction bytes using lossy.induct with
  | case1 => simp [lossy]
  | case2 a rest c hc ih =>
    rw [lossy, hc]
    simp only [List.length_drop, List.length_cons] at ih ⊢
    omega
  | case3 a rest hc ih =>
    rw [lossy, hc]
    simp only [List.length_drop, List.length_cons] at ih ⊢
    omega

section OneByte

variable {c : Char} {b : UInt8} (hb : String.utf8EncodeChar c = [b])

include hb

theorem ne_replacement : c ≠ replacement := by
  rintro rfl
  have hlen : (String.utf8EncodeChar replacement).length = 3 := by decide
  rw [hb] at hlen
  cases hlen

theorem lossy_byte (xs ys : List UInt8) : lossy (xs ++ b :: ys) = lossy xs ++ c :: lossy ys := by
  have h := lossy_append xs (fresh_encodeChar c ys)
  rwa [lossy_encodeChar, hb, List.singleton_append] at h

theorem lossy_eq_append_cons {bytes : List UInt8} {u v : List Char} (h : lossy bytes = u ++ c :: v) :
    ∃ x y, bytes = x ++ b :: y ∧ lossy y = v := by
  obtain ⟨x, y, rfl, hy⟩ := lossy_suffix h
  obtain ⟨rest, rfl, hrest⟩ := lossy_eq_cons (ne_replacement hb) hy
  exact ⟨x, rest, by rw [hb, List.singleton_append], hrest⟩

theorem count_lossy (bytes : List UInt8) : (lossy bytes).count c = bytes.count b := by
  induction hn : bytes.length using Nat.strongRecOn generalizing bytes with
  | _ n ih =>
    by_cases hmem : b ∈ bytes
    · obtain ⟨xs, ys, rfl⟩ := List.append_of_mem hmem
      simp only [List.length_append, List.length_cons] at hn
      have hxs := ih xs.length (by omega) xs rfl
      have hys := ih ys.length (by omega) ys rfl
      rw [lossy_byte hb, List.count_append, List.count_append, List.count_cons_self, List.count_cons_self, hxs, hys]
    · have hnone : c ∉ lossy bytes := by
        intro h
        obtain ⟨u, v, huv⟩ := List.append_of_mem h
        obtain ⟨x, y, rfl, -⟩ := lossy_eq_append_cons hb huv
        apply hmem
        simp
      rw [List.count_eq_zero_of_not_mem hmem, List.count_eq_zero_of_not_mem hnone]

end OneByte

end Rustils.Lib.Lossy
