import Mathlib.Algebra.BigOperators.Group.List.Basic
import Mathlib.Algebra.Order.Ring.Int

namespace Rustils.Lib.Brackets

variable {α : Type} [DecidableEq α]

def weight (o c a : α) : ℤ := if a = o then 1 else if a = c then -1 else 0

def balance (o c : α) (l : List α) : ℤ := (l.map (weight o c)).sum

variable {o c : α}

@[simp] theorem balance_nil : balance o c [] = 0 := rfl

@[simp] theorem balance_cons (a : α) (l : List α) : balance o c (a :: l) = weight o c a + balance o c l := by
  simp [balance]

@[simp] theorem balance_append (l k : List α) : balance o c (l ++ k) = balance o c l + balance o c k := by
  simp [balance]

theorem weight_open : weight o c o = 1 := if_pos rfl

theorem weight_close (h : c ≠ o) : weight o c c = -1 := by rw [weight, if_neg h, if_pos rfl]

theorem weight_other {a : α} (ho : a ≠ o) (hc : a ≠ c) : weight o c a = 0 := by rw [weight, if_neg ho, if_neg hc]

theorem neg_one_le_weight (a : α) : -1 ≤ weight o c a := by
  unfold weight
  split_ifs <;> omega

theorem weight_le_one (a : α) : weight o c a ≤ 1 := by
  unfold weight
  split_ifs <;> omega

structure Arrives (o c : α) (limit target d : ℤ) (l : List α) : Prop where
  ends : d + balance o c l = target
  within : ∀ x y, l = x ++ y → y ≠ [] → 0 < d + balance o c x ∧ d + balance o c x < limit

theorem arrives_nil {limit target d : ℤ} : Arrives o c limit target d [] ↔ d = target := by
  constructor
  · intro h
    simpa using h.ends
  · rintro rfl
    refine ⟨by simp, fun x y hxy hy => ?_⟩
    exact absurd (List.append_eq_nil_iff.mp hxy.symm).2 hy

theorem arrives_cons {limit target d : ℤ} {a : α} {l : List α} :
    Arrives o c limit target d (a :: l) ↔ (0 < d ∧ d < limit) ∧ Arrives o c limit target (d + weight o c a) l := by
  constructor
  · intro h
    refine ⟨by simpa using h.within [] (a :: l) rfl (List.cons_ne_nil a l), ?_, fun x y hxy hy => ?_⟩
    · rw [Int.add_assoc, ← balance_cons]
      exact h.ends
    · rw [Int.add_assoc, ← balance_cons]
      exact h.within (a :: x) y (congrArg (a :: ·) hxy) hy
  · rintro ⟨hd, h⟩
    refine ⟨by rw [balance_cons, ← Int.add_assoc, h.ends], fun x y hxy hy => ?_⟩
    cases x with
    | nil => simpa using hd
    | cons b x =>
      obtain ⟨rfl, htail⟩ := List.cons.inj hxy
      rw [balance_cons, ← Int.add_assoc]
      exact h.within x y htail hy

theorem arrives_replicate {limit d : ℤ} (n : ℕ) (hd : 0 < d) (h : d + n = limit) :
    Arrives o c limit limit d (List.replicate n o) := by
  induction n generalizing d with
  | zero =>
    apply arrives_nil.mpr
    simpa using h
  | succ n ih =>
    rw [List.replicate_succ, arrives_cons, weight_open]
    push_cast at h
    exact ⟨⟨hd, by omega⟩, ih (by omega) (by omega)⟩

theorem arrives_stopped {limit target d : ℤ} {l : List α} (hd : ¬(0 < d ∧ d < limit)) :
    Arrives o c limit target d l ↔ l = [] ∧ d = target := by
  cases l with
  | nil => simp [arrives_nil]
  | cons a l => simp [arrives_cons, hd]

theorem arrives_or_reaches {limit d : ℤ} {l : List α} (hd : 0 < d) (hlimit : d < limit)
    (hend : d + balance o c l = 0) (hpos : ∀ x y, l = x ++ y → y ≠ [] → 0 < d + balance o c x) :
    Arrives o c limit 0 d l ∨ ∃ x y, l = x ++ y ∧ Arrives o c limit limit d x := by
  induction l generalizing d with
  | nil => exact absurd hend (by simpa using hd.ne')
  | cons a l ih =>
    rw [balance_cons, ← Int.add_assoc] at hend
    have hpos' : ∀ x y, l = x ++ y → y ≠ [] → 0 < d + weight o c a + balance o c x := by
      intro x y hxy hy
      rw [Int.add_assoc, ← balance_cons]
      exact hpos (a :: x) y (congrArg (a :: ·) hxy) hy
    have hw : weight o c a ≤ 1 := weight_le_one a
    rcases eq_or_ne l [] with rfl | hl
    · exact .inl (arrives_cons.mpr ⟨⟨hd, hlimit⟩, arrives_nil.mpr (by simpa using hend)⟩)
    have hd' : 0 < d + weight o c a := by simpa using hpos' [] l rfl hl
    rcases eq_or_ne (d + weight o c a) limit with heq | hne
    · exact .inr ⟨[a], l, rfl, arrives_cons.mpr ⟨⟨hd, hlimit⟩, arrives_nil.mpr heq⟩⟩
    · rcases ih hd' (by omega) hend hpos' with h | ⟨x, y, rfl, h⟩
      · exact .inl (arrives_cons.mpr ⟨⟨hd, hlimit⟩, h⟩)
      · exact .inr ⟨a :: x, y, rfl, arrives_cons.mpr ⟨⟨hd, hlimit⟩, h⟩⟩

structure Nested (o c : α) (l : List α) : Prop where
  balanced : balance o c l = 0
  nonneg : ∀ x y, l = x ++ y → 0 ≤ balance o c x

theorem nested_nil : Nested o c [] := by
  refine ⟨rfl, fun x y h => ?_⟩
  rw [(List.append_eq_nil_iff.mp h.symm).1]
  exact Int.le_refl 0

theorem Nested.append {l k : List α} (hl : Nested o c l) (hk : Nested o c k) : Nested o c (l ++ k) := by
  refine ⟨by rw [balance_append, hl.balanced, hk.balanced, Int.add_zero], fun x y h => ?_⟩
  rcases List.append_eq_append_iff.mp h with ⟨z, rfl, hz⟩ | ⟨z, hz, -⟩
  · rw [balance_append, hl.balanced, Int.zero_add]
    exact hk.nonneg z y hz
  · exact hl.nonneg x z hz

theorem nested_single {a : α} (ho : a ≠ o) (hc : a ≠ c) : Nested o c [a] := by
  have hw := weight_other ho hc
  refine ⟨by simp [hw], fun x y h => ?_⟩
  rcases List.singleton_eq_append_iff.mp h with ⟨rfl, -⟩ | ⟨rfl, -⟩
  · exact Int.le_refl 0
  · simp [hw]

theorem nested_flatten {ls : List (List α)} (h : ∀ l ∈ ls, Nested o c l) : Nested o c ls.flatten := by
  induction ls with
  | nil => exact nested_nil
  | cons l ls ih =>
    rw [List.forall_mem_cons] at h
    exact h.1.append (ih h.2)

theorem Nested.closed {l : List α} (h : Nested o c l) (hco : c ≠ o) :
    1 + balance o c (l ++ [c]) = 0 ∧ ∀ x y, l ++ [c] = x ++ y → y ≠ [] → 0 < 1 + balance o c x := by
  refine ⟨by simp [h.balanced, weight_close hco], fun x y hxy hy => ?_⟩
  have hx : ∃ z, l = x ++ z := by
    rcases List.append_eq_append_iff.mp hxy with ⟨z, rfl, hz⟩ | ⟨z, hz, -⟩
    · rcases List.singleton_eq_append_iff.mp hz with ⟨rfl, -⟩ | ⟨-, rfl⟩
      · exact ⟨[], by simp⟩
      · exact absurd rfl hy
    · exact ⟨z, hz⟩
  obtain ⟨z, hz⟩ := hx
  have hnn := h.nonneg x z hz
  omega

theorem Nested.arrives {l : List α} (h : Nested o c l) (limit : ℤ) (hco : c ≠ o) (hlimit : 1 < limit) :
    Arrives o c limit 0 1 (l ++ [c]) ∨ ∃ p, p <+: l ++ [c] ∧ Arrives o c limit limit 1 p := by
  obtain ⟨hend, hpos⟩ := h.closed hco
  rcases arrives_or_reaches (by decide) hlimit hend hpos with hs | ⟨p, q, hp, hs⟩
  · exact .inl hs
  · exact .inr ⟨p, ⟨q, hp.symm⟩, hs⟩

theorem Nested.wrap {l : List α} (h : Nested o c l) (hco : c ≠ o) : Nested o c (o :: (l ++ [c])) := by
  obtain ⟨hend, hpos⟩ := h.closed hco
  refine ⟨by rw [balance_cons, weight_open, hend], fun x y hxy => ?_⟩
  cases x with
  | nil => exact Int.le_refl 0
  | cons a x =>
    obtain ⟨rfl, htail⟩ := List.cons.inj hxy
    rw [balance_cons, weight_open]
    rcases eq_or_ne y [] with rfl | hy
    · rw [List.append_eq, List.append_nil] at htail
      rw [← htail, hend]
    · exact (hpos x y htail hy).le

end Rustils.Lib.Brackets
