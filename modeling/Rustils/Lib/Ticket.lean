import Mathlib.Algebra.Group.Nat.Defs
import Mathlib.Data.Fintype.Card
import Mathlib.Data.List.Nodup
import Mathlib.Logic.Function.Basic
import Mathlib.Tactic.SplitIfs

namespace Rustils.Lib.Ticket

variable {ι : Type} {c₀ c : UInt64} {num : ι → Option UInt64}

theorem getElem?_concat_eq_some {l : List ι} {x i : ι} {a : ℕ} :
    (l ++ [x])[a]? = some i ↔ l[a]? = some i ∨ a = l.length ∧ i = x := by
  rcases Nat.lt_trichotomy a l.length with h | rfl | h
  · rw [List.getElem?_append_left h]
    simp [h.ne]
  · simp [eq_comm]
  · rw [List.getElem?_eq_none (by simpa using Nat.succ_le_of_lt h),
      List.getElem?_eq_none h.le]
    simp [h.ne']

/-- `num i` is what `i` drew from the counter, which was at `c₀` and is at `c`: `order` lists those
who drew, in turn. -/
structure Drawn (c₀ : UInt64) (num : ι → Option UInt64) (c : UInt64) (order : List ι) : Prop where
  nodup : order.Nodup
  counter : c = c₀ + UInt64.ofNat order.length
  num : ∀ i n, num i = some n ↔ ∃ a, order[a]? = some i ∧ n = c₀ + UInt64.ofNat a

theorem Drawn.start (c₀ : UInt64) : Drawn c₀ (fun _ : ι => none) c₀ [] where
  nodup := .nil
  counter := by simp
  num := by simp

theorem Drawn.mem {order : List ι} (h : Drawn c₀ num c order) {i : ι} (hi : i ∈ order) :
    num i ≠ none := by
  obtain ⟨a, ha, rfl⟩ := List.mem_iff_getElem.mp hi
  rw [(h.num _ _).mpr ⟨a, List.getElem?_eq_getElem ha, rfl⟩]
  exact Option.some_ne_none _

theorem Drawn.draw [DecidableEq ι] {order : List ι} (h : Drawn c₀ num c order) {i : ι}
    (hi : num i = none) : Drawn c₀ (Function.update num i (some c)) (c + 1) (order ++ [i]) where
  nodup := by
    rw [List.nodup_append]
    refine ⟨h.nodup, List.nodup_singleton i, ?_⟩
    rintro a ha b hb rfl
    rw [List.mem_singleton] at hb
    subst hb
    exact h.mem ha hi
  counter := by
    rw [h.counter, List.length_append, List.length_singleton, UInt64.ofNat_add, UInt64.add_assoc]
    rfl
  num := by
    intro j n
    by_cases hj : j = i
    · subst hj
      rw [Function.update_self]
      constructor
      · rintro ⟨⟩
        exact ⟨order.length, getElem?_concat_eq_some.mpr (.inr ⟨rfl, rfl⟩), h.counter⟩
      · rintro ⟨a, ha, rfl⟩
        rcases getElem?_concat_eq_some.mp ha with ha | ⟨rfl, -⟩
        · exact absurd hi (h.mem (List.mem_of_getElem? ha))
        · rw [h.counter]
    · rw [Function.update_of_ne hj, h.num]
      simp only [getElem?_concat_eq_some, hj, and_false, or_false]

theorem Drawn.inj [Fintype ι] {order : List ι} (h : Drawn c₀ num c order)
    (hcard : Fintype.card ι < 2 ^ 64) {i j : ι} {n : UInt64} (hi : num i = some n)
    (hj : num j = some n) : i = j := by
  obtain ⟨a, ha, rfl⟩ := (h.num i n).mp hi
  obtain ⟨b, hb, heq⟩ := (h.num j _).mp hj
  have hlen := h.nodup.length_le_card
  have ha' := (List.getElem?_eq_some_iff.mp ha).1
  have hb' := (List.getElem?_eq_some_iff.mp hb).1
  have hab : UInt64.ofNat a = UInt64.ofNat b := (UInt64.add_right_inj c₀).mp heq
  obtain rfl : a = b := by
    have := congrArg UInt64.toNat hab
    rw [UInt64.toNat_ofNat', UInt64.toNat_ofNat'] at this
    omega
  exact Option.some.inj (ha.symm.trans hb)

def hex (n : ℕ) : List UInt8 := (Nat.toDigits 16 n).map fun c => UInt8.ofNat c.toNat

def hexDigit (d : ℕ) : UInt8 := UInt8.ofNat (Nat.digitChar d).toNat

theorem hexDigit_inj : ∀ a < 16, ∀ b < 16, hexDigit a = hexDigit b → a = b := by decide

theorem hex_eq (n : ℕ) :
    hex n = if n < 16 then [hexDigit n] else hex (n / 16) ++ [hexDigit (n % 16)] := by
  rw [hex, Nat.toDigits_eq_if (by decide)]
  split_ifs
  · rfl
  · rw [List.map_append]
    rfl

theorem hex_ne_nil (n : ℕ) : hex n ≠ [] := by
  rw [hex, ne_eq, List.map_eq_nil_iff]
  exact Nat.toDigits_ne_nil

theorem hex_inj {m n : ℕ} (h : hex m = hex n) : m = n := by
  induction m using Nat.strongRecOn generalizing n with
  | ind m ih =>
    rw [hex_eq m, hex_eq n] at h
    split_ifs at h with hm hn hn
    · exact hexDigit_inj m hm n hn (List.singleton_inj.mp h)
    · exact absurd (List.append_eq_singleton_iff.mp h.symm) (by simp [hex_ne_nil])
    · exact absurd (List.append_eq_singleton_iff.mp h) (by simp [hex_ne_nil])
    · obtain ⟨hq, hr⟩ := List.append_inj' h rfl
      have hdiv := ih (m / 16) (by omega) hq
      have hmod := hexDigit_inj _ (Nat.mod_lt m (by decide)) _ (Nat.mod_lt n (by decide))
        (List.singleton_inj.mp hr)
      omega

end Rustils.Lib.Ticket
