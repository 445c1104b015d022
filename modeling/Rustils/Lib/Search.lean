import Mathlib.Data.List.Infix

namespace Rustils.Lib.Search

variable {α : Type} {pat pre s t : List α}

def Clear (pat pre : List α) : Prop := ∀ post, ∀ i < pre.length, ¬pat <+: (pre ++ post).drop i

theorem Clear.nil : Clear pat [] := by
  intro post i hi
  exact absurd hi (Nat.not_lt_zero i)

theorem Clear.append (hs : Clear pat s) (ht : Clear pat t) : Clear pat (s ++ t) := by
  intro post i hi
  rw [List.append_assoc]
  by_cases his : i < s.length
  · exact hs (t ++ post) i his
  · have hdrop : (s ++ (t ++ post)).drop i = (t ++ post).drop (i - s.length) := by
      rw [List.drop_append, List.drop_eq_nil_of_le (Nat.le_of_not_lt his), List.nil_append]
    rw [hdrop]
    apply ht
    rw [List.length_append] at hi
    omega

theorem Clear.of_disjoint (hne : pat ≠ []) (h : ∀ x ∈ s, x ∉ pat) : Clear pat s := by
  intro post i hi hp
  have hdrop : (s ++ post).drop i = s[i] :: (s ++ post).drop (i + 1) := by
    rw [List.drop_eq_getElem_cons (by rw [List.length_append]; omega), List.getElem_append_left hi]
  rw [hdrop] at hp
  cases pat with
  | nil => exact hne rfl
  | cons y pat =>
    obtain ⟨rfl, -⟩ := List.cons_prefix_cons.mp hp
    exact h _ (List.getElem_mem hi) List.mem_cons_self

theorem Clear.line {x : α} (hx : x ∉ pat) (h : ¬pat <:+: t) : Clear pat (t ++ [x]) := by
  intro post i hi hp
  have hi' : i ≤ t.length := by
    rw [List.length_append, List.length_singleton] at hi
    omega
  have hdrop : (t ++ [x] ++ post).drop i = t.drop i ++ x :: post := by
    rw [List.append_assoc, List.drop_append_of_le_length hi', List.singleton_append]
  rw [hdrop] at hp
  by_cases hlen : pat.length ≤ (t.drop i).length
  · -- the pattern would end before the line does
    have hsub : pat <+: t.drop i := List.prefix_of_prefix_length_le hp (List.prefix_append _ _) hlen
    exact h (hsub.isInfix.trans (List.drop_suffix i t).isInfix)
  · have hend : t.drop i ++ [x] <+: t.drop i ++ x :: post := ⟨post, by simp⟩
    have hlong : t.drop i ++ [x] <+: pat := by
      apply List.prefix_of_prefix_length_le hend hp
      rw [List.length_append, List.length_singleton]
      omega
    exact hx (hlong.subset (List.mem_append_right _ (List.mem_singleton_self x)))

variable [DecidableEq α]

def find (pat : List α) : List α → Option ℕ
  | [] => if pat = [] then some 0 else none
  | x :: xs => if pat <+: x :: xs then some 0 else (find pat xs).map (· + 1)

theorem find_of_prefix (h : pat <+: s) : find pat s = some 0 := by
  cases s with
  | nil => rw [find, if_pos (List.prefix_nil.mp h)]
  | cons x xs => rw [find, if_pos h]

theorem find_eq_none : find pat s = none ↔ ¬pat <:+: s := by
  induction s with
  | nil => simp [find]
  | cons x xs ih =>
    rw [find, List.infix_cons_iff]
    split_ifs with h
    · simp [h]
    · simp [h, ih]

theorem find_skip (h : ∀ i < pre.length, ¬pat <+: (pre ++ s).drop i) :
    find pat (pre ++ s) = (find pat s).map (· + pre.length) := by
  induction pre with
  | nil => simp
  | cons x pre ih =>
    have hx : ¬pat <+: x :: (pre ++ s) := by
      simpa using h 0 (Nat.succ_pos _)
    have hpre : ∀ i < pre.length, ¬pat <+: (pre ++ s).drop i := by
      intro i hi
      simpa using h (i + 1) (Nat.succ_lt_succ hi)
    rw [List.cons_append, find, if_neg hx, ih hpre, Option.map_map]
    congr 1

theorem Clear.find (h : Clear pat pre) (s : List α) :
    find pat (pre ++ s) = (find pat s).map (· + pre.length) := find_skip (h s)

end Rustils.Lib.Search
