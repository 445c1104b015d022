import Mathlib.Algebra.Group.Nat.Defs
import Mathlib.Data.List.Basic

namespace Rustils.Lib.Lines

variable {α : Type} {sep : α}

def splitInclusive [DecidableEq α] (sep : α) : List α → List (List α)
  | [] => []
  | a :: rest =>
    if a = sep then [a] :: splitInclusive sep rest
    else
      match splitInclusive sep rest with
      | [] => [[a]]
      | p :: ps => (a :: p) :: ps

def Terminated (sep : α) (l : List α) : Prop := ∀ a ∈ l.getLast?, a = sep

instance [DecidableEq α] (sep : α) (l : List α) : Decidable (Terminated sep l) :=
  inferInstanceAs (Decidable (∀ a ∈ l.getLast?, a = sep))

@[simp] theorem terminated_nil : Terminated sep [] := by
  simp [Terminated]

@[simp] theorem terminated_concat {l : List α} {a : α} : Terminated sep (l ++ [a]) ↔ a = sep := by
  simp [Terminated]

@[simp] theorem terminated_cons {a : α} {l : List α} :
    Terminated sep (a :: l) ↔ (l = [] → a = sep) ∧ Terminated sep l := by
  cases l <;> simp [Terminated]

theorem Terminated.append {l k : List α} (hl : Terminated sep l) (hk : Terminated sep k) : Terminated sep (l ++ k) := by
  rcases List.eq_nil_or_concat k with rfl | ⟨k, a, rfl⟩
  · rwa [List.append_nil]
  · rw [List.concat_eq_append, terminated_concat] at hk
    rw [List.concat_eq_append, ← List.append_assoc, terminated_concat, hk]

theorem terminated_flatten {ls : List (List α)} (h : ∀ l ∈ ls, Terminated sep l) : Terminated sep ls.flatten := by
  induction ls with
  | nil => exact terminated_nil
  | cons l ls ih =>
    rw [List.forall_mem_cons] at h
    exact h.1.append (ih h.2)

theorem splitInclusive_eq_nil [DecidableEq α] {l : List α} : splitInclusive sep l = [] ↔ l = [] := by
  cases l with
  | nil => simp [splitInclusive]
  | cons a l =>
    simp only [splitInclusive, reduceCtorEq, iff_false]
    split_ifs
    · simp
    · split <;> simp

theorem length_splitInclusive [DecidableEq α] (l : List α) :
    (splitInclusive sep l).length = l.count sep + if Terminated sep l then 0 else 1 := by
  induction l with
  | nil => simp [splitInclusive]
  | cons a l ih =>
    rw [splitInclusive]
    rcases eq_or_ne a sep with rfl | ha
    · rw [if_pos rfl, List.length_cons, ih, List.count_cons_self]
      simp only [terminated_cons, implies_true, true_and]
      omega
    · rw [if_neg ha]
      cases hl : splitInclusive sep l with
      | nil =>
        obtain rfl := splitInclusive_eq_nil.mp hl
        simp [ha]
      | cons p ps =>
        have hne : l ≠ [] := by
          rintro rfl
          cases hl
        rw [hl] at ih
        simp only [List.length_cons] at ih
        simp [ha, hne, ih]

theorem length_splitInclusive_le [DecidableEq α] (l : List α) : (splitInclusive sep l).length ≤ l.length := by
  induction l with
  | nil => simp [splitInclusive]
  | cons a l ih =>
    rw [splitInclusive]
    split_ifs
    · simpa using ih
    · cases h : splitInclusive sep l with
      | nil => simp
      | cons p ps =>
        rw [h] at ih
        simpa using Nat.le_succ_of_le ih

end Rustils.Lib.Lines
