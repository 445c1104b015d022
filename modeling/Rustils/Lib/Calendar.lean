import Mathlib.Data.Int.SuccPred
import Mathlib.Data.Prod.Lex
import Mathlib.Order.SuccPred.Basic
import Mathlib.Tactic.NormNum

namespace Rustils.Lib.Calendar

def IsLeap (y : ℤ) : Prop := 4 ∣ y ∧ (¬ 100 ∣ y ∨ 400 ∣ y)

instance : DecidablePred IsLeap := fun y => inferInstanceAs (Decidable (4 ∣ y ∧ (¬ 100 ∣ y ∨ 400 ∣ y)))

def monthLength (y : ℤ) : ℕ → ℕ
  | 2 => if IsLeap y then 29 else 28
  | 4 | 6 | 9 | 11 => 30
  | _ => 31

theorem monthLength_pos (y : ℤ) (m : ℕ) : 1 ≤ monthLength y m := by
  unfold monthLength
  split <;> (try split) <;> omega

@[ext] structure Date where
  year : ℤ
  month : ℕ
  day : ℕ
  month_mem : 1 ≤ month ∧ month ≤ 12
  day_mem : 1 ≤ day ∧ day ≤ monthLength year month
  deriving DecidableEq

namespace Date

def next (d : Date) : Date :=
  if h : d.day < monthLength d.year d.month then
    ⟨d.year, d.month, d.day + 1, d.month_mem, Nat.le_add_left 1 d.day, h⟩
  else if h : d.month < 12 then
    ⟨d.year, d.month + 1, 1, ⟨Nat.le_add_left 1 d.month, h⟩, Nat.le_refl 1, monthLength_pos _ _⟩
  else
    ⟨d.year + 1, 1, 1, ⟨Nat.le_refl 1, by decide⟩, Nat.le_refl 1, monthLength_pos _ _⟩

instance : LinearOrder Date :=
  LinearOrder.lift' (fun d => toLex (d.year, toLex (d.month, d.day))) fun d e h => by
    simp only [EmbeddingLike.apply_eq_iff_eq, Prod.mk.injEq] at h
    exact Date.ext h.1 h.2.1 h.2.2

theorem lt_iff {d e : Date} : d < e ↔ d.year < e.year ∨
    d.year = e.year ∧ (d.month < e.month ∨ d.month = e.month ∧ d.day < e.day) := by
  change toLex (d.year, toLex (d.month, d.day)) < toLex (e.year, toLex (e.month, e.day)) ↔ _
  rw [Prod.Lex.toLex_lt_toLex, Prod.Lex.toLex_lt_toLex]

end Date

def daysBeforeYear (y : ℤ) : ℤ := 365 * (y - 1) + (y - 1) / 4 - (y - 1) / 100 + (y - 1) / 400

def daysBeforeMonth (y : ℤ) : ℕ → ℕ
  | 0 | 1 => 0
  | m + 2 => daysBeforeMonth y (m + 1) + monthLength y (m + 1)

def daysFromCivil (d : Date) : ℤ :=
  daysBeforeYear d.year + daysBeforeMonth d.year d.month + (d.day - 1) - 719162

def yearLength (y : ℤ) : ℕ := if IsLeap y then 366 else 365

theorem yearLength_le (y : ℤ) : yearLength y ≤ 366 := by
  unfold yearLength
  split_ifs <;> decide

theorem daysBeforeYear_succ (y : ℤ) : daysBeforeYear (y + 1) = daysBeforeYear y + yearLength y := by
  unfold daysBeforeYear yearLength
  split_ifs with h
  all_goals
    unfold IsLeap at h
    omega

theorem daysBeforeYear_le {y z : ℤ} (h : y ≤ z) : daysBeforeYear y ≤ daysBeforeYear z := by
  refine monotone_int_of_le_succ (fun x => ?_) h
  rw [daysBeforeYear_succ]
  exact Int.le_add_of_nonneg_right (Int.natCast_nonneg _)

theorem daysBeforeMonth_one (y : ℤ) : daysBeforeMonth y 1 = 0 := rfl

theorem daysBeforeMonth_succ (y : ℤ) {m : ℕ} (h : 1 ≤ m) :
    daysBeforeMonth y (m + 1) = daysBeforeMonth y m + monthLength y m := by
  obtain ⟨k, rfl⟩ : ∃ k, m = k + 1 := ⟨m - 1, by omega⟩
  rfl

theorem daysBeforeMonth_mono (y : ℤ) : Monotone (daysBeforeMonth y) := by
  apply monotone_nat_of_le_succ
  intro m
  cases m with
  | zero => exact Nat.le_refl 0
  | succ k => exact Nat.le_add_right _ _

theorem daysBeforeMonth_end (y : ℤ) : daysBeforeMonth y 13 = yearLength y := by
  unfold yearLength
  split <;> simp only [daysBeforeMonth, monthLength, *] <;> rfl

namespace Date

variable {d e : Date}

theorem monthEnd_le {m : ℕ} (h : d.month < m) : daysBeforeMonth d.year d.month + d.day ≤ daysBeforeMonth d.year m := by
  have hs := daysBeforeMonth_succ d.year d.month_mem.1
  have hm := daysBeforeMonth_mono d.year (Nat.succ_le_of_lt h)
  have hd := d.day_mem.2
  rw [Nat.succ_eq_add_one] at hm
  omega

theorem yearEnd_le {y : ℤ} (h : d.year < y) :
    daysBeforeYear d.year + daysBeforeMonth d.year d.month + d.day ≤ daysBeforeYear y := by
  have hs := daysBeforeYear_succ d.year
  have hm := daysBeforeYear_le (Int.add_one_le_of_lt h)
  have hd := d.monthEnd_le (Nat.lt_succ_of_le d.month_mem.2)
  rw [Nat.succ_eq_add_one, daysBeforeMonth_end] at hd
  omega

end Date

theorem daysFromCivil_lt {d e : Date} (h : d < e) : daysFromCivil d < daysFromCivil e := by
  unfold daysFromCivil
  have he := e.day_mem.1
  rcases Date.lt_iff.mp h with hy | ⟨hy, hm | ⟨hm, hd⟩⟩
  · have := d.yearEnd_le hy
    omega
  · have := d.monthEnd_le hm
    rw [hy] at this ⊢
    omega
  · rw [hy, hm]
    omega

theorem daysFromCivil_injective : Function.Injective daysFromCivil := by
  intro d e h
  rcases lt_trichotomy d e with hlt | heq | hlt
  · exact absurd h (Int.ne_of_lt (daysFromCivil_lt hlt))
  · exact heq
  · exact absurd h.symm (Int.ne_of_lt (daysFromCivil_lt hlt))

theorem daysFromCivil_next (d : Date) : daysFromCivil d.next = daysFromCivil d + 1 := by
  have hm := daysBeforeMonth_succ d.year d.month_mem.1
  have hd := d.day_mem
  unfold Date.next daysFromCivil
  split_ifs with hday hmonth
  · push_cast
    omega
  · rw [hm]
    push_cast
    omega
  · -- the last of December
    have h12 : d.month = 12 := Nat.le_antisymm d.month_mem.2 (Nat.le_of_not_lt hmonth)
    have hend := daysBeforeMonth_end d.year
    have hy := daysBeforeYear_succ d.year
    rw [h12] at hm hday hd ⊢
    rw [hm] at hend
    simp only [daysBeforeMonth_one]
    omega

@[ext] structure Reading where
  date : Date
  hour : ℕ
  minute : ℕ
  hour_lt : hour < 24
  minute_lt : minute < 60
  deriving DecidableEq

namespace Reading

instance : LinearOrder Reading :=
  LinearOrder.lift' (fun r => toLex (r.date, toLex (r.hour, r.minute))) fun r s h => by
    simp only [EmbeddingLike.apply_eq_iff_eq, Prod.mk.injEq] at h
    exact Reading.ext h.1 h.2.1 h.2.2

theorem lt_iff {r s : Reading} : r < s ↔ r.date < s.date ∨
    r.date = s.date ∧ (r.hour < s.hour ∨ r.hour = s.hour ∧ r.minute < s.minute) := by
  change toLex (r.date, toLex (r.hour, r.minute)) < toLex (s.date, toLex (s.hour, s.minute)) ↔ _
  rw [Prod.Lex.toLex_lt_toLex, Prod.Lex.toLex_lt_toLex]

def seconds (r : Reading) : ℤ := daysFromCivil r.date * 86400 + r.hour * 3600 + r.minute * 60

theorem seconds_lt {r s : Reading} (h : r < s) : r.seconds + 60 ≤ s.seconds := by
  unfold seconds
  have hr := r.hour_lt
  have hm := r.minute_lt
  rcases lt_iff.mp h with hd | ⟨hd, hh | ⟨hh, hm⟩⟩
  · have := daysFromCivil_lt hd
    omega
  · rw [hd]
    omega
  · rw [hd, hh]
    omega

theorem le_of_during {r s : Reading} {a b : ℤ} (hr : r.seconds ≤ a) (hab : a ≤ b) (hs : b < s.seconds + 60) : r ≤ s := by
  rcases lt_or_ge s r with h | h
  · have := seconds_lt h
    omega
  · exact h

end Reading

end Rustils.Lib.Calendar
