import Mathlib.Tactic.IntervalCases
import Rustils.Lib.Calendar
import Rustils.Lib.Machine

namespace Rustils.Coreutils.Civil

open Lib.Fuel Lib.Machine Lib.Calendar

variable {ε : Type}

def civilFromDays (z : ℤ) : Exec ε (ℤ × ℕ × ℕ) := do
  let z ← addI64 z 719468
  let era := (← (if 0 ≤ z then pure z else subI64 z 146096 : Exec ε ℤ)).tdiv 146097
  let doe := asU64 (← subI64 z (← mulI64 era 146097))
  let yoe := (← subUnsigned (← addU64 (← subUnsigned doe (doe / 1460)) (doe / 36524)) (doe / 146096)) / 365
  let y ← addI64 (asI64 yoe) (← mulI64 era 400)
  let doy ← subUnsigned doe (← subUnsigned (← addU64 (← mulU64 365 yoe) (yoe / 4)) (yoe / 100))
  let mp := (← addU64 (← mulU64 5 doy) 2) / 153
  let d := asU32 (← addU64 (← subUnsigned doy ((← addU64 (← mulU64 153 mp) 2) / 5)) 1)
  let m := asU32 (← (if mp < 10 then addU64 mp 3 else subUnsigned mp 9 : Exec ε ℕ))
  let y ← (if m ≤ 2 then addI64 y 1 else pure y : Exec ε ℤ)
  pure (y, m, d)

def ymdhmFromUnixSecs (secs : ℤ) : Exec ε (ℤ × ℕ × ℕ × ℕ × ℕ) := do
  let days := secs / 86400
  let secsOfDay := secs % 86400
  let (y, m, d) ← civilFromDays days
  let hour := asU32 (secsOfDay.tdiv 3600)
  let minute := asU32 ((secsOfDay.tmod 3600).tdiv 60)
  pure (y, m, d, hour, minute)

def yearOfEra (doe : ℕ) : ℕ := (doe - doe / 1460 + doe / 36524 - doe / 146096) / 365

theorem centuries_eq {c r : ℕ} (hc : c ≤ 3) (hr : r < 36524 + c / 3) :
    (36524 * c + r) / 36524 = c + (36524 * c + r) / 146096 := by
  rw [Nat.mul_add_div (by decide)]
  by_cases hlast : r < 36524
  · rw [Nat.div_eq_of_lt hlast, Nat.div_eq_of_lt (by omega)]
  · have h3 : c = 3 := by omega
    have h4 : r = 36524 := by omega
    rw [h3, h4]

theorem leapDays_bounds {c b a doy : ℕ} (ha : a ≤ 3) (hdoy : doy < 365 + a / 3) (hcb : 24 * c + b ≤ 96) :
    (36524 * c + (1461 * b + 365 * a + doy)) / 1460 ≤ 25 * c + b + doy ∧
      25 * c + b + doy < 365 + (36524 * c + (1461 * b + 365 * a + doy)) / 1460 := by
  have he : 36524 * c + (1461 * b + 365 * a + doy) =
      1460 * (25 * c + b) + (24 * c + b + 365 * a + doy) := by omega
  rw [he, Nat.mul_add_div (by decide)]
  by_cases h3 : a = 3
  · subst h3
    omega
  · have h0 : (24 * c + b + 365 * a + doy) / 1460 = 0 := Nat.div_eq_of_lt (by omega)
    omega

theorem yearOfEra_eq {c b a doy doe : ℕ} (hc : c ≤ 3) (hb : b ≤ 24) (ha : a ≤ 3) (hdoy : doy < 365 + a / 3)
    (hr : 1461 * b + 365 * a + doy < 36524 + c / 3)
    (hd : doe = 36524 * c + (1461 * b + 365 * a + doy)) : yearOfEra doe = 100 * c + 4 * b + a := by
  have hcent := centuries_eq hc hr
  have hleap := leapDays_bounds (c := c) (b := b) ha hdoy (by omega)
  rw [← hd] at hcent hleap
  rw [yearOfEra, hcent, ← Nat.add_assoc, Nat.add_sub_cancel]
  generalize doe / 1460 = x at hleap ⊢
  clear hcent hr hdoy hc hb ha
  have hy : doe - x + c = 365 * (100 * c + 4 * b + a) + (25 * c + b + doy - x) := by omega
  rw [hy, Nat.mul_add_div (by decide), Nat.div_eq_of_lt (by omega), Nat.add_zero]

theorem exists_digits {doe : ℕ} (h : doe < 146097) : ∃ c b a doy, c ≤ 3 ∧ b ≤ 24 ∧ a ≤ 3 ∧ doy < 365 + a / 3 ∧
    1461 * b + 365 * a + doy < 36524 + c / 3 ∧ doe = 36524 * c + (1461 * b + 365 * a + doy) := by
  obtain ⟨c, r, hc, hr, hd⟩ : ∃ c r, c ≤ 3 ∧ r < 36524 + c / 3 ∧ doe = 36524 * c + r := by
    by_cases hlast : doe = 146096
    · exact ⟨3, 36524, by omega, by omega, by omega⟩
    · exact ⟨doe / 36524, doe % 36524, by omega, by omega, by omega⟩
  obtain ⟨a, doy, ha, hdoy, hr'⟩ : ∃ a doy, a ≤ 3 ∧ doy < 365 + a / 3 ∧ r % 1461 = 365 * a + doy := by
    by_cases hlast : r % 1461 = 1460
    · exact ⟨3, 365, by omega, by omega, by omega⟩
    · exact ⟨r % 1461 / 365, r % 1461 % 365, by omega, by omega, by omega⟩
  have hsum : 1461 * (r / 1461) + 365 * a + doy = r := by omega
  refine ⟨c, r / 1461, a, doy, hc, by omega, ha, hdoy, ?_, ?_⟩
  · rw [hsum]
    exact hr
  · rw [hsum]
    exact hd

theorem yearOfEra_spec {doe : ℕ} (h : doe < 146097) : yearOfEra doe < 400 ∧ ∃ doy < yearLength (yearOfEra doe + 1),
    doe = 365 * yearOfEra doe + yearOfEra doe / 4 - yearOfEra doe / 100 + doy := by
  obtain ⟨c, b, a, doy, hc, hb, ha, hdoy, hr, hd⟩ := exists_digits h
  have hy := yearOfEra_eq hc hb ha hdoy hr hd
  have h4 : (100 * c + 4 * b + a) / 4 = 25 * c + b := by omega
  have h100 : (100 * c + 4 * b + a) / 100 = c := by omega
  rw [hy, h4, h100]
  refine ⟨by omega, doy, ?_, by omega⟩
  unfold yearLength
  split_ifs with hleap
  · omega
  · -- a last day of 366 would fall in a leap year
    by_contra hlast
    apply hleap
    have ha3 : a = 3 := by omega
    subst ha3
    refine ⟨by omega, ?_⟩
    by_cases hb24 : b = 24
    · exact .inr (by omega)
    · exact .inl (by omega)

def marchMonth (mp : ℕ) : ℕ := if mp < 10 then mp + 3 else mp - 9

def marchDays (mp : ℕ) : ℕ := (153 * mp + 2) / 5

theorem monthLength_march (y : ℤ) {mp : ℕ} (h : mp < 11) :
    marchDays mp + monthLength y (marchMonth mp) = marchDays (mp + 1) := by
  interval_cases mp <;> rfl

theorem monthLength_february (y : ℤ) : marchDays 11 + monthLength y (marchMonth 11) = yearLength y := by
  change 337 + (if IsLeap y then 29 else 28) = if IsLeap y then 366 else 365
  split_ifs <;> rfl

theorem daysBeforeMonth_march (y : ℤ) {mp : ℕ} (h : mp < 10) :
    daysBeforeMonth y (marchMonth mp) + 306 = marchDays mp + yearLength y := by
  induction mp with
  | zero =>
    change 0 + 31 + (if IsLeap y then 29 else 28) + 306 = 0 + if IsLeap y then 366 else 365
    split_ifs <;> rfl
  | succ k ih =>
    have hm : marchMonth (k + 1) = marchMonth k + 1 := by
      rw [marchMonth, marchMonth, if_pos h, if_pos (Nat.lt_of_succ_lt h), Nat.add_right_comm]
    have hl := monthLength_march y (Nat.lt_trans (Nat.lt_of_succ_lt h) (by decide))
    have hk := ih (Nat.lt_of_succ_lt h)
    rw [hm, daysBeforeMonth_succ]
    · omega
    · rw [marchMonth, if_pos (Nat.lt_of_succ_lt h)]
      omega

theorem exists_march {y : ℤ} {doy : ℕ} (h : doy < yearLength (y + 1)) : ∃ date : Date,
    date.month = marchMonth ((5 * doy + 2) / 153) ∧
    date.day = doy - marchDays ((5 * doy + 2) / 153) + 1 ∧
    date.year = (if date.month ≤ 2 then y + 1 else y) ∧
    daysFromCivil date + 719468 = daysBeforeYear (y + 1) + doy := by
  have hlen := yearLength_le (y + 1)
  generalize hmp : (5 * doy + 2) / 153 = mp
  have hlo : marchDays mp ≤ doy := by
    unfold marchDays
    omega
  have hhi : doy < marchDays (mp + 1) := by
    unfold marchDays
    omega
  rcases Nat.lt_trichotomy mp 10 with hm | rfl | hm
  · have hl := monthLength_march y (Nat.lt_trans hm (by decide))
    have hb := daysBeforeMonth_march y hm
    have hy := daysBeforeYear_succ y
    have hmonth : 2 < marchMonth mp := by
      rw [marchMonth, if_pos hm]
      omega
    have hle : marchMonth mp ≤ 12 := by
      rw [marchMonth, if_pos hm]
      omega
    refine ⟨⟨y, marchMonth mp, doy - marchDays mp + 1, ⟨by omega, hle⟩, by omega, by omega⟩,
      rfl, rfl, (if_neg (Nat.not_le_of_lt hmonth)).symm, ?_⟩
    simp only [daysFromCivil]
    omega
  · have hl := monthLength_march (y + 1) (by decide : 10 < 11)
    refine ⟨⟨y + 1, 1, doy - marchDays 10 + 1, by decide, by omega, ?_⟩, rfl, rfl, rfl, ?_⟩
    · change doy - marchDays 10 + 1 ≤ monthLength (y + 1) (marchMonth 10)
      omega
    · simp only [daysFromCivil, daysBeforeMonth_one, marchDays] at hlo ⊢
      omega
  · have h11 : mp = 11 := by omega
    subst h11
    have hl := monthLength_february (y + 1)
    refine ⟨⟨y + 1, 2, doy - marchDays 11 + 1, by decide, by omega, ?_⟩, rfl, rfl, rfl, ?_⟩
    · change doy - marchDays 11 + 1 ≤ monthLength (y + 1) (marchMonth 11)
      omega
    · have hb : daysBeforeMonth (y + 1) 2 = 31 := rfl
      simp only [daysFromCivil, hb, marchDays] at hlo ⊢
      omega

theorem era_eq (z : ℤ) : (if 0 ≤ z then z else z - 146096).tdiv 146097 = z / 146097 := by
  rw [tdiv_of_pos (by decide)]
  split_ifs <;> omega

theorem daysBeforeYear_era (era : ℤ) {yoe : ℕ} (h : yoe < 400) : daysBeforeYear (yoe + era * 400 + 1) =
    era * 146097 + (365 * yoe + yoe / 4 - yoe / 100 : ℕ) := by
  unfold daysBeforeYear
  omega

theorem yearLength_era (era y : ℤ) : yearLength (y + era * 400) = yearLength y := by
  have h : IsLeap (y + era * 400) ↔ IsLeap y := by
    unfold IsLeap
    omega
  simp only [yearLength, h]

theorem if_nonneg_eq (ε : Type) {z : ℤ} (h : -0x8000000000000000 ≤ z - 146096) :
    (if 0 ≤ z then pure z else subI64 z 146096 : Exec ε ℤ) = .ok (if 0 ≤ z then z else z - 146096) := by
  split_ifs with hz
  · rfl
  · apply checkedI64_eq
    exact ⟨h, by omega⟩

theorem marchMonth_eq {mp : ℕ} (h : mp < 12) :
    (if mp < 10 then addU64 mp 3 else subUnsigned mp 9 : Exec ε ℕ) = .ok (marchMonth mp) := by
  unfold marchMonth
  split_ifs with hmp
  · exact addU64_eq (by omega)
  · exact subUnsigned_eq (Nat.le_trans (by decide) (Nat.le_of_not_lt hmp))

theorem civilFromDays_eq (ε : Type) {z : ℤ} (hz : I64 z) (h : z + 719468 < 0x8000000000000000) : ∃ date : Date,
    civilFromDays z = (.ok (date.year, date.month, date.day) : Exec ε _) ∧ daysFromCivil date = z := by
  obtain ⟨era, doe, hdoe, hsum⟩ : ∃ (era : ℤ) (doe : ℕ), doe < 146097 ∧ z + 719468 = era * 146097 + doe :=
    ⟨(z + 719468) / 146097, ((z + 719468) % 146097).toNat, by omega, by omega⟩
  obtain ⟨hyoe, doy, hdoy, hd⟩ := yearOfEra_spec hdoe
  rw [← yearLength_era era, Int.add_right_comm] at hdoy
  obtain ⟨date, hm, hday, hy, hn⟩ := exists_march hdoy
  rw [daysBeforeYear_era era hyoe] at hn
  refine ⟨date, ?_, by omega⟩
  unfold I64 at hz
  have hif := if_nonneg_eq ε (show -0x8000000000000000 ≤ z + 719468 - 146096 by omega)
  have hera : (z + 719468) / 146097 = era := by omega
  have hadd : (addI64 z 719468 : Exec ε ℤ) = .ok (z + 719468) := checkedI64_eq ⟨by omega, h⟩
  have hmul : (mulI64 era 146097 : Exec ε ℤ) = .ok (era * 146097) := checkedI64_eq ⟨by omega, by omega⟩
  have hsub : (subI64 (z + 719468) (era * 146097) : Exec ε ℤ) = .ok doe := by
    rw [subI64, hsum, Int.add_comm, Int.add_sub_cancel]
    exact checkedI64_eq ⟨by omega, by omega⟩
  have hdays : asU64 doe = doe := asU64_natCast (by omega)
  simp only [civilFromDays, hadd, ok_bind, hif, era_eq, hera, hmul, hsub, hdays]
  rw [subUnsigned_eq (by omega), ok_bind, addU64_eq (by omega), ok_bind, subUnsigned_eq (by omega), ok_bind, ← yearOfEra]
  generalize yearOfEra doe = yoe at *
  have hera' : (mulI64 era 400 : Exec ε ℤ) = .ok (era * 400) := checkedI64_eq ⟨by omega, by omega⟩
  have hyear : (addI64 yoe (era * 400) : Exec ε ℤ) = .ok (yoe + era * 400) := checkedI64_eq ⟨by omega, by omega⟩
  have hdoy' : doe - (365 * yoe + yoe / 4 - yoe / 100) = doy := by omega
  rw [hera', ok_bind, asI64_eq (by omega), hyear, ok_bind, mulU64_eq (by omega), ok_bind, addU64_eq (by omega),
    ok_bind, subUnsigned_eq (by omega), ok_bind, subUnsigned_eq (by omega), ok_bind, hdoy', mulU64_eq (by omega),
    ok_bind, addU64_eq (by omega), ok_bind]
  have hlen := yearLength_le (yoe + era * 400 + 1)
  have hmp : (5 * doy + 2) / 153 < 12 := by omega
  have hle : marchDays ((5 * doy + 2) / 153) ≤ doy := by
    unfold marchDays
    omega
  generalize (5 * doy + 2) / 153 = mp at *
  have hmonth := date.month_mem
  rw [mulU64_eq (by omega), ok_bind, addU64_eq (by omega), ok_bind, ← marchDays, subUnsigned_eq hle, ok_bind,
    addU64_eq (by omega), ok_bind, marchMonth_eq hmp, ok_bind, ← hm, ← hday, asU32_natCast (by omega),
    asU32_natCast (by omega)]
  have hlast : (if date.month ≤ 2 then addI64 (yoe + era * 400) 1 else pure (yoe + era * 400) : Exec ε ℤ) =
      .ok date.year := by
    rw [hy]
    split_ifs
    · exact checkedI64_eq ⟨by omega, by omega⟩
    · rfl
  rw [hlast, ok_bind, pure_eq_ok]

theorem civilFromDays_panics {z : ℤ} (h : 0x8000000000000000 ≤ z + 719468) :
    civilFromDays z = (panicked : Exec ε _) := by
  have hadd : (addI64 z 719468 : Exec ε ℤ) = panicked := checkedI64_panics fun hz => by
    unfold I64 at hz
    omega
  rw [civilFromDays, hadd, error_bind]

theorem civilFromDays_returns {z : ℤ} (h : civilFromDays z ≠ (panicked : Exec ε _)) : z + 719468 < 0x8000000000000000 :=
  Int.lt_of_not_ge fun hz => h (civilFromDays_panics hz)

theorem civilFromDays_returns_iff {z : ℤ} (hz : I64 z) :
    civilFromDays z ≠ (panicked : Exec ε _) ↔ z + 719468 < 0x8000000000000000 := by
  refine ⟨civilFromDays_returns, fun h => ?_⟩
  obtain ⟨date, hr, -⟩ := civilFromDays_eq ε hz h
  rw [hr]
  exact fun he => nomatch he

def ymd (date : Date) : ℤ × ℕ × ℕ := (date.year, date.month, date.day)

def ymdhm (r : Reading) : ℤ × ℕ × ℕ × ℕ × ℕ := (r.date.year, r.date.month, r.date.day, r.hour, r.minute)

theorem ymdhmFromUnixSecs_eq (ε : Type) {secs : ℤ} (h : I64 secs) : ∃ r : Reading,
    ymdhmFromUnixSecs secs = (.ok (ymdhm r) : Exec ε _) ∧ r.seconds ≤ secs ∧ secs < r.seconds + 60 := by
  unfold I64 at h
  obtain ⟨date, hdate, hdays⟩ := civilFromDays_eq ε
    (show I64 (secs / 86400) by unfold I64; omega) (by omega)
  obtain ⟨sod, hsod, hlt⟩ : ∃ sod : ℕ, secs % 86400 = sod ∧ sod < 86400 :=
    ⟨(secs % 86400).toNat, by omega, by omega⟩
  refine ⟨⟨date, sod / 3600, sod % 3600 / 60, by omega, by omega⟩, ?_, ?_, ?_⟩
  · have hhour : asU32 ((sod : ℤ).tdiv 3600) = sod / 3600 :=
      asU32_natCast (show sod / 3600 < 0x100000000 by omega)
    have hminute : asU32 (((sod : ℤ).tmod 3600).tdiv 60) = sod % 3600 / 60 :=
      asU32_natCast (show sod % 3600 / 60 < 0x100000000 by omega)
    simp only [ymdhmFromUnixSecs, hdate, ok_bind, hsod, hhour, hminute, pure_eq_ok, ymdhm]
  · simp only [Reading.seconds, hdays]
    omega
  · simp only [Reading.seconds, hdays]
    omega

theorem civilFromDays_of_returns {z : ℤ} (hz : I64 z) (h : civilFromDays z ≠ (panicked : Exec ε _)) {date : Date}
    (hd : daysFromCivil date = z) : civilFromDays z = (.ok (ymd date) : Exec ε _) := by
  obtain ⟨d, hr, hn⟩ := civilFromDays_eq ε hz (civilFromDays_returns h)
  have heq : d = date := daysFromCivil_injective (hn.trans hd.symm)
  rw [hr, heq, ymd]

theorem civil_dates_follow_the_calendar (ε : Type) :
    (∀ z, I64 z → civilFromDays z ≠ (panicked : Exec ε _) → ∃ date : Date,
      civilFromDays z = (.ok (ymd date) : Exec ε _) ∧ daysFromCivil date = z ∧
        (civilFromDays (z + 1) ≠ (panicked : Exec ε _) →
          civilFromDays (z + 1) = (.ok (ymd date.next) : Exec ε _))) ∧
    (∀ date : Date, I64 (daysFromCivil date) → civilFromDays (daysFromCivil date) ≠ (panicked : Exec ε _) →
      civilFromDays (daysFromCivil date) = (.ok (ymd date) : Exec ε _)) ∧
    civilFromDays 0 = (.ok (1970, 1, 1) : Exec ε _) ∧
    (∀ secs, I64 secs → ∃ r : Reading, ymdhmFromUnixSecs secs = (.ok (ymdhm r) : Exec ε _) ∧
      r.seconds ≤ secs ∧ secs < r.seconds + 60) ∧
    ∀ a b, I64 a → I64 b → a ≤ b → ∃ r s : Reading, ymdhmFromUnixSecs a = (.ok (ymdhm r) : Exec ε _) ∧
      ymdhmFromUnixSecs b = (.ok (ymdhm s) : Exec ε _) ∧ r ≤ s := by
  refine ⟨?_, ?_, rfl, ?_, ?_⟩
  · intro z hz h
    obtain ⟨date, hr, hd⟩ := civilFromDays_eq ε hz (civilFromDays_returns h)
    refine ⟨date, hr, hd, fun hnext => ?_⟩
    have hlt := civilFromDays_returns hnext
    unfold I64 at hz
    refine civilFromDays_of_returns (by unfold I64; omega) hnext ?_
    rw [daysFromCivil_next, hd]
  · intro date hz h
    exact civilFromDays_of_returns hz h rfl
  · intro secs h
    exact ymdhmFromUnixSecs_eq ε h
  · intro a b ha hb hab
    obtain ⟨r, hr, hra, -⟩ := ymdhmFromUnixSecs_eq ε ha
    obtain ⟨s, hs, -, hsb⟩ := ymdhmFromUnixSecs_eq ε hb
    exact ⟨r, s, hr, hs, Reading.le_of_during hra hab hsb⟩

theorem leap_day_read_back : civilFromDays 11016 = (.ok (2000, 2, 29) : Exec Empty _) := by
  have hd : daysFromCivil ⟨2000, 2, 29, by decide, by decide⟩ = 11016 := by decide
  have h := (civil_dates_follow_the_calendar Empty).2.1 ⟨2000, 2, 29, by decide, by decide⟩ (by rw [hd]; decide)
    (by rw [hd]; exact (civilFromDays_returns_iff (by decide)).mpr (by decide))
  rw [hd] at h
  exact h

example : civilFromDays 11017 = (.ok (2000, 3, 1) : Exec Empty _) := rfl

end Rustils.Coreutils.Civil
