import Rustils.Coreutils.Civil
import Rustils.Lib.SystemTime

namespace Rustils.Coreutils.Timestamps

open Lib Lib.Fuel Lib.Machine Lib.Calendar Civil

open TimeScale (posix_tick posix_first posix_limit windows_tick windows_first windows_limit)

variable {ε : Type} {scale : TimeScale}

def systemTimeFromSecsNsec (secs : ℤ) (nsec : ℕ) : Exec ε (SystemTime .posix) := do
  if 0 ≤ secs then
    SystemTime.unixEpoch.add (← Duration.new (asU64 secs) nsec)
  else
    let t ← SystemTime.unixEpoch.sub (← Duration.new (asU64 (← negI64 secs)) 0)
    t.add (← Duration.new 0 nsec)

def EPOCH_DIFF_100NS : ℤ := 116444736000000000

def filetimeToSystemTime (filetime : ℤ) : Exec ε (SystemTime .windows) := do
  let unix100ns ← subI64 filetime EPOCH_DIFF_100NS
  if 0 ≤ unix100ns then
    let secs := asU64 (unix100ns.tdiv 10000000)
    let nanos := asU32 (← mulI64 (unix100ns.tmod 10000000) 100)
    SystemTime.unixEpoch.add (← Duration.new secs nanos)
  else
    let abs := asU64 (← negI64 unix100ns)
    let secs := abs / 10000000
    let nanos := asU32 (← mulU64 (abs % 10000000) 100 : ℕ)
    SystemTime.unixEpoch.sub (← Duration.new secs nanos)

def unixSeconds (t : SystemTime scale) : Exec ε ℤ :=
  match t.durationSince SystemTime.unixEpoch with
  | .ok d => pure (asI64 d.asSecs)
  | .error d => negI64 (asI64 d.asSecs)

def MONTH_NAMES : List (List Char) :=
  ["Jan", "Feb", "Mar", "Apr", "May", "Jun", "Jul", "Aug", "Sep", "Oct", "Nov", "Dec"].map String.toList

def SIX_MONTHS_SECS : ℤ := 6 * 30 * 24 * 60 * 60

def padded (fill : Char) (width n : ℕ) : List Char :=
  List.replicate (width - (Nat.toDigits 10 n).length) fill ++ Nat.toDigits 10 n

def signed (n : ℤ) : List Char := if n < 0 then '-' :: Nat.toDigits 10 n.natAbs else Nat.toDigits 10 n.natAbs

def dateText (recent : Bool) (mon : List Char) (year : ℤ) (day hour minute : ℕ) : List Char :=
  if recent then mon ++ ' ' :: padded ' ' 2 day ++ ' ' :: padded '0' 2 hour ++ ':' :: padded '0' 2 minute
  else mon ++ ' ' :: padded ' ' 2 day ++ ' ' :: ' ' :: signed year

def formatDate (modified now : SystemTime scale) : Exec ε (List Char) := do
  let modifiedSecs ← unixSeconds modified
  let nowSecs ← unixSeconds now
  let recent ← (if modifiedSecs ≤ nowSecs then do
      pure (decide ((← subI64 nowSecs modifiedSecs) < SIX_MONTHS_SECS))
    else pure false : Exec ε Bool)
  let (year, month, day, hour, minute) ← ymdhmFromUnixSecs modifiedSecs
  match MONTH_NAMES[← subUnsigned month 1]? with
  | some mon => pure (dateText recent mon year day hour minute)
  | none => panicked

def wholeSeconds (t : SystemTime scale) : ℤ := (t.ticks * scale.tick).tdiv 1000000000

theorem wholeSeconds_posix (t : SystemTime .posix) : wholeSeconds t =
    t.ticks / 1000000000 + if 0 ≤ t.ticks ∨ 1000000000 ∣ t.ticks then 0 else 1 := by
  rw [wholeSeconds, posix_tick, Nat.cast_one, Int.mul_one, tdiv_of_pos (by decide)]

theorem unixSeconds_of_nonneg {t : SystemTime scale} (h : 0 ≤ t.ticks) (hs : wholeSeconds t < 0x8000000000000000) :
    unixSeconds t = (.ok (wholeSeconds t) : Exec ε ℤ) := by
  have hle : (SystemTime.unixEpoch : SystemTime scale).ticks ≤ t.ticks := h
  have hd : t.durationSince SystemTime.unixEpoch = .ok (SystemTime.between SystemTime.unixEpoch t hle) := dif_pos hle
  have hsecs := SystemTime.asSecs_between (t := SystemTime.unixEpoch) hle
  rw [SystemTime.unixEpoch_ticks, Int.sub_zero, ← wholeSeconds] at hsecs
  simp only [unixSeconds, hd, pure_eq_ok]
  rw [asI64_eq (by omega), hsecs]

theorem unixSeconds_of_neg (ε : Type) {t : SystemTime scale} (h : t.ticks < 0) : ∃ n : ℕ, wholeSeconds t = -n ∧
    unixSeconds t = (negI64 (asI64 n) : Exec ε ℤ) := by
  have hle : t.ticks ≤ (SystemTime.unixEpoch : SystemTime scale).ticks := Int.le_of_lt h
  have hd : t.durationSince SystemTime.unixEpoch = .error (SystemTime.between t SystemTime.unixEpoch hle) :=
    dif_neg (Int.not_le_of_gt h)
  have hsecs := SystemTime.asSecs_between (u := SystemTime.unixEpoch) hle
  rw [SystemTime.unixEpoch_ticks, Int.zero_sub, Int.neg_mul, Int.neg_tdiv,
    ← wholeSeconds] at hsecs
  refine ⟨(SystemTime.between t SystemTime.unixEpoch hle).asSecs, by omega, ?_⟩
  rw [unixSeconds, hd]

theorem unixSeconds_eq {t : SystemTime scale} (hlo : -0x8000000000000000 < wholeSeconds t)
    (hhi : wholeSeconds t < 0x8000000000000000) : unixSeconds t = (.ok (wholeSeconds t) : Exec ε ℤ) := by
  rcases Int.lt_or_le t.ticks 0 with h | h
  · obtain ⟨n, hn, hs⟩ := unixSeconds_of_neg ε h
    rw [hs, asI64_eq (by omega), hn]
    exact checkedI64_eq ⟨by omega, by omega⟩
  · exact unixSeconds_of_nonneg h hhi

theorem unixSeconds_panics {t : SystemTime scale} (h : wholeSeconds t = -0x8000000000000000) :
    unixSeconds t = (panicked : Exec ε ℤ) := by
  have hneg : t.ticks < 0 := by
    by_contra hn
    have := Int.tdiv_nonneg (Int.mul_nonneg (Int.le_of_not_gt hn) (Int.natCast_nonneg scale.tick))
      (show (0 : ℤ) ≤ 1000000000 by decide)
    rw [← wholeSeconds] at this
    omega
  obtain ⟨n, hn, hs⟩ := unixSeconds_of_neg ε hneg
  have h63 : n = 0x8000000000000000 := by omega
  rw [hs, h63]
  exact checkedI64_panics (by decide)

theorem systemTimeFromSecsNsec_eq (ε : Type) {s : ℤ} {n : ℕ} (hs : I64 s) (hn : n < 1000000000)
    (hmin : s ≠ -0x8000000000000000) : ∃ t : SystemTime .posix,
      systemTimeFromSecsNsec s n = (.ok t : Exec ε _) ∧ t.ticks = s * 1000000000 + n := by
  unfold I64 at hs
  have hfits : TimeScale.posix.first ≤ s * 1000000000 + n ∧ s * 1000000000 + n < TimeScale.posix.limit :=
    ⟨by rw [posix_first]; omega, by rw [posix_limit]; omega⟩
  refine ⟨⟨s * 1000000000 + n, hfits⟩, ?_, rfl⟩
  rcases Int.lt_or_le s 0 with h | h
  · obtain ⟨k, hk⟩ : ∃ k : ℕ, -s = k := ⟨s.natAbs, by omega⟩
    have hneg : (negI64 s : Exec ε ℤ) = .ok k := by
      rw [negI64, hk]
      exact checkedI64_eq ⟨by omega, by omega⟩
    rw [systemTimeFromSecsNsec, if_neg (Int.not_le_of_gt h), hneg, ok_bind, asU64_natCast (by omega),
      Duration.new_eq (by omega), ok_bind]
    have hwhole : TimeScale.posix.first ≤ s * 1000000000 ∧ s * 1000000000 < TimeScale.posix.limit :=
      ⟨by rw [posix_first]; omega, by rw [posix_limit]; omega⟩
    have hsub : (0 : ℤ) - ((k * 1000000000 + 0) / TimeScale.posix.tick : ℕ) = s * 1000000000 := by
      rw [posix_tick, Nat.div_one]
      omega
    rw [SystemTime.sub_eq hsub hwhole, ok_bind, Duration.new_eq (by omega), ok_bind]
    apply SystemTime.add_eq
    simp only [posix_tick, Nat.div_one]
    omega
  · obtain ⟨k, rfl⟩ := Int.eq_ofNat_of_zero_le h
    rw [systemTimeFromSecsNsec, if_pos h, asU64_natCast (by omega), Duration.new_eq (by omega), ok_bind]
    apply SystemTime.add_eq
    simp only [posix_tick, Nat.div_one, SystemTime.unixEpoch_ticks]
    omega

theorem systemTimeFromSecsNsec_panics (n : ℕ) :
    systemTimeFromSecsNsec (-0x8000000000000000) n = (panicked : Exec ε _) := rfl

theorem wholeSeconds_bounds (t : SystemTime .posix) :
    -0x8000000000000000 ≤ wholeSeconds t ∧ wholeSeconds t < 0x8000000000000000 := by
  have h := t.fits
  rw [posix_first, posix_limit] at h
  rw [wholeSeconds_posix]
  split_ifs <;> omega

theorem wholeSeconds_ge {t : SystemTime .posix} {s : ℤ} {n : ℕ} (ht : t.ticks = s * 1000000000 + n) :
    s ≤ wholeSeconds t := by
  rw [wholeSeconds_posix, ht]
  split_ifs <;> omega

theorem wholeSeconds_eq_iff {t : SystemTime .posix} {s : ℤ} {n : ℕ} (hn : n < 1000000000)
    (ht : t.ticks = s * 1000000000 + n) : wholeSeconds t = s ↔ 0 ≤ s ∨ n = 0 := by
  rw [wholeSeconds_posix, ht]
  split_ifs <;> omega

def Survives (s : ℤ) (n : ℕ) : Prop := ∃ t : SystemTime .posix,
  systemTimeFromSecsNsec s n = (.ok t : Exec Empty _) ∧ unixSeconds t = (.ok s : Exec Empty ℤ)

theorem survives_iff {s : ℤ} {n : ℕ} (hs : I64 s) (hn : n < 1000000000) :
    Survives s n ↔ s ≠ -0x8000000000000000 ∧ (0 ≤ s ∨ n = 0) := by
  by_cases hmin : s = -0x8000000000000000
  · subst hmin
    refine ⟨fun ⟨t, ht, _⟩ => ?_, fun h => absurd rfl h.1⟩
    rw [systemTimeFromSecsNsec_panics] at ht
    cases ht
  · obtain ⟨t, ht, hticks⟩ := systemTimeFromSecsNsec_eq Empty hs hn hmin
    have hge := wholeSeconds_ge hticks
    have hu : unixSeconds t = (.ok (wholeSeconds t) : Exec Empty ℤ) :=
      unixSeconds_eq (Int.lt_of_lt_of_le (lt_of_le_of_ne hs.1 (Ne.symm hmin)) hge) (wholeSeconds_bounds t).2
    rw [and_iff_right hmin, ← wholeSeconds_eq_iff hn hticks]
    constructor
    · rintro ⟨t', ht', hs'⟩
      rw [ht] at ht'
      cases ht'
      rw [hu] at hs'
      exact Except.ok.inj hs'
    · intro h
      rw [h] at hu
      exact ⟨t, ht, hu⟩

def Tells (s : ℤ) (text : List Char) : Prop := ∃ r : Reading, r.seconds ≤ s ∧ s < r.seconds + 60 ∧
  ∃ recent mon, MONTH_NAMES[r.date.month - 1]? = some mon ∧
    text = dateText recent mon r.date.year r.date.day r.hour r.minute

def Recent (s m : ℤ) : Prop := s ≤ m ∧ m - s < SIX_MONTHS_SECS

instance (s m : ℤ) : Decidable (Recent s m) := inferInstanceAs (Decidable (s ≤ m ∧ m - s < SIX_MONTHS_SECS))

theorem formatDate_eq {t now : SystemTime scale} {s m : ℤ} (ht : unixSeconds t = (.ok s : Exec ε ℤ))
    (hnow : unixSeconds now = (.ok m : Exec ε ℤ)) (hs : I64 s) (hm : m - s < 0x8000000000000000) :
    ∃ r : Reading, r.seconds ≤ s ∧ s < r.seconds + 60 ∧ ∃ mon, MONTH_NAMES[r.date.month - 1]? = some mon ∧
      formatDate t now = (.ok (dateText (Recent s m) mon r.date.year r.date.day r.hour r.minute) : Exec ε _) := by
  obtain ⟨r, hr, hlo, hhi⟩ := ymdhmFromUnixSecs_eq ε hs
  have hrecent : (if s ≤ m then do
      pure (decide ((← subI64 m s) < SIX_MONTHS_SECS)) else pure false : Exec ε Bool) = .ok (decide (Recent s m)) := by
    split_ifs with hle
    · rw [subI64, checkedI64_eq ⟨by omega, hm⟩, ok_bind, pure_eq_ok]
      simp [Recent, hle]
    · simp [Recent, hle]
  obtain ⟨mon, hmon⟩ : ∃ mon, MONTH_NAMES[r.date.month - 1]? = some mon := by
    have hmonth := r.date.month_mem
    exact ⟨_, List.getElem?_eq_getElem (show r.date.month - 1 < 12 by omega)⟩
  refine ⟨r, hlo, hhi, mon, hmon, ?_⟩
  rw [formatDate, ht, ok_bind, hnow, ok_bind, hrecent, ok_bind, hr, ok_bind, ymdhm]
  simp only [subUnsigned_eq r.date.month_mem.1, ok_bind, hmon, pure_eq_ok]

theorem formatDate_tells {t now : SystemTime scale} {s m : ℤ} (ht : unixSeconds t = (.ok s : Exec ε ℤ))
    (hnow : unixSeconds now = (.ok m : Exec ε ℤ)) (hs : I64 s) (hm : m - s < 0x8000000000000000) :
    ∃ text, formatDate t now = (.ok text : Exec ε _) ∧ Tells s text := by
  obtain ⟨r, hlo, hhi, mon, hmon, htext⟩ := formatDate_eq ht hnow hs hm
  exact ⟨_, htext, r, hlo, hhi, _, mon, hmon, rfl⟩

theorem formatDate_panics {t now : SystemTime scale} {s m : ℤ} (ht : unixSeconds t = (.ok s : Exec ε ℤ))
    (hnow : unixSeconds now = (.ok m : Exec ε ℤ)) (hm : 0x8000000000000000 ≤ m - s) :
    formatDate t now = (panicked : Exec ε _) := by
  have hsub : (subI64 m s : Exec ε ℤ) = panicked := checkedI64_panics fun h => by
    unfold I64 at h
    omega
  rw [formatDate, ht, ok_bind, hnow, ok_bind, if_pos (by omega), hsub, error_bind, error_bind]

def Shown (s : ℤ) (n : ℕ) (now : SystemTime .posix) : Prop := ∃ t text,
  systemTimeFromSecsNsec s n = (.ok t : Exec Empty _) ∧ unixSeconds t = (.ok s : Exec Empty ℤ) ∧
    formatDate t now = (.ok text : Exec Empty _) ∧ Tells s text

theorem shown_iff {s : ℤ} {n : ℕ} {now : SystemTime .posix} (hs : I64 s) : Shown s n now ↔
    Survives s n ∧ -0x8000000000000000 < wholeSeconds now ∧ wholeSeconds now - s < 0x8000000000000000 := by
  constructor
  · rintro ⟨t, text, ht, hu, hf, -⟩
    refine ⟨⟨t, ht, hu⟩, ?_⟩
    have hlo : -0x8000000000000000 < wholeSeconds now := by
      apply lt_of_le_of_ne (wholeSeconds_bounds now).1
      intro hmin
      rw [formatDate, hu, ok_bind, unixSeconds_panics hmin.symm, error_bind] at hf
      cases hf
    refine ⟨hlo, Int.lt_of_not_ge fun hm => ?_⟩
    rw [formatDate_panics hu (unixSeconds_eq hlo (wholeSeconds_bounds now).2) hm] at hf
    cases hf
  · rintro ⟨⟨t, ht, hu⟩, hlo, hm⟩
    obtain ⟨text, hf, htext⟩ := formatDate_tells hu (unixSeconds_eq hlo (wholeSeconds_bounds now).2) hs hm
    exact ⟨t, text, ht, hu, hf, htext⟩

theorem afterEpoch_eq (ε : Type) {k : ℕ} (h : k < 0x8000000000000000)
    (hfits : TimeScale.windows.first ≤ k ∧ k < TimeScale.windows.limit) :
    (do SystemTime.unixEpoch.add (← Duration.new (asU64 ((k : ℤ).tdiv 10000000))
      (asU32 (← mulI64 ((k : ℤ).tmod 10000000) 100))) : Exec ε (SystemTime .windows)) = .ok ⟨k, hfits⟩ := by
  have hticks : (k : ℤ).tmod 10000000 * 100 = (k % 10000000 * 100 : ℕ) := by
    rw [Int.tmod_eq_emod_of_nonneg (Int.natCast_nonneg k)]
    omega
  have hmul : (mulI64 ((k : ℤ).tmod 10000000) 100 : Exec ε ℤ) = .ok (k % 10000000 * 100 : ℕ) := by
    rw [mulI64, hticks]
    exact checkedI64_eq ⟨by omega, by omega⟩
  have hsecs : (k : ℤ).tdiv 10000000 = (k / 10000000 : ℕ) := by
    rw [Int.natCast_tdiv_eq_ediv]
    omega
  rw [hmul, ok_bind, hsecs, asU64_natCast (by omega), asU32_natCast (by omega), Duration.new_eq (by omega), ok_bind]
  apply SystemTime.add_eq
  simp only [windows_tick, SystemTime.unixEpoch_ticks]
  omega

theorem beforeEpoch_eq (ε : Type) {k : ℕ} (h : k < 0x8000000000000000)
    (hfits : TimeScale.windows.first ≤ -k ∧ -k < TimeScale.windows.limit) :
    (do SystemTime.unixEpoch.sub (← Duration.new (asU64 k / 10000000)
      (asU32 (← mulU64 (asU64 k % 10000000) 100 : ℕ))) : Exec ε (SystemTime .windows)) = .ok ⟨-k, hfits⟩ := by
  rw [asU64_natCast (by omega), mulU64_eq (by omega), ok_bind, asU32_natCast (by omega), Duration.new_eq (by omega),
    ok_bind]
  apply SystemTime.sub_eq
  simp only [windows_tick, SystemTime.unixEpoch_ticks]
  omega

theorem filetimeToSystemTime_eq (ε : Type) {f : ℤ} (hf : I64 f) (h0 : 0 ≤ f) : ∃ t : SystemTime .windows,
    filetimeToSystemTime f = (.ok t : Exec ε _) ∧ t.ticks = f - EPOCH_DIFF_100NS := by
  have hbounds : -0x8000000000000000 < f - EPOCH_DIFF_100NS ∧ f - EPOCH_DIFF_100NS < 0x8000000000000000 := by
    unfold I64 at hf
    unfold EPOCH_DIFF_100NS
    omega
  have hfits : TimeScale.windows.first ≤ f - EPOCH_DIFF_100NS ∧ f - EPOCH_DIFF_100NS < TimeScale.windows.limit := by
    unfold I64 at hf
    rw [windows_first, windows_limit]
    unfold EPOCH_DIFF_100NS
    omega
  have hsub : (subI64 f EPOCH_DIFF_100NS : Exec ε ℤ) = .ok (f - EPOCH_DIFF_100NS) :=
    checkedI64_eq ⟨Int.le_of_lt hbounds.1, hbounds.2⟩
  refine ⟨⟨f - EPOCH_DIFF_100NS, hfits⟩, ?_, rfl⟩
  rw [filetimeToSystemTime, hsub, ok_bind]
  generalize f - EPOCH_DIFF_100NS = u at *
  rcases Int.lt_or_le u 0 with h | h
  · obtain ⟨k, rfl⟩ : ∃ k : ℕ, u = -k := ⟨u.natAbs, by omega⟩
    have hneg : (negI64 (-k) : Exec ε ℤ) = .ok k := by
      rw [negI64, Int.neg_neg]
      exact checkedI64_eq ⟨by omega, by omega⟩
    rw [if_neg (Int.not_le_of_gt h), hneg, ok_bind]
    exact beforeEpoch_eq ε (by omega) hfits
  · obtain ⟨k, rfl⟩ := Int.eq_ofNat_of_zero_le h
    rw [if_pos h]
    exact afterEpoch_eq ε (by omega) hfits

def FiletimeSurvives (f : ℤ) : Prop := ∃ t : SystemTime .windows,
  filetimeToSystemTime f = (.ok t : Exec Empty _) ∧
    unixSeconds t = (.ok ((f - EPOCH_DIFF_100NS) / 10000000) : Exec Empty ℤ)

theorem filetimeSurvives_iff {f : ℤ} (hf : I64 f) (h0 : 0 ≤ f) :
    FiletimeSurvives f ↔ EPOCH_DIFF_100NS ≤ f ∨ (f - EPOCH_DIFF_100NS) % 10000000 = 0 := by
  obtain ⟨t, ht, hticks⟩ := filetimeToSystemTime_eq Empty hf h0
  have hw : wholeSeconds t = (f - EPOCH_DIFF_100NS) / 10000000 +
      if 0 ≤ f - EPOCH_DIFF_100NS ∨ (f - EPOCH_DIFF_100NS) % 10000000 = 0 then 0 else 1 := by
    rw [wholeSeconds, hticks, windows_tick, tdiv_of_pos (by decide)]
    split_ifs <;> omega
  have hu : unixSeconds t = (.ok (wholeSeconds t) : Exec Empty ℤ) := by
    unfold I64 at hf
    unfold EPOCH_DIFF_100NS at hw
    apply unixSeconds_eq
    all_goals
      rw [hw]
      split_ifs <;> omega
  constructor
  · rintro ⟨t', ht', hs⟩
    rw [ht] at ht'
    cases ht'
    rw [hu, hw] at hs
    have heq := Except.ok.inj hs
    split_ifs at heq <;> omega
  · intro h
    refine ⟨t, ht, ?_⟩
    rw [hu, hw, if_pos (by omega), Int.add_zero]

theorem timestamps_survive_iff {s : ℤ} {n : ℕ} {f : ℤ} {now : SystemTime .posix} (hs : I64 s) (hn : n < 1000000000)
    (hf : I64 f) (h0 : 0 ≤ f) :
    (Survives s n ↔ s ≠ -0x8000000000000000 ∧ (0 ≤ s ∨ n = 0)) ∧
    (Shown s n now ↔ (s ≠ -0x8000000000000000 ∧ (0 ≤ s ∨ n = 0)) ∧
      -0x8000000000000000 < wholeSeconds now ∧ wholeSeconds now - s < 0x8000000000000000) ∧
    (FiletimeSurvives f ↔ EPOCH_DIFF_100NS ≤ f ∨ (f - EPOCH_DIFF_100NS) % 10000000 = 0) := by
  refine ⟨survives_iff hs hn, ?_, filetimeSurvives_iff hf h0⟩
  rw [shown_iff hs, survives_iff hs hn]

theorem old_file_survives : Survives (-1) 0 ∧ Shown (-1) 0 SystemTime.unixEpoch ∧ FiletimeSurvives 0 := by
  have h := @timestamps_survive_iff (-1) 0 0 SystemTime.unixEpoch (by decide) (by decide) (by decide) (by decide)
  exact ⟨h.1.mpr (by decide), h.2.1.mpr (by decide), h.2.2.mpr (by decide)⟩

theorem fraction_before_epoch_lost : ¬ Survives (-1) 1 ∧ ¬ Survives (-0x8000000000000000) 0 ∧
    ¬ FiletimeSurvives 116444735999999999 := by
  refine ⟨?_, ?_, ?_⟩
  · rw [survives_iff (by decide) (by decide)]
    decide
  · rw [survives_iff (by decide) (by decide)]
    decide
  · rw [filetimeSurvives_iff (by decide) (by decide)]
    decide

end Rustils.Coreutils.Timestamps
