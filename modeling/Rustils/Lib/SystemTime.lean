import Rustils.Lib.Duration
import Rustils.Lib.Machine

namespace Rustils.Lib

open Fuel

variable {ε : Type}

structure TimeScale where
  tick : ℕ
  first : ℤ
  limit : ℤ
  tick_pos : 0 < tick
  epoch_mem : first ≤ 0 ∧ 0 < limit
  span : (limit - first) * tick ≤ 0x10000000000000000 * 1000000000

def TimeScale.posix : TimeScale where
  tick := 1
  first := -0x8000000000000000 * 1000000000
  limit := 0x8000000000000000 * 1000000000
  tick_pos := by decide
  epoch_mem := by decide
  span := by decide

def TimeScale.windows : TimeScale where
  tick := 100
  first := -116444736000000000
  limit := 0x8000000000000000 - 116444736000000000
  tick_pos := by decide
  epoch_mem := by decide
  span := by decide

namespace TimeScale

theorem posix_tick : posix.tick = 1 := rfl

theorem posix_first : posix.first = -0x8000000000000000 * 1000000000 := rfl

theorem posix_limit : posix.limit = 0x8000000000000000 * 1000000000 := rfl

theorem windows_tick : windows.tick = 100 := rfl

theorem windows_first : windows.first = -116444736000000000 := rfl

theorem windows_limit : windows.limit = 0x8000000000000000 - 116444736000000000 := rfl

end TimeScale

structure SystemTime (scale : TimeScale) where
  ticks : ℤ
  fits : scale.first ≤ ticks ∧ ticks < scale.limit

def Duration.new (secs nanos : ℕ) : Exec ε Duration :=
  if h : secs * 1000000000 + nanos < 0x10000000000000000 * 1000000000 then
    pure ⟨secs * 1000000000 + nanos, h⟩
  else panicked

theorem Duration.new_eq {secs nanos : ℕ} (h : secs * 1000000000 + nanos < 0x10000000000000000 * 1000000000) :
    (Duration.new secs nanos : Exec ε Duration) = .ok ⟨secs * 1000000000 + nanos, h⟩ := dif_pos h

namespace SystemTime

variable {scale : TimeScale}

def unixEpoch : SystemTime scale := ⟨0, scale.epoch_mem⟩

theorem unixEpoch_ticks : (unixEpoch : SystemTime scale).ticks = 0 := rfl

def ofTicks (ticks : ℤ) : Exec ε (SystemTime scale) :=
  if h : scale.first ≤ ticks ∧ ticks < scale.limit then pure ⟨ticks, h⟩ else panicked

def add (t : SystemTime scale) (d : Duration) : Exec ε (SystemTime scale) :=
  ofTicks (t.ticks + (d.nanos / scale.tick : ℕ))

def sub (t : SystemTime scale) (d : Duration) : Exec ε (SystemTime scale) :=
  ofTicks (t.ticks - (d.nanos / scale.tick : ℕ))

theorem span_lt {t u : SystemTime scale} (h : t.ticks ≤ u.ticks) :
    (u.ticks - t.ticks).toNat * scale.tick < 0x10000000000000000 * 1000000000 := by
  have ht := t.fits.1
  have hu := u.fits.2
  have hs := scale.span
  have hlt : (u.ticks - t.ticks) * scale.tick < (scale.limit - scale.first) * scale.tick :=
    Int.mul_lt_mul_of_pos_right (by omega) (Int.natCast_pos.mpr scale.tick_pos)
  have hn : ((u.ticks - t.ticks).toNat : ℤ) = u.ticks - t.ticks := Int.toNat_of_nonneg (by omega)
  apply Int.ofNat_lt.mp
  rw [Int.natCast_mul, hn]
  exact Int.lt_of_lt_of_le hlt hs

def between (t u : SystemTime scale) (h : t.ticks ≤ u.ticks) : Duration :=
  ⟨(u.ticks - t.ticks).toNat * scale.tick, span_lt h⟩

theorem asSecs_between {t u : SystemTime scale} (h : t.ticks ≤ u.ticks) : ((between t u h).asSecs : ℤ) =
    ((u.ticks - t.ticks) * scale.tick).tdiv 1000000000 := by
  obtain ⟨n, hn⟩ := Int.eq_ofNat_of_zero_le (Int.sub_nonneg_of_le h)
  simp only [between, Duration.asSecs, hn, Int.toNat_natCast]
  rfl

def durationSince (t u : SystemTime scale) : Except Duration Duration :=
  if h : u.ticks ≤ t.ticks then .ok (between u t h) else .error (between t u (by omega))

theorem add_eq {t : SystemTime scale} {d : Duration} {ticks : ℤ} (h : t.ticks + (d.nanos / scale.tick : ℕ) = ticks)
    (hfits : scale.first ≤ ticks ∧ ticks < scale.limit) :
    (t.add d : Exec ε (SystemTime scale)) = .ok ⟨ticks, hfits⟩ := by
  subst h
  exact dif_pos hfits

theorem sub_eq {t : SystemTime scale} {d : Duration} {ticks : ℤ} (h : t.ticks - (d.nanos / scale.tick : ℕ) = ticks)
    (hfits : scale.first ≤ ticks ∧ ticks < scale.limit) :
    (t.sub d : Exec ε (SystemTime scale)) = .ok ⟨ticks, hfits⟩ := by
  subst h
  exact dif_pos hfits

end SystemTime

end Rustils.Lib
