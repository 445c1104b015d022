import Mathlib.Data.Nat.Notation

namespace Rustils.Lib

structure Duration where
  nanos : ℕ
  fits : nanos < 0x10000000000000000 * 1000000000
  deriving DecidableEq

namespace Duration

def asSecs (d : Duration) : ℕ := d.nanos / 1000000000

def asMillis (d : Duration) : ℕ := d.nanos / 1000000

def subsecMicros (d : Duration) : ℕ := d.nanos % 1000000000 / 1000

def after (d : Duration) (now limit : ℕ) : Option ℕ := if now + d.nanos < limit then some (now + d.nanos) else none

theorem after_eq_some {d : Duration} {now limit at_ : ℕ} :
    d.after now limit = some at_ ↔ now + d.nanos < limit ∧ now + d.nanos = at_ := by
  unfold after
  split
  · rename_i h
    rw [Option.some.injEq, and_iff_right h]
  · rename_i h
    exact ⟨nofun, fun hd => absurd hd.1 h⟩

theorem after_eq_none {d : Duration} {now limit : ℕ} : d.after now limit = none ↔ limit ≤ now + d.nanos := by
  unfold after
  split
  · rename_i h
    exact ⟨nofun, fun hle => absurd h (Nat.not_lt.mpr hle)⟩
  · rename_i h
    exact ⟨fun _ => Nat.not_lt.mp h, fun _ => rfl⟩

theorem asMillis_mul_le (d : Duration) : d.asMillis * 1000000 ≤ d.nanos := Nat.div_mul_le_self _ _

theorem asMillis_mul_eq {d : Duration} : d.asMillis * 1000000 = d.nanos ↔ d.nanos % 1000000 = 0 := by
  unfold asMillis
  omega

end Duration

end Rustils.Lib
