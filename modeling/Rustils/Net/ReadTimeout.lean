import Rustils.Net.Unix
import Rustils.Process.WaitMany

namespace Rustils.Net.ReadTimeout

open Platform Lib Lib.Program
open Process.WaitMany (INFINITE WAIT_OBJECT_0 WAIT_TIMEOUT)
open Platform.Errmap (lastWin32Err)

inductive CInt
  | i32 | i64

def CInt.size : CInt → ℕ
  | .i32 => 0x100000000
  | .i64 => 0x10000000000000000

/-- `as` to a signed type wraps. -/
def CInt.cast (c : CInt) (n : ℕ) : ℤ := (n : ℤ).bmod c.size

structure Timeval where
  tvSec : ℤ
  tvUsec : ℤ
  deriving DecidableEq

inductive Call
  | waitForSingleObject (ms : UInt32)
  | winsockRcvtimeo (millis : UInt32)
  | posixRcvtimeo (tv : Timeval)

@[reducible] def Answer : Call → Type
  | .waitForSingleObject _ => UInt32 × UInt32
  | .winsockRcvtimeo _ => Except Int32 Unit
  | .posixRcvtimeo _ => Except Errno Unit

def Call.Forever : Call → Prop
  | .waitForSingleObject ms => ms = INFINITE
  | .winsockRcvtimeo millis => millis = 0
  | .posixRcvtimeo tv => tv = ⟨0, 0⟩

instance : DecidablePred Call.Forever
  | .waitForSingleObject ms => inferInstanceAs (Decidable (ms = INFINITE))
  | .winsockRcvtimeo millis => inferInstanceAs (Decidable (millis = 0))
  | .posixRcvtimeo tv => inferInstanceAs (Decidable (tv = ⟨0, 0⟩))

def u32OrMax (n : ℕ) : UInt32 := if n < 0x100000000 then UInt32.ofNat n else 0xFFFFFFFF

def os (c : Call) : Prog Answer (Answer c) := .call c

def waitSignaled (timeoutMs : UInt32) : Prog Answer (Result Bool) := do
  let (r, code) ← os (.waitForSingleObject timeoutMs)
  if r = WAIT_OBJECT_0 then return .ok true
  else if r = WAIT_TIMEOUT then return .ok false
  else return .error (lastWin32Err "WaitForSingleObject" [] code)

def pollReadable (timeout : Option Duration) : Prog Answer (Result Bool) :=
  waitSignaled (match timeout with
    | none => INFINITE
    | some d => u32OrMax d.asMillis)

namespace Windows

def wsaKind (code : Int32) : ErrorKind :=
  if code = 10061 then .connectionRefused
  else if code = 10054 then .connectionReset
  else if code = 10053 then .connectionAborted
  else if code = 10057 then .notConnected
  else if code = 10048 then .addrInUse
  else if code = 10049 then .addrNotAvailable
  else if code = 10060 then .timedOut
  else if code = 10013 then .permissionDenied
  else if code = 10022 then .invalidInput
  else if code = 10035 then .wouldBlock
  else if code = 10004 then .interrupted
  else .other

def setReadTimeout (timeout : Option Duration) : Prog Answer (Result Unit) := do
  let millis := (timeout.map fun d => u32OrMax d.asMillis).getD 0
  match ← os (.winsockRcvtimeo millis) with
  | .error code => return .error (.new (wsaKind code) (.win32 code.toUInt32) "setsockopt(SO_RCVTIMEO)")
  | .ok _ => return .ok ()

end Windows

def timeval (timeT suseconds : CInt) : Option Duration → Timeval
  | some d => ⟨timeT.cast d.asSecs, suseconds.cast d.subsecMicros⟩
  | none => ⟨0, 0⟩

def setRcvtimeo (b : Backend) (tv : Timeval) : Prog Answer (Result Unit) := do
  match ← os (.posixRcvtimeo tv) with
  | .error e => return .error (.new (kindOf e) (.errno (e.code b)) "setsockopt(SO_RCVTIMEO)")
  | .ok _ => return .ok ()

def Linux.setReadTimeout (timeout : Option Duration) : Prog Answer (Result Unit) :=
  setRcvtimeo .linux (timeval .i64 .i64 timeout)

/-- The two types differ among the BSDs. -/
def Bsd.setReadTimeout (timeT suseconds : CInt) (timeout : Option Duration) : Prog Answer (Result Unit) :=
  setRcvtimeo .bsd (timeval timeT suseconds timeout)

inductive Conversion
  | console
  | winsock
  | linux
  | bsd (timeT suseconds : CInt)

def Unbounded {α : Type} : Prog Answer α → Prop
  | .op call _ => call.Forever
  | .ret _ => False

def Conversion.Unbounded (timeout : Option Duration) : Conversion → Prop
  | .console => ReadTimeout.Unbounded (pollReadable timeout)
  | .winsock => ReadTimeout.Unbounded (Windows.setReadTimeout timeout)
  | .linux => ReadTimeout.Unbounded (Linux.setReadTimeout timeout)
  | .bsd timeT suseconds => ReadTimeout.Unbounded (Bsd.setReadTimeout timeT suseconds timeout)

instance {α : Type} : DecidablePred (Unbounded (α := α))
  | .op call _ => inferInstanceAs (Decidable call.Forever)
  | .ret _ => isFalse id

instance (timeout : Option Duration) : DecidablePred (Conversion.Unbounded timeout)
  | .console => inferInstanceAs (Decidable (Unbounded (pollReadable timeout)))
  | .winsock => inferInstanceAs (Decidable (Unbounded (Windows.setReadTimeout timeout)))
  | .linux => inferInstanceAs (Decidable (Unbounded (Linux.setReadTimeout timeout)))
  | .bsd timeT suseconds => inferInstanceAs (Decidable (Unbounded (Bsd.setReadTimeout timeT suseconds timeout)))

def Conversion.Loses (d : Duration) : Conversion → Prop
  | .console => 0xFFFFFFFF ≤ d.asMillis
  | .winsock => d.nanos < 1000000
  | .linux => d.nanos < 1000
  | .bsd .i32 _ => d.asSecs % 0x100000000 = 0 ∧ d.subsecMicros = 0
  | .bsd .i64 _ => d.nanos < 1000

theorem u32OrMax_eq_max {n : ℕ} : u32OrMax n = INFINITE ↔ 0xFFFFFFFF ≤ n := by
  have hend : INFINITE.toNat = 0xFFFFFFFF := by decide
  unfold u32OrMax
  split
  · rename_i h
    rw [← UInt32.toNat_inj, UInt32.toNat_ofNat_of_lt' h, hend]
    omega
  · rename_i h
    exact ⟨fun _ => by omega, fun _ => rfl⟩

theorem u32OrMax_eq_zero {n : ℕ} : u32OrMax n = 0 ↔ n = 0 := by
  unfold u32OrMax
  split
  · rename_i h
    rw [← UInt32.toNat_inj, UInt32.toNat_ofNat_of_lt' h]
    rfl
  · rename_i h
    constructor
    · nofun
    · intro hn
      omega

theorem subsecMicros_lt (d : Duration) : d.subsecMicros < 1000000 := by
  unfold Duration.subsecMicros
  omega

theorem asSecs_lt (d : Duration) : d.asSecs < 0x10000000000000000 := by
  have hfits := d.fits
  unfold Duration.asSecs
  omega

theorem cast_eq_zero {c : CInt} {n : ℕ} : c.cast n = 0 ↔ n % c.size = 0 := by
  rw [CInt.cast, ← Int.dvd_iff_bmod_eq_zero, Int.natCast_dvd_natCast, Nat.dvd_iff_mod_eq_zero]

theorem lt_size (c : CInt) : 1000000 < c.size := by cases c <;> decide

theorem timeval_eq_zero {timeT suseconds : CInt} {d : Duration} :
    timeval timeT suseconds (some d) = ⟨0, 0⟩ ↔ d.asSecs % timeT.size = 0 ∧ d.subsecMicros = 0 := by
  have hlt : d.subsecMicros < suseconds.size := Nat.lt_trans (subsecMicros_lt d) (lt_size suseconds)
  rw [timeval, Timeval.mk.injEq, cast_eq_zero, cast_eq_zero, Nat.mod_eq_of_lt hlt]

theorem timeval_i64_eq_zero {suseconds : CInt} {d : Duration} :
    timeval .i64 suseconds (some d) = ⟨0, 0⟩ ↔ d.nanos < 1000 := by
  rw [timeval_eq_zero, CInt.size, Nat.mod_eq_of_lt (asSecs_lt d), Duration.asSecs, Duration.subsecMicros]
  omega

theorem unbounded_none (c : Conversion) : c.Unbounded none := by cases c <;> rfl

theorem unbounded_some (c : Conversion) (d : Duration) : c.Unbounded (some d) ↔ c.Loses d := by
  cases c with
  | console => exact u32OrMax_eq_max
  | winsock =>
    refine u32OrMax_eq_zero.trans ?_
    rw [Duration.asMillis, Conversion.Loses]
    omega
  | linux => exact timeval_i64_eq_zero
  | bsd timeT suseconds =>
    cases timeT with
    | i32 => exact timeval_eq_zero
    | i64 => exact timeval_i64_eq_zero

theorem unbounded_iff (c : Conversion) (timeout : Option Duration) :
    (c.Unbounded timeout ↔ timeout = none) ↔ ∀ d, timeout = some d → ¬ c.Loses d := by
  cases timeout with
  | none => exact ⟨fun _ => nofun, fun _ => ⟨fun _ => rfl, fun _ => unbounded_none c⟩⟩
  | some d =>
    rw [unbounded_some]
    constructor
    · rintro h d' ⟨⟩ hl
      cases h.mp hl
    · intro h
      exact ⟨fun hl => absurd hl (h d rfl), nofun⟩

theorem finite_timeouts_iff (timeout : Option Duration) :
    (∀ c : Conversion, (c.Unbounded timeout ↔ timeout = none) ↔ ∀ d, timeout = some d → ¬ c.Loses d) ∧
    ((∀ c : Conversion, c.Unbounded timeout ↔ timeout = none) ↔
      ∀ d, timeout = some d → 1000000 ≤ d.nanos ∧ d.asMillis < 0xFFFFFFFF) := by
  refine ⟨fun c => unbounded_iff c timeout, ?_⟩
  simp only [unbounded_iff]
  constructor
  · intro h d hd
    exact ⟨Nat.not_lt.mp (h .winsock d hd), Nat.not_le.mp (h .console d hd)⟩
  · intro h c d hd
    obtain ⟨hlong, hshort⟩ := h d hd
    rw [Duration.asMillis] at hshort
    rcases c with _ | _ | _ | ⟨_ | _, _⟩
    · exact Nat.not_le.mpr hshort
    · exact Nat.not_lt.mpr hlong
    · exact Nat.not_lt.mpr (by omega)
    · rintro ⟨hsecs, hmicros⟩
      rw [Duration.asSecs] at hsecs
      rw [Duration.subsecMicros] at hmicros
      omega
    · exact Nat.not_lt.mpr (by omega)

theorem finite_timeouts_lost :
    Conversion.Unbounded (some ⟨4320000000000000, by decide⟩) .console ∧
    Conversion.Unbounded (some ⟨500, by decide⟩) .winsock ∧
    Conversion.Unbounded (some ⟨500, by decide⟩) .linux ∧
    Conversion.Unbounded (some ⟨500, by decide⟩) (.bsd .i64 .i32) := by
  decide

end Rustils.Net.ReadTimeout
