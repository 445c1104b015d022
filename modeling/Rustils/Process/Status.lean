import Mathlib.Data.Nat.Notation
import Rustils.Platform.Error

namespace Rustils.Process

open Platform

inductive ExitStatus
  | code (n : ℕ)
  | signaled (n : ℕ)
  | stopped (n : ℕ)
  | continued
  deriving DecidableEq

section Macros

variable (status : ℕ)

def wifexited : Bool := status &&& 0x7f == 0

def wexitstatus : ℕ := (status >>> 8) &&& 0xff

def wtermsig : ℕ := status &&& 0x7f

/-- The sum is taken as an `i8`, which makes 128 negative. -/
def wifsignaled : Bool := decide ((2 : Int8) ≤ Int8.ofNat ((status &&& 0x7f) + 1))

def wifstopped : Bool := status &&& 0xff == 0x7f

def wstopsig : ℕ := (status >>> 8) &&& 0xff

end Macros

def decode (status : ℕ) : ExitStatus :=
  if wifexited status then .code (wexitstatus status)
  else if wifsignaled status then .signaled (wtermsig status)
  else .code 1

def decodeJob (status : ℕ) : ExitStatus :=
  if wifexited status then .code (wexitstatus status)
  else if wifsignaled status then .signaled (wtermsig status)
  else if wifstopped status then .stopped (wstopsig status)
  else .continued

structure SigNum where
  val : ℕ
  pos : 0 < val
  le : val ≤ 64

inductive Termination
  | exited (code : UInt8)
  | killed (sig : SigNum) (core : Bool)

inductive Report
  | terminated (t : Termination)
  | stopped (sig : SigNum)
  | continued

def Termination.word : Termination → ℕ
  | .exited code => code.toNat <<< 8
  | .killed sig core => sig.val ||| if core then 0x80 else 0

def Report.word : Report → ℕ
  | .terminated t => t.word
  | .stopped sig => (sig.val <<< 8) ||| 0x7f
  | .continued => 0xffff

def Termination.status : Termination → ExitStatus
  | .exited code => .code code.toNat
  | .killed sig _ => .signaled sig.val

def Report.status : Report → ExitStatus
  | .terminated t => t.status
  | .stopped sig => .stopped sig.val
  | .continued => .continued

theorem decode_exited : ∀ n < 256, decode (n <<< 8) = .code n ∧ decodeJob (n <<< 8) = .code n := by
  decide +kernel

theorem decode_killed : ∀ core : Bool, ∀ n < 65, 0 < n →
    decode (n ||| if core then 0x80 else 0) = .signaled n ∧
      decodeJob (n ||| if core then 0x80 else 0) = .signaled n := by
  decide +kernel

theorem decodeJob_stopped : ∀ n < 65, 0 < n → decodeJob ((n <<< 8) ||| 0x7f) = .stopped n := by
  decide +kernel

theorem decode_word (t : Termination) : decode t.word = t.status := by
  cases t with
  | exited code => exact (decode_exited _ code.toNat_lt).1
  | killed sig core => exact (decode_killed core _ (Nat.lt_succ_of_le sig.le) sig.pos).1

theorem decodeJob_word (r : Report) : decodeJob r.word = r.status := by
  cases r with
  | terminated t =>
    cases t with
    | exited code => exact (decode_exited _ code.toNat_lt).2
    | killed sig core => exact (decode_killed core _ (Nat.lt_succ_of_le sig.le) sig.pos).2
  | stopped sig => exact decodeJob_stopped _ (Nat.lt_succ_of_le sig.le) sig.pos
  | continued => rfl

def ExitStatus.Terminal : ExitStatus → Prop
  | .code _ | .signaled _ => True
  | .stopped _ | .continued => False

instance : DecidablePred ExitStatus.Terminal
  | .code _ | .signaled _ => isTrue trivial
  | .stopped _ | .continued => isFalse id

theorem Termination.terminal (t : Termination) : t.status.Terminal := by cases t <;> trivial

theorem Report.terminal_iff (r : Report) : r.status.Terminal ↔ ∃ t, r = .terminated t := by
  cases r with
  | terminated t => exact ⟨fun _ => ⟨t, rfl⟩, fun _ => t.terminal⟩
  | stopped sig => exact ⟨False.elim, by rintro ⟨_, ⟨⟩⟩⟩
  | continued => exact ⟨False.elim, by rintro ⟨_, ⟨⟩⟩⟩

def errnoErr (op : String) (code : Int32) : PlatformError :=
  let kind : ErrorKind :=
    if code = 2 then .notFound
    else if code = 13 ∨ code = 1 then .permissionDenied
    else if code = 20 then .notADirectory
    else if code = 22 then .invalidInput
    else .other
  .new kind (.errno code) op

end Rustils.Process
