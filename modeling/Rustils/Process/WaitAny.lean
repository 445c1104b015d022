import Mathlib.Logic.Function.Basic
import Rustils.Process.System

namespace Rustils.Process.WaitAny

open Platform

inductive Life
  | running
  | zombie (t : Termination)
  | gone

inductive Child
  | linux (pid : Pid) (reaped : Option ExitStatus)
  | foreign (ended : Option ExitStatus)

/-- The kernel lets nobody have the pid of a process that was not reaped. -/
def Unshared {n : ℕ} (children : Fin n → Child) : Prop :=
  ∀ i j pid, children i = .linux pid none → children j = .linux pid none → i = j

theorem Unshared.update {n : ℕ} {children : Fin n → Child} (h : Unshared children) (i : Fin n) {c : Child}
    (hc : ∀ pid, c ≠ .linux pid none) : Unshared (Function.update children i c) := by
  intro j k pid hj hk
  have other : ∀ m, Function.update children i c m = .linux pid none → children m = .linux pid none := by
    intro m hm
    rcases eq_or_ne m i with rfl | hne
    · rw [Function.update_self] at hm
      exact absurd hm (hc pid)
    · rwa [Function.update_of_ne hne] at hm
  exact h j k pid (other j hj) (other k hk)

structure World (n : ℕ) where
  procs : Pid → Life
  children : Fin n → Child
  unshared : Unshared children

variable {n : ℕ}

namespace World

def ECHILD : Int32 := 10

def reap (w : World n) (i : Fin n) (pid : Pid) (t : Termination) : World n where
  procs := Function.update w.procs pid .gone
  children := Function.update w.children i (.linux pid (some t.status))
  unshared := w.unshared.update i nofun

def tryWait (w : World n) (i : Fin n) : Result (Option ExitStatus) × World n :=
  match w.children i with
  | .foreign ended => (.ok ended, w)
  | .linux _ (some status) => (.ok (some status), w)
  | .linux pid none =>
    match w.procs pid with
    | .running => (.ok none, w)
    | .zombie t => (.ok (some t.status), w.reap i pid t)
    | .gone => (.error (errnoErr "waitpid" ECHILD), w)

def stashed (w : World n) (i : Fin n) : Option ExitStatus :=
  match w.children i with
  | .linux _ reaped => reaped
  | .foreign ended => ended

def readable (w : World n) (pid : Pid) : Bool :=
  match w.procs pid with
  | .running => false
  | _ => true

end World

inductive Event (n : ℕ)
  | exit (pid : Pid) (t : Termination)
  | ends (i : Fin n) (status : ExitStatus)

def Event.apply : Event n → World n → World n
  | .exit pid t, w => { w with procs := Function.update w.procs pid (.zombie t) }
  | .ends i status, w =>
    { w with
      children := Function.update w.children i (.foreign (some status))
      unshared := w.unshared.update i nofun }

inductive Happens (w : World n) : Event n → Prop
  | exit {pid : Pid} (t : Termination) (h : w.procs pid = .running) : Happens w (.exit pid t)
  | ends {i : Fin n} (status : ExitStatus) (h : w.children i = .foreign none) : Happens w (.ends i status)

def applyAll (evs : List (Event n)) (w : World n) : World n := evs.foldl (fun w e => e.apply w) w

/-- Where a call of either `wait_any` is: in the fast pass, in `poll_pids`, about to reap the winner, in a
pass of the portable loop, or at its clock. -/
inductive Pc (n : ℕ)
  | fast (i : ℕ) (pending : List (Fin n × Pid))
  | poll (pending : List (Fin n × Pid))
  | reap (index : Fin n)
  | visit (i : ℕ)
  | clock
  | done (r : Result (Option (Fin n)))
  | panicked

structure State (n : ℕ) where
  world : World n
  pc : Pc n

def empty : PlatformError := .new .invalidInput .none "wait_any"

def portable (w : World n) : State n := ⟨w, if n = 0 then .done (.error empty) else .visit 0⟩

def native (w : World n) : State n := ⟨w, if n = 0 then .done (.error empty) else .fast 0 []⟩

def hit (w : World n) (pending : List (Fin n × Pid)) : Option (Fin n × Pid) :=
  ((pending.map Prod.snd).findIdx? w.readable).bind fun pos => pending[pos]?

/-- In nanoseconds: an `Instant` has its seconds in an `i64`. -/
def clockEnd : ℕ := 0x8000000000000000 * 1000000000

/-- Any `try_wait` and any `poll_pids` may fail. `timeout` is in nanoseconds; how much of it has passed is
not kept, so that with one either call may give up as soon as it looks at the clock. -/
inductive Step (timeout : Option ℕ) : State n → State n → Prop
  | fastFound {w w' : World n} {i : ℕ} {pending : List (Fin n × Pid)} {status : ExitStatus} (h : i < n)
    (hw : w.tryWait ⟨i, h⟩ = (.ok (some status), w')) :
    Step timeout ⟨w, .fast i pending⟩ ⟨w', .done (.ok (some ⟨i, h⟩))⟩
  | fastOurs {w w' : World n} {i : ℕ} {pending : List (Fin n × Pid)} {pid : Pid} {reaped : Option ExitStatus}
    (h : i < n) (hw : w.tryWait ⟨i, h⟩ = (.ok none, w')) (hc : w'.children ⟨i, h⟩ = .linux pid reaped) :
    Step timeout ⟨w, .fast i pending⟩ ⟨w', .fast (i + 1) (pending ++ [(⟨i, h⟩, pid)])⟩
  | fastForeign {w w' : World n} {i : ℕ} {pending : List (Fin n × Pid)} {ended : Option ExitStatus}
    (h : i < n) (hw : w.tryWait ⟨i, h⟩ = (.ok none, w')) (hc : w'.children ⟨i, h⟩ = .foreign ended) :
    Step timeout ⟨w, .fast i pending⟩ ⟨w', .visit 0⟩
  | fastFailed {w : World n} {i : ℕ} {pending : List (Fin n × Pid)} (h : i < n) (e : PlatformError) :
    Step timeout ⟨w, .fast i pending⟩ ⟨w, .done (.error e)⟩
  | fastAll {w : World n} {pending : List (Fin n × Pid)} : Step timeout ⟨w, .fast n pending⟩ ⟨w, .poll pending⟩
  | pollFailed {w : World n} {pending : List (Fin n × Pid)} (e : PlatformError) :
    Step timeout ⟨w, .poll pending⟩ ⟨w, if e.kind = .unsupported then .visit 0 else .done (.error e)⟩
  | pollOverflow {w : World n} {pending : List (Fin n × Pid)} {limit now : ℕ} (ht : timeout = some limit)
    (h : clockEnd ≤ now + limit) : Step timeout ⟨w, .poll pending⟩ ⟨w, .panicked⟩
  | pollInterrupted {w : World n} {pending : List (Fin n × Pid)} :
    Step timeout ⟨w, .poll pending⟩ ⟨w, .poll pending⟩
  | pollTimedOut {w : World n} {pending : List (Fin n × Pid)} (ht : timeout ≠ none)
    (h : ∀ x ∈ pending, w.readable x.2 = false) : Step timeout ⟨w, .poll pending⟩ ⟨w, .done (.ok none)⟩
  | pollHit {w : World n} {pending : List (Fin n × Pid)} {x : Fin n × Pid} (h : hit w pending = some x) :
    Step timeout ⟨w, .poll pending⟩ ⟨w, .reap x.1⟩
  | reapWinner {w w' : World n} {index : Fin n} {status : Option ExitStatus}
    (hw : w.tryWait index = (.ok status, w')) :
    Step timeout ⟨w, .reap index⟩ ⟨w', .done (.ok (some index))⟩
  | reapFailed {w : World n} {index : Fin n} (e : PlatformError) :
    Step timeout ⟨w, .reap index⟩ ⟨w, .done (.error e)⟩
  | visitFound {w w' : World n} {i : ℕ} {status : ExitStatus} (h : i < n)
    (hw : w.tryWait ⟨i, h⟩ = (.ok (some status), w')) :
    Step timeout ⟨w, .visit i⟩ ⟨w', .done (.ok (some ⟨i, h⟩))⟩
  | visitNone {w w' : World n} {i : ℕ} (h : i < n) (hw : w.tryWait ⟨i, h⟩ = (.ok none, w')) :
    Step timeout ⟨w, .visit i⟩ ⟨w', .visit (i + 1)⟩
  | visitFailed {w : World n} {i : ℕ} (h : i < n) (e : PlatformError) :
    Step timeout ⟨w, .visit i⟩ ⟨w, .done (.error e)⟩
  | visitAll {w : World n} : Step timeout ⟨w, .visit n⟩ ⟨w, .clock⟩
  | clockOut {w : World n} (ht : timeout ≠ none) : Step timeout ⟨w, .clock⟩ ⟨w, .done (.ok none)⟩
  | clockSleep {w : World n} : Step timeout ⟨w, .clock⟩ ⟨w, .visit 0⟩

inductive Run (next : State n → State n → Prop) (s₀ : State n) : List (Event n) → State n → Prop
  | start : Run next s₀ [] s₀
  | event {evs : List (Event n)} {s : State n} {e : Event n} (h : Run next s₀ evs s)
    (he : Happens s.world e) : Run next s₀ (evs ++ [e]) ⟨e.apply s.world, s.pc⟩
  | step {evs : List (Event n)} {s s' : State n} (h : Run next s₀ evs s) (hs : next s s') :
    Run next s₀ evs s'

def SamePass (timeout : Option ℕ) (s s' : State n) : Prop := Step timeout s s' ∧ s'.pc ≠ .visit 0

end Rustils.Process.WaitAny
