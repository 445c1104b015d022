import Rustils.Lib.Program
import Rustils.Process.Status

namespace Rustils.Process

open Platform Lib.Program

abbrev Pid := Int32

inductive Signal
  | term | int | hup | quit | kill | stop | cont
  deriving DecidableEq

def signumOf : Signal → Int32
  | .term => 15
  | .int => 2
  | .hup => 1
  | .quit => 3
  | .kill => 9
  | .stop => 19
  | .cont => 18

structure WaitFlags where
  nohang : Bool := false
  untraced : Bool := false
  continued : Bool := false

/-- What `waitpid` returns, what it wrote to `status`, and `errno` after it. -/
structure WaitAnswer where
  ret : Pid
  status : ℕ
  errno : Int32

def EINTR : Int32 := 4

inductive WaitFn
  | wait | tryWait | waitJob | tryWaitJob

@[reducible] def WaitFn.Ret : WaitFn → Type
  | .wait | .waitJob => ExitStatus
  | .tryWait | .tryWaitJob => Option ExitStatus

def WaitFn.flags : WaitFn → WaitFlags
  | .wait => {}
  | .tryWait => { nohang := true }
  | .waitJob => { untraced := true, continued := true }
  | .tryWaitJob => { nohang := true, untraced := true, continued := true }

/-- One turn of a waiting loop; nothing where it goes round again. -/
def WaitFn.turn (pid : Pid) (a : WaitAnswer) : (f : WaitFn) → Option (Result f.Ret)
  | .wait =>
    if a.ret = pid then some (.ok (decode a.status))
    else if a.errno = EINTR then none
    else some (.error (errnoErr "waitpid" a.errno))
  | .tryWait =>
    if a.ret = pid then some (.ok (some (decode a.status)))
    else if a.ret = 0 then some (.ok none)
    else if a.errno = EINTR then none
    else some (.error (errnoErr "waitpid" a.errno))
  | .waitJob =>
    if a.ret = pid then some (.ok (decodeJob a.status))
    else if a.errno = EINTR then none
    else some (.error (errnoErr "waitpid" a.errno))
  | .tryWaitJob =>
    if a.ret = pid then some (.ok (some (decodeJob a.status)))
    else if a.ret = 0 then some (.ok none)
    else if a.errno = EINTR then none
    else some (.error (errnoErr "waitpid" a.errno))

inductive Op
  | loop (f : WaitFn) (pid : Pid)
  | killSingle (pid : Pid) (sig : Int32)
  | killGroup (pgid : Pid) (sig : Int32)
  | other (i : ℕ)
  | pollPids

@[reducible] def Answer : Op → Type
  | .loop f _ => Result f.Ret
  | .killSingle _ _ | .killGroup _ _ => Except Int32 Unit
  | .other _ => Result (Option ExitStatus)
  | .pollPids => Result (Option ℕ)

def perform (o : Op) : Prog Answer (Answer o) := .call o

structure LinuxChild where
  pid : Pid
  group : Option Pid
  reaped : Option ExitStatus

/-- The slice of children in which one is waited for, the others being `LinuxChild`s or not. The
clock lets the portable loop of `wait_any` go round `ticks` more times. -/
structure Company where
  size : ℕ
  index : ℕ
  ours : ℕ → Bool
  ticks : ℕ

inductive Pass
  | failed (e : PlatformError)
  | found (i : ℕ)
  | foreign
  | pending

namespace LinuxChild

def wait (self : LinuxChild) : Prog Answer (Result ExitStatus) :=
  match self.reaped with
  | some status => return .ok status
  | none => perform (.loop .wait self.pid)

def killTree (self : LinuxChild) (sig : Signal) : Prog Answer (Result Unit) := do
  match self.group with
  | none => return .error (.new .unsupported .none "kill_tree")
  | some pgid =>
    match ← perform (.killGroup pgid (signumOf sig)) with
    | .ok _ => return .ok ()
    | .error code => return .error (errnoErr "kill" code)

def killSingle (self : LinuxChild) (sig : Signal) : Prog Answer (Result Unit) := do
  match ← perform (.killSingle self.pid (signumOf sig)) with
  | .ok _ => return .ok ()
  | .error code => return .error (errnoErr "kill" code)

def tryWait (self : LinuxChild) : Prog Answer (Result (Option ExitStatus) × LinuxChild) := do
  match self.reaped with
  | some status => return (.ok (some status), self)
  | none =>
    match ← perform (.loop .tryWait self.pid) with
    | .error e => return (.error e, self)
    | .ok status => return (.ok status, { self with reaped := status })

def waitJob (self : LinuxChild) : Prog Answer (Result ExitStatus × LinuxChild) := do
  match self.reaped with
  | some status => return (.ok status, self)
  | none =>
    match ← perform (.loop .waitJob self.pid) with
    | .error e => return (.error e, self)
    | .ok status =>
      if status.Terminal then return (.ok status, { self with reaped := some status })
      else return (.ok status, self)

def tryWaitJob (self : LinuxChild) : Prog Answer (Result (Option ExitStatus) × LinuxChild) := do
  match self.reaped with
  | some status => return (.ok (some status), self)
  | none =>
    match ← perform (.loop .tryWaitJob self.pid) with
    | .error e => return (.error e, self)
    | .ok none => return (.ok none, self)
    | .ok (some status) =>
      if status.Terminal then return (.ok (some status), { self with reaped := some status })
      else return (.ok (some status), self)

def tryWaitAt (self : LinuxChild) (co : Company) (i : ℕ) :
    Prog Answer (Result (Option ExitStatus) × LinuxChild) := do
  if i = co.index then self.tryWait
  else return (← perform (.other i), self)

def pass (co : Company) (downcast : Bool) : ℕ → ℕ → LinuxChild → Prog Answer (Pass × LinuxChild)
  | 0, _, self => return (.pending, self)
  | n + 1, i, self => do
    match ← self.tryWaitAt co i with
    | (.error e, self) => return (.failed e, self)
    | (.ok (some _), self) => return (.found i, self)
    | (.ok none, self) =>
      if downcast && i != co.index && !co.ours i then return (.foreign, self)
      else pass co downcast n (i + 1) self

def portableWaitAny (co : Company) : ℕ → LinuxChild → Prog Answer (Result (Option ℕ) × LinuxChild)
  | ticks, self => do
    match ← pass co false co.size 0 self with
    | (.failed e, self) => return (.error e, self)
    | (.found i, self) => return (.ok (some i), self)
    | (_, self) =>
      match ticks with
      | 0 => return (.ok none, self)
      | ticks + 1 => portableWaitAny co ticks self

def waitAny (co : Company) (self : LinuxChild) : Prog Answer (Result (Option ℕ) × LinuxChild) := do
  if co.size = 0 then return (.error (.new .invalidInput .none "wait_any"), self)
  match ← pass co true co.size 0 self with
  | (.failed e, self) => return (.error e, self)
  | (.found i, self) => return (.ok (some i), self)
  | (.foreign, self) => portableWaitAny co co.ticks self
  | (.pending, self) =>
    match ← perform .pollPids with
    | .ok (some pos) =>
      match ← self.tryWaitAt co pos with
      | (.error e, self) => return (.error e, self)
      | (.ok _, self) => return (.ok (some pos), self)
    | .ok none => return (.ok none, self)
    | .error e =>
      if e.kind = .unsupported then portableWaitAny co co.ticks self
      else return (.error e, self)

end LinuxChild

end Rustils.Process
