import Rustils.Lib.History
import Rustils.Process.Jobs
import Rustils.Process.Target

namespace Rustils.Process.Grouped.Jobs

open Platform Lib.Program
open Wiring (Stdio)
open WinFs (Wide)
open Platform.Errmap (lastWin32Err)

def lift {α : Type} : Prog Answer α → Prog Reply α
  | .ret a => .ret a
  | .op c k => .op (.call c) fun r => lift (k r)

def closeAll (hs : List Owned) : Prog Reply Unit := lift (Grouped.closeAll hs)

structure WindowsChild where
  process : Pid
  job : Option JobId
  pid : Pid
  reaped : Option Int32
  pipes : List (Option Handle)

structure Command where
  group : GroupSpec
  detached : Bool
  cwd : Wide
  env : EnvSpec UInt16
  stdio : Fin 3 → Stdio

def unsupported (op : String) : PlatformError := .new .unsupported .none op

def spawn (cmd : Command) (line : Result Wide) : Prog Reply (Result WindowsChild) := do
  match cmd.group with
  | .joinGroup _ => return .error (unsupported "spawn: GroupSpec::JoinGroup")
  | group =>
    if cmd.detached ∧ group = .newGroup then return .error (unsupported "spawn: detach with GroupSpec::NewGroup")
    else
      match line with
      | .error e => return .error e
      | .ok line =>
        match ← lift (Grouped.spawn line cmd.cwd cmd.env cmd.stdio (group = .newGroup) cmd.detached) with
        | .error e => return .error e
        | .ok s => return .ok ⟨s.process, s.job, s.pid, none, s.parentPipes⟩

def adopt (pid : ℕ) : Prog Reply (Result (Pid × JobId)) :=
  .op (.openProcess pid) fun
    | .error code => .ret (.error (lastWin32Err "OpenProcess" [] code))
    | .ok process => do
      match ← lift Grouped.createKillOnCloseJob with
      | .error e =>
        closeAll [.process process]
        return .error e
      | .ok job =>
        .op (.call (.assignProcessToJobObject job process)) fun
          | .error code => do
            closeAll [.job job, .process process]
            return .error (lastWin32Err "AssignProcessToJobObject" [] code)
          | .ok _ => .ret (.ok (process, job))

def terminateJob (job : JobId) : Prog Reply (Result Unit) :=
  .op (.terminateJobObject job) fun
    | .error code => .ret (.error (lastWin32Err "TerminateJobObject" [] code))
    | .ok _ => .ret (.ok ())

def terminateProcess (process : Pid) : Prog Reply (Result Unit) :=
  .op (.call (.terminateProcess process)) fun
    | .error code => .ret (.error (lastWin32Err "TerminateProcess" [] code))
    | .ok _ => .ret (.ok ())

def killTree (job : Option JobId) (sig : Signal) : Prog Reply (Result Unit) :=
  if sig ≠ .kill then return .error (unsupported "kill_tree")
  else
    match job with
    | some job => terminateJob job
    | none => return .error (unsupported "kill_tree")

def killSingle (process : Pid) (sig : Signal) : Prog Reply (Result Unit) :=
  if sig ≠ .kill then return .error (unsupported "kill_single") else terminateProcess process

/-- Any result but a signal is taken for a process that still runs. -/
def procTryWait (process : Pid) : Prog Reply (Result (Option Int32)) :=
  .op (.waitForSingleObject process false) fun
    | some _ => .ret (.ok none)
    | none =>
      .op (.getExitCodeProcess process) fun
        | .error code => .ret (.error (lastWin32Err "GetExitCodeProcess" [] code))
        | .ok code => .ret (.ok (some code.toInt32))

def procWait (process : Pid) : Prog Reply (Result Int32) :=
  .op (.waitForSingleObject process true) fun
    | some code => .ret (.error (lastWin32Err "WaitForSingleObject" [] code))
    | none =>
      .op (.getExitCodeProcess process) fun
        | .error code => .ret (.error (lastWin32Err "GetExitCodeProcess" [] code))
        | .ok code => .ret (.ok code.toInt32)

namespace WindowsChild

def disown (child : WindowsChild) : Option JobId × WindowsChild := (child.job, { child with job := none })

def tryWait (child : WindowsChild) : Prog Reply (Result (Option Int32) × WindowsChild) := do
  match child.reaped with
  | some status => return (.ok (some status), child)
  | none =>
    match ← procTryWait child.process with
    | .error e => return (.error e, child)
    | .ok status => return (.ok status, { child with reaped := status })

def owned (child : WindowsChild) : List Owned :=
  .process child.process :: (child.job.map .job).toList ++ child.pipes.filterMap fun h => h.map .plain

def wait (child : WindowsChild) : Prog Reply (Result Int32) := do
  let status ← match child.reaped with
    | some status => pure (.ok status)
    | none => procWait child.process
  closeAll child.owned
  return status

end WindowsChild

inductive Item
  | child (c : WindowsChild)
  | group (process : Pid) (job : JobId)
  | handle (job : JobId)

def Item.job : Item → Option JobId
  | .child c => c.job
  | .group _ job => some job
  | .handle job => some job

def Item.owned : Item → List Owned
  | .child c => c.owned
  | .group process job => [.process process, .job job]
  | .handle job => [.job job]

structure Handed where
  job : JobId
  root : Pid
  spawned : Bool

structure Desk where
  items : List Item
  handed : List Handed
  killed : List JobId

inductive Op
  | spawn (cmd : Command) (line : Result Wide)
  | adopt (pid : ℕ)
  | killTree (i : ℕ) (sig : Signal)
  | killSingle (i : ℕ) (sig : Signal)
  | tryWait (i : ℕ)
  | wait (i : ℕ)
  | disown (i : ℕ)
  | drop (i : ℕ)

def perform (d : Desk) : Op → Prog Reply Desk
  | .spawn cmd line => do
    match ← spawn cmd line with
    | .error _ => return d
    | .ok c =>
      let handed := (c.job.map fun job => ⟨job, c.process, true⟩).toList
      return { d with items := .child c :: d.items, handed := handed ++ d.handed }
  | .adopt pid => do
    match ← adopt pid with
    | .error _ => return d
    | .ok (process, job) =>
      return { d with items := .group process job :: d.items, handed := ⟨job, process, false⟩ :: d.handed }
  | .killTree i sig => do
    match d.items[i]? with
    | some (.child c) =>
      match ← killTree c.job sig with
      | .error _ => return d
      | .ok _ => return { d with killed := c.job.toList ++ d.killed }
    | some (.group _ job) =>
      match ← killTree (some job) sig with
      | .error _ => return d
      | .ok _ => return { d with killed := job :: d.killed }
    | _ => return d
  | .killSingle i sig => do
    match d.items[i]? with
    | some (.child c) =>
      let _ ← killSingle c.process sig
      return d
    | some (.group process _) =>
      let _ ← killSingle process sig
      return d
    | _ => return d
  | .tryWait i => do
    match d.items[i]? with
    | some (.child c) =>
      let (_, c) ← c.tryWait
      return { d with items := d.items.set i (.child c) }
    | _ => return d
  | .wait i => do
    match d.items[i]? with
    | some (.child c) =>
      let _ ← c.wait
      return { d with items := d.items.eraseIdx i }
    | _ => return d
  | .disown i =>
    match d.items[i]? with
    | some (.child c) =>
      let (job, c) := c.disown
      return { d with items := (job.map Item.handle).toList ++ d.items.set i (.child c) }
    | _ => return d
  | .drop i => do
    match d.items[i]? with
    | some item =>
      closeAll item.owned
      return { d with items := d.items.eraseIdx i }
    | none => return d

def ask (d : Desk) (s : Host) : Op → Host
  | .killTree i .kill | .wait i | .drop i =>
    { s with askedJobs := s.askedJobs ∪ {j | ∃ item, d.items[i]? = some item ∧ item.job = some j} }
  | .killSingle i .kill =>
    { s with askedProcs := s.askedProcs ∪
      {c | (∃ child, d.items[i]? = some (.child child) ∧ child.process = c) ∨ ∃ j, d.items[i]? = some (.group c j)} }
  | _ => s

def env : Env Host Reply := Env.amid answer Elsewhere

inductive Step : Desk × Host → Desk × Host → Prop
  | elsewhere {d : Desk} {s s' : Host} (h : Elsewhere s s') : Step (d, s) (d, s')
  | perform {d d' : Desk} {s s' : Host} (op : Op) (h : Reaches env (perform d op, ask d s op) (.ret d', s')) :
    Step (d, s) (d', s')

def start (k : Kernel) : Desk × Host := (⟨[], [], []⟩, ⟨k, ∅, ∅, fun _ => none, ∅, ∅, ∅⟩)

/-- Between two operations or in the middle of one. -/
def Amid (σ : Desk × Host) (s : Host) : Prop :=
  s = σ.2 ∨ ∃ op o rest, Reaches env (perform σ.1 op, ask σ.1 σ.2 op) (.op o rest, s)

inductive Quits : Host → Host → Prop
  | done {s : Host} (h : s.held = ∅) : Quits s s
  | close {s s₁ s' : Host} {j : JobId} (hj : j ∈ s.held)
    (h : env { s with askedJobs := s.askedJobs ∪ {j} } (.call (.closeHandle (.job j))) () s₁) (hq : Quits s₁ s') : Quits s s'

end Rustils.Process.Grouped.Jobs
