import Mathlib.Data.List.FinRange
import Mathlib.Data.Set.Insert
import Rustils.Process.Environ
import Rustils.Process.Stdio
import Rustils.WinFs.Nt

namespace Rustils.Process.Grouped

open Platform Lib.Program
open Wiring (Stdio)
open WinFs (Wide)
open Platform.Errmap (lastWin32Err)

abbrev Handle := ℕ

abbrev Pid := ℕ

abbrev JobId := ℕ

def CREATE_SUSPENDED : UInt32 := 0x4
def DETACHED_PROCESS : UInt32 := 0x8
def CREATE_NEW_PROCESS_GROUP : UInt32 := 0x200
def CREATE_UNICODE_ENVIRONMENT : UInt32 := 0x400
def JOB_OBJECT_LIMIT_BREAKAWAY_OK : UInt32 := 0x800
def JOB_OBJECT_LIMIT_SILENT_BREAKAWAY_OK : UInt32 := 0x1000
def JOB_OBJECT_LIMIT_KILL_ON_JOB_CLOSE : UInt32 := 0x2000

structure StartArgs where
  commandLine : Wide
  inheritHandles : Bool
  creationFlags : UInt32
  environment : Option Wide
  currentDirectory : Wide
  stdHandles : Option (List (Option Handle))

structure ProcessInformation where
  hProcess : Option Pid
  hThread : Option Pid
  dwProcessId : Pid

inductive Owned
  | plain (h : Handle)
  | process (pid : Pid)
  | thread (pid : Pid)
  | job (job : JobId)

inductive Call
  | createFileW (read : Bool)
  | getStdHandle (slot : Fin 3)
  | duplicateHandle (h : Handle)
  | createPipe
  | setHandleInformation (h : Handle)
  | createProcessW (args : StartArgs)
  | createJobObjectW
  | setInformationJobObject (job : JobId) (limitFlags : UInt32)
  | assignProcessToJobObject (job : JobId) (process : Pid)
  | resumeThread (thread : Pid)
  | terminateProcess (process : Pid)
  | closeHandle (h : Owned)

/-- A duplicate may be null without the call having failed. -/
inductive Duplicate
  | handle (h : Handle)
  | null (lastError : UInt32)

@[reducible] def Answer : Call → Type
  | .createFileW _ => Except UInt32 Handle
  | .getStdHandle _ => Option Handle
  | .duplicateHandle _ => Except UInt32 Duplicate
  | .createPipe => Except UInt32 (Option Handle × Option Handle)
  | .createProcessW _ => Except UInt32 ProcessInformation
  | .createJobObjectW => Except UInt32 JobId
  | .closeHandle _ => Unit
  | _ => Except UInt32 Unit

def closeAll : List Owned → Prog Answer Unit
  | [] => .ret ()
  | h :: hs => .op (.closeHandle h) fun _ => closeAll hs

def inheritableNul (read : Bool) : Prog Answer (Result Handle) :=
  .op (.createFileW read) fun
    | .error code => .ret (.error (lastWin32Err "CreateFileW" [0x4E, 0x55, 0x4C] code))
    | .ok h => .ret (.ok h)

def createPipeFailed : PlatformError := .new .other .none "CreatePipe"

def makePipe (stdinSlot : Bool) : Prog Answer (Result (Handle × Handle)) :=
  .op .createPipe fun
    | .error code => .ret (.error (lastWin32Err "CreatePipe" [] code))
    | .ok (none, _) => .ret (.error createPipeFailed)
    | .ok (some read, none) => do
      closeAll [.plain read]
      return .error createPipeFailed
    | .ok (some read, some write) =>
      let (child, parent) := if stdinSlot then (read, write) else (write, read)
      .op (.setHandleInformation parent) fun
        | .error code => do
          closeAll [.plain child, .plain parent]
          return .error (lastWin32Err "SetHandleInformation" [] code)
        | .ok _ => .ret (.ok (child, parent))

def foreignFile : PlatformError := .new .unsupported .none "CreateProcessW: Stdio::File from a foreign backend"

def inheritableDupOfFile : Option Handle → Prog Answer (Result Handle)
  | none => .ret (.error foreignFile)
  | some h =>
    .op (.duplicateHandle h) fun
      | .error code | .ok (.null code) => .ret (.error (lastWin32Err "DuplicateHandle" [] code))
      | .ok (.handle dup) => .ret (.ok dup)

def inheritableDupOfStd (slot : Fin 3) : Prog Answer (Result (Option Handle)) :=
  .op (.getStdHandle slot) fun
    | none => .ret (.ok none)
    | some current =>
      .op (.duplicateHandle current) fun
        | .error code => .ret (.error (lastWin32Err "DuplicateHandle" [] code))
        | .ok (.null _) => .ret (.ok none)
        | .ok (.handle dup) => .ret (.ok (some dup))

def slotHandle (slot : Fin 3) : Stdio → Prog Answer (Result (Option Handle × Option Handle))
  | .null => do
    match ← inheritableNul (slot.val == 0) with
    | .error e => return .error e
    | .ok h => return .ok (some h, none)
  | .inherit => do
    match ← inheritableDupOfStd slot with
    | .error e => return .error e
    | .ok h => return .ok (h, none)
  | .pipe => do
    match ← makePipe (slot.val == 0) with
    | .error e => return .error e
    | .ok (child, parent) => return .ok (some child, some parent)
  | .file fd => do
    match ← inheritableDupOfFile fd with
    | .error e => return .error e
    | .ok h => return .ok (some h, none)

structure Prepared where
  slotHandles : List (Option Handle)
  parentPipes : List (Option Handle)

def Prepared.none : Prepared := ⟨[.none, .none, .none], [.none, .none, .none]⟩

def Prepared.slots (p : Prepared) : List Owned := p.slotHandles.filterMap fun h => h.map .plain

def Prepared.pipes (p : Prepared) : List Owned := p.parentPipes.filterMap fun h => h.map .plain

def prepare (stdio : Fin 3 → Stdio) : List (Fin 3) → Prepared → Prog Answer (Result Prepared)
  | [], acc => return .ok acc
  | slot :: slots, acc => do
    match ← slotHandle slot (stdio slot) with
    | .error e =>
      closeAll (acc.slots ++ acc.pipes)
      return .error e
    | .ok (child, parent) => prepare stdio slots ⟨acc.slotHandles ++ [child], acc.parentPipes ++ [parent]⟩

def useHandles (stdio : Fin 3 → Stdio) : Bool := (List.finRange 3).any fun slot => stdio slot != .inherit

def createKillOnCloseJob : Prog Answer (Result JobId) :=
  .op .createJobObjectW fun
    | .error code => .ret (.error (lastWin32Err "CreateJobObjectW" [] code))
    | .ok job =>
      .op (.setInformationJobObject job JOB_OBJECT_LIMIT_KILL_ON_JOB_CLOSE) fun
        | .error code => do
          closeAll [.job job]
          return .error (lastWin32Err "SetInformationJobObject" [] code)
        | .ok _ => .ret (.ok job)

def threadMissing : PlatformError := .new .other .none "CreateProcessW thread"

/-- Suspended, assigned, resumed: the closure in `spawn`, which drops the job where a step fails. -/
def sequence (process : Pid) (thread : Option Pid) : Prog Answer (Result JobId) := do
  match ← createKillOnCloseJob with
  | .error e => return .error e
  | .ok job =>
    .op (.assignProcessToJobObject job process) fun
      | .error code => do
        closeAll [.job job]
        return .error (lastWin32Err "AssignProcessToJobObject" [] code)
      | .ok _ =>
        match thread with
        | none => do
          closeAll [.job job]
          return .error threadMissing
        | some thread =>
          .op (.resumeThread thread) fun
            | .error code => do
              closeAll [.job job]
              return .error (lastWin32Err "ResumeThread" [] code)
            | .ok _ => .ret (.ok job)

structure Spawned where
  process : Pid
  job : Option JobId
  pid : Pid
  parentPipes : List (Option Handle)

def threadHandle (thread : Option Pid) : List Owned := (thread.map Owned.thread).toList

def adopt (newGroup : Bool) (prepared : Prepared) (process : Pid) (pi : ProcessInformation) :
    Prog Answer (Result Spawned) := do
  if newGroup then
    match ← sequence process pi.hThread with
    | .ok job =>
      closeAll (threadHandle pi.hThread ++ prepared.slots)
      return .ok ⟨process, some job, pi.dwProcessId, prepared.parentPipes⟩
    | .error e =>
      .op (.terminateProcess process) fun _ => do
        closeAll (threadHandle pi.hThread ++ .process process :: prepared.slots ++ prepared.pipes)
        return .error e
  else
    closeAll (threadHandle pi.hThread ++ prepared.slots)
    return .ok ⟨process, none, pi.dwProcessId, prepared.parentPipes⟩

def creationFlags (block : Option Wide) (newGroup detached : Bool) : UInt32 :=
  (if block.isSome then CREATE_UNICODE_ENVIRONMENT else 0) ||| (if newGroup then CREATE_SUSPENDED else 0) |||
    (if detached then CREATE_NEW_PROCESS_GROUP ||| DETACHED_PROCESS else 0)

def spawn (commandLine cwd : Wide) (env : EnvSpec UInt16) (stdio : Fin 3 → Stdio) (newGroup detached : Bool) :
    Prog Answer (Result Spawned) := do
  let line := commandLine ++ [0]
  let cwdW := cwd ++ [0]
  let block := Environ.envBlock env
  match ← (if useHandles stdio then prepare stdio (List.finRange 3) ⟨[], []⟩ else return .ok .none) with
  | .error e => return .error e
  | .ok prepared =>
    let std := if useHandles stdio then some prepared.slotHandles else none
    .op (.createProcessW ⟨line, useHandles stdio, creationFlags block newGroup detached, block, cwdW, std⟩) fun
      | .error code => do
        closeAll (prepared.slots ++ prepared.pipes)
        return .error (lastWin32Err "CreateProcessW" cwd code)
      | .ok pi =>
        match pi.hProcess with
        | none => do
          closeAll (prepared.slots ++ prepared.pipes)
          return .error (.new .other .none "CreateProcessW")
        | some process => adopt newGroup prepared process pi

end Rustils.Process.Grouped
