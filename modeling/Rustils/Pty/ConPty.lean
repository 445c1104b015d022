import Rustils.Lib.RelyGuarantee
import Rustils.Mock.Pty
import Rustils.Process.Environ
import Rustils.WinFs.Nt

namespace Rustils.Pty.ConPty

open Platform Lib.Program
open Mock.Pty (WinSize)
open Process (EnvSpec GroupSpec)
open Process.Environ (envBlock)
open WinFs (Wide)
open Platform.Errmap (kindOfWin32 lastWin32Err)

abbrev Handle := ℕ
abbrev Hpcon := ℕ
abbrev Pid := UInt32
abbrev Session := ℕ

inductive Thread
  | caller (i : Session)
  | watcher (i : Session)
  deriving DecidableEq

def Thread.session : Thread → Session
  | .caller i | .watcher i => i

def FACILITY_WIN32 : UInt32 := 0x7

/-- An `HRESULT` by its bits: the sign says failure. -/
def hresultErr (hr : UInt32) (op : String) : PlatformError :=
  let facility := (hr >>> 16) &&& 0x1FFF
  if 0x80000000 ≤ hr ∧ facility = FACILITY_WIN32 then
    let code := hr &&& 0xFFFF
    .new (kindOfWin32 code) (.win32 code) op
  else .new .other (.win32 hr) op

structure Coord where
  x : Int16
  y : Int16

def coord (size : WinSize) : Coord := ⟨size.cols.toInt16, size.rows.toInt16⟩

structure Closure where
  dup : Handle
  hpc : Hpcon

inductive Call
  | createPipe (t : Thread)
  | createPseudoConsole (i : Session) (input output : Handle) (size : Coord)
  | attributeListSize
  | initializeAttributeList
  | updateAttribute (hpc : Hpcon)
  | deleteAttributeList
  | createProcess (i : Session) (line : List UInt16) (cwd : Wide) (block : Option (List UInt16))
  | duplicate (i : Session) (h : Handle)
  | spawnThread (i : Session) (c : Closure)
  | threadStart (i : Session)
  | wait (h : Handle)
  | compareExchange (t : Thread)
  | deadline
  | peek (h : Handle)
  | readFile (h : Handle) (len : ℕ)
  | writeFile (h : Handle) (buf : List UInt8)
  | closePseudoConsole (hpc : Hpcon)
  | resizePseudoConsole (hpc : Hpcon) (size : Coord)
  | closeHandle (h : Handle)

@[reducible] def Answer : Call → Type
  | .createPipe _ => Except UInt32 (Handle × Handle)
  | .createPseudoConsole .. => Except UInt32 Hpcon
  | .attributeListSize => ℕ × UInt32
  | .initializeAttributeList | .updateAttribute _ => Except UInt32 Unit
  | .createProcess .. => Except UInt32 (Handle × Handle × Pid)
  | .duplicate .. => Except UInt32 Handle
  | .spawnThread .. | .deleteAttributeList | .closePseudoConsole _ | .closeHandle _ => Unit
  | .threadStart _ => Closure
  | .wait _ => Except UInt32 UInt32
  | .compareExchange _ => Bool
  | .deadline => ℕ
  | .peek _ | .writeFile .. => Except UInt32 ℕ
  | .readFile .. => Except UInt32 (List UInt8)
  | .resizePseudoConsole .. => Except UInt32 Unit

def closeAll : List Handle → Prog Answer Unit
  | [] => .ret ()
  | h :: hs => .op (.closeHandle h) fun _ => closeAll hs

def createPipePair (i : Session) : Prog Answer (Result (Handle × Handle)) :=
  .op (.createPipe (.caller i)) fun
    | .error code => .ret (.error (lastWin32Err "CreatePipe" [] code))
    | .ok ends => .ret (.ok ends)

/-- The ends of the console close before the answer to it is looked at. -/
def createConsole (i : Session) (conptyInput masterInput masterOutput conptyOutput : Handle) (size : WinSize) :
    Prog Answer (Result (Hpcon × Handle × Handle)) :=
  .op (.createPseudoConsole i conptyInput conptyOutput (coord size)) fun result => do
    closeAll [conptyInput, conptyOutput]
    match result with
    | .error hr =>
      closeAll [masterOutput, masterInput]
      return .error (hresultErr hr "CreatePseudoConsole")
    | .ok hpc => return .ok (hpc, masterInput, masterOutput)

def createPty (i : Session) (size : WinSize) : Prog Answer (Result (Hpcon × Handle × Handle)) := do
  match ← createPipePair i with
  | .error e => return .error e
  | .ok (conptyInput, masterInput) =>
    match ← createPipePair i with
    | .error e =>
      closeAll [masterInput, conptyInput]
      return .error e
    | .ok (masterOutput, conptyOutput) => createConsole i conptyInput masterInput masterOutput conptyOutput size

def attached (i : Session) (hpc : Hpcon) (line : List UInt16) (cwd : Wide) (block : Option (List UInt16)) :
    Prog Answer (Result (Handle × Pid)) :=
  .op (.updateAttribute hpc) fun
    | .error code => .ret (.error (lastWin32Err "UpdateProcThreadAttribute" [] code))
    | .ok _ =>
      .op (.createProcess i line (cwd ++ [0]) block) fun
        | .error code => .ret (.error (lastWin32Err "CreateProcessW" cwd code))
        | .ok (process, thread, pid) => .op (.closeHandle thread) fun _ => .ret (.ok (process, pid))

def spawnAttached (i : Session) (hpc : Hpcon) (line : List UInt16) (cwd : Wide) (env : EnvSpec UInt16) :
    Prog Answer (Result (Handle × Pid)) :=
  .op .attributeListSize fun (size, code) =>
    if size = 0 then .ret (.error (lastWin32Err "InitializeProcThreadAttributeList" [] code))
    else
      .op .initializeAttributeList fun
        | .error code => .ret (.error (lastWin32Err "InitializeProcThreadAttributeList" [] code))
        | .ok _ => do
          let result ← attached i hpc (line ++ [0]) cwd (envBlock env)
          .op .deleteAttributeList fun _ => .ret result

def resize (hpc : Hpcon) (size : WinSize) : Prog Answer (Result Unit) :=
  .op (.resizePseudoConsole hpc (coord size)) fun
    | .error hr => .ret (.error (hresultErr hr "ResizePseudoConsole"))
    | .ok _ => .ret (.ok ())

/-- The loop of `close`, of which the clock lets so many rounds pass. -/
def drain (output : Handle) : ℕ → Prog Answer Unit
  | 0 => .ret ()
  | rounds + 1 =>
    .op (.peek output) fun
      | .error _ => .ret ()
      | .ok available =>
        if available = 0 then drain output rounds
        else
          .op (.readFile output 4096) fun
            | .error _ => .ret ()
            | .ok _ => drain output rounds

def close (hpc : Hpcon) (output : Handle) : Prog Answer Unit :=
  .op .deadline fun rounds => do
    drain output rounds
    .op (.closePseudoConsole hpc) .ret

def spawnExitWatcher (i : Session) (process : Handle) (hpc : Hpcon) : Prog Answer Unit :=
  .op (.duplicate i process) fun
    | .error _ => .ret ()
    | .ok dup => .op (.spawnThread i ⟨dup, hpc⟩) .ret

def watch (i : Session) : Prog Answer (Option Handle) :=
  .op (.threadStart i) fun c =>
    .op (.wait c.dup) fun _ =>
      .op (.compareExchange (.watcher i)) fun
        | true => .op (.closePseudoConsole c.hpc) fun _ => .op (.closeHandle c.dup) fun _ => .ret none
        | false => .op (.closeHandle c.dup) fun _ => .ret none

structure WindowsPtyMaster where
  hpc : Hpcon
  input : Handle
  output : Handle

structure Command where
  group : GroupSpec
  cwd : Wide
  env : EnvSpec UInt16

def spawn (i : Session) (cmd : Command) (line : Result (List UInt16)) (size : WinSize) :
    Prog Answer (Result (WindowsPtyMaster × Handle × Pid)) :=
  match cmd.group, line with
  | .joinGroup _, _ => .ret (.error (.new .invalidInput .none
      "Pty::spawn: GroupSpec::JoinGroup is incompatible with a fresh pty session"))
  | _, .error e => .ret (.error e)
  | _, .ok line => do
    match ← createPty i size with
    | .error e => return .error e
    | .ok (hpc, input, output) =>
      match ← spawnAttached i hpc line cmd.cwd cmd.env with
      | .error e =>
        close hpc output
        closeAll [output, input]
        return .error e
      | .ok (process, pid) =>
        spawnExitWatcher i process hpc
        return .ok (⟨hpc, input, output⟩, process, pid)

namespace WindowsPtyMaster

def ERROR_BROKEN_PIPE : UInt32 := 109

def read (self : WindowsPtyMaster) (len : ℕ) : Prog Answer (Result (List UInt8)) :=
  .op (.readFile self.output (min len 0xFFFFFFFF)) fun
    | .error code => .ret (if code = ERROR_BROKEN_PIPE then .ok [] else .error (lastWin32Err "ReadFile" [] code))
    | .ok bytes => .ret (.ok bytes)

def write (self : WindowsPtyMaster) (buf : List UInt8) : Prog Answer (Result ℕ) :=
  .op (.writeFile self.input (buf.take 0xFFFFFFFF)) fun
    | .error code => .ret (.error (lastWin32Err "WriteFile" [] code))
    | .ok n => .ret (.ok n)

/-- The handles close behind the body of `drop`. -/
def drop (self : WindowsPtyMaster) (i : Session) : Prog Answer Unit :=
  .op (.compareExchange (.caller i)) fun
    | true => do
      close self.hpc self.output
      closeAll [self.input, self.output]
    | false => closeAll [self.input, self.output]

end WindowsPtyMaster

inductive Use
  | read (len : ℕ)
  | write (buf : List UInt8)
  | resize (size : WinSize)

def WindowsPtyMaster.use (self : WindowsPtyMaster) : List Use → Prog Answer Unit
  | [] => .ret ()
  | .read len :: uses => self.read len >>= fun _ => self.use uses
  | .write buf :: uses => self.write buf >>= fun _ => self.use uses
  | .resize size :: uses => ConPty.resize self.hpc size >>= fun _ => self.use uses

structure Plan where
  cmd : Command
  line : Result (List UInt16)
  size : WinSize
  uses : List Use

def caller (i : Session) (plan : Plan) : Prog Answer (Option Handle) := do
  match ← spawn i plan.cmd plan.line plan.size with
  | .error _ => return none
  | .ok (master, process, _) =>
    master.use plan.uses
    master.drop i
    return some process

/-- Whose a handle and whose a console is, who set the flag of a session, and the threads that were started. -/
structure Kernel where
  handles : Handle → Option Thread
  consoles : Hpcon → Option Session
  closed : Session → Option Thread
  closures : Session → Option Closure

namespace Kernel

def openAll (k : Kernel) (t : Thread) (hs : List Handle) : Kernel :=
  { k with handles := fun h => if h ∈ hs then some t else k.handles h }

def closeHandle (k : Kernel) (h : Handle) : Kernel := { k with handles := Function.update k.handles h none }

def createConsole (k : Kernel) (i : Session) (c : Hpcon) : Kernel :=
  { k with consoles := Function.update k.consoles c (some i) }

def closeConsole (k : Kernel) (c : Hpcon) : Kernel := { k with consoles := Function.update k.consoles c none }

def claim (k : Kernel) (t : Thread) : Kernel := { k with closed := Function.update k.closed t.session (some t) }

def launch (k : Kernel) (i : Session) (c : Closure) : Kernel :=
  { k with
    handles := Function.update k.handles c.dup (some (.watcher i))
    closures := Function.update k.closures i (some c) }

end Kernel

/-- A value that stands for nothing may stand for a new handle or console. -/
def kernel : Env Kernel Answer
  | k, .createPipe t, .ok (r, w), k' =>
    k.handles r = none ∧ k.handles w = none ∧ r ≠ w ∧ k' = k.openAll t [r, w]
  | k, .createPseudoConsole i _ _ _, .ok c, k' => k.consoles c = none ∧ k' = k.createConsole i c
  | k, .createProcess i _ _ _, .ok (process, thread, _), k' =>
    k.handles process = none ∧ k.handles thread = none ∧ process ≠ thread ∧
      k' = k.openAll (.caller i) [process, thread]
  | k, .duplicate i _, .ok dup, k' => k.handles dup = none ∧ k' = k.openAll (.caller i) [dup]
  | k, .spawnThread i c, _, k' => k' = k.launch i c
  | k, .threadStart i, c, k' => k.closures i = some c ∧ k' = k
  | k, .compareExchange t, won, k' =>
    if k.closed t.session = none then won = true ∧ k' = k.claim t else won = false ∧ k' = k
  | k, .closePseudoConsole c, _, k' => k' = k.closeConsole c
  | k, .closeHandle h, _, k' => k' = k.closeHandle h
  | k, _, _, k' => k' = k

def sessions (plans : Session → Plan) : Pool Thread Answer (Option Handle) Kernel where
  progs
    | .caller i => caller i (plans i)
    | .watcher i => watch i
  state := ⟨fun _ => none, fun _ => none, fun _ => none, fun _ => none⟩

end Rustils.Pty.ConPty
