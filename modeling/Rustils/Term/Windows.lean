import Rustils.Term.Terminal
import Rustils.WinFs.Nt

namespace Rustils.Term.Windows

open Platform Lib.Program
open WinFs (Wide)
open Platform.Errmap (lastWin32Err)

abbrev Handle := ℕ
abbrev ConsoleId := ℕ

abbrev Buffer := ConsoleId × Bool

def ENABLE_PROCESSED_INPUT : UInt32 := 0x1
def ENABLE_LINE_INPUT : UInt32 := 0x2
def ENABLE_ECHO_INPUT : UInt32 := 0x4
def ENABLE_VIRTUAL_TERMINAL_INPUT : UInt32 := 0x200
def ENABLE_PROCESSED_OUTPUT : UInt32 := 0x1
def ENABLE_VIRTUAL_TERMINAL_PROCESSING : UInt32 := 0x4
def ATTACH_PARENT_PROCESS : UInt32 := 0xFFFFFFFF

inductive ConsoleDevice
  | CONIN
  | CONOUT
  deriving DecidableEq

inductive Call
  | getStdHandle (s : TermStream)
  | getConsoleMode (h : Option Handle)
  | setConsoleMode (h : Option Handle) (mode : UInt32)
  | allocConsole
  | attachConsole (pid : UInt32)
  | freeConsole
  | createFile (dev : ConsoleDevice)
  | setStdHandle (s : TermStream) (h : Handle)
  | closeHandle (h : Handle)

/-- A slot may be empty, and then the mode of its handle cannot be read. -/
@[reducible] def Answer : Call → Type
  | .getStdHandle _ => Option Handle
  | .getConsoleMode _ => Except UInt32 UInt32
  | .setConsoleMode _ _ | .allocConsole | .attachConsole _ | .freeConsole | .setStdHandle _ _ => Except UInt32 Unit
  | .createFile _ => Except UInt32 Handle
  | .closeHandle _ => Unit

def attempt {α β : Type} (p : Prog Answer (Result α)) (f : α → Prog Answer (Result β)) : Prog Answer (Result β) :=
  p >>= fun
    | .error e => .ret (.error e)
    | .ok a => f a

def getMode (h : Option Handle) : Prog Answer (Result UInt32) :=
  .op (.getConsoleMode h) fun
    | .error code => .ret (.error (lastWin32Err "GetConsoleMode" [] code))
    | .ok mode => .ret (.ok mode)

def setMode (h : Option Handle) (mode : UInt32) : Prog Answer (Result Unit) :=
  .op (.setConsoleMode h mode) fun
    | .error code => .ret (.error (lastWin32Err "SetConsoleMode" [] code))
    | .ok _ => .ret (.ok ())

def isTty (s : TermStream) : Prog Answer Bool :=
  .op (.getStdHandle s) fun
    | none => .ret false
    | some h => do
      let mode ← getMode (some h)
      return mode.isOk

structure SavedModes where
  input : UInt32
  output : Option UInt32

def rawInput (mode : UInt32) : UInt32 :=
  (mode &&& ~~~(ENABLE_ECHO_INPUT ||| ENABLE_LINE_INPUT ||| ENABLE_PROCESSED_INPUT)) ||| ENABLE_VIRTUAL_TERMINAL_INPUT

def vtOutput (mode : UInt32) : UInt32 := mode ||| ENABLE_PROCESSED_OUTPUT ||| ENABLE_VIRTUAL_TERMINAL_PROCESSING

/-- Nothing that goes wrong with the screen is reported. -/
def enterOutput : Prog Answer (Option UInt32) := do
  if ← isTty .stdout then
    .op (.getStdHandle .stdout) fun hout => do
      match ← getMode hout with
      | .error _ => return none
      | .ok outMode =>
        match ← setMode hout (vtOutput outMode) with
        | .error _ => return none
        | .ok _ => return some outMode
  else return none

def enterRaw : Prog Answer (Result SavedModes) :=
  .op (.getStdHandle .stdin) fun hin =>
    attempt (getMode hin) fun inMode =>
    attempt (setMode hin (rawInput inMode)) fun _ => do
      let output ← enterOutput
      return .ok ⟨inMode, output⟩

def restore (saved : SavedModes) : Prog Answer (Result Unit) :=
  .op (.getStdHandle .stdin) fun hin =>
    attempt (setMode hin saved.input) fun _ =>
      match saved.output with
      | none => .ret (.ok ())
      | some outMode =>
        .op (.getStdHandle .stdout) fun hout => do
          let _ ← setMode hout outMode
          return .ok ()

def label : TermStream → Wide
  | .stdin => "stdin".toList.map fun c => c.toNat.toUInt16
  | .stdout => "stdout".toList.map fun c => c.toNat.toUInt16
  | .stderr => "stderr".toList.map fun c => c.toNat.toUInt16

def ConsoleDevice.name : ConsoleDevice → Wide
  | .CONIN => "CONIN$".toList.map fun c => c.toNat.toUInt16
  | .CONOUT => "CONOUT$".toList.map fun c => c.toNat.toUInt16

def reopen (dev : ConsoleDevice) : Prog Answer (Result Handle) :=
  .op (.createFile dev) fun
    | .error code => .ret (.error (lastWin32Err "CreateFileW" dev.name code))
    | .ok h => .ret (.ok h)

def setStd (s : TermStream) (h : Handle) : Prog Answer (Result Unit) :=
  .op (.setStdHandle s h) fun
    | .error code => .ret (.error (lastWin32Err "SetStdHandle" (label s) code))
    | .ok _ => .ret (.ok ())

def reopenStdHandles : Prog Answer (Result Unit) :=
  attempt (reopen .CONIN) fun hin =>
  attempt (reopen .CONOUT) fun hout =>
  attempt (reopen .CONOUT) fun herr =>
  attempt (setStd .stdin hin) fun _ =>
  attempt (setStd .stdout hout) fun _ =>
  attempt (setStd .stderr herr) fun _ => do
    match ← getMode (some hout) with
    | .error _ => return .ok ()
    | .ok mode =>
      let _ ← setMode (some hout) (vtOutput mode)
      return .ok ()

def hasConsole : Prog Answer Bool := do
  match ← reopen .CONIN with
  | .error _ => return false
  | .ok h => .op (.closeHandle h) fun _ => .ret true

inductive ConsoleState
  | none
  | inherited
  | allocated
  | attached
  deriving DecidableEq

def initialState : Prog Answer ConsoleState := do
  if ← hasConsole then return .inherited else return .none

def alloc : Prog Answer (Result Unit) :=
  .op .allocConsole fun
    | .error code => .ret (.error (lastWin32Err "AllocConsole" [] code))
    | .ok _ => .ret (.ok ())

def free : Prog Answer (Result Unit) :=
  .op .freeConsole fun
    | .error code => .ret (.error (lastWin32Err "FreeConsole" [] code))
    | .ok _ => .ret (.ok ())

def attach (pid : Option UInt32) : Prog Answer (Result Unit) :=
  .op (.attachConsole (pid.getD ATTACH_PARENT_PROCESS)) fun
    | .error code => .ret (.error (lastWin32Err "AttachConsole" [] code))
    | .ok _ => .ret (.ok ())

namespace WindowsTerminal

/-- The state that the handle keeps changes only where all has succeeded. -/
def acquire (acquisition : Prog Answer (Result Unit)) (next self : ConsoleState) : Prog Answer (Result Unit × ConsoleState) := do
  match ← attempt acquisition fun _ => reopenStdHandles with
  | .error e => return (.error e, self)
  | .ok _ => return (.ok (), next)

def allocConsole (self : ConsoleState) : Prog Answer (Result Unit × ConsoleState) := acquire alloc .allocated self

def attachConsole (pid : Option UInt32) (self : ConsoleState) : Prog Answer (Result Unit × ConsoleState) :=
  acquire (attach pid) .attached self

def freeConsole (self : ConsoleState) : Prog Answer (Result Unit × ConsoleState) := do
  if self = .none then return (.ok (), self)
  else
    match ← free with
    | .error e => return (.error e, self)
    | .ok _ => return (.ok (), .none)

end WindowsTerminal

inductive Origin
  | inherited
  | allocated
  | attached

structure Console where
  id : ConsoleId
  origin : Origin

/-- A handle that is open stands for a buffer. -/
structure Kernel where
  console : Option Console
  slots : TermStream → Option Handle
  opened : Handle → Option Buffer
  modes : Buffer → UInt32

namespace Kernel

def buffer (k : Kernel) (h : Option Handle) : Option Buffer := h.bind k.opened

def state (k : Kernel) : ConsoleState :=
  match k.console with
  | none => .none
  | some ⟨_, .inherited⟩ => .inherited
  | some ⟨_, .allocated⟩ => .allocated
  | some ⟨_, .attached⟩ => .attached

def setMode (k : Kernel) (b : Buffer) (mode : UInt32) : Kernel := { k with modes := Function.update k.modes b mode }

end Kernel

/-- To acquire a console may also set the standard handles; it fails where the process has one. -/
def windows : Env Kernel Answer
  | k, .getStdHandle s, r, k' => r = k.slots s ∧ k' = k
  | k, .getConsoleMode h, .ok mode, k' => (∃ b, k.buffer h = some b ∧ mode = k.modes b) ∧ k' = k
  | k, .setConsoleMode h mode, .ok _, k' => ∃ b, k.buffer h = some b ∧ k' = k.setMode b mode
  | k, .allocConsole, .ok _, k' =>
    k.console = none ∧ ∃ c slots opened, k' = { k with console := some ⟨c, .allocated⟩, slots, opened }
  | k, .attachConsole _, .ok _, k' =>
    k.console = none ∧ ∃ c slots opened, k' = { k with console := some ⟨c, .attached⟩, slots, opened }
  | k, .freeConsole, .ok _, k' => k.console ≠ none ∧ ∃ opened, k' = { k with console := none, opened }
  | k, .createFile dev, .ok h, k' =>
    ∃ c, k.console = some c ∧ k.opened h = none ∧
      k' = { k with opened := Function.update k.opened h (some (c.id, dev = .CONIN)) }
  | k, .setStdHandle s h, .ok _, k' => k' = { k with slots := Function.update k.slots s (some h) }
  | k, .closeHandle h, _, k' => k' = { k with opened := Function.update k.opened h none }
  | k, _, _, k' => k' = k

end Rustils.Term.Windows
