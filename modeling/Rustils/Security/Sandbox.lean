import Rustils.Lib.Program
import Rustils.Platform.Error
import Rustils.Security.Seccomp

namespace Rustils.Security.Sandbox

open Platform Lib.Program Lib.Bpf

abbrev Fd := ℕ

abbrev Path := List UInt8

inductive SandboxStatus
  | enforced
  | notEnforced
  | unsupported
  deriving DecidableEq

def ENOSYS : Int32 := 38
def EOPNOTSUPP : Int32 := 95

def errnoErr (op : String) (code : Int32) : PlatformError :=
  .new (if code = ENOSYS then .unsupported else .other) (.errno code) op

inductive Right
  | execute | writeFile | readFile | readDir | removeDir | removeFile
  | makeChar | makeDir | makeReg | makeSock | makeFifo | makeBlock | makeSym
  deriving DecidableEq

def Right.bit : Right → UInt64
  | .execute => 0x1
  | .writeFile => 0x2
  | .readFile => 0x4
  | .readDir => 0x8
  | .removeDir => 0x10
  | .removeFile => 0x20
  | .makeChar => 0x40
  | .makeDir => 0x80
  | .makeReg => 0x100
  | .makeSock => 0x200
  | .makeFifo => 0x400
  | .makeBlock => 0x800
  | .makeSym => 0x1000

def ABI_V1_ALL_ACCESS : UInt64 :=
  Right.execute.bit ||| Right.writeFile.bit ||| Right.readFile.bit ||| Right.readDir.bit ||| Right.removeDir.bit |||
    Right.removeFile.bit ||| Right.makeChar.bit ||| Right.makeDir.bit ||| Right.makeReg.bit ||| Right.makeSock.bit |||
    Right.makeFifo.bit ||| Right.makeBlock.bit ||| Right.makeSym.bit

def READ_ONLY_ACCESS : UInt64 := Right.execute.bit ||| Right.readFile.bit ||| Right.readDir.bit

inductive Call
  | createRuleset (handledAccessFs : UInt64)
  | openPath (path : Path)
  | addRule (ruleset : Fd) (allowedAccess : UInt64) (parent : Fd)
  | close (fd : Fd)
  | setNoNewPrivs
  | restrictSelf (ruleset : Fd)
  | setSeccomp (filter : List SockFilter)

@[reducible] def Answer : Call → Type
  | .createRuleset _ | .openPath _ => Except Int32 Fd
  | .close _ => Unit
  | .addRule _ _ _ | .setNoNewPrivs | .restrictSelf _ | .setSeccomp _ => Except Int32 Unit

def openPathFd (path : Path) : Prog Answer (Result Fd) :=
  if 0 ∈ path then .ret (.error ((PlatformError.new .invalidInput .none "confine_filesystem").withPath path))
  else
    .op (.openPath path) fun
      | .error code => .ret (.error ((errnoErr "open" code).withPath path))
      | .ok fd => .ret (.ok fd)

def setNoNewPrivs : Prog Answer (Result Unit) :=
  .op .setNoNewPrivs fun
    | .error code => .ret (.error (errnoErr "prctl(PR_SET_NO_NEW_PRIVS)" code))
    | .ok _ => .ret (.ok ())

def createRuleset : Prog Answer (Result (Option Fd)) :=
  .op (.createRuleset ABI_V1_ALL_ACCESS) fun
    | .error code =>
      if code = ENOSYS ∨ code = EOPNOTSUPP then .ret (.ok none)
      else .ret (.error (errnoErr "landlock_create_ruleset" code))
    | .ok fd => .ret (.ok (some fd))

/-- The descriptor of the path is closed before the answer is looked at. -/
def addRule (ruleset : Fd) (path : Path) (allowedAccess : UInt64) : Prog Answer (Result Unit) := do
  match ← openPathFd path with
  | .error e => return .error e
  | .ok parent =>
    .op (.addRule ruleset allowedAccess parent) fun r =>
      .op (.close parent) fun _ =>
        match r with
        | .error code => .ret (.error ((errnoErr "landlock_add_rule" code).withPath path))
        | .ok _ => .ret (.ok ())

def addRules (ruleset : Fd) (allowedAccess : UInt64) : List Path → Prog Answer (Result Unit)
  | [] => .ret (.ok ())
  | root :: roots => do
    match ← addRule ruleset root allowedAccess with
    | .error e => return .error e
    | .ok _ => addRules ruleset allowedAccess roots

def restrictSelf (ruleset : Fd) : Prog Answer (Result Unit) :=
  .op (.restrictSelf ruleset) fun
    | .error code => .ret (.error (errnoErr "landlock_restrict_self" code))
    | .ok _ => .ret (.ok ())

def restrict (ruleset : Fd) (readableRoots writableRoots : List Path) : Prog Answer (Result Unit) := do
  match ← addRules ruleset READ_ONLY_ACCESS readableRoots with
  | .error e => return .error e
  | .ok _ =>
    match ← addRules ruleset ABI_V1_ALL_ACCESS writableRoots with
    | .error e => return .error e
    | .ok _ =>
      match ← setNoNewPrivs with
      | .error e => return .error e
      | .ok _ => restrictSelf ruleset

def confineFilesystem (readableRoots writableRoots : List Path) : Prog Answer (Result SandboxStatus) := do
  match ← createRuleset with
  | .error e => return .error e
  | .ok none => return .ok .notEnforced
  | .ok (some ruleset) =>
    let result ← restrict ruleset readableRoots writableRoots
    .op (.close ruleset) fun _ => .ret (result.map fun _ => .enforced)

def blockInetSockets : Prog Answer (Result SandboxStatus) := do
  match ← setNoNewPrivs with
  | .error e => return .error e
  | .ok _ =>
    .op (.setSeccomp buildSeccompProgram) fun
      | .error code =>
        if code = ENOSYS then .ret (.ok .notEnforced) else .ret (.error (errnoErr "prctl(PR_SET_SECCOMP)" code))
      | .ok _ => .ret (.ok .enforced)

section Kernel

structure Files (Node : Type) where
  lookup : Path → Option Node
  isDir : Node → Bool
  beneath : Node → Node → Prop

variable {Node : Type}

structure Layer (Node : Type) where
  handled : UInt64
  rules : List (Node × UInt64)

def has (mask : UInt64) (right : Right) : Prop := mask &&& right.bit ≠ 0

instance (mask : UInt64) : DecidablePred (has mask) := fun right =>
  inferInstanceAs (Decidable (mask &&& right.bit ≠ 0))

/-- A right that is handled is denied where no rule on the way up allows it. -/
def Layer.Allows (files : Files Node) (layer : Layer Node) (n : Node) (right : Right) : Prop :=
  has layer.handled right → ∃ rule ∈ layer.rules, files.beneath n rule.1 ∧ has rule.2 right

inductive Obj (Node : Type)
  | ruleset (layer : Layer Node)
  | path (n : Node)
  | other

structure Thread (Node : Type) where
  fds : Fd → Option (Obj Node)
  domain : List (Layer Node)
  filters : List (List SockFilter)
  noNewPrivs : Bool

def Thread.Allows (files : Files Node) (t : Thread Node) (n : Node) (right : Right) : Prop :=
  ∀ layer ∈ t.domain, layer.Allows files n right

def Thread.put (t : Thread Node) (fd : Fd) (o : Option (Obj Node)) : Thread Node :=
  { t with fds := Function.update t.fds fd o }

def LANDLOCK_MAX_NUM_LAYERS : ℕ := 16

def ACCESS_FILE : UInt64 := Right.execute.bit ||| Right.writeFile.bit ||| Right.readFile.bit

def kernel (files : Files Node) : Env (Thread Node) Answer
  | t, .createRuleset handled, .ok fd, t' => t.fds fd = none ∧ t' = t.put fd (some (.ruleset ⟨handled, []⟩))
  | t, .openPath path, .ok fd, t' => t.fds fd = none ∧ ∃ n, files.lookup path = some n ∧ t' = t.put fd (some (.path n))
  | t, .addRule ruleset allowed parent, .ok _, t' => ∃ layer n, t.fds ruleset = some (.ruleset layer) ∧
      t.fds parent = some (.path n) ∧ (files.isDir n = true ∨ allowed ||| ACCESS_FILE = ACCESS_FILE) ∧
      t' = t.put ruleset (some (.ruleset { layer with rules := layer.rules ++ [(n, allowed)] }))
  | t, .close fd, _, t' => t' = t.put fd none
  | t, .setNoNewPrivs, .ok _, t' => t' = { t with noNewPrivs := true }
  | t, .restrictSelf ruleset, .ok _, t' => t.noNewPrivs = true ∧ t.domain.length < LANDLOCK_MAX_NUM_LAYERS ∧
      ∃ layer, t.fds ruleset = some (.ruleset layer) ∧ t' = { t with domain := t.domain ++ [layer] }
  | t, .setSeccomp filter, .ok _, t' => t.noNewPrivs = true ∧ t' = { t with filters := t.filters ++ [filter] }
  | t, _, _, t' => t' = t

end Kernel

end Rustils.Security.Sandbox
