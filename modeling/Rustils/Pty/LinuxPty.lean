import Mathlib.Data.Set.Insert
import Rustils.Lib.RelyGuarantee
import Rustils.Mock.Pty
import Rustils.Process.Environ

namespace Rustils.Pty.LinuxPty

open Platform Lib.Program Process
open Mock.Pty (WinSize)
open Process.Environ (toCstring buildEnv)

abbrev Fd := ℕ
abbrev Path := List UInt8
abbrev Session := ℕ

abbrev Tty := ℕ

abbrev Family := ℕ

inductive Obj
  | master (p : Tty)
  | slave (p : Tty)
  | other (n : ℕ)
  deriving DecidableEq

inductive Action
  | chdir (cwd : Path)
  | open (fd : Fd) (path : Path) (flags : UInt32)
  | dup2 (fd newfd : Fd)

structure Winsize where
  row : UInt16
  col : UInt16
  xpixel : UInt16
  ypixel : UInt16
  deriving DecidableEq

inductive Call
  | posixOpenpt (i : Session) (flags : UInt32)
  | grantpt (fd : Fd)
  | unlockpt (fd : Fd)
  | ptsname (fd : Fd) (len : ℕ)
  | fileActionsInit
  | addAction (a : Action)
  | spawnattrInit
  | setflags (flags : UInt32)
  | posixSpawn (i : Session) (path : Path) (actions : List Action) (flags : UInt32) (argv env : List (List UInt8))
  | setWinsize (fd : Fd) (ws : Winsize)
  | read (fd : Fd) (len : ℕ)
  | write (fd : Fd) (buf : List UInt8)
  | close (fd : Fd)

@[reducible] def Answer : Call → Type
  | .posixOpenpt .. => Except Int32 Fd
  | .ptsname .. => Except Int32 Path
  | .posixSpawn .. => Except Int32 Pid
  | .read .. => Except Int32 (List UInt8)
  | .write .. => Except Int32 ℕ
  | .close _ => Unit
  | _ => Except Int32 Unit

section Source

def O_RDWR : UInt32 := 0x2
def O_NOCTTY : UInt32 := 0x100
def O_CLOEXEC : UInt32 := 0x80000
def POSIX_SPAWN_SETSID : UInt32 := 0x80
def EIO : Int32 := 5

def kindOf (code : Int32) : ErrorKind :=
  if code = 2 then .notFound
  else if code = 13 ∨ code = 1 then .permissionDenied
  else if code = 11 then .wouldBlock
  else if code = 4 then .interrupted
  else .other

def ptyErr (op : String) (code : Int32) : PlatformError := .new (kindOf code) (.errno code) op

def errnoErrAt (op : String) (code : Int32) (path : Path) : PlatformError :=
  if path = [] then errnoErr op code else (errnoErr op code).withPath path

def closing {α : Type} (master : Fd) (e : PlatformError) : Prog Answer (Result α) :=
  .op (.close master) fun _ => .ret (.error e)

def openPtyPair (i : Session) : Prog Answer (Result (Fd × Path)) :=
  .op (.posixOpenpt i (O_RDWR ||| O_NOCTTY ||| O_CLOEXEC)) fun
    | .error code => .ret (.error (ptyErr "posix_openpt" code))
    | .ok master =>
      .op (.grantpt master) fun
        | .error code => closing master (ptyErr "grantpt" code)
        | .ok _ =>
          .op (.unlockpt master) fun
            | .error code => closing master (ptyErr "unlockpt" code)
            | .ok _ =>
              .op (.ptsname master 64) fun
                | .error code => closing master (ptyErr "ptsname_r" code)
                | .ok slavePath => .ret (.ok (master, slavePath))

structure Strings where
  path : Path
  cwd : Path
  argv : List (List UInt8)
  env : List (List UInt8)

def strings (varsOs : List (List UInt8 × List UInt8)) (path argv0 : List UInt8) (args : List (List UInt8)) (cwd : Path)
    (env : EnvSpec UInt8) : Result Strings := do
  let cPath ← toCstring path "posix_spawn"
  let cCwd ← toCstring cwd "posix_spawn chdir"
  let cArgv ← (argv0 :: args).mapM fun a => toCstring a "posix_spawn argv"
  let cEnv ← buildEnv varsOs env
  return ⟨cPath, cCwd, cArgv, cEnv⟩

def attach (cwd slavePath : Path) : List (Action × String × Path) :=
  [(.chdir cwd, "posix_spawn chdir", cwd), (.open 0 slavePath O_RDWR, "posix_spawn addopen", []),
    (.dup2 0 1, "posix_spawn adddup2", []), (.dup2 0 2, "posix_spawn adddup2", [])]

def addActions : List (Action × String × Path) → Prog Answer (Result Unit)
  | [] => .ret (.ok ())
  | (a, op, path) :: rest =>
    .op (.addAction a) fun
      | .error code => .ret (.error (errnoErrAt op code path))
      | .ok _ => addActions rest

def launch (i : Session) (s : Strings) (actions : List Action) : Prog Answer (Result Pid) :=
  .op .spawnattrInit fun
    | .error code => .ret (.error (errnoErr "posix_spawnattr_init" code))
    | .ok _ =>
      .op (.setflags POSIX_SPAWN_SETSID) fun
        | .error code => .ret (.error (errnoErr "posix_spawnattr_setflags" code))
        | .ok _ =>
          .op (.posixSpawn i s.path actions POSIX_SPAWN_SETSID s.argv s.env) fun
            | .error code => .ret (.error (errnoErrAt "posix_spawn" code s.path))
            | .ok pid => .ret (.ok pid)

def spawnAttached (i : Session) (s : Result Strings) (slavePath : Path) : Prog Answer (Result Pid) :=
  match s with
  | .error e => .ret (.error e)
  | .ok s =>
    .op .fileActionsInit fun
      | .error code => .ret (.error (errnoErr "posix_spawn_file_actions_init" code))
      | .ok _ => do
        match ← addActions (attach s.cwd slavePath) with
        | .error e => return .error e
        | .ok _ => launch i s ((attach s.cwd slavePath).map Prod.fst)

def resize (master : Fd) (size : WinSize) : Prog Answer (Result Unit) :=
  .op (.setWinsize master ⟨size.rows, size.cols, 0, 0⟩) fun
    | .error code => .ret (.error (ptyErr "TIOCSWINSZ" code))
    | .ok _ => .ret (.ok ())

def read (master : Fd) (len : ℕ) : Prog Answer (Result (List UInt8)) :=
  .op (.read master len) fun
    | .error code => .ret (if code = EIO then .ok [] else .error (ptyErr "read" code))
    | .ok bytes => .ret (.ok bytes)

def write (master : Fd) (buf : List UInt8) : Prog Answer (Result ℕ) :=
  .op (.write master buf) fun
    | .error code => .ret (.error (ptyErr "write" code))
    | .ok n => .ret (.ok n)

structure Command where
  program : List UInt8
  argv : List (List UInt8)
  cwd : Path
  env : EnvSpec UInt8
  group : GroupSpec

/-- `varsOs` is the environment of the process, `resolved` what `resolve` answers for the program. -/
def spawn (i : Session) (varsOs : List (List UInt8 × List UInt8)) (cmd : Command) (resolved : Result Path)
    (size : WinSize) : Prog Answer (Result (Fd × LinuxChild)) :=
  match cmd.group, resolved with
  | .joinGroup _, _ => .ret (.error (.new .invalidInput .none
      "Pty::spawn: GroupSpec::JoinGroup is incompatible with a fresh pty session"))
  | _, .error e => .ret (.error e)
  | _, .ok resolved => do
    match ← openPtyPair i with
    | .error e => return .error e
    | .ok (master, slavePath) =>
      match ← spawnAttached i (strings varsOs resolved cmd.program cmd.argv cmd.cwd cmd.env) slavePath with
      | .error e => closing master e
      | .ok pid =>
        match ← resize master size with
        | .error e => closing master e
        | .ok _ => return .ok (master, ⟨pid, some pid, none⟩)

end Source

section Sessions

inductive Use
  | read (len : ℕ)
  | write (buf : List UInt8)
  | resize (size : WinSize)

@[reducible] def Reply : Use → Type
  | .read _ => Result (List UInt8)
  | .write _ => Result ℕ
  | .resize _ => Result Unit

def perform (master : Fd) : (u : Use) → Prog Answer (Reply u)
  | .read len => read master len
  | .write buf => write master buf
  | .resize size => resize master size

def serve (master : Fd) : Prog Reply Unit → Prog Answer Unit
  | .ret _ => .ret ()
  | .op u k => perform master u >>= fun r => serve master (k r)

structure Plan where
  cmd : Command
  varsOs : List (List UInt8 × List UInt8)
  resolved : Result Path
  size : WinSize
  client : LinuxChild → Prog Reply Unit

def session (i : Session) (plan : Plan) : Prog Answer (Result LinuxChild) := do
  match ← spawn i plan.varsOs plan.cmd plan.resolved plan.size with
  | .error e => return .error e
  | .ok (master, child) =>
    serve master (plan.client child)
    .op (.close master) fun _ => .ret (.ok child)

end Sessions

section Kernel

/-- A descriptor counts for the session that opened it. -/
structure Entry where
  obj : Obj
  cloexec : Bool
  owner : Option Session

/-- `given` is whose controlling terminal it has become, `asked` the size last set from the master side, and `output`
what can still be read there. -/
structure Terminal where
  path : Path
  locked : Bool
  given : Option Family
  asked : Option Winsize
  output : List UInt8

/-- `leads` when it began as the leader of a session and a group of its own; `began` is what it saw then. -/
structure Child where
  session : Option Session
  pid : Pid
  leads : Bool
  began : Fd → Option Obj
  holds : Set Obj

structure Kernel where
  table : Fd → Option Entry
  ttys : Tty → Option Terminal
  families : Family → Option Child

namespace Kernel

variable (k : Kernel)

def Holds (o : Obj) : Prop :=
  (∃ fd e, k.table fd = some e ∧ e.obj = o) ∨ ∃ c ch, k.families c = some ch ∧ o ∈ ch.holds

def Names (path : Path) (p : Tty) (t : Terminal) : Prop := k.ttys p = some t ∧ t.path = path ∧ k.Holds (.master p)

def Master (fd : Fd) (p : Tty) (t : Terminal) : Prop :=
  (∃ e, k.table fd = some e ∧ e.obj = .master p) ∧ k.ttys p = some t

def put (fd : Fd) (e : Option Entry) : Kernel := { k with table := Function.update k.table fd e }

def setTty (p : Tty) (t : Terminal) : Kernel := { k with ttys := Function.update k.ttys p (some t) }

def setFamily (c : Family) (ch : Child) : Kernel := { k with families := Function.update k.families c (some ch) }

structure Setup where
  table : Fd → Option (Obj × Bool)
  leads : Bool
  tty : Option Tty

/-- The leader of a session that has no terminal yet gets the one it opens, unless that is somebody else's. -/
inductive Acts (s : Setup) : Action → Setup → Prop
  | chdir (cwd : Path) : Acts s (.chdir cwd) s
  | openTty {fd : Fd} {path : Path} {flags : UInt32} {p : Tty} {t : Terminal} (hp : k.Names path p t)
      (hunlocked : t.locked = false) :
    Acts s (.open fd path flags)
      { s with
        table := Function.update s.table fd (some (.slave p, flags &&& O_CLOEXEC ≠ 0))
        tty := if s.leads ∧ s.tty = none ∧ t.given = none ∧ flags &&& O_NOCTTY = 0 then some p else s.tty }
  | openFile {fd : Fd} {path : Path} {flags : UInt32} (hp : ∀ p t, ¬ k.Names path p t) (n : ℕ) :
    Acts s (.open fd path flags)
      { s with table := Function.update s.table fd (some (.other n, flags &&& O_CLOEXEC ≠ 0)) }
  | dup2 {fd newfd : Fd} {o : Obj} {cloexec : Bool} (h : s.table fd = some (o, cloexec)) (hne : fd ≠ newfd) :
    Acts s (.dup2 fd newfd) { s with table := Function.update s.table newfd (some (o, false)) }

def ActsAll : List Action → Setup → Setup → Prop
  | [], s, s' => s' = s
  | a :: as, s, s' => ∃ s₁, k.Acts s a s₁ ∧ ActsAll as s₁ s'

def Setup.seen (s : Setup) (fd : Fd) : Option Obj :=
  (s.table fd).bind fun (o, cloexec) => if cloexec then none else some o

def forked (flags : UInt32) : Setup :=
  ⟨fun fd => (k.table fd).map fun e => (e.obj, e.cloexec), flags &&& POSIX_SPAWN_SETSID ≠ 0, none⟩

def claim (c : Family) (p : Tty) (t : Terminal) : Kernel := k.setTty p { t with given := some c }

def executed (i : Session) (c : Family) (pid : Pid) (s : Setup) : Kernel :=
  let k' := k.setFamily c ⟨some i, pid, s.leads, s.seen, {o | ∃ fd, s.seen fd = some o}⟩
  match s.tty with
  | none => k'
  | some p =>
    match k.ttys p with
    | none => k'
    | some t => k'.claim c p t

end Kernel

def kernel : Env Kernel Answer
  | k, .posixOpenpt i flags, .ok fd, k' => k.table fd = none ∧ ∃ p path, k.ttys p = none ∧
      (∀ q t, k.ttys q = some t → k.Holds (.master q) ∨ k.Holds (.slave q) → t.path ≠ path) ∧
      k' = (k.put fd (some ⟨.master p, flags &&& O_CLOEXEC ≠ 0, some i⟩)).setTty p ⟨path, true, none, none, []⟩
  | k, .unlockpt fd, .ok _, k' => ∃ p t, k.Master fd p t ∧ k' = k.setTty p { t with locked := false }
  | k, .ptsname fd len, .ok path, k' => k' = k ∧ ∃ p t, k.Master fd p t ∧ path = t.path ∧ path.length < len
  | k, .posixSpawn i _ actions flags _ _, .ok pid, k' => ∃ c s, k.families c = none ∧
      k.ActsAll actions (k.forked flags) s ∧ k' = k.executed i c pid s
  | k, .setWinsize fd ws, .ok _, k' => ∃ p t, k.Master fd p t ∧ k' = k.setTty p { t with asked := some ws }
  | k, .read fd len, .ok bytes, k' => ∃ p t, k.Master fd p t ∧ bytes.length ≤ len ∧ (bytes = [] → len = 0) ∧
      ∃ rest, t.output = bytes ++ rest ∧ k' = k.setTty p { t with output := rest }
  | k, .read fd _, .error code, k' => k' = k ∧
      (code = EIO → ∃ p t, k.Master fd p t ∧ t.output = [] ∧ ¬ k.Holds (.slave p))
  | k, .write fd buf, .ok n, k' => n ≤ buf.length ∧ ∃ p t echo, k.Master fd p t ∧
      (echo ≠ [] → k.Holds (.slave p)) ∧ k' = k.setTty p { t with output := t.output ++ echo }
  | k, .close fd, _, k' => k' = k.put fd none
  | k, _, _, k' => k' = k

/-- What the process does besides, and what the children do: nobody opens a terminal of somebody else or passes one on
but to a child. -/
inductive Elsewhere (k : Kernel) : Kernel → Prop
  | openFile {fd : Fd} (h : k.table fd = none) (n : ℕ) (cloexec : Bool) :
    Elsewhere k (k.put fd (some ⟨.other n, cloexec, none⟩))
  | closeFile {fd : Fd} {e : Entry} (h : k.table fd = some e) (howner : e.owner = none) : Elsewhere k (k.put fd none)
  | spawn {c : Family} {ch : Child} (h : k.families c = none) (hsession : ch.session = none)
      (hholds : ∀ o ∈ ch.holds, (∃ n, o = .other n) ∨ ∃ fd e, k.table fd = some e ∧ e.cloexec = false ∧ e.obj = o) :
    Elsewhere k (k.setFamily c ch)
  | letGo {c : Family} {ch : Child} (h : k.families c = some ch) {rest : Set Obj} (hrest : rest ⊆ ch.holds) :
    Elsewhere k (k.setFamily c { ch with holds := rest })
  | take {c : Family} {ch : Child} (h : k.families c = some ch) (n : ℕ) :
    Elsewhere k (k.setFamily c { ch with holds := insert (.other n) ch.holds })
  | reopen {c : Family} {ch : Child} {p : Tty} {t : Terminal} (h : k.families c = some ch) (ht : k.ttys p = some t)
      (hgiven : t.given = some c) (hopen : k.Holds (.master p)) :
    Elsewhere k (k.setFamily c { ch with holds := insert (.slave p) ch.holds })
  | emit {c : Family} {ch : Child} {p : Tty} {t : Terminal} (h : k.families c = some ch) (ht : k.ttys p = some t)
      (hslave : .slave p ∈ ch.holds) (bytes : List UInt8) :
    Elsewhere k (k.setTty p { t with output := t.output ++ bytes })

abbrev world : Env Kernel Answer := kernel.amid Elsewhere

def start : Kernel := ⟨fun _ => none, fun _ => none, fun _ => none⟩

def sessions (plans : Session → Plan) : Pool Session Answer (Result LinuxChild) Kernel where
  progs i := session i (plans i)
  state := start

end Kernel

end Rustils.Pty.LinuxPty
