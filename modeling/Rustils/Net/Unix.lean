import Mathlib.Data.Nat.Notation
import Rustils.Lib.Program
import Rustils.Platform.Error

namespace Rustils.Net

open Platform Lib.Program

abbrev Path := List UInt8

abbrev Fd := ℕ

inductive Backend
  | linux | bsd
  deriving DecidableEq

inductive Errno
  | ECONNREFUSED | ECONNRESET | ECONNABORTED | ENOTCONN | EADDRINUSE | EADDRNOTAVAIL | ETIMEDOUT
  | EACCES | EPERM | EINVAL | EAGAIN | EINTR | ENOENT
  | other (code : Int32)
  deriving DecidableEq

def Errno.code : Backend → Errno → Int32
  | .linux, .ECONNREFUSED => 111
  | .linux, .ECONNRESET => 104
  | .linux, .ECONNABORTED => 103
  | .linux, .ENOTCONN => 107
  | .linux, .EADDRINUSE => 98
  | .linux, .EADDRNOTAVAIL => 99
  | .linux, .ETIMEDOUT => 110
  | .linux, .EAGAIN => 11
  | .bsd, .ECONNREFUSED => 61
  | .bsd, .ECONNRESET => 54
  | .bsd, .ECONNABORTED => 53
  | .bsd, .ENOTCONN => 57
  | .bsd, .EADDRINUSE => 48
  | .bsd, .EADDRNOTAVAIL => 49
  | .bsd, .ETIMEDOUT => 60
  | .bsd, .EAGAIN => 35
  | _, .EPERM => 1
  | _, .ENOENT => 2
  | _, .EINTR => 4
  | _, .EACCES => 13
  | _, .EINVAL => 22
  | _, .other code => code

def kindOf : Errno → ErrorKind
  | .ECONNREFUSED => .connectionRefused
  | .ECONNRESET => .connectionReset
  | .ECONNABORTED => .connectionAborted
  | .ENOTCONN => .notConnected
  | .EADDRINUSE => .addrInUse
  | .EADDRNOTAVAIL => .addrNotAvailable
  | .ETIMEDOUT => .timedOut
  | .EACCES | .EPERM => .permissionDenied
  | .EINVAL => .invalidInput
  | .EAGAIN => .wouldBlock
  | .EINTR => .interrupted
  | .ENOENT => .notFound
  | .other _ => .other

def AF_UNIX : ℕ := 1

structure SockaddrUn where
  sunLen : Option UInt8
  sunFamily : ℕ
  sunPath : List UInt8

def sunPathLen : Backend → ℕ
  | .linux => 108
  | .bsd => 104

def sunPathOffset : Backend → ℕ
  | .linux => 2
  | .bsd => 2

def nulInPath : PlatformError :=
  .new .invalidInput .none "AF_UNIX path must not contain a NUL byte"

def pathTooLong : PlatformError :=
  .new .invalidInput .none "AF_UNIX path too long (must fit in sockaddr_un::sun_path)"

def toSockaddrUn (b : Backend) (path : Path) : Result (SockaddrUn × ℕ) :=
  if path.contains 0 then .error nulInPath
  else if sunPathLen b ≤ path.length then .error pathTooLong
  else
    let len := sunPathOffset b + path.length + 1
    let sunLen := match b with
      | .linux => none
      | .bsd => some (UInt8.ofNat len)
    .ok (⟨sunLen, AF_UNIX, path ++ List.replicate (sunPathLen b - path.length) 0⟩, len)

def pathToCstring (path : Path) : Result Path :=
  if path.contains 0 then .error nulInPath else .ok path

inductive SysCall
  | socket
  | fcntlCloexec (fd : Fd)
  | bind (fd : Fd) (addr : SockaddrUn) (len : ℕ)
  | connect (fd : Fd) (addr : SockaddrUn) (len : ℕ)
  | unlinkat (path : Path)
  | chmod (path : Path) (mode : ℕ)
  | listen (fd : Fd)
  | close (fd : Fd)

@[reducible] def Value : SysCall → Type
  | .socket => Fd
  | _ => Unit

abbrev Answer (o : SysCall) := Except Errno (Value o)

abbrev Thread := StateT Errno (Prog Answer)

def errnoAfter {α : Type} (errno : Errno) : Except Errno α → Errno
  | .error e => e
  | .ok _ => errno

/-- A call that fails sets `errno`; one that succeeds leaves it alone. -/
def sys (o : SysCall) : Thread (Answer o) := fun errno => .op o fun r => .ret (r, errnoAfter errno r)

def netErr (b : Backend) (op : String) : Thread PlatformError := do
  let e ← get
  return .new (kindOf e) (.errno (e.code b)) op

def drop (fd : Fd) : Thread Unit := do
  let _ ← sys (.close fd)

def setCloexec (b : Backend) (fd : Fd) : Thread (Result Unit) := do
  match ← sys (.fcntlCloexec fd) with
  | .error _ => return .error (← netErr b "fcntl(F_SETFD)")
  | .ok _ => return .ok ()

def newUnixSocket (b : Backend) : Thread (Result Fd) := do
  match ← sys .socket with
  | .error _ => return .error (← netErr b "socket")
  | .ok fd =>
    match b with
    | .linux => return .ok fd
    | .bsd =>
      match ← setCloexec b fd with
      | .error e =>
        drop fd
        return .error e
      | .ok _ => return .ok fd

def isStaleSocket (b : Backend) (path : Path) : Thread Bool := do
  match ← newUnixSocket b with
  | .error _ => return false
  | .ok probe =>
    match toSockaddrUn b path with
    | .error _ =>
      drop probe
      return false
    | .ok (addr, len) =>
      match ← sys (.connect probe addr len) with
      | .ok _ =>
        drop probe
        return false
      | .error _ =>
        let errno ← get
        drop probe
        return errno = .ECONNREFUSED

/-- The retry after a failed `bind`: `r` is what the first one answered. -/
def reclaim (b : Backend) (fd : Fd) (path : Path) (addr : SockaddrUn) (len : ℕ)
    (r : Answer (.bind fd addr len)) : Thread (Result (Answer (.bind fd addr len))) := do
  match r with
  | .ok _ => return .ok r
  | .error _ =>
    if (← get) = .EADDRINUSE then
      if ← isStaleSocket b path then
        match pathToCstring path with
        | .error e => return .error e
        | .ok cPath =>
          let _ ← sys (.unlinkat cPath)
          return .ok (← sys (.bind fd addr len))
      else return .ok r
    else return .ok r

def narrowAndListen (b : Backend) (fd : Fd) (path : Path) : Thread (Result Unit) := do
  match pathToCstring path with
  | .error e => return .error e
  | .ok cPath =>
    match ← sys (.chmod cPath 0o600) with
    | .error _ => return .error (← netErr b "chmod")
    | .ok _ =>
      match ← sys (.listen fd) with
      | .error _ => return .error (← netErr b "listen")
      | .ok _ => return .ok ()

def listenAt (b : Backend) (fd : Fd) (path : Path) : Thread (Result Unit) := do
  match toSockaddrUn b path with
  | .error e => return .error e
  | .ok (addr, len) =>
    let r ← sys (.bind fd addr len)
    match ← reclaim b fd path addr len r with
    | .error e => return .error e
    | .ok (.error _) => return .error (← netErr b "bind")
    | .ok (.ok _) => narrowAndListen b fd path

def unixListen (b : Backend) (path : Path) : Thread (Result Fd) := do
  match ← newUnixSocket b with
  | .error e => return .error e
  | .ok fd =>
    match ← listenAt b fd path with
    | .error e =>
      drop fd
      return .error e
    | .ok _ => return .ok fd

end Rustils.Net
