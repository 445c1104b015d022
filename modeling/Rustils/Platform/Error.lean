import Mathlib.Init

namespace Rustils.Platform

inductive ErrorKind
  | notFound | permissionDenied | alreadyExists | notADirectory | isADirectory | directoryNotEmpty
  | invalidInput | wouldBlock | interrupted | brokenPipe | unsupported
  | connectionRefused | connectionReset | connectionAborted | notConnected
  | addrInUse | addrNotAvailable | timedOut | filesystemLoop | crossesDevices | other
  deriving DecidableEq, Repr

/-- The raw code in its own number space; `none` for an error no OS call produced. -/
inductive OsCode
  | errno (code : Int32)
  | win32 (code : UInt32)
  | none
  deriving DecidableEq

structure PlatformError where
  kind : ErrorKind
  os : OsCode
  op : String
  path : Option (List UInt8)
  deriving DecidableEq

def PlatformError.new (kind : ErrorKind) (os : OsCode) (op : String) : PlatformError :=
  ⟨kind, os, op, Option.none⟩

def PlatformError.withPath (e : PlatformError) (path : List UInt8) : PlatformError :=
  { e with path := some path }

abbrev Result (α : Type) := Except PlatformError α

end Rustils.Platform
