import Rustils.Platform.Error

namespace Rustils.Platform.Fdio

def kindOfErrno (errno : Int32) : ErrorKind :=
  if errno = 2 then .notFound
  else if errno = 13 ∨ errno = 1 then .permissionDenied
  else if errno = 17 then .alreadyExists
  else if errno = 20 then .notADirectory
  else if errno = 21 then .isADirectory
  else if errno = 39 then .directoryNotEmpty
  else if errno = 22 then .invalidInput
  else if errno = 11 then .wouldBlock
  else if errno = 4 then .interrupted
  else if errno = 32 then .brokenPipe
  else if errno = 40 then .filesystemLoop
  else if errno = 18 then .crossesDevices
  else .other

def osErr (op : String) (path : List UInt8) (errno : Int32) : PlatformError :=
  (PlatformError.new (kindOfErrno errno) (.errno errno) op).withPath path

end Rustils.Platform.Fdio
