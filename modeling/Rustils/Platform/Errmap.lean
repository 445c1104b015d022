import Rustils.Lib.Utf16
import Rustils.Platform.Error

namespace Rustils.Platform.Errmap

open Lib.Utf16 (wtf8)

def ERROR_FILE_NOT_FOUND : UInt32 := 2
def ERROR_PATH_NOT_FOUND : UInt32 := 3
def ERROR_ACCESS_DENIED : UInt32 := 5
def ERROR_SHARING_VIOLATION : UInt32 := 32
def ERROR_FILE_EXISTS : UInt32 := 80
def ERROR_INVALID_PARAMETER : UInt32 := 87
def ERROR_DIR_NOT_EMPTY : UInt32 := 145
def ERROR_ALREADY_EXISTS : UInt32 := 183
def ERROR_DIRECTORY : UInt32 := 267
def ERROR_NOT_FOUND : UInt32 := 1168
def ERROR_NOT_A_REPARSE_POINT : UInt32 := 4390

def kindOfWin32 (code : UInt32) : ErrorKind :=
  if code = ERROR_FILE_NOT_FOUND ∨ code = ERROR_PATH_NOT_FOUND ∨ code = ERROR_NOT_FOUND then .notFound
  else if code = ERROR_ACCESS_DENIED ∨ code = ERROR_SHARING_VIOLATION then .permissionDenied
  else if code = ERROR_FILE_EXISTS ∨ code = ERROR_ALREADY_EXISTS then .alreadyExists
  else if code = ERROR_DIR_NOT_EMPTY then .directoryNotEmpty
  else if code = ERROR_DIRECTORY then .notADirectory
  else if code = ERROR_INVALID_PARAMETER ∨ code = ERROR_NOT_A_REPARSE_POINT then .invalidInput
  else .other

inductive NtStatus
  | objectNameNotFound | objectPathNotFound | accessDenied | sharingViolation | deletePending | objectNameCollision
  | fileIsADirectory | notADirectory | directoryNotEmpty | objectNameInvalid | reparsePointEncountered
  | other (code : UInt32)
  deriving DecidableEq

def kindOfNtstatus : NtStatus → ErrorKind
  | .objectNameNotFound | .objectPathNotFound => .notFound
  | .accessDenied | .sharingViolation | .deletePending => .permissionDenied
  | .objectNameCollision => .alreadyExists
  | .fileIsADirectory => .isADirectory
  | .notADirectory => .notADirectory
  | .directoryNotEmpty => .directoryNotEmpty
  | .objectNameInvalid => .invalidInput
  | .reparsePointEncountered => .filesystemLoop
  | .other _ => .other

def about (e : PlatformError) (path : List UInt16) : PlatformError := if path = [] then e else e.withPath (wtf8 path)

def lastWin32Err (op : String) (path : List UInt16) (code : UInt32) : PlatformError :=
  about (.new (kindOfWin32 code) (.win32 code) op) path

def ntErr (dosError : NtStatus → UInt32) (status : NtStatus) (op : String) (path : List UInt16) : PlatformError :=
  about (.new (kindOfNtstatus status) (.win32 (dosError status)) op) path

end Rustils.Platform.Errmap
