import Mathlib.Tactic.SplitIfs
import Rustils.Lib.Transcript
import Rustils.Platform.Errmap
import Rustils.WinFs.Symlink

namespace Rustils.WinFs.Nt

open Platform Platform.Errmap Lib.Program
open Lib.Utf16 (wtf8)

def DELETE : UInt32 := 0x10000
def SYNCHRONIZE : UInt32 := 0x100000
def FILE_GENERIC_WRITE : UInt32 := 0x120116

def FILE_DIRECTORY_FILE : UInt32 := 0x1
def FILE_SYNCHRONOUS_IO_NONALERT : UInt32 := 0x20
def FILE_NON_DIRECTORY_FILE : UInt32 := 0x40
def FILE_OPEN_REPARSE_POINT : UInt32 := 0x200000

abbrev DirId := ℕ

abbrev Place := DirId × Wide

inductive Handle
  | root (dir : DirId)
  | entry (p : Place)
  deriving DecidableEq

inductive Disposition
  | FILE_OPEN | FILE_CREATE
  deriving DecidableEq

structure CreateArgs where
  rootDirectory : DirId
  objectName : Wide
  desiredAccess : UInt32
  createDisposition : Disposition
  createOptions : UInt32

structure RenameInformation where
  replaceIfExists : Bool
  rootDirectory : DirId
  fileName : Wide

inductive NtCall
  | ntCreateFile (args : CreateArgs)
  | setReparsePoint (h : Handle) (buf : List UInt8)
  | ntSetInformationFile (h : Handle) (info : RenameInformation)
  | closeHandle (h : Handle)

/-- A handle may be null, and a call of Win32 leaves its error in the thread's last one. -/
@[reducible] def Answer : NtCall → Type
  | .ntCreateFile _ => Except NtStatus (Option Handle)
  | .setReparsePoint _ _ => Except UInt32 Unit
  | .ntSetInformationFile _ _ => Except NtStatus Unit
  | .closeHandle _ => Unit

def openRelative (dosError : NtStatus → UInt32) (root : DirId) (rel : Wide) (access : UInt32)
    (disposition : Disposition) (options : UInt32) : Prog Answer (Result Handle) :=
  let wide := toWideNtComponent rel
  if 65535 < wide.length * 2 then
    .ret (.error ((PlatformError.new .invalidInput .none "NtCreateFile").withPath (wtf8 rel)))
  else
    .op (.ntCreateFile ⟨root, wide, access, disposition, options⟩) fun
      | .error status => .ret (.error (ntErr dosError status "NtCreateFile" rel))
      | .ok none => .ret (.error ((PlatformError.new .other .none "NtCreateFile").withPath (wtf8 rel)))
      | .ok (some handle) => .ret (.ok handle)

inductive Node
  | file (id : ℕ)
  | dir (id : DirId)
  | link (isDir : Bool) (buf : List UInt8)
  deriving DecidableEq

abbrev Tree := Place → Option Node

/-- How a volume tells names apart, and where a link stored in a directory leads. -/
structure Naming where
  upcase : Wide → Wide
  target : Tree → DirId → List UInt8 → Option Place

variable (naming : Naming)

def Naming.place (d : DirId) (name : Wide) : Place := (d, naming.upcase name)

def Naming.follow (t : Tree) : ℕ → Place → Option Place
  | n, p =>
    match t p with
    | none => none
    | some (.link _ buf) =>
      match n with
      | 0 => none
      | n + 1 => (naming.target t p.1 buf).bind (follow t n)
    | some _ => some p

def maxReparses : ℕ := 63

def Handle.isDir (t : Tree) : Handle → Bool
  | .root _ => true
  | .entry p =>
    match t p with
    | some (.dir _) => true
    | some (.link isDir _) => isDir
    | _ => false

/-- What an open finds: the directory itself for the empty name, else the entry or what it leads to. -/
def Naming.lookup (t : Tree) (args : CreateArgs) : Option Handle :=
  let p := naming.place args.rootDirectory args.objectName
  if args.objectName = [] then some (.root args.rootDirectory)
  else if args.createOptions &&& FILE_OPEN_REPARSE_POINT ≠ 0 then (t p).map fun _ => .entry p
  else (naming.follow t maxReparses p).map .entry

def created (options : UInt32) (id : ℕ) : Node := if options &&& FILE_DIRECTORY_FILE ≠ 0 then .dir id else .file id

/-- A call that fails changes nothing. A directory cannot be moved into itself. -/
def step : Env Tree Answer
  | t, .ntCreateFile args, .ok h, t' =>
    match args.createDisposition with
    | .FILE_OPEN => t' = t ∧ ∃ handle, h = some handle ∧ naming.lookup t args = some handle ∧
        (args.createOptions &&& FILE_DIRECTORY_FILE ≠ 0 → handle.isDir t) ∧
        (args.createOptions &&& FILE_NON_DIRECTORY_FILE ≠ 0 → ¬handle.isDir t)
    | .FILE_CREATE =>
      let p := naming.place args.rootDirectory args.objectName
      h = some (.entry p) ∧ t p = none ∧ ∃ id, t' = Function.update t p (some (created args.createOptions id))
  | t, .setReparsePoint (.entry p) buf, .ok _, t' =>
    t p ≠ none ∧ t' = Function.update t p (some (.link (Handle.isDir t (.entry p)) buf))
  | _, .setReparsePoint (.root _) _, .ok _, _ => False
  | t, .ntSetInformationFile (.entry p) info, .ok _, t' =>
    let q := naming.place info.rootDirectory info.fileName
    ∃ node, t p = some node ∧ (t q ≠ none → q = p ∨ info.replaceIfExists) ∧
      t' = Function.update (Function.update t p none) q (some node)
  | _, .ntSetInformationFile (.root _) _, .ok _, _ => False
  | t, .ntCreateFile _, .error _, t' => t' = t
  | t, .setReparsePoint _ _, .error _, t' => t' = t
  | t, .ntSetInformationFile _ _, .error _, t' => t' = t
  | t, .closeHandle _, _, t' => t' = t

end Rustils.WinFs.Nt
