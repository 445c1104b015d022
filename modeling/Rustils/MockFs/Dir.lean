import Mathlib.Tactic.Linarith
import Rustils.Fs.Dir

namespace Rustils.MockFs

open Platform

abbrev Name := Fs.Name

abbrev OpenOptions := Fs.OpenOptions

abbrev Addr := UInt64

abbrev Entries := Std.TreeMap Name Addr

inductive Node
  | unreachable
  | file (data : List UInt8)
  | dir (entries : Entries)
  | symlink (target : Name)

abbrev Nodes := Addr → Option Node

def err (kind : ErrorKind) (op : String) (rel : Name) : PlatformError :=
  (PlatformError.new kind .none op).withPath rel

structure MockDir where
  node : Addr

structure MockFile where
  node : Addr
  pos : Addr
  readable : Bool
  writable : Bool

inductive FileType
  | file
  | dir
  | symlink
  deriving DecidableEq

structure Metadata where
  fileType : FileType
  len : UInt64
  nlink : UInt64
  deriving DecidableEq

structure FileId where
  dev : UInt64
  ino : UInt64
  deriving DecidableEq

structure DirEntry where
  name : Name
  fileType : FileType
  deriving DecidableEq

structure AccessMode where
  read : Bool
  write : Bool
  execute : Bool

structure UnixMode where
  setuid : Bool := false
  setgid : Bool := false
  sticky : Bool := false
  uid : UInt32 := 0
  gid : UInt32 := 0
  permissions : UInt16 := 0
  deriving DecidableEq

structure Mode where
  setuid : Bool
  setgid : Bool
  sticky : Bool
  permissions : UInt16

def Node.fileType? : Node → Option FileType
  | .file _ => some .file
  | .dir _ => some .dir
  | .symlink _ => some .symlink
  | .unreachable => none

namespace MockDir

def child (self : MockDir) (nodes : Nodes) (rel : Name) (op : String) : Result Addr :=
  match nodes self.node with
  | some (.dir entries) =>
    match entries[rel]? with
    | some node => .ok node
    | none => .error (err .notFound op rel)
  | _ => .error (err .notADirectory op rel)

end MockDir

def clear (nodes : Nodes) (node : Addr) : Nodes :=
  match nodes node with
  | some (.file _) => Function.update nodes node (some (.file []))
  | _ => nodes

def link (nodes : Nodes) (dir : Addr) (entries : Entries) (rel : Name) (fresh : Addr) (node : Node) :
    Nodes :=
  Function.update (Function.update nodes fresh (some node)) dir (some (.dir (entries.insert rel fresh)))

def insertFile (nodes : Nodes) (dir : Addr) (rel : Name) (fresh : Addr) : Result Addr × Nodes :=
  match nodes dir with
  | some (.dir entries) => (.ok fresh, link nodes dir entries rel fresh (.file []))
  | _ => (.error (err .notADirectory "open" rel), nodes)

namespace MockDir

/-- No result where the source says `unreachable!`. -/
def withFile (self : MockDir) (nodes : Nodes) (name : Name) (contents : List UInt8) (fresh : Addr) :
    Option Nodes :=
  match nodes self.node with
  | some (.dir entries) => some (link nodes self.node entries name fresh (.file contents))
  | _ => none

def open' (self : MockDir) (nodes : Nodes) (rel : Name) (opts : OpenOptions) (fresh : Addr) :
    Result Addr × Nodes :=
  match self.child nodes rel "open" with
  | .ok node =>
    if opts.createNew then (.error (err .alreadyExists "open" rel), nodes)
    else (.ok node, if opts.truncate then clear nodes node else nodes)
  | .error e =>
    if opts.create || opts.createNew then insertFile nodes self.node rel fresh
    else (.error e, nodes)

def fileOf (node pos : Addr) (opts : OpenOptions) : MockFile :=
  ⟨node, pos, opts.read, opts.write || opts.append⟩

def openDir (self : MockDir) (nodes : Nodes) (rel : Name) : Result MockDir :=
  match self.child nodes rel "open_dir" with
  | .error e => .error e
  | .ok node =>
    match nodes node with
    | some (.dir _) => .ok ⟨node⟩
    | _ => .error (err .notADirectory "open_dir" rel)

def make (self : MockDir) (nodes : Nodes) (rel : Name) (op : String) (fresh : Addr) (node : Node) :
    Result Unit × Nodes :=
  match nodes self.node with
  | some (.dir entries) =>
    if entries.contains rel then (.error (err .alreadyExists op rel), nodes)
    else (.ok (), link nodes self.node entries rel fresh node)
  | _ => (.error (err .notADirectory op rel), nodes)

def createDir (self : MockDir) (nodes : Nodes) (rel : Name) (fresh : Addr) : Result Unit × Nodes :=
  self.make nodes rel "create_dir" fresh (.dir ∅)

def symlink (self : MockDir) (nodes : Nodes) (target linkName : Name) (fresh : Addr) :
    Result Unit × Nodes :=
  self.make nodes linkName "symlink" fresh (.symlink target)

def metadata (self : MockDir) (nodes : Nodes) (rel : Name) : Option (Result Metadata) :=
  match self.child nodes rel "metadata" with
  | .error e => some (.error e)
  | .ok node =>
    match nodes node with
    | some (.file data) => some (.ok ⟨.file, .ofNat data.length, 1⟩)
    | some (.dir _) => some (.ok ⟨.dir, 0, 1⟩)
    | some (.symlink target) => some (.ok ⟨.symlink, .ofNat target.length, 1⟩)
    | _ => none

def access (self : MockDir) (nodes : Nodes) (rel : Name) (mode : AccessMode) : Result Unit :=
  if !(mode.read || mode.write || mode.execute) then .ok ()
  else (self.child nodes rel "access").map fun _ => ()

def unixMode (self : MockDir) (nodes : Nodes) (rel : Name) : Result (Option UnixMode) :=
  (self.child nodes rel "unix_mode").map fun _ => some {}

def setUnixMode (self : MockDir) (nodes : Nodes) (rel : Name) (_mode : Mode) : Result Unit :=
  (self.child nodes rel "set_unix_mode").map fun _ => ()

def fileId (self : MockDir) (nodes : Nodes) (rel : Name) : Result FileId :=
  (self.child nodes rel "file_id").map fun node => ⟨0, node⟩

def readDir (self : MockDir) (nodes : Nodes) : Option (Result (List DirEntry)) :=
  match nodes self.node with
  | some (.dir entries) =>
    (entries.toList.mapM fun (name, node) =>
      ((nodes node).bind Node.fileType?).map fun fileType => DirEntry.mk name fileType).map .ok
  | _ => some (.error (PlatformError.new .notADirectory .none "read_dir"))

def readLink (self : MockDir) (nodes : Nodes) (rel : Name) : Result Name :=
  match self.child nodes rel "read_link" with
  | .error e => .error e
  | .ok node =>
    match nodes node with
    | some (.symlink target) => .ok target
    | _ => .error (err .invalidInput "read_link" rel)

def remove (self : MockDir) (nodes : Nodes) (rel : Name) (wantDir : Bool) (op : String) :
    Result Unit × Nodes :=
  match nodes self.node with
  | some (.dir entries) =>
    match entries[rel]? with
    | none => (.error (err .notFound op rel), nodes)
    | some node =>
      let gone := Function.update nodes self.node (some (.dir (entries.erase rel)))
      match nodes node, wantDir with
      | some (.file _), true => (.error (err .notADirectory op rel), nodes)
      | some (.symlink _), true => (.error (err .notADirectory op rel), nodes)
      | some (.dir _), false => (.error (err .isADirectory op rel), nodes)
      | some (.dir sub), true =>
        if sub.isEmpty then (.ok (), gone) else (.error (err .directoryNotEmpty op rel), nodes)
      | _, _ => (.ok (), gone)
  | _ => (.error (err .notADirectory op rel), nodes)

def removeFile (self : MockDir) (nodes : Nodes) (rel : Name) : Result Unit × Nodes :=
  self.remove nodes rel false "remove_file"

def removeDir (self : MockDir) (nodes : Nodes) (rel : Name) : Result Unit × Nodes :=
  self.remove nodes rel true "remove_dir"

def renameImpl (self : MockDir) (nodes : Nodes) (src dst : Name) (replace : Bool) :
    Result Unit × Nodes :=
  match nodes self.node with
  | some (.dir entries) =>
    match entries[src]? with
    | none => (.error (err .notFound "rename" src), nodes)
    | some node =>
      if !replace && entries.contains dst then (.error (err .alreadyExists "rename" dst), nodes)
      else (.ok (), Function.update nodes self.node
        (some (.dir ((entries.erase src).insert dst node))))
  | _ => (.error (err .notADirectory "rename" src), nodes)

def rename (self : MockDir) (nodes : Nodes) (src dst : Name) : Result Unit × Nodes :=
  self.renameImpl nodes src dst true

def renameNoReplace (self : MockDir) (nodes : Nodes) (src dst : Name) : Result Unit × Nodes :=
  self.renameImpl nodes src dst false

end MockDir

namespace MockFile

def read (self : MockFile) (nodes : Nodes) (pos len : ℕ) : Result (List UInt8) × ℕ :=
  if !self.readable then (.error (.new .permissionDenied .none "read"), pos)
  else
    match nodes self.node with
    | some (.file data) =>
      let bytes := (data.drop (min pos data.length)).take len
      (.ok bytes, pos + bytes.length)
    | _ => (.error (.new .isADirectory .none "read"), pos)

/-- Bytes go to the end of the file, wherever the position is. -/
def write (self : MockFile) (nodes : Nodes) (buf : List UInt8) : Result ℕ × Nodes :=
  if !self.writable then (.error (.new .permissionDenied .none "write"), nodes)
  else
    match nodes self.node with
    | some (.file data) =>
      (.ok buf.length, Function.update nodes self.node (some (.file (data ++ buf))))
    | _ => (.error (.new .isADirectory .none "write"), nodes)

end MockFile

end Rustils.MockFs
