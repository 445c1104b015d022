import Rustils.Lib.Trace
import Rustils.MockFs.Dir

namespace Rustils.MockFs

open Platform

abbrev Handle := ℕ

structure World where
  nodes : Nodes
  positions : Addr → ℕ
  dirs : Handle → Option MockDir
  files : Handle → Option MockFile

def World.root (r : Addr) : World where
  nodes := Function.update (fun _ => none) r (some (.dir ∅))
  positions := fun _ => 0
  dirs := Function.update (fun _ => none) 0 (some ⟨r⟩)
  files := fun _ => none

structure Fresh where
  node : Addr
  pos : Addr
  handle : Handle

structure World.Unused (w : World) (fresh : Fresh) : Prop where
  node : w.nodes fresh.node = none
  pos : ∀ h f, w.files h = some f → f.pos ≠ fresh.pos
  dir : w.dirs fresh.handle = none
  file : w.files fresh.handle = none

inductive DirOp
  | clone
  | withFile (name : Name) (contents : List UInt8)
  | open (rel : Name) (opts : OpenOptions)
  | openDir (rel : Name)
  | createDir (rel : Name)
  | metadata (rel : Name)
  | access (rel : Name) (mode : AccessMode)
  | unixMode (rel : Name)
  | setUnixMode (rel : Name) (mode : Mode)
  | fileId (rel : Name)
  | readDir
  | removeFile (rel : Name)
  | removeDir (rel : Name)
  | symlink (target linkName : Name)
  | readLink (rel : Name)
  | rename (src dst : Name)
  | renameNoReplace (src dst : Name)

inductive FileOp
  | read (len : ℕ)
  | write (buf : List UInt8)
  | flush
  | syncAll
  | tryClone

inductive Reply
  | done
  | handle (h : Handle)
  | metadata (m : Metadata)
  | unixMode (m : Option UnixMode)
  | fileId (id : FileId)
  | entries (es : List DirEntry)
  | target (name : Name)
  | bytes (bs : List UInt8)
  | count (n : ℕ)

namespace World

variable (w : World)

def looks {α : Type} (reply : α → Reply) (r : Result α) : Result Reply × World := (r.map reply, w)

def acts {α : Type} (reply : α → Reply) (r : Result α × Nodes) : Result Reply × World :=
  (r.1.map reply, { w with nodes := r.2 })

def addDir (fresh : Fresh) (d : MockDir) : World :=
  { w with dirs := Function.update w.dirs fresh.handle (some d) }

def addFile (fresh : Fresh) (f : MockFile) : World :=
  { w with files := Function.update w.files fresh.handle (some f) }

def opens (fresh : Fresh) (opts : OpenOptions) : Result Addr × Nodes → Result Reply × World
  | (.error e, nodes) => (.error e, { w with nodes })
  | (.ok node, nodes) =>
    (.ok (.handle fresh.handle),
      { w.addFile fresh (MockDir.fileOf node fresh.pos opts) with
        nodes, positions := Function.update w.positions fresh.pos 0 })

def opensDir (fresh : Fresh) : Result MockDir → Result Reply × World
  | .error e => (.error e, w)
  | .ok d => (.ok (.handle fresh.handle), w.addDir fresh d)

end World

def MockDir.exec (self : MockDir) (w : World) (fresh : Fresh) : DirOp → Option (Result Reply × World)
  | .clone => some (w.opensDir fresh (.ok self))
  | .withFile name contents =>
    (self.withFile w.nodes name contents fresh.node).map fun nodes => (.ok .done, { w with nodes })
  | .open rel opts => some (w.opens fresh opts (self.open' w.nodes rel opts fresh.node))
  | .openDir rel => some (w.opensDir fresh (self.openDir w.nodes rel))
  | .createDir rel => some (w.acts (fun _ => .done) (self.createDir w.nodes rel fresh.node))
  | .metadata rel => (self.metadata w.nodes rel).map (w.looks .metadata)
  | .access rel mode => some (w.looks (fun _ => .done) (self.access w.nodes rel mode))
  | .unixMode rel => some (w.looks .unixMode (self.unixMode w.nodes rel))
  | .setUnixMode rel mode => some (w.looks (fun _ => .done) (self.setUnixMode w.nodes rel mode))
  | .fileId rel => some (w.looks .fileId (self.fileId w.nodes rel))
  | .readDir => (self.readDir w.nodes).map (w.looks .entries)
  | .removeFile rel => some (w.acts (fun _ => .done) (self.removeFile w.nodes rel))
  | .removeDir rel => some (w.acts (fun _ => .done) (self.removeDir w.nodes rel))
  | .symlink target linkName =>
    some (w.acts (fun _ => .done) (self.symlink w.nodes target linkName fresh.node))
  | .readLink rel => some (w.looks .target (self.readLink w.nodes rel))
  | .rename src dst => some (w.acts (fun _ => .done) (self.rename w.nodes src dst))
  | .renameNoReplace src dst => some (w.acts (fun _ => .done) (self.renameNoReplace w.nodes src dst))

def MockFile.exec (self : MockFile) (w : World) (fresh : Fresh) : FileOp → Result Reply × World
  | .read len =>
    let (r, pos) := self.read w.nodes (w.positions self.pos) len
    (r.map .bytes, { w with positions := Function.update w.positions self.pos pos })
  | .write buf => w.acts .count (self.write w.nodes buf)
  | .flush => (.ok .done, w)
  | .syncAll => (.ok .done, w)
  | .tryClone => (.ok (.handle fresh.handle), w.addFile fresh self)

def edge (nodes : Nodes) (dir : Addr) (name : Name) (node : Addr) : Prop :=
  ∃ entries, nodes dir = some (.dir entries) ∧ entries[name]? = some node

structure World.Garbage (w : World) (a : Addr) : Prop where
  entry : ∀ d n, ¬edge w.nodes d n a
  dir : ∀ h d, w.dirs h = some d → d.node ≠ a
  file : ∀ h f, w.files h = some f → f.node ≠ a

inductive Event
  | dir (h : Handle) (op : DirOp) (r : Result Reply)
  | file (h : Handle) (op : FileOp) (r : Result Reply)
  | dropDir (h : Handle)
  | dropFile (h : Handle)
  | free (a : Addr)

def Event.error? : Event → Option PlatformError
  | .dir _ _ (.error e) => some e
  | .file _ _ (.error e) => some e
  | _ => none

/-- The address of a node that was freed may be taken again. -/
inductive Step (w : World) : Event → World → Prop
  | dir {h : Handle} {d : MockDir} {op : DirOp} {r : Result Reply} {w' : World} (fresh : Fresh)
      (hd : w.dirs h = some d) (hf : w.Unused fresh) (hr : d.exec w fresh op = some (r, w')) :
      Step w (.dir h op r) w'
  | file {h : Handle} {f : MockFile} {op : FileOp} {r : Result Reply} {w' : World} (fresh : Fresh)
      (hd : w.files h = some f) (hf : w.Unused fresh) (hr : f.exec w fresh op = (r, w')) :
      Step w (.file h op r) w'
  | dropDir (h : Handle) :
      Step w (.dropDir h) { w with dirs := Function.update w.dirs h none }
  | dropFile (h : Handle) :
      Step w (.dropFile h) { w with files := Function.update w.files h none }
  | free {a : Addr} (h : w.Garbage a) :
      Step w (.free a) { w with nodes := Function.update w.nodes a none }

end Rustils.MockFs
