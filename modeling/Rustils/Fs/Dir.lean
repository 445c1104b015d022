import Mathlib.Data.Nat.Notation
import Mathlib.Logic.Function.Basic
import Rustils.Lib.Program
import Rustils.Platform.Error

namespace Rustils.Fs

open Platform Lib.Program

abbrev Name := List UInt8

abbrev Ino := ℕ

abbrev Handle := ℕ

structure OpenOptions where
  read : Bool := false
  write : Bool := false
  append : Bool := false
  create : Bool := false
  createNew : Bool := false
  truncate : Bool := false
  deriving DecidableEq

inductive Entry
  | file (ino : Ino)
  | dir
  | symlink (target : Name)
  deriving DecidableEq

structure OpenFile where
  ino : Ino
  pos : ℕ
  writable : Bool

structure Dir where
  entries : Name → Option Entry
  data : Ino → List UInt8
  handles : Handle → Option OpenFile

inductive Object
  | file (contents : List UInt8)
  | dir
  | symlink (target : Name)
  deriving DecidableEq

namespace Dir

def object (d : Dir) : Entry → Object
  | .file ino => .file (d.data ino)
  | .dir => .dir
  | .symlink target => .symlink target

def view (d : Dir) (name : Name) : Option Object := (d.entries name).map d.object

def Free (d : Dir) (ino : Ino) : Prop :=
  (∀ name, d.entries name ≠ some (.file ino)) ∧ ∀ h f, d.handles h = some f → f.ino ≠ ino

end Dir

structure World where
  dir : Dir
  counter : UInt64

def World.empty : World := ⟨⟨fun _ => none, fun _ => [], fun _ => none⟩, 0⟩

inductive Op
  | fetchAdd
  | open (rel : Name) (opts : OpenOptions)
  | write (f : Handle) (buf : List UInt8)
  | syncAll (f : Handle)
  | close (f : Handle)
  | removeFile (rel : Name)
  | rename (src dst : Name)
  | syncDir

@[reducible] def Answer : Op → Type
  | .fetchAdd => UInt64
  | .open _ _ => Result Handle
  | .write _ _ => Result ℕ
  | .close _ => Unit
  | _ => Result Unit

def overwrite (data : List UInt8) (pos : ℕ) (buf : List UInt8) : List UInt8 :=
  data.take pos ++ List.replicate (pos - data.length) 0 ++ buf ++ data.drop (pos + buf.length)

namespace Dir

def create (d : Dir) (rel : Name) (ino : Ino) (h : Handle) (f : OpenFile) : Dir where
  entries := Function.update d.entries rel (some (.file ino))
  data := Function.update d.data ino []
  handles := Function.update d.handles h (some f)

def reopen (d : Dir) (ino : Ino) (truncate : Bool) (h : Handle) (f : OpenFile) : Dir where
  entries := d.entries
  data := if truncate then Function.update d.data ino [] else d.data
  handles := Function.update d.handles h (some f)

def write (d : Dir) (h : Handle) (f : OpenFile) (pos : ℕ) (buf : List UInt8) : Dir where
  entries := d.entries
  data := Function.update d.data f.ino (overwrite (d.data f.ino) pos buf)
  handles := Function.update d.handles h (some { f with pos := pos + buf.length })

def close (d : Dir) (h : Handle) : Dir := { d with handles := Function.update d.handles h none }

def remove (d : Dir) (rel : Name) : Dir := { d with entries := Function.update d.entries rel none }

def rename (d : Dir) (src dst : Name) (e : Entry) : Dir :=
  { d with entries := Function.update (Function.update d.entries src none) dst (some e) }

section Fields

variable (d : Dir) (rel src dst : Name) (ino : Ino) (h : Handle) (f : OpenFile) (pos : ℕ)
  (buf : List UInt8) (e : Entry)

@[simp] theorem create_entries :
    (d.create rel ino h f).entries = Function.update d.entries rel (some (.file ino)) := rfl

@[simp] theorem create_handles :
    (d.create rel ino h f).handles = Function.update d.handles h (some f) := rfl

@[simp] theorem write_entries : (d.write h f pos buf).entries = d.entries := rfl

@[simp] theorem write_data : (d.write h f pos buf).data =
    Function.update d.data f.ino (overwrite (d.data f.ino) pos buf) := rfl

@[simp] theorem write_handles : (d.write h f pos buf).handles =
    Function.update d.handles h (some { f with pos := pos + buf.length }) := rfl

@[simp] theorem close_entries : (d.close h).entries = d.entries := rfl

@[simp] theorem close_handles : (d.close h).handles = Function.update d.handles h none := rfl

@[simp] theorem remove_entries : (d.remove rel).entries = Function.update d.entries rel none := rfl

@[simp] theorem rename_entries : (d.rename src dst e).entries =
    Function.update (Function.update d.entries src none) dst (some e) := rfl

@[simp] theorem rename_data : (d.rename src dst e).data = d.data := rfl

end Fields

def OpenOk (d : Dir) (rel : Name) (opts : OpenOptions) (h : Handle) (d' : Dir) : Prop :=
  d.handles h = none ∧
    ((d.entries rel = none ∧ (opts.create ∨ opts.createNew) ∧
        ∃ ino, d.Free ino ∧ d' = d.create rel ino h ⟨ino, 0, opts.write || opts.append⟩) ∨
      (opts.createNew = false ∧
        ∃ ino, d.entries rel = some (.file ino) ∧
          d' = d.reopen ino opts.truncate h ⟨ino, 0, opts.write || opts.append⟩))

/-- The first `n` bytes of `buf` are taken, at the position or, by a backend that appends, at the
end. -/
def WriteOk (d : Dir) (h : Handle) (buf : List UInt8) (n : ℕ) (d' : Dir) : Prop :=
  n ≤ buf.length ∧ ∃ f, d.handles h = some f ∧ f.writable ∧
    ∃ pos, (pos = f.pos ∨ pos = (d.data f.ino).length) ∧ d' = d.write h f pos (buf.take n)

def RemoveOk (d : Dir) (rel : Name) (d' : Dir) : Prop :=
  ∃ e, d.entries rel = some e ∧ e ≠ .dir ∧ d' = d.remove rel

/-- Nothing happens between two names of one file. -/
def RenameOk (d : Dir) (src dst : Name) (d' : Dir) : Prop :=
  ∃ e, d.entries src = some e ∧ (d' = d.rename src dst e ∨ d.entries dst = some e ∧ d' = d)

end Dir

def step : Env World Answer
  | w, .fetchAdd, n, w' => n = w.counter ∧ w' = { w with counter := w.counter + 1 }
  | w, .open rel opts, .ok h, w' => w.counter = w'.counter ∧ w.dir.OpenOk rel opts h w'.dir
  | w, .write f buf, .ok n, w' => w.counter = w'.counter ∧ w.dir.WriteOk f buf n w'.dir
  | w, .close f, _, w' => w' = { w with dir := w.dir.close f }
  | w, .removeFile rel, .ok _, w' => w.counter = w'.counter ∧ w.dir.RemoveOk rel w'.dir
  | w, .rename src dst, .ok _, w' => w.counter = w'.counter ∧ w.dir.RenameOk src dst w'.dir
  | w, _, _, w' => w' = w

end Rustils.Fs
