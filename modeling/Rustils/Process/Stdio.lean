import Mathlib.Data.Nat.Count
import Rustils.Process.Status

namespace Rustils.Process.Wiring

open Platform

variable {ω : Type}

inductive Stdio
  | inherit
  | null
  | pipe
  | file (fd : Option ℕ)
  deriving DecidableEq

/-- What a descriptor refers to: what the parent holds, what `open` gives the child, or an end of a pipe. -/
inductive Obj (ω : Type)
  | held (o : ω)
  | devNull (slot : ℕ) (write : Bool)
  | pipeRead (slot : ℕ)
  | pipeWrite (slot : ℕ)
  deriving DecidableEq

structure Entry (ω : Type) where
  obj : ω
  cloexec : Bool
  deriving DecidableEq

abbrev Table (ω : Type) := ℕ → Option (Entry ω)

structure Parent (ω : Type) where
  table : Table ω
  limit : ℕ
  stdio : Fin 3 → Stdio
  files_open : ∀ slot fd, stdio slot = .file (some fd) → (table fd).isSome

inductive Action
  | open (fd : ℕ) (write : Bool)
  | dup2 (fd newfd : ℕ)

section Kernel

def lowestFree (limit : ℕ) (t : Table ω) : Option ℕ := (List.range limit).find? fun n => (t n).isNone

def EMFILE : Int32 := 24

def makePipe (limit slot : ℕ) (t : Table (Obj ω)) : Result (ℕ × ℕ × Table (Obj ω)) :=
  match lowestFree limit t with
  | none => .error (errnoErr "pipe2" EMFILE)
  | some read =>
    let t := Function.update t read (some ⟨.pipeRead slot, true⟩)
    match lowestFree limit t with
    | none => .error (errnoErr "pipe2" EMFILE)
    | some write => .ok (read, write, Function.update t write (some ⟨.pipeWrite slot, true⟩))

/-- `dup2` of a descriptor onto itself leaves `FD_CLOEXEC` as it is; a C library may clear it there. -/
def act (clears : Bool) (t : Table (Obj ω)) : Action → Option (Table (Obj ω))
  | .open fd write => some (Function.update t fd (some ⟨.devNull fd write, false⟩))
  | .dup2 fd newfd =>
    (t fd).map fun e => Function.update t newfd (some ⟨e.obj, fd = newfd && !clears && e.cloexec⟩)

def actAll (clears : Bool) : List Action → Table (Obj ω) → Option (Table (Obj ω))
  | [], t => some t
  | a :: as, t => (act clears t a).bind (actAll clears as)

def seen (t : ℕ → Option (Entry (Obj ω))) (fd : ℕ) : Option (Obj ω) :=
  (t fd).bind fun e => if e.cloexec then none else some e.obj

end Kernel

section Spawn

structure Plan (ω : Type) where
  table : Table (Obj ω)
  actions : List Action
  childEnds : List (ℕ × ℕ)
  parentEnds : List (ℕ × ℕ)

def wire (limit fd : ℕ) (spec : Stdio) (p : Plan ω) : Result (Plan ω) :=
  match spec with
  | .inherit => .ok p
  | .null => .ok { p with actions := p.actions ++ [.open fd (fd ≠ 0)] }
  | .pipe =>
    match makePipe limit fd p.table with
    | .error e => .error e
    | .ok (read, write, table) =>
      let (child, parent) := if fd = 0 then (read, write) else (write, read)
      .ok ⟨table, p.actions ++ [.dup2 child fd], p.childEnds ++ [(fd, child)], p.parentEnds ++ [(fd, parent)]⟩
  | .file none => .error (.new .unsupported .none "posix_spawn: Stdio::File from a foreign backend")
  | .file (some source) => .ok { p with actions := p.actions ++ [.dup2 source fd] }

def held (t : Table ω) : Table (Obj ω) := fun fd => (t fd).map fun e => ⟨.held e.obj, e.cloexec⟩

def fileActions (p : Parent ω) : Result (Plan ω) :=
  match wire p.limit 0 (p.stdio 0) ⟨held p.table, [], [], []⟩ with
  | .error e => .error e
  | .ok plan =>
    match wire p.limit 1 (p.stdio 1) plan with
    | .error e => .error e
    | .ok plan => wire p.limit 2 (p.stdio 2) plan

def childEnd (slot : ℕ) : Obj ω := if slot = 0 then .pipeRead slot else .pipeWrite slot

def Parent.named (p : Parent ω) (slot : Fin 3) : Option (Obj ω) :=
  match p.stdio slot with
  | .inherit => seen (held p.table) slot
  | .null => some (.devNull slot (slot.val ≠ 0))
  | .pipe => some (childEnd slot)
  | .file none => none
  | .file (some fd) => (held p.table fd).map Entry.obj

end Spawn

section Condition

variable (p : Parent ω)

def Parent.EndsAt (slot : Fin 3) (fd : ℕ) : Prop :=
  (∀ i < slot, p.stdio i ≠ .pipe) ∧ p.table fd = none ∧
    Nat.count (fun n => (p.table n).isNone) fd = if slot = 0 then 0 else 1

/-- An earlier slot is left alone, or gets the very object that the parent has at `fd`. -/
def Parent.Spares (slot : Fin 3) (fd : ℕ) : Prop :=
  match p.stdio slot with
  | .inherit => True
  | .file (some source) => (p.table source).map Entry.obj = (p.table fd).map Entry.obj
  | _ => False

def Parent.Clear (clears : Bool) (slot : Fin 3) : Prop :=
  match p.stdio slot with
  | .inherit | .null | .file none => True
  | .pipe => (∀ i < slot, p.EndsAt slot i → p.stdio i = .inherit) ∧ (p.EndsAt slot slot → clears = true)
  | .file (some fd) =>
    (∀ i < slot, fd = i → p.Spares i fd) ∧
      (fd = slot → clears = true ∨ ∀ e, p.table fd = some e → e.cloexec = false)

end Condition

end Rustils.Process.Wiring
