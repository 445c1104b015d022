import Rustils.Coreutils.Tree
import Rustils.Lib.Lossy

namespace Rustils.Coreutils.Rfind

open Coreutils.Tree Lib.Walk

def toStringLossy (n : Name) : String := String.ofList (Lib.Lossy.lossy n)

structure Visit where
  path : Path
  printed : Bool
  deriving DecidableEq

def matchesType (typeFilter : Option Char) (isDir : Bool) : Bool :=
  match typeFilter with
  | some 'd' => isDir
  | some 'f' => !isDir
  | _ => true

def matchesName (nameRegex : Option (String → Bool)) (fileName : String) : Bool :=
  match nameRegex with
  | some isMatch => isMatch fileName
  | none => true

section Walk

variable {D : Type} (fs : Fs D) (root : Option (Object D)) (nameRegex : Option (String → Bool))
  (typeFilter : Option Char)

/-- The loop over the entries of `dir`. What a walk further down answers is thrown away. -/
def walkEntries (descend : Path → Option (List Visit × Except Errno Unit)) (dir : Path) :
    List Name → Option (List Visit × Except Errno Unit)
  | [] => some ([], .ok ())
  | fileName :: rest => do
    let path := dir ++ [fileName]
    let isDir := fs.isDir root path
    let visit := ⟨path, matchesType typeFilter isDir && matchesName nameRegex (toStringLossy fileName)⟩
    let below ← if isDir then (descend path).map Prod.fst else some []
    let (visits, r) ← walkEntries descend dir rest
    some ((visit :: below) ++ visits, r)

def walkDir : ℕ → Path → Option (List Visit × Except Errno Unit)
  | 0, _ => none
  | n + 1, dir =>
    if ¬ fs.pathExists root dir then some ([], .ok ())
    else
      match fs.readDir root dir with
      | .ok entries => walkEntries fs root nameRegex typeFilter (walkDir n) dir entries
      | .error e => some ([], .error e)

def visitAt (dir : Path) (c : List (Entry D)) : Visit :=
  let path := dir ++ c.map Entry.name
  ⟨path, matchesType typeFilter (fs.isDir root path) &&
    matchesName nameRegex (toStringLossy (path.getLastD []))⟩

variable {fs root nameRegex typeFilter}

theorem walkEntries_eq {d : D} {dir : Path} (hdir : fs.follow root dir = some (.dir d))
    {descend : Path → Option (List Visit × Except Errno Unit)} {below : D → Option (List (List (Entry D)))}
    (hdescend : ∀ path w, fs.follow root path = some (.dir w) → descend path =
      (below w).map fun cs => (cs.map (visitAt fs root nameRegex typeFilter path), .ok ()))
    (es : List (Entry D)) (hes : ∀ e ∈ es, e ∈ fs.entries d) :
    walkEntries fs root nameRegex typeFilter descend dir (es.map Entry.name) =
      (each Entry.child below es).map
        fun cs => (cs.map (visitAt fs root nameRegex typeFilter dir), .ok ()) := by
  induction es with
  | nil => rfl
  | cons e es ih =>
    obtain ⟨he, hes⟩ := List.forall_mem_cons.mp hes
    rw [List.map_cons, walkEntries, ih hes, each, isDir_entry hdir he]
    cases hchild : e.child with
    | none =>
      cases each Entry.child below es with
      | none => rfl
      | some rest => simp [visitAt, isDir_entry hdir he, hchild]
    | some w =>
      have hpath : fs.follow root (dir ++ [e.name]) = some (.dir w) := by
        rw [follow_entry hdir he, Entry.child_eq_some.mp hchild]
      rw [hdescend _ w hpath]
      dsimp only
      cases below w with
      | none => rfl
      | some cs =>
        cases each Entry.child below es with
        | none => rfl
        | some rest =>
          simp [visitAt, isDir_entry hdir he, hchild, List.map_map, Function.comp_def]

theorem walkDir_eq (n : ℕ) {d : D} {dir : Path} (hdir : fs.follow root dir = some (.dir d)) :
    walkDir fs root nameRegex typeFilter n dir = (walk fs.entries Entry.child n d).map
      fun cs => (cs.map (visitAt fs root nameRegex typeFilter dir), .ok ()) := by
  induction n generalizing d dir with
  | zero => rfl
  | succ n ih =>
    have hexists : fs.pathExists root dir = true := by rw [Fs.pathExists, hdir]; rfl
    rw [walkDir, if_neg (not_not.mpr hexists), readDir_dir hdir]
    exact walkEntries_eq hdir (fun path w hw => ih hw) _ fun _ he => he

end Walk

end Rustils.Coreutils.Rfind
