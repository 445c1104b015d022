import Rustils.Coreutils.Rfind

namespace Rustils.Coreutils.Rgrep

open Coreutils.Tree Lib.Walk Relation

structure Options where
  isMatch : String → Bool
  invert : Bool
  lineNums : Bool

def searchReader (o : Options) (filename : String) (printName : Bool) :
    ℕ → List (Option String) → List String × Except Unit Unit
  | _, [] => ([], .ok ())
  | _, none :: _ => ([], .error ())
  | idx, some l :: rest =>
    let isShown := if o.invert then !o.isMatch l else o.isMatch l
    let linePrefix := (if printName then s!"{filename}:" else "") ++ (if o.lineNums then s!"{idx + 1}:" else "")
    let (out, r) := searchReader o filename printName (idx + 1) rest
    (if isShown then (linePrefix ++ l) :: out else out, r)

structure Visit where
  path : Path
  printed : List String

section Walk

variable {D : Type} (fs : Fs D) (root : Option (Object D)) (o : Options)
  (lines : Path → List (Option String)) (displayPath : Path → String)

/-- A file is searched where it opens; what goes wrong in it is thrown away. -/
def searchFile (path : Path) : List String :=
  if fs.pathExists root path then (searchReader o (displayPath path) true 0 (lines path)).1 else []

def searchEntries (descend : Path → Option (List Visit × Except Errno Unit)) (dir : Path) :
    List Name → Option (List Visit × Except Errno Unit)
  | [] => some ([], .ok ())
  | fileName :: rest => do
    let path := dir ++ [fileName]
    let (here, r) ←
      if fs.isDir root path then (descend path).map fun (below, r) => (⟨path, []⟩ :: below, r)
      else some ([⟨path, searchFile fs root o lines displayPath path⟩], .ok ())
    match r with
    | .error e => some (here, .error e)
    | .ok () => do
      let (visits, r) ← searchEntries descend dir rest
      some (here ++ visits, r)

def searchDir : ℕ → Path → Option (List Visit × Except Errno Unit)
  | 0, _ => none
  | n + 1, dir =>
    if fs.isDir root dir then
      match fs.readDir root dir with
      | .ok entries => searchEntries fs root o lines displayPath (searchDir n) dir entries
      | .error e => some ([], .error e)
    else some ([], .ok ())

def visitAt (dir : Path) (c : List (Entry D)) : Visit :=
  let path := dir ++ c.map Entry.name
  ⟨path, if fs.isDir root path then [] else searchFile fs root o lines displayPath path⟩

variable {fs root o lines displayPath}

theorem searchEntries_eq {d : D} {dir : Path} (hdir : fs.follow root dir = some (.dir d))
    {descend : Path → Option (List Visit × Except Errno Unit)} {below : D → Option (List (List (Entry D)))}
    (hdescend : ∀ path w, fs.follow root path = some (.dir w) → descend path =
      (below w).map fun cs => (cs.map (visitAt fs root o lines displayPath path), .ok ()))
    (es : List (Entry D)) (hes : ∀ e ∈ es, e ∈ fs.entries d) :
    searchEntries fs root o lines displayPath descend dir (es.map Entry.name) =
      (each Entry.child below es).map
        fun cs => (cs.map (visitAt fs root o lines displayPath dir), .ok ()) := by
  induction es with
  | nil => rfl
  | cons e es ih =>
    obtain ⟨he, hes⟩ := List.forall_mem_cons.mp hes
    rw [List.map_cons, searchEntries, ih hes, each, isDir_entry hdir he]
    cases hchild : e.child with
    | none =>
      cases each Entry.child below es with
      | none => rfl
      | some rest => simp [visitAt, isDir_entry hdir he, hchild]
    | some w =>
      have hpath : fs.follow root (dir ++ [e.name]) = some (.dir w) := by
        rw [follow_entry hdir he, Entry.child_eq_some.mp hchild]
      rw [hdescend _ w hpath]
      dsimp only
      cases below w with
      | none => rfl
      | some cs =>
        cases each Entry.child below es with
        | none => rfl
        | some rest => simp [visitAt, isDir_entry hdir he, hchild, List.map_map, Function.comp_def]

theorem searchDir_eq (n : ℕ) {d : D} {dir : Path} (hdir : fs.follow root dir = some (.dir d)) :
    searchDir fs root o lines displayPath n dir = (walk fs.entries Entry.child n d).map
      fun cs => (cs.map (visitAt fs root o lines displayPath dir), .ok ()) := by
  induction n generalizing d dir with
  | zero => rfl
  | succ n ih =>
    have hisDir : fs.isDir root dir = true := by rw [Fs.isDir, hdir]
    rw [searchDir, if_pos hisDir, readDir_dir hdir]
    exact searchEntries_eq hdir (fun path w hw => ih hw) _ fun _ he => he

end Walk

variable {D : Type}

def paths {V : Type} (path : V → Path) (run : Option (List V × Except Errno Unit)) :
    Option (List Path × Except Errno Unit) := run.map fun (visits, r) => (visits.map path, r)

theorem walks_visit_once_iff [Finite D] [DecidableEq D] (fs : Fs D) (start : D)
    (nameRegex : Option (String → Bool)) (typeFilter : Option Char) (o : Options)
    (lines : Path → List (Option String)) (displayPath : Path → String) :
    VisitsOnce fs start (fun n => paths Rfind.Visit.path
        (Rfind.walkDir fs (some (.dir start)) nameRegex typeFilter n [])) ∧
      VisitsOnce fs start (fun n => paths Visit.path
        (searchDir fs (some (.dir start)) o lines displayPath n [])) ↔
      NoCycle fs start ∧ NoSecondWay fs start := by
  have hfind := @visits_once_iff D fs _ start _
    (fun n => paths Rfind.Visit.path (Rfind.walkDir fs (some (.dir start)) nameRegex typeFilter n []))
  have hgrep := @visits_once_iff D fs _ start _
    (fun n => paths Visit.path (searchDir fs (some (.dir start)) o lines displayPath n []))
  rw [hfind, hgrep, and_self]
  · intro n
    rw [searchDir_eq n rfl, paths, Option.map_map]
    simp [Function.comp_def, List.map_map, visitAt]
  · intro n
    rw [Rfind.walkDir_eq n rfl, paths, Option.map_map]
    simp [Function.comp_def, List.map_map, Rfind.visitAt]

def twoDirsEntries : Bool → List (Entry Bool)
  | false => [⟨[0x61], .here (.dir true)⟩, ⟨[0x62], .link (some .file)⟩]
  | true => [⟨[0x63], .here .file⟩]

theorem twoDirs_edge {d d' : Bool} {n : Name} (h : ⟨n, .here (.dir d')⟩ ∈ twoDirsEntries d) :
    d = false ∧ n = [0x61] ∧ d' = true := by
  cases d <;> simp [twoDirsEntries] at h
  exact ⟨rfl, h⟩

def twoDirs : Fs Bool where
  entries := twoDirsEntries
  nodup d := by cases d <;> decide
  forest := by
    constructor
    · intro v v' l l' u h h'
      obtain ⟨rfl, rfl, -⟩ := twoDirs_edge h
      obtain ⟨rfl, rfl, -⟩ := twoDirs_edge h'
      exact ⟨rfl, rfl⟩
    · intro v hv
      obtain ⟨_, ⟨_, hfirst⟩, -⟩ := TransGen.head'_iff.mp hv
      obtain ⟨_, -, ⟨_, hlast⟩⟩ := TransGen.tail'_iff.mp hv
      obtain ⟨rfl, -⟩ := twoDirs_edge hfirst
      exact Bool.noConfusion (twoDirs_edge hlast).2.2

theorem two_dirs_visited :
    VisitsOnce twoDirs false (fun n => paths Rfind.Visit.path
        (Rfind.walkDir twoDirs (some (.dir false)) none none n [])) ∧
      VisitsOnce twoDirs false (fun n => paths Visit.path
        (searchDir twoDirs (some (.dir false)) ⟨fun _ => true, false, false⟩ (fun _ => []) (fun _ => "") n [])) := by
  have hbelow : ∀ v w, Below twoDirs.entries Entry.child v w → v = false ∧ w = true := by
    rintro (_ | _) w ⟨e, he, hw⟩
    · change e ∈ [_, _] at he
      simp only [List.mem_cons, List.not_mem_nil, or_false] at he
      obtain rfl | rfl := he
      · exact ⟨rfl, (Option.some.inj hw).symm⟩
      · cases hw
    · obtain rfl := List.mem_singleton.mp he
      cases hw
  refine (walks_visit_once_iff twoDirs false none none ⟨fun _ => true, false, false⟩ (fun _ => [])
    (fun _ => "")).mpr ⟨?_, ?_⟩
  · intro v _ hv
    obtain ⟨_, hfirst, -⟩ := TransGen.head'_iff.mp hv
    obtain ⟨_, -, hlast⟩ := TransGen.tail'_iff.mp hv
    have hv' := (hbelow _ _ hlast).2
    rw [(hbelow _ _ hfirst).1] at hv'
    cases hv'
  · rintro (_ | _) _ e he t ht
    · change e ∈ [_, _] at he
      simp only [List.mem_cons, List.not_mem_nil, or_false] at he
      obtain rfl | rfl := he <;> cases ht
    · obtain rfl := List.mem_singleton.mp he
      cases ht

def ownLink : Fs Unit where
  entries _ := [⟨[0x61], .link (some (.dir ()))⟩]
  nodup _ := by decide
  forest := by
    constructor
    · simp
    · intro v hv
      obtain ⟨_, ⟨_, hfirst⟩, -⟩ := TransGen.head'_iff.mp hv
      simp at hfirst

theorem walk_ownLink (n : ℕ) : walk ownLink.entries Entry.child n () = none := by
  induction n with
  | zero => rfl
  | succ n ih =>
    change (walk ownLink.entries Entry.child n ()).bind _ = none
    rw [ih, Option.bind_none]

theorem link_to_itself_walked_forever :
    (∀ n, Rfind.walkDir ownLink (some (.dir ())) none none n [] = none) ∧
      (∀ n, searchDir ownLink (some (.dir ())) ⟨fun _ => true, false, false⟩ (fun _ => [])
        (fun _ => "") n [] = none) ∧
      ¬ VisitsOnce ownLink () (fun n => paths Rfind.Visit.path
        (Rfind.walkDir ownLink (some (.dir ())) none none n [])) := by
  have hfind : ∀ n, Rfind.walkDir ownLink (some (.dir ())) none none n [] = none := by
    intro n
    rw [Rfind.walkDir_eq n rfl, walk_ownLink, Option.map_none]
  refine ⟨hfind, ?_, ?_⟩
  · intro n
    rw [searchDir_eq n rfl, walk_ownLink, Option.map_none]
  · rintro ⟨n, visits, r, h, -⟩
    dsimp only at h
    rw [hfind] at h
    cases h

end Rustils.Coreutils.Rgrep
