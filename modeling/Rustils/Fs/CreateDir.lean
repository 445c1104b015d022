import Mathlib.Data.List.Induction
import Rustils.Platform.Fdio

namespace Rustils.Fs.CreateDir

open Platform
open Platform.Fdio (osErr)

abbrev Bytes := List UInt8

def slash : UInt8 := 0x2F

def rposition (p : UInt8 → Bool) (bytes : Bytes) : Option ℕ :=
  (bytes.reverse.findIdx? p).map fun i => bytes.length - 1 - i

def splitLastComponent (rel : Bytes) : Option (Bytes × Bytes) := do
  let i ← rposition (· != slash) rel
  let trimmed := rel.take (i + 1)
  let pos ← rposition (· == slash) trimmed
  pure (trimmed.take pos, trimmed.drop (pos + 1))

@[ext] structure Parsed where
  absolute : Bool
  components : List Bytes
  deriving DecidableEq

def parse (path : Bytes) : Parsed where
  absolute := path.head? == some slash
  components := (path.splitOn slash).filter (· ≠ [])

def Parsed.push (p : Parsed) (leaf : Bytes) : Parsed := { p with components := p.components ++ [leaf] }

/-- A file system without symbolic links. `opens` says what can fail an `open` whose path leads somewhere: a missing
permission and, under `R2_RESOLVE`, a mount point on the way. -/
structure Kernel (Node : Type) where
  root : Node
  lookup : Node → Bytes → Except Int32 Node
  opens : (confined : Bool) → Node → Bytes → Except Int32 Unit
  hasOpenat2 : Bool
  create : Node → Bytes → Except Int32 Unit

def ENOENT : Int32 := 2
def EEXIST : Int32 := 17
def ENOSYS : Int32 := 38

def toCstring (path : Bytes) (op : String) : Result Unit :=
  if 0 ∈ path then .error ((PlatformError.new .invalidInput .none op).withPath path) else .ok ()

section Calls

variable {Node : Type} (k : Kernel Node) (dirfd : Node)

def Kernel.walk (p : Parsed) : Except Int32 Node :=
  p.components.foldlM k.lookup (if p.absolute then k.root else dirfd)

def Kernel.open (confined : Bool) (path : Bytes) : Except Int32 Node :=
  if path = [] then .error ENOENT
  else do
    let node ← k.walk dirfd (parse path)
    k.opens confined dirfd path
    pure node

def Kernel.mkdir (path : Bytes) : Except Int32 (Node × Bytes) :=
  if path = [] then .error ENOENT
  else
    match (parse path).components.getLast? with
    | none => .error EEXIST
    | some leaf => do
      let node ← k.walk dirfd { parse path with components := (parse path).components.dropLast }
      k.create node leaf
      pure (node, leaf)

def openat (rel : Bytes) : Result Node := do
  toCstring rel "openat"
  (k.open dirfd false rel).mapError (osErr "openat" rel)

def openat2Raw (rel : Bytes) : Result Node := do
  toCstring rel "openat2"
  if k.hasOpenat2 then (k.open dirfd true rel).mapError (osErr "openat2" rel)
  else .error (.new .unsupported (.errno ENOSYS) "openat2")

def openatR2 (rel : Bytes) : Result Node :=
  match openat2Raw k dirfd rel with
  | .ok fd => .ok fd
  | .error e => if e.kind = .unsupported then openat k dirfd rel else .error e

def mkdirat (rel : Bytes) : Result (Node × Bytes) := do
  toCstring rel "mkdirat"
  (k.mkdir dirfd rel).mapError (osErr "mkdirat" rel)

def createDir (rel : Bytes) : Result (Node × Bytes) :=
  match splitLastComponent rel with
  | none => mkdirat k dirfd rel
  | some (parent, leaf) => do
    let parentFd ← openatR2 k dirfd parent
    mkdirat k parentFd leaf

end Calls

section Cut

variable {p : UInt8 → Bool} {b : UInt8} {xs ys rel front leaf dir : Bytes} {n : ℕ}

theorem rposition_append (hb : p b) (hys : ∀ y ∈ ys, ¬ p y) : rposition p (xs ++ b :: ys) = some xs.length := by
  have hidx : (xs ++ b :: ys).reverse.findIdx? p = some ys.length := by
    rw [List.reverse_append, List.reverse_cons, List.append_assoc, List.findIdx?_append,
      List.findIdx?_eq_none_iff.mpr (by simpa using hys), List.singleton_append, List.findIdx?_cons, if_pos hb]
    simp
  rw [rposition, hidx, Option.map_some, List.length_append, List.length_cons]
  congr 1
  omega

theorem rposition_eq_none (h : ∀ x ∈ xs, ¬ p x) : rposition p xs = none := by
  rw [rposition, List.findIdx?_eq_none_iff.mpr (by simpa using h)]
  rfl

structure Cut (rel front leaf : Bytes) (n : ℕ) : Prop where
  eq : rel = front ++ leaf ++ List.replicate n slash
  leaf_ne : leaf ≠ []
  leaf_plain : slash ∉ leaf
  front_eq : front = [] ∨ ∃ dir, front = dir ++ [slash]

theorem exists_last (xs : Bytes) :
    ∃ front tail, xs = front ++ tail ∧ slash ∉ tail ∧ (front = [] ∨ ∃ dir, front = dir ++ [slash]) := by
  induction xs using List.reverseRecOn with
  | nil => exact ⟨[], [], rfl, List.not_mem_nil, .inl rfl⟩
  | append_singleton xs b ih =>
    by_cases hb : b = slash
    · exact ⟨xs ++ [b], [], (List.append_nil _).symm, List.not_mem_nil, .inr ⟨xs, by rw [hb]⟩⟩
    · obtain ⟨front, tail, rfl, htail, hfront⟩ := ih
      exact ⟨front, tail ++ [b], List.append_assoc .., by simp [htail, Ne.symm hb], hfront⟩

theorem exists_cut (h : ∃ b ∈ rel, b ≠ slash) : ∃ front leaf n, Cut rel front leaf n := by
  induction rel using List.reverseRecOn with
  | nil => simp at h
  | append_singleton xs b ih =>
    by_cases hb : b = slash
    · obtain ⟨front, leaf, n, hcut⟩ := ih (by simpa [hb] using h)
      refine ⟨front, leaf, n + 1, ?_, hcut.leaf_ne, hcut.leaf_plain, hcut.front_eq⟩
      rw [hcut.eq, hb, List.replicate_succ', List.append_assoc, List.append_assoc]
    · obtain ⟨front, tail, rfl, htail, hfront⟩ := exists_last xs
      exact ⟨front, tail ++ [b], 0, by simp, by simp, by simp [htail, Ne.symm hb], hfront⟩

theorem Cut.trimmed (h : Cut rel front leaf n) :
    (rposition (· != slash) rel).map (fun i => rel.take (i + 1)) = some (front ++ leaf) := by
  obtain ⟨init, last, hleaf⟩ : ∃ init last, leaf = init ++ [last] :=
    ⟨leaf.dropLast, leaf.getLast h.leaf_ne, (List.dropLast_concat_getLast _).symm⟩
  have hlast : last ≠ slash := fun he => h.leaf_plain (by simp [hleaf, he])
  have hrel : rel = (front ++ init) ++ last :: List.replicate n slash := by rw [h.eq, hleaf]; simp
  have hpos : rposition (· != slash) rel = some (front ++ init).length := by
    rw [hrel]
    apply rposition_append
    · simpa using hlast
    · intro y hy
      simp [List.eq_of_mem_replicate hy]
  have hlen : (front ++ leaf).length = (front ++ init).length + 1 := by
    rw [hleaf]
    simp only [List.length_append, List.length_singleton]
    omega
  rw [hpos, Option.map_some, h.eq, ← hlen, List.take_left' rfl]

theorem Cut.split_relative (h : Cut rel [] leaf n) : splitLastComponent rel = none := by
  obtain ⟨i, hi, htrim⟩ := Option.map_eq_some_iff.mp h.trimmed
  have hnone : rposition (· == slash) leaf = none := by
    apply rposition_eq_none
    intro x hx hs
    exact h.leaf_plain (by simpa [eq_of_beq hs] using hx)
  simp only [splitLastComponent, hi, Option.bind_eq_bind, Option.bind_some, htrim, List.nil_append, hnone,
    Option.bind_none]

theorem Cut.split_parent (h : Cut rel (dir ++ [slash]) leaf n) : splitLastComponent rel = some (dir, leaf) := by
  obtain ⟨i, hi, htrim⟩ := Option.map_eq_some_iff.mp h.trimmed
  rw [List.append_assoc, List.singleton_append] at htrim
  have hpos : rposition (· == slash) (dir ++ slash :: leaf) = some dir.length := by
    apply rposition_append
    · rfl
    · intro y hy hs
      exact h.leaf_plain (by simpa [eq_of_beq hs] using hy)
  simp [splitLastComponent, hi, htrim, hpos]

end Cut

section Components

variable {rel front leaf dir xs ys : Bytes} {n : ℕ}

theorem components_slash : (parse (xs ++ slash :: ys)).components = (parse xs).components ++ (parse ys).components := by
  simp only [parse, List.splitOn_append_cons_self, List.filter_append]

theorem components_plain (hne : leaf ≠ []) (h : slash ∉ leaf) : (parse leaf).components = [leaf] := by
  simp [parse, List.splitOn_eq_singleton h, hne]

theorem components_slashes : (parse (xs ++ List.replicate n slash)).components = (parse xs).components := by
  induction n with
  | zero => simp
  | succ n ih =>
    rw [List.replicate_succ', ← List.append_assoc, components_slash, ih]
    simp [parse]

theorem parse_absolute (h : xs ≠ []) : (parse (xs ++ ys)).absolute = (parse xs).absolute := by
  cases xs with
  | nil => exact absurd rfl h
  | cons x xs => rfl

theorem Cut.parse_relative (h : Cut rel [] leaf n) : parse rel = ⟨false, [leaf]⟩ := by
  have hcomp : (parse rel).components = [leaf] := by
    rw [h.eq, List.nil_append, components_slashes, components_plain h.leaf_ne h.leaf_plain]
  have habs : (parse rel).absolute = false := by
    rw [h.eq, List.nil_append, parse_absolute h.leaf_ne]
    cases hleaf : leaf with
    | nil => exact absurd hleaf h.leaf_ne
    | cons b rest =>
      have hb : b ≠ slash := fun he => h.leaf_plain (by simp [hleaf, he])
      simpa [parse] using hb
  rw [← hcomp, ← habs]

theorem Cut.components_parent (h : Cut rel (dir ++ [slash]) leaf n) :
    (parse rel).components = (parse dir).components ++ [leaf] := by
  have hrel : rel = (dir ++ slash :: leaf) ++ List.replicate n slash := by rw [h.eq]; simp
  rw [hrel, components_slashes, components_slash, components_plain h.leaf_ne h.leaf_plain]

theorem Cut.absolute_parent (h : Cut rel (dir ++ [slash]) leaf n) :
    (parse rel).absolute = (parse dir).absolute ↔ dir ≠ [] := by
  have hrel : rel = dir ++ slash :: (leaf ++ List.replicate n slash) := by rw [h.eq]; simp
  rw [hrel]
  cases dir with
  | nil => simp [parse]
  | cons b dir => simp [parse]

end Components

section Place

variable {Node : Type} {k : Kernel Node} {dirfd node : Node} {place : Node × Bytes} {rel path leaf dir : Bytes} {n : ℕ}

theorem mapError_eq_ok {ε ε' α : Type} {x : Except ε α} {f : ε → ε'} {a : α} :
    x.mapError f = .ok a ↔ x = .ok a := by
  cases x <;> simp [Except.mapError]

theorem bind_eq_ok {ε α β : Type} {x : Except ε α} {f : α → Except ε β} {b : β} :
    (x >>= f) = .ok b ↔ ∃ a, x = .ok a ∧ f a = .ok b := by
  cases x <;> simp [bind, Except.bind]

theorem toCstring_eq_ok {op : String} : toCstring path op = .ok () ↔ 0 ∉ path := by
  unfold toCstring
  split_ifs with h <;> simp [h]

theorem open_eq_ok {confined : Bool} : k.open dirfd confined path = .ok node ↔
    path ≠ [] ∧ k.walk dirfd (parse path) = .ok node ∧ k.opens confined dirfd path = .ok () := by
  by_cases h : path = []
  · simp [Kernel.open, h]
  · simp only [Kernel.open, h, if_false, bind_eq_ok]
    constructor
    · rintro ⟨_, hwalk, _, hopens, ⟨⟩⟩
      exact ⟨h, hwalk, hopens⟩
    · rintro ⟨-, hwalk, hopens⟩
      exact ⟨node, hwalk, (), hopens, rfl⟩

theorem mkdirat_eq_ok : mkdirat k dirfd rel = .ok place ↔ 0 ∉ rel ∧ k.mkdir dirfd rel = .ok place := by
  simp only [mkdirat, bind_eq_ok, mapError_eq_ok]
  constructor
  · rintro ⟨_, hrel, hmkdir⟩
    exact ⟨toCstring_eq_ok.mp hrel, hmkdir⟩
  · rintro ⟨hrel, hmkdir⟩
    exact ⟨(), toCstring_eq_ok.mpr hrel, hmkdir⟩

theorem mkdir_push {p : Parsed} (hne : rel ≠ []) (hp : parse rel = p.push leaf) : k.mkdir dirfd rel = .ok place ↔
    ∃ node, k.walk dirfd p = .ok node ∧ k.create node leaf = .ok () ∧ place = (node, leaf) := by
  simp only [Kernel.mkdir, hne, if_false, hp, Parsed.push, List.getLast?_concat, List.dropLast_concat, bind_eq_ok]
  constructor
  · rintro ⟨node, hwalk, _, hcreate, ⟨⟩⟩
    exact ⟨node, hwalk, hcreate, rfl⟩
  · rintro ⟨node, hwalk, hcreate, rfl⟩
    exact ⟨node, hwalk, (), hcreate, rfl⟩

theorem openatR2_eq_ok (h : openatR2 k dirfd path = .ok node) :
    0 ∉ path ∧ path ≠ [] ∧ k.walk dirfd (parse path) = .ok node := by
  have hraw : ∀ {op : String} {confined : Bool},
      (toCstring path op >>= fun _ => (k.open dirfd confined path).mapError (osErr op path)) = .ok node →
        0 ∉ path ∧ path ≠ [] ∧ k.walk dirfd (parse path) = .ok node := by
    intro op confined h
    obtain ⟨_, hpath, hopen⟩ := bind_eq_ok.mp h
    obtain ⟨hne, hwalk, -⟩ := open_eq_ok.mp (mapError_eq_ok.mp hopen)
    exact ⟨toCstring_eq_ok.mp hpath, hne, hwalk⟩
  unfold openatR2 openat2Raw at h
  by_cases h2 : k.hasOpenat2
  · rw [if_pos h2] at h
    split at h
    · next fd heq =>
      cases h
      exact hraw heq
    · split_ifs at h
      exact hraw h
  · rw [if_neg h2] at h
    split at h
    · next fd heq =>
      obtain ⟨_, -, herr⟩ := bind_eq_ok.mp heq
      cases herr
    · split_ifs at h
      exact hraw h

theorem openatR2_of_walk (hpath : 0 ∉ path) (hne : path ≠ []) (hwalk : k.walk dirfd (parse path) = .ok node)
    (hopens : ∀ confined, k.opens confined dirfd path = .ok ()) : openatR2 k dirfd path = .ok node := by
  have hopen : ∀ confined, k.open dirfd confined path = .ok node :=
    fun confined => open_eq_ok.mpr ⟨hne, hwalk, hopens confined⟩
  have hcstring : ∀ op, toCstring path op = .ok () := fun op => toCstring_eq_ok.mpr hpath
  unfold openatR2 openat2Raw openat
  simp only [hcstring, hopen]
  by_cases h2 : k.hasOpenat2 <;> simp [h2, Except.mapError, bind, Except.bind, PlatformError.new]

theorem Cut.zero_mem (h : Cut rel (dir ++ [slash]) leaf n) : 0 ∉ rel ↔ 0 ∉ dir ∧ 0 ∉ leaf := by
  have hslash : (0 : UInt8) ≠ slash := by decide
  rw [h.eq]
  simp [hslash]

theorem Cut.createDir_eq (h : Cut rel (dir ++ [slash]) leaf n) : createDir k dirfd rel = .ok place ↔
    ∃ node, openatR2 k dirfd dir = .ok node ∧ 0 ∉ leaf ∧ k.create node leaf = .ok () ∧ place = (node, leaf) := by
  have hleaf : Cut leaf [] leaf 0 := ⟨by simp, h.leaf_ne, h.leaf_plain, .inl rfl⟩
  have hpush : parse leaf = Parsed.push ⟨false, []⟩ leaf := hleaf.parse_relative
  simp only [createDir, h.split_parent, bind_eq_ok, mkdirat_eq_ok, mkdir_push h.leaf_ne hpush]
  constructor
  · rintro ⟨fd, hopen, hzero, node, hwalk, hcreate, rfl⟩
    cases hwalk
    exact ⟨fd, hopen, hzero, hcreate, rfl⟩
  · rintro ⟨node, hopen, hzero, hcreate, rfl⟩
    exact ⟨node, hopen, hzero, node, rfl, hcreate, rfl⟩

end Place

/-- What the cut promises: no part of the path is lost, and the directory is made where `mkdirat` of the whole path
makes it, wherever the parent can be opened. -/
structure Preserves (rel : Bytes) : Prop where
  parts : ∀ parent leaf, splitLastComponent rel = some (parent, leaf) →
    leaf ≠ [] ∧ slash ∉ leaf ∧ parse rel = (parse parent).push leaf
  single : splitLastComponent rel = none → (parse rel).components.length = 1
  place : ∀ (Node : Type) (k : Kernel Node) (dirfd : Node) (place : Node × Bytes),
    createDir k dirfd rel = .ok place → mkdirat k dirfd rel = .ok place
  reached : ∀ (Node : Type) (k : Kernel Node) (dirfd : Node) (place : Node × Bytes),
    (∀ confined dir path, k.opens confined dir path = .ok ()) →
    mkdirat k dirfd rel = .ok place → createDir k dirfd rel = .ok place

def RootChild (rel : Bytes) : Prop :=
  ∃ name n, name ≠ [] ∧ slash ∉ name ∧ rel = slash :: (name ++ List.replicate n slash)

section Main

variable {rel leaf dir : Bytes} {n : ℕ}

theorem Cut.preserves_relative (h : Cut rel [] leaf n) : Preserves rel := by
  have hsplit := h.split_relative
  constructor
  · intro parent leaf' hsome
    rw [hsplit] at hsome
    cases hsome
  · intro _
    rw [h.parse_relative]
    rfl
  · intro Node k dirfd place hplace
    simpa only [createDir, hsplit] using hplace
  · intro Node k dirfd place _ hplace
    simpa only [createDir, hsplit] using hplace

theorem Cut.preserves_parent (h : Cut rel (dir ++ [slash]) leaf n) (hdir : dir ≠ []) : Preserves rel := by
  have hsplit := h.split_parent
  have hpush : parse rel = (parse dir).push leaf := Parsed.ext (h.absolute_parent.mpr hdir) h.components_parent
  have hne : rel ≠ [] := by
    rw [h.eq]
    simp
  constructor
  · intro parent leaf' hsome
    rw [hsplit] at hsome
    cases hsome
    exact ⟨h.leaf_ne, h.leaf_plain, hpush⟩
  · intro hnone
    rw [hsplit] at hnone
    cases hnone
  · intro Node k dirfd place hplace
    obtain ⟨node, hopen, hleaf, hcreate, rfl⟩ := h.createDir_eq.mp hplace
    obtain ⟨hzero, -, hwalk⟩ := openatR2_eq_ok hopen
    exact mkdirat_eq_ok.mpr ⟨h.zero_mem.mpr ⟨hzero, hleaf⟩, (mkdir_push hne hpush).mpr ⟨node, hwalk, hcreate, rfl⟩⟩
  · intro Node k dirfd place hopens hplace
    obtain ⟨hzero, hmkdir⟩ := mkdirat_eq_ok.mp hplace
    obtain ⟨hdirZero, hleafZero⟩ := h.zero_mem.mp hzero
    obtain ⟨node, hwalk, hcreate, rfl⟩ := (mkdir_push hne hpush).mp hmkdir
    exact h.createDir_eq.mpr
      ⟨node, openatR2_of_walk hdirZero hdir hwalk fun confined => hopens confined dirfd dir, hleafZero, hcreate, rfl⟩

theorem create_dir_preserves_iff (rel : Bytes) (h : ∃ b ∈ rel, b ≠ slash) : Preserves rel ↔ ¬ RootChild rel := by
  constructor
  · rintro hpres ⟨name, n, hne, hplain, hrel⟩
    have hcut : Cut rel ([] ++ [slash]) name n := ⟨by rw [hrel]; rfl, hne, hplain, .inr ⟨[], rfl⟩⟩
    obtain ⟨-, -, hparse⟩ := hpres.parts [] name hcut.split_parent
    have habs : (parse rel).absolute = (parse []).absolute := by rw [hparse, Parsed.push]
    exact hcut.absolute_parent.mp habs rfl
  · intro hroot
    obtain ⟨front, leaf, n, hcut⟩ := exists_cut h
    obtain rfl | ⟨dir, rfl⟩ := hcut.front_eq
    · exact hcut.preserves_relative
    · apply hcut.preserves_parent
      rintro rfl
      exact hroot ⟨leaf, n, hcut.leaf_ne, hcut.leaf_plain, by rw [hcut.eq]; simp⟩

theorem doubled_slash_preserved :
    (∃ b ∈ [0x61, slash, slash, 0x62, slash], b ≠ slash) ∧ Preserves [0x61, slash, slash, 0x62, slash] := by
  have h : ∃ b ∈ [0x61, slash, slash, 0x62, slash], b ≠ slash := ⟨0x61, by decide, by decide⟩
  refine ⟨h, (create_dir_preserves_iff _ h).mpr ?_⟩
  rintro ⟨name, n, -, -, hrel⟩
  cases hrel

def openVolume : Kernel ℕ where
  root := 0
  lookup node _ := .ok (node + 1)
  opens _ _ _ := .ok ()
  hasOpenat2 := true
  create _ _ := .ok ()

theorem root_child_lost :
    splitLastComponent [slash, 0x61] = some ([], [0x61]) ∧ parse [slash, 0x61] = ⟨true, [[0x61]]⟩ ∧
      (parse []).push [0x61] = ⟨false, [[0x61]]⟩ ∧ mkdirat openVolume 7 [slash, 0x61] = .ok (0, [0x61]) ∧
      createDir openVolume 7 [slash, 0x61] = .error (osErr "openat2" [] ENOENT) ∧ ¬ Preserves [slash, 0x61] := by
  have hcreate : createDir openVolume 7 [slash, 0x61] = .error (osErr "openat2" [] ENOENT) := by rfl
  have hmkdir : mkdirat openVolume 7 [slash, 0x61] = .ok (0, [0x61]) := by rfl
  refine ⟨by decide, by decide, by decide, hmkdir, hcreate, fun h => ?_⟩
  cases hcreate.symm.trans (h.reached ℕ openVolume 7 _ (fun _ _ _ => rfl) hmkdir)

end Main

end Rustils.Fs.CreateDir
