import Rustils.Coreutils.Files

namespace Rustils.Coreutils.Rcp

open Files

/-- The order in which the system lists a directory: any, and not the same every time. -/
structure Listing where
  arrange : Disk → Path → List Name
  perm : ∀ d p, (arrange d p).Perm (d.names p)

/-- What a copy leaves and answers; `none` where it needs more fuel. -/
abbrev Outcome := Option (Disk × Except Errno Unit)

def copyEntries (copy : Path → Path → Disk → Outcome) (src dst : Path) : List Name → Disk → Outcome
  | [], d => some (d, .ok ())
  | n :: names, d => do
    let (d, r) ← copy (n :: src) (n :: dst) d
    match r with
    | .ok () => copyEntries copy src dst names d
    | .error e => some (d, .error e)

def createParent (dst : Path) (d : Disk) : Except Errno Disk :=
  match dst with
  | [] => .ok d
  | _ :: parent => d.createDirAll parent

section Copy

variable (listing : Listing)

def copyRecursive : ℕ → Path → Path → Disk → Outcome
  | 0, _, _, _ => none
  | fuel + 1, src, dst, d =>
    if d.isDir src then
      match d.createDirAll dst with
      | .error e => some (d, .error e)
      | .ok d => copyEntries (copyRecursive fuel) src dst (listing.arrange d src) d
    else
      match createParent dst d with
      | .error e => some (d, .error e)
      | .ok d =>
        match d.copyFile src dst with
        | .error e => some (d, .error e)
        | .ok d => some (d, .ok ())

structure Arg where
  path : Path
  fileName : Option Name

inductive Report
  | cannotStat
  | omitted
  | copied (r : Except Errno Unit)
  | panicked

/-- `none` where the name is unwrapped and there is none. -/
def finalDst (d : Disk) (dst : Path) (src : Arg) : Option Path :=
  if d.isDir dst then src.fileName.map (· :: dst) else some dst

def copySource (fuel : ℕ) (recursive : Bool) (dst : Path) (src : Arg) (d : Disk) : Option (Disk × Report) :=
  if d.node src.path = none then some (d, .cannotStat)
  else
    match finalDst d dst src with
    | none => some (d, .panicked)
    | some dst =>
      if d.isDir src.path && !recursive then some (d, .omitted)
      else (copyRecursive listing fuel src.path dst d).map fun (d, r) => (d, .copied r)

end Copy

structure Grows (dst : Path) (d d' : Disk) : Prop where
  kept : ∀ p, ¬ dst <:+ p → (p <:+ dst → d.node p ≠ none) → d'.node p = d.node p
  dir : ∀ p, d.node p = some .dir → d'.node p = some .dir
  file : ∀ p, d.isFile p = true → d'.isFile p = true

namespace Grows

variable {dst : Path} {d d' d'' : Disk}

theorem refl (dst : Path) (d : Disk) : Grows dst d d := ⟨fun _ _ _ => rfl, fun _ h => h, fun _ h => h⟩

theorem trans (h : Grows dst d d') (h' : Grows dst d' d'') : Grows dst d d'' where
  kept p hp hnone := by
    have hd' := h.kept p hp hnone
    rw [h'.kept p hp (by rwa [hd']), hd']
  dir p hp := h'.dir p (h.dir p hp)
  file p hp := h'.file p (h.file p hp)

theorem of_child {n : Name} (h : Grows (n :: dst) d d') : Grows dst d d' where
  kept p hp hnone := by
    apply h.kept p
    · exact fun hsuf => hp ((List.suffix_cons n dst).trans hsuf)
    · intro hsuf
      obtain rfl | hsuf := List.suffix_cons_iff.mp hsuf
      · exact absurd (List.suffix_cons n dst) hp
      · exact hnone hsuf
  dir := h.dir
  file := h.file

theorem createDirAll {p : Path} (hp : p <:+ dst) (h : d.createDirAll p = .ok d') : Grows dst d d' := by
  cases hfile : d.onFile p with
  | true =>
    obtain ⟨e, he⟩ := Disk.createDirAll_error hfile
    rw [h] at he
    cases he
  | false =>
    obtain ⟨_, hd, hnode⟩ := Disk.createDirAll_ok hfile
    obtain rfl := Except.ok.inj (h.symm.trans hd)
    have hdir : ∀ {q x}, q <:+ p → d.node q = some x → x = .dir := by
      intro q x hq hx
      cases x with
      | dir => rfl
      | file bytes =>
        have hon : d.onFile p = true := Disk.onFile_iff.mpr ⟨q, hq, bytes, hx⟩
        rw [hfile] at hon
        cases hon
    have hsame : ∀ q x, d.node q = some x → d'.node q = some x := by
      intro q x hx
      rw [hnode]
      split_ifs with hq
      · rw [hdir hq hx]
      · exact hx
    constructor
    · intro q _ hnone
      cases hx : d.node q with
      | some x => exact hsame q x hx
      | none =>
        rw [hnode, if_neg, hx]
        exact fun hq => hnone (hq.trans hp) hx
    · exact fun q hq => hsame q .dir hq
    · intro q hq
      obtain ⟨bytes, hx⟩ := Disk.isFile_iff.mp hq
      exact Disk.isFile_iff.mpr ⟨bytes, hsame q _ hx⟩

theorem write {bytes : List UInt8} (h : d.write bytes dst = .ok d') : Grows dst d d' := by
  have hfile : d.node dst ≠ some .dir ∧ d'.isFile dst = true := by
    cases dst with
    | nil => cases h
    | cons n dst =>
      rw [Disk.write] at h
      split_ifs at h with hdir
      obtain rfl := Except.ok.inj h
      exact ⟨hdir, Disk.isFile_iff.mpr ⟨bytes, by rw [Disk.node_put, if_pos rfl]⟩⟩
  constructor
  · intro p hp _
    apply Disk.write_other h
    rintro rfl
    exact hp List.suffix_rfl
  · intro p hp
    rw [Disk.write_other h (by rintro rfl; exact hfile.1 hp), hp]
  · intro p hp
    by_cases heq : p = dst
    · rw [heq]
      exact hfile.2
    · rwa [Disk.isFile, Disk.write_other h heq]

theorem copyFile {src : Path} (h : d.copyFile src dst = .ok d') : Grows dst d d' := by
  unfold Disk.copyFile at h
  split at h
  · cases hw : d.write [] dst with
    | error e =>
      rw [hw] at h
      cases h
    | ok d₁ =>
      rw [hw] at h
      exact (write hw).trans (write h)
  · cases h
  · cases h

theorem createParent (h : createParent dst d = .ok d') : Grows dst d d' := by
  cases dst with
  | nil =>
    obtain rfl := Except.ok.inj h
    exact refl [] d
  | cons n parent => exact createDirAll (List.suffix_cons n parent) h

end Grows

section Copy

variable {listing : Listing} {fuel : ℕ} {src dst : Path} {d d' : Disk} {r : Except Errno Unit}

theorem copyEntries_grows {copy : Path → Path → Disk → Outcome}
    (hcopy : ∀ {src dst d d' r}, copy src dst d = some (d', r) → Grows dst d d') {names : List Name}
    (h : copyEntries copy src dst names d = some (d', r)) : Grows dst d d' := by
  induction names generalizing d with
  | nil =>
    obtain ⟨rfl, -⟩ := Prod.mk.inj (Option.some.inj h)
    exact .refl dst d
  | cons n names ih =>
    obtain ⟨⟨d₁, r₁⟩, hd₁, h⟩ := Option.bind_eq_some_iff.mp h
    have hchild := (hcopy hd₁).of_child
    cases r₁ with
    | ok _ => exact hchild.trans (ih h)
    | error e =>
      obtain ⟨rfl, -⟩ := Prod.mk.inj (Option.some.inj h)
      exact hchild

theorem copyRecursive_grows (h : copyRecursive listing fuel src dst d = some (d', r)) : Grows dst d d' := by
  induction fuel generalizing src dst d d' r with
  | zero => cases h
  | succ fuel ih =>
    rw [copyRecursive] at h
    split_ifs at h
    · cases hmade : d.createDirAll dst with
      | error e =>
        rw [hmade] at h
        obtain ⟨rfl, -⟩ := Prod.mk.inj (Option.some.inj h)
        exact .refl dst d
      | ok d₁ =>
        rw [hmade] at h
        exact (Grows.createDirAll List.suffix_rfl hmade).trans (copyEntries_grows ih h)
    · cases hmade : createParent dst d with
      | error e =>
        rw [hmade] at h
        obtain ⟨rfl, -⟩ := Prod.mk.inj (Option.some.inj h)
        exact .refl dst d
      | ok d₁ =>
        rw [hmade] at h
        dsimp only at h
        cases hcopied : d₁.copyFile src dst with
        | error e =>
          rw [hcopied] at h
          obtain ⟨rfl, -⟩ := Prod.mk.inj (Option.some.inj h)
          exact .createParent hmade
        | ok d₂ =>
          rw [hcopied] at h
          obtain ⟨rfl, -⟩ := Prod.mk.inj (Option.some.inj h)
          exact (Grows.createParent hmade).trans (.copyFile hcopied)

theorem copyEntries_mono {copy copy' : Path → Path → Disk → Outcome}
    (hcopy : ∀ {src dst d x}, copy src dst d = some x → copy' src dst d = some x) {names : List Name}
    {x : Disk × Except Errno Unit} (h : copyEntries copy src dst names d = some x) :
    copyEntries copy' src dst names d = some x := by
  induction names generalizing d with
  | nil => exact h
  | cons n names ih =>
    obtain ⟨⟨d₁, r₁⟩, hd₁, h⟩ := Option.bind_eq_some_iff.mp h
    rw [copyEntries, hcopy hd₁]
    cases r₁ with
    | ok _ => exact ih h
    | error e => exact h

theorem copyRecursive_succ {x : Disk × Except Errno Unit} (h : copyRecursive listing fuel src dst d = some x) :
    copyRecursive listing (fuel + 1) src dst d = some x := by
  induction fuel generalizing src dst d x with
  | zero => cases h
  | succ fuel ih =>
    rw [copyRecursive] at h ⊢
    split_ifs at h ⊢
    · cases hmade : d.createDirAll dst with
      | error e =>
        rw [hmade] at h
        exact h
      | ok d₁ =>
        rw [hmade] at h
        exact copyEntries_mono ih h
    · exact h

theorem copyRecursive_mono {m : ℕ} {x : Disk × Except Errno Unit} (hm : fuel ≤ m)
    (h : copyRecursive listing fuel src dst d = some x) : copyRecursive listing m src dst d = some x := by
  induction hm with
  | refl => exact h
  | step _ ih => exact copyRecursive_succ ih

theorem copyRecursive_unique {m : ℕ} {x y : Disk × Except Errno Unit}
    (h : copyRecursive listing fuel src dst d = some x) (h' : copyRecursive listing m src dst d = some y) :
    x = y := by
  have hx := copyRecursive_mono (Nat.le_max_left fuel m) h
  have hy := copyRecursive_mono (Nat.le_max_right fuel m) h'
  exact Option.some.inj (hx.symm.trans hy)

end Copy

section Steps

variable {src dst : Path} {listing : Listing} {fuel : ℕ} {d d₁ : Disk}

theorem createParent_ok (h : d.onFile dst.tail = false) :
    ∃ d', createParent dst d = .ok d' ∧
      ∀ p, d'.node p = if p <:+ dst.tail then some .dir else d.node p := by
  cases dst with
  | nil => exact Disk.createDirAll_ok h
  | cons n parent => exact Disk.createDirAll_ok h

theorem createParent_dir (h : d.node dst.tail = some .dir) :
    ∃ d', createParent dst d = .ok d' ∧ d'.node = d.node := by
  cases dst with
  | nil => exact ⟨d, rfl, rfl⟩
  | cons n parent => exact Disk.createDirAll_dir h

theorem createParent_error (h : d.onFile dst.tail = true) :
    ∃ e, createParent dst d = .error e := by
  cases dst with
  | nil => cases h
  | cons n parent => exact Disk.createDirAll_error h

theorem copyRecursive_dir (hsrc : d.node src = some .dir)
    (h : d.createDirAll dst = .ok d₁) : copyRecursive listing (fuel + 1) src dst d =
      copyEntries (copyRecursive listing fuel) src dst (listing.arrange d₁ src) d₁ := by
  rw [copyRecursive, if_pos (by simpa [Disk.isDir] using hsrc), h]

theorem copyRecursive_file (hsrc : d.node src ≠ some .dir)
    (h : createParent dst d = .ok d₁) : copyRecursive listing (fuel + 1) src dst d =
      match d₁.copyFile src dst with
      | .error e => some (d₁, .error e)
      | .ok d => some (d, .ok ()) := by
  rw [copyRecursive, if_neg (by simpa [Disk.isDir] using hsrc), h]

theorem mem_arrange {p : Path} {n : Name} :
    n ∈ listing.arrange d p ↔ d.node (n :: p) ≠ none := by
  rw [(listing.perm d p).mem_iff, Disk.mem_names]

theorem nodup_arrange {p : Path} : (listing.arrange d p).Nodup :=
  (listing.perm d p).nodup_iff.mpr Disk.nodup_names

end Steps

end Rustils.Coreutils.Rcp
