import Mathlib.Data.List.Dedup
import Mathlib.Data.List.Infix

namespace Rustils.Coreutils.Files

abbrev Name := List UInt8

abbrev Path := List Name

inductive Node
  | dir
  | file (bytes : List UInt8)
  deriving DecidableEq

inductive Errno
  | enoent
  | eexist
  | enotdir
  | eisdir
  | einval
  deriving DecidableEq

def nodeIn (rows : List (Path × Node)) (p : Path) : Option Node :=
  if p = [] then some .dir else (rows.find? (·.1 = p)).map Prod.snd

structure Disk where
  rows : List (Path × Node)
  closed : ∀ n p, nodeIn rows (n :: p) ≠ none → nodeIn rows p = some .dir

namespace Disk

variable (d : Disk)

def node (p : Path) : Option Node := nodeIn d.rows p

theorem nodeIn_cons (rows : List (Path × Node)) (n : Name) (p q : Path) (x : Node) :
    nodeIn ((n :: p, x) :: rows) q = if q = n :: p then some x else nodeIn rows q := by
  unfold nodeIn
  by_cases hq : q = n :: p
  · subst hq
    simp
  · simp [Ne.symm hq, hq]

def put (n : Name) (p : Path) (x : Node) (hp : d.node p = some .dir)
    (hx : d.node (n :: p) = some .dir → x = .dir) : Disk where
  rows := (n :: p, x) :: d.rows
  closed m q h := by
    rw [nodeIn_cons] at h ⊢
    split_ifs with hq
    · subst hq
      rw [if_neg (List.cons_ne_self m (n :: p))] at h
      rw [hx (d.closed m (n :: p) h)]
    · split_ifs at h with hmq
      · obtain ⟨rfl, rfl⟩ := List.cons.inj hmq
        exact hp
      · exact d.closed m q h

def isDir (p : Path) : Bool := d.node p = some .dir

def isFile (p : Path) : Bool :=
  match d.node p with
  | some (.file _) => true
  | _ => false

def onFile : Path → Bool
  | [] => false
  | n :: p => d.isFile (n :: p) || onFile p

def names (p : Path) : List Name :=
  (d.rows.filterMap fun row => match row.1 with
    | n :: q => if q = p then some n else none
    | [] => none).dedup

def mkdir : Path → Except Errno Disk
  | [] => .error .eexist
  | n :: p =>
    if d.node (n :: p) = none then
      if hp : d.node p = some .dir then .ok (d.put n p .dir hp fun _ => rfl)
      else if d.onFile p then .error .enotdir
      else .error .enoent
    else .error .eexist

def createDirAll (d : Disk) : Path → Except Errno Disk
  | [] => .ok d
  | n :: p =>
    match d.mkdir (n :: p) with
    | .ok d => .ok d
    | .error .enoent => do
      let d ← d.createDirAll p
      match d.mkdir (n :: p) with
      | .ok d => .ok d
      | .error e => if d.isDir (n :: p) then .ok d else .error e
    | .error e => if d.isDir (n :: p) then .ok d else .error e

def write (bytes : List UInt8) : Path → Except Errno Disk
  | [] => .error .eisdir
  | n :: p =>
    if h : d.node (n :: p) = some .dir then .error .eisdir
    else if hp : d.node p = some .dir then .ok (d.put n p (.file bytes) hp fun hd => absurd hd h)
    else if d.onFile p then .error .enotdir
    else .error .enoent

def content (p : Path) : List UInt8 :=
  match d.node p with
  | some (.file bytes) => bytes
  | _ => []

/-- `fs::copy`: the destination is truncated when it is opened, and what the source holds then is
written to it. -/
def copyFile (src dst : Path) : Except Errno Disk :=
  match d.node src with
  | some (.file _) => do
    let d ← d.write [] dst
    d.write (d.content src) dst
  | some .dir => .error .einval
  | none => .error .enoent

variable {d} {p q : Path} {n : Name}

@[simp] theorem node_root : d.node [] = some .dir := rfl

theorem node_put {x : Node} (hp : d.node p = some .dir) (hx : d.node (n :: p) = some .dir → x = .dir) :
    (d.put n p x hp hx).node q = if q = n :: p then some x else d.node q :=
  nodeIn_cons d.rows n p q x

theorem parent_dir (h : d.node (n :: p) ≠ none) : d.node p = some .dir := d.closed n p h

theorem above_dir (h : d.node q ≠ none) (hp : p <:+ q) (hne : p ≠ q) : d.node p = some .dir := by
  induction q with
  | nil => exact absurd (List.suffix_nil.mp hp) hne
  | cons m q ih =>
    have hq := parent_dir h
    obtain rfl | hp := List.suffix_cons_iff.mp hp
    · exact absurd rfl hne
    · by_cases hpq : p = q
      · rw [hpq, hq]
      · exact ih (by simp [hq]) hp hpq

theorem cons_not_suffix (n : Name) (p : Path) : ¬ n :: p <:+ p := by
  intro h
  have hlen := h.length_le
  rw [List.length_cons] at hlen
  omega

theorem exists_above {c : Path} (h : d.node (c ++ p) ≠ none) : d.node p ≠ none := by
  by_cases hp : p = c ++ p
  · rwa [hp]
  · simp [above_dir h (List.suffix_append c p) hp]

theorem none_below_file {bytes : List UInt8} {c : Path} (h : d.node p = some (.file bytes)) (hc : c ≠ []) :
    d.node (c ++ p) = none := by
  by_contra hne
  have hdir := above_dir hne (List.suffix_append c p) (by simpa using hc)
  rw [h] at hdir
  cases hdir

theorem isFile_iff : d.isFile p = true ↔ ∃ bytes, d.node p = some (.file bytes) := by
  unfold isFile
  split <;> simp_all

theorem onFile_iff : d.onFile p = true ↔ ∃ q, q <:+ p ∧ ∃ bytes, d.node q = some (.file bytes) := by
  induction p with
  | nil => simp [onFile, List.suffix_nil]
  | cons n p ih =>
    rw [onFile, Bool.or_eq_true, isFile_iff, ih]
    simp only [List.suffix_cons_iff, or_and_right, exists_or, exists_eq_left]

theorem not_onFile_of_dir (h : d.node p = some .dir) : d.onFile p = false := by
  rw [← Bool.not_eq_true, onFile_iff]
  rintro ⟨q, hq, bytes, hfile⟩
  by_cases hqp : q = p
  · rw [hqp, h] at hfile
    cases hfile
  · rw [above_dir (by simp [h]) hq hqp] at hfile
    cases hfile

@[simp] theorem mem_names : n ∈ d.names p ↔ d.node (n :: p) ≠ none := by
  rw [names, List.mem_dedup, List.mem_filterMap, node, nodeIn, if_neg (List.cons_ne_nil n p),
    ← Option.isSome_iff_ne_none, Option.isSome_map, List.find?_isSome]
  apply exists_congr
  rintro ⟨path, x⟩
  apply and_congr_right
  intro _
  cases path with
  | nil => simp
  | cons m q => simp only [Option.ite_none_right_eq_some, Option.some.injEq, decide_eq_true_eq, List.cons.injEq, and_comm]

theorem nodup_names : (d.names p).Nodup := List.nodup_dedup _

theorem createDirAll_ok (h : d.onFile p = false) :
    ∃ d', d.createDirAll p = .ok d' ∧ ∀ q, d'.node q = if q <:+ p then some .dir else d.node q := by
  have hdirs : ∀ {p : Path}, d.node p = some .dir → ∀ q, d.node q = if q <:+ p then some .dir else d.node q := by
    intro p hp q
    split_ifs with hq
    · by_cases hqp : q = p
      · rw [hqp, hp]
      · exact above_dir (by simp [hp]) hq hqp
    · rfl
  induction p with
  | nil => exact ⟨d, rfl, hdirs rfl⟩
  | cons n p ih =>
    rw [onFile, Bool.or_eq_false_iff] at h
    have hput : ∀ {d' : Disk} (hp : d'.node p = some .dir), d'.node (n :: p) = none →
        (∀ q, d'.node q = if q <:+ p then some .dir else d.node q) →
        ∃ d'', d'.mkdir (n :: p) = .ok d'' ∧
          ∀ q, d''.node q = if q <:+ n :: p then some .dir else d.node q := by
      intro d' hp hnone hnode
      refine ⟨d'.put n p .dir hp fun _ => rfl, by rw [mkdir, if_pos hnone, dif_pos hp], fun q => ?_⟩
      rw [node_put, hnode]
      simp only [List.suffix_cons_iff]
      split_ifs <;> simp_all
    unfold createDirAll
    cases hn : d.node (n :: p) with
    | none =>
      by_cases hp : d.node p = some .dir
      · obtain ⟨d', hd', hnode⟩ := hput hp hn (hdirs hp)
        rw [hd']
        exact ⟨d', rfl, hnode⟩
      · obtain ⟨d₁, hd₁, hnode₁⟩ := ih h.2
        have hmkdir : d.mkdir (n :: p) = .error .enoent := by
          rw [mkdir, if_pos hn, dif_neg hp, if_neg (by simp [h.2])]
        have hnone : d₁.node (n :: p) = none := by rw [hnode₁, if_neg (cons_not_suffix n p), hn]
        have hdir : d₁.node p = some .dir := by rw [hnode₁, if_pos List.suffix_rfl]
        obtain ⟨d', hd', hnode⟩ := hput hdir hnone hnode₁
        rw [hmkdir, hd₁]
        refine ⟨d', ?_, hnode⟩
        simp only [bind, Except.bind, hd']
    | some x =>
      have hdir : d.node (n :: p) = some .dir := by
        cases x with
        | dir => exact hn
        | file bytes => simp [isFile, hn] at h
      have hmkdir : d.mkdir (n :: p) = .error .eexist := by rw [mkdir, if_neg (by simp [hn])]
      rw [hmkdir]
      refine ⟨d, ?_, hdirs hdir⟩
      simp [isDir, hdir]

theorem createDirAll_dir (h : d.node p = some .dir) : ∃ d', d.createDirAll p = .ok d' ∧ d'.node = d.node := by
  obtain ⟨d', hd', hnode⟩ := createDirAll_ok (not_onFile_of_dir h)
  refine ⟨d', hd', funext fun q => ?_⟩
  rw [hnode]
  split_ifs with hq
  · by_cases hqp : q = p
    · rw [hqp, h]
    · rw [above_dir (by simp [h]) hq hqp]
  · rfl

theorem createDirAll_error (h : d.onFile p = true) : ∃ e, d.createDirAll p = .error e := by
  cases p with
  | nil => cases h
  | cons n p =>
    have hnot : d.isDir (n :: p) = false := by
      by_contra hdir
      rw [not_onFile_of_dir (by simpa [isDir] using hdir)] at h
      cases h
    unfold createDirAll
    by_cases hn : d.node (n :: p) = none
    · have hp : d.onFile p = true := by simpa [onFile, isFile, hn] using h
      have hdir : d.node p ≠ some .dir := fun hdir => by rw [not_onFile_of_dir hdir] at hp; cases hp
      rw [mkdir, if_pos hn, dif_neg hdir, if_pos hp]
      exact ⟨.enotdir, by simp [hnot]⟩
    · rw [mkdir, if_neg hn]
      exact ⟨.eexist, by simp [hnot]⟩

theorem write_other {bytes : List UInt8} {d' : Disk} (h : d.write bytes p = .ok d') (hq : q ≠ p) :
    d'.node q = d.node q := by
  cases p with
  | nil => cases h
  | cons n p =>
    rw [write] at h
    split_ifs at h
    obtain rfl := Except.ok.inj h
    rw [node_put, if_neg hq]

theorem copyFile_other {src : Path} {d' : Disk} (h : d.copyFile src p = .ok d') (hq : q ≠ p) :
    d'.node q = d.node q := by
  unfold copyFile at h
  split at h
  · cases hw : d.write [] p with
    | error e =>
      rw [hw] at h
      cases h
    | ok d₁ =>
      rw [hw] at h
      rw [write_other h hq, write_other hw hq]
  · cases h
  · cases h

theorem write_ok (bytes : List UInt8) (hp : d.node p = some .dir) (h : d.node (n :: p) ≠ some .dir) :
    ∃ d', d.write bytes (n :: p) = .ok d' ∧
      ∀ q, d'.node q = if q = n :: p then some (.file bytes) else d.node q := by
  refine ⟨_, ?_, fun q => node_put hp (fun hd => absurd hd h)⟩
  rw [write, dif_neg h, dif_pos hp]

theorem copyFile_ok {src : Path} {bytes : List UInt8} (hsrc : d.node src = some (.file bytes))
    (hp : d.node p = some .dir) (h : d.node (n :: p) ≠ some .dir) :
    ∃ d', d.copyFile src (n :: p) = .ok d' ∧ ∀ q, d'.node q =
      if q = n :: p then some (.file (if src = n :: p then [] else bytes)) else d.node q := by
  obtain ⟨d₁, hd₁, hnode₁⟩ := write_ok [] hp h
  have hcontent : d₁.content src = if src = n :: p then [] else bytes := by
    rw [content, hnode₁, hsrc]
    split_ifs <;> rfl
  have hp₁ : d₁.node p = some .dir := by rw [hnode₁, if_neg (List.cons_ne_self n p).symm, hp]
  have h₁ : d₁.node (n :: p) ≠ some .dir := by
    rw [hnode₁, if_pos rfl]
    nofun
  obtain ⟨d₂, hd₂, hnode₂⟩ := write_ok (d₁.content src) hp₁ h₁
  refine ⟨d₂, ?_, fun q => ?_⟩
  · simp only [copyFile, hsrc, hd₁, bind, Except.bind, hd₂]
  · rw [hnode₂, hnode₁, hcontent]
    split_ifs <;> rfl

theorem copyFile_dir {src : Path} {bytes : List UInt8} (hsrc : d.node src = some (.file bytes))
    (h : d.node p = some .dir) : d.copyFile src p = .error .eisdir := by
  have hwrite : d.write [] p = .error .eisdir := by
    cases p with
    | nil => rfl
    | cons n p => rw [write, dif_pos h]
  simp only [copyFile, hsrc, hwrite, bind, Except.bind]

end Disk

end Rustils.Coreutils.Files
