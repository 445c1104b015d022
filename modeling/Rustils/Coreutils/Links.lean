import Mathlib.Data.List.Basic

namespace Rustils.Coreutils.Links

abbrev Name := List UInt8

structure Loc where
  dir : ℕ
  name : Name
  deriving DecidableEq

inductive Entry
  | file (ino : ℕ)
  | dir (d : ℕ)
  | link (absolute : Bool) (names : List Name)
  deriving DecidableEq

structure Path where
  start : ℕ
  names : List Name
  deriving DecidableEq

structure Fs where
  root : ℕ
  entry : Loc → Option Entry
  data : ℕ → List UInt8
  next : ℕ
  used : ∀ l i, entry l = some (.file i) → i < next

inductive Spot
  | file (ino : ℕ)
  | dir (d : ℕ)
  | vacant (l : Loc)
  deriving DecidableEq

namespace Fs

section Resolve

variable (fs : Fs)

/-- The names followed from `d`, and the rest of a path behind a link given to `follow`. With the
entries passed. -/
def seekFrom (follow : ℕ → List Name → Option (List Loc × Spot)) :
    ℕ → List Name → Option (List Loc × Spot)
  | d, [] => some ([], .dir d)
  | d, n :: ns =>
    match fs.entry ⟨d, n⟩ with
    | none => if ns = [] then some ([], .vacant ⟨d, n⟩) else none
    | some (.file i) => if ns = [] then some ([⟨d, n⟩], .file i) else none
    | some (.dir e) => (seekFrom follow e ns).map fun (ls, spot) => (⟨d, n⟩ :: ls, spot)
    | some (.link absolute names) =>
      (follow (if absolute then fs.root else d) (names ++ ns)).map fun (ls, spot) => (⟨d, n⟩ :: ls, spot)

def seek : ℕ → ℕ → List Name → Option (List Loc × Spot)
  | 0 => fs.seekFrom fun _ _ => none
  | k + 1 => fs.seekFrom (seek k)

def maxLinks : ℕ := 40

def resolve (p : Path) : Option (List Loc × Spot) := fs.seek maxLinks p.start p.names

def pathExists (p : Path) : Bool :=
  match fs.resolve p with
  | some (_, .file _) => true
  | some (_, .dir _) => true
  | _ => false

def isDir (p : Path) : Bool :=
  match fs.resolve p with
  | some (_, .dir _) => true
  | _ => false

def content (p : Path) : Option (List UInt8) :=
  match fs.resolve p with
  | some (_, .file i) => some (fs.data i)
  | _ => none

def wayTo (p : Path) : Option (List Loc × Loc) :=
  match p.names.getLast?, fs.resolve ⟨p.start, p.names.dropLast⟩ with
  | some n, some (ls, .dir d) => some (ls, ⟨d, n⟩)
  | _, _ => none

def locate (p : Path) : Option Loc := (fs.wayTo p).map Prod.snd

end Resolve

section Operations

variable (fs : Fs)

def move (a b : Loc) : Fs where
  root := fs.root
  entry l := if l = a then none else if l = b then fs.entry a else fs.entry l
  data := fs.data
  next := fs.next
  used l i h := by
    split_ifs at h
    · exact fs.used a i h
    · exact fs.used l i h

def unlink (a : Loc) : Fs where
  root := fs.root
  entry l := if l = a then none else fs.entry l
  data := fs.data
  next := fs.next
  used l i h := by
    split_ifs at h
    exact fs.used l i h

def create (a : Loc) : Fs where
  root := fs.root
  entry l := if l = a then some (.file fs.next) else fs.entry l
  data i := if i = fs.next then [] else fs.data i
  next := fs.next + 1
  used l i h := by
    split_ifs at h with hl
    · obtain rfl := Entry.file.inj (Option.some.inj h)
      exact Nat.lt_succ_self _
    · exact Nat.lt_succ_of_lt (fs.used l i h)

def setData (i : ℕ) (bytes : List UInt8) : Fs :=
  { fs with data := fun j => if j = i then bytes else fs.data j }

inductive RenameOutcome
  | refused
  | same
  | moves (a b : Loc)
  deriving DecidableEq

/-- What `rename` does to a file or link: nothing where both names already belong to one file. -/
def renameOutcome (p q : Path) : RenameOutcome :=
  match fs.locate p, fs.locate q with
  | some a, some b =>
    match fs.entry a, fs.entry b with
    | none, _ => .refused
    | some (.dir _), _ => .refused
    | _, some (.dir _) => .refused
    | some (.file i), some (.file j) => if i = j then .same else .moves a b
    | some _, _ => if a = b then .same else .moves a b
  | _, _ => .refused

def rename (p q : Path) : Option Fs :=
  match fs.renameOutcome p q with
  | .refused => none
  | .same => some fs
  | .moves a b => some (fs.move a b)

def openTruncate (q : Path) : Option (Fs × ℕ) :=
  match fs.resolve q with
  | some (_, .file j) => some (fs.setData j [], j)
  | some (_, .vacant l) => some (fs.create l, fs.next)
  | _ => none

inductive CopyFault
  | none
  | before
  | partway (bytes : ℕ)

def copy (fault : CopyFault) (p q : Path) : Fs × Bool :=
  match fault, fs.resolve p with
  | .before, _ => (fs, false)
  | fault, some (_, .file i) =>
    match fs.openTruncate q with
    | none => (fs, false)
    | some (fs', j) =>
      match fault with
      | .partway n => (fs'.setData j ((fs'.data i).take n), false)
      | _ => (fs'.setData j (fs'.data i), true)
  | _, _ => (fs, false)

def removeFile (p : Path) : Fs :=
  match fs.locate p with
  | some a =>
    match fs.entry a with
    | some (.dir _) => fs
    | _ => fs.unlink a
  | none => fs

end Operations

variable {fs fs' : Fs} {k d e i : ℕ} {n : Name} {ns : List Name} {ls : List Loc} {l : Loc}

theorem seekFrom_cons {follow : ℕ → List Name → Option (List Loc × Spot)} {spot : Spot}
    (h : fs.seekFrom follow d (n :: ns) = some (ls, spot)) :
    (fs.entry ⟨d, n⟩ = none ∧ ns = [] ∧ ls = [] ∧ spot = .vacant ⟨d, n⟩) ∨
      (∃ i, fs.entry ⟨d, n⟩ = some (.file i) ∧ ns = [] ∧ ls = [⟨d, n⟩] ∧ spot = .file i) ∨
      (∃ e rest, fs.entry ⟨d, n⟩ = some (.dir e) ∧ fs.seekFrom follow e ns = some (rest, spot) ∧
        ls = ⟨d, n⟩ :: rest) ∨
      ∃ absolute names rest, fs.entry ⟨d, n⟩ = some (.link absolute names) ∧
        follow (if absolute then fs.root else d) (names ++ ns) = some (rest, spot) ∧
        ls = ⟨d, n⟩ :: rest := by
  rw [seekFrom] at h
  cases hentry : fs.entry ⟨d, n⟩ with
  | none =>
    rw [hentry] at h
    dsimp only at h
    split_ifs at h with hns
    obtain ⟨rfl, rfl⟩ := Prod.mk.inj (Option.some.inj h)
    exact .inl ⟨rfl, hns, rfl, rfl⟩
  | some entry =>
    rw [hentry] at h
    cases entry with
    | file i =>
      dsimp only at h
      split_ifs at h with hns
      obtain ⟨rfl, rfl⟩ := Prod.mk.inj (Option.some.inj h)
      exact .inr (.inl ⟨i, rfl, hns, rfl, rfl⟩)
    | dir e =>
      obtain ⟨⟨rest, spot'⟩, hrest, hcons⟩ := Option.map_eq_some_iff.mp h
      obtain ⟨rfl, rfl⟩ := Prod.mk.inj hcons
      exact .inr (.inr (.inl ⟨e, rest, rfl, hrest, rfl⟩))
    | link absolute names =>
      obtain ⟨⟨rest, spot'⟩, hrest, hcons⟩ := Option.map_eq_some_iff.mp h
      obtain ⟨rfl, rfl⟩ := Prod.mk.inj hcons
      exact .inr (.inr (.inr ⟨absolute, names, rest, rfl, hrest, rfl⟩))

theorem seek_nil : fs.seek k d [] = some ([], .dir d) := by cases k <;> rfl

theorem seek_file (h : fs.entry ⟨d, n⟩ = some (.file i)) : fs.seek k d [n] = some ([⟨d, n⟩], .file i) := by
  cases k <;> simp [seek, seekFrom, h]

theorem seek_dir (h : fs.entry ⟨d, n⟩ = some (.dir e)) {spot : Spot} (hrest : fs.seek k e ns = some (ls, spot)) :
    fs.seek k d (n :: ns) = some (⟨d, n⟩ :: ls, spot) := by
  cases k with
  | zero =>
    rw [seek] at hrest ⊢
    simp [seekFrom, h, hrest]
  | succ k =>
    rw [seek] at hrest ⊢
    simp [seekFrom, h, hrest]

theorem seek_link {absolute : Bool} {names : List Name} (h : fs.entry ⟨d, n⟩ = some (.link absolute names))
    {spot : Spot} (hrest : fs.seek k (if absolute then fs.root else d) (names ++ ns) = some (ls, spot)) :
    fs.seek (k + 1) d (n :: ns) = some (⟨d, n⟩ :: ls, spot) := by
  rw [seek]
  simp [seekFrom, h, hrest]

theorem seek_induction {C : ℕ → ℕ → List Name → List Loc → Spot → Prop} {spot : Spot}
    (nil : ∀ k d, C k d [] [] (.dir d))
    (vacant : ∀ k d n, fs.entry ⟨d, n⟩ = none → C k d [n] [] (.vacant ⟨d, n⟩))
    (file : ∀ k d n i, fs.entry ⟨d, n⟩ = some (.file i) → C k d [n] [⟨d, n⟩] (.file i))
    (dir : ∀ k d n ns e ls spot, fs.entry ⟨d, n⟩ = some (.dir e) → C k e ns ls spot →
      C k d (n :: ns) (⟨d, n⟩ :: ls) spot)
    (link : ∀ k d n ns absolute names ls spot, fs.entry ⟨d, n⟩ = some (.link absolute names) →
      C k (if absolute then fs.root else d) (names ++ ns) ls spot → C (k + 1) d (n :: ns) (⟨d, n⟩ :: ls) spot)
    (h : fs.seek k d ns = some (ls, spot)) : C k d ns ls spot := by
  induction k generalizing d ns ls with
  | zero =>
    rw [seek] at h
    induction ns generalizing d ls with
    | nil =>
      obtain ⟨rfl, rfl⟩ := Prod.mk.inj (Option.some.inj h)
      exact nil 0 d
    | cons n ns ih =>
      obtain ⟨hn, rfl, rfl, rfl⟩ | ⟨i, hn, rfl, rfl, rfl⟩ | ⟨e, rest, hn, hrest, rfl⟩ |
        ⟨_, _, _, _, hrest, -⟩ := seekFrom_cons h
      · exact vacant 0 d n hn
      · exact file 0 d n i hn
      · exact dir 0 d n ns e rest spot hn (ih hrest)
      · cases hrest
  | succ k ihk =>
    rw [seek] at h
    induction ns generalizing d ls with
    | nil =>
      obtain ⟨rfl, rfl⟩ := Prod.mk.inj (Option.some.inj h)
      exact nil (k + 1) d
    | cons n ns ih =>
      obtain ⟨hn, rfl, rfl, rfl⟩ | ⟨i, hn, rfl, rfl, rfl⟩ | ⟨e, rest, hn, hrest, rfl⟩ |
        ⟨absolute, names, rest, hn, hrest, rfl⟩ := seekFrom_cons h
      · exact vacant (k + 1) d n hn
      · exact file (k + 1) d n i hn
      · exact dir (k + 1) d n ns e rest spot hn (ih hrest)
      · exact link k d n ns absolute names rest spot hn (ihk hrest)

section Seek

variable {spot : Spot}

theorem seek_exists (h : fs.seek k d ns = some (ls, spot)) : ∀ l ∈ ls, fs.entry l ≠ none := by
  apply seek_induction (C := fun _ _ _ ls _ => ∀ l ∈ ls, fs.entry l ≠ none) _ _ _ _ _ h
  · simp
  · simp
  · intro k d n i hn
    simp [hn]
  · intro k d n ns e ls spot hn ih
    exact List.forall_mem_cons.mpr ⟨by simp [hn], ih⟩
  · intro k d n ns absolute names ls spot hn ih
    exact List.forall_mem_cons.mpr ⟨by simp [hn], ih⟩

theorem seek_file_last (h : fs.seek k d ns = some (ls, spot)) :
    ∀ l ∈ ls, ∀ i, fs.entry l = some (.file i) → spot = .file i := by
  apply seek_induction (C := fun _ _ _ ls spot => ∀ l ∈ ls, ∀ i, fs.entry l = some (.file i) → spot = .file i)
    _ _ _ _ _ h
  · simp
  · simp
  · intro k d n i hn l hl j hj
    obtain rfl := List.mem_singleton.mp hl
    rw [hn] at hj
    rw [Entry.file.inj (Option.some.inj hj)]
  · intro k d n ns e ls spot hn ih
    refine List.forall_mem_cons.mpr ⟨fun j hj => ?_, ih⟩
    rw [hn] at hj
    cases hj
  · intro k d n ns absolute names ls spot hn ih
    refine List.forall_mem_cons.mpr ⟨fun j hj => ?_, ih⟩
    rw [hn] at hj
    cases hj

theorem seek_spot_vacant (h : fs.seek k d ns = some (ls, spot)) :
    ∀ l, spot = .vacant l → fs.entry l = none := by
  apply seek_induction (C := fun _ _ _ _ spot => ∀ l, spot = .vacant l → fs.entry l = none) _ _ _ _ _ h
  · nofun
  · intro k d n hn l hl
    obtain rfl := Spot.vacant.inj hl
    exact hn
  · nofun
  · intro k d n ns e ls spot hn ih
    exact ih
  · intro k d n ns absolute names ls spot hn ih
    exact ih

theorem seek_spot_file (h : fs.seek k d ns = some (ls, spot)) :
    ∀ i, spot = .file i → ∃ l, fs.entry l = some (.file i) := by
  apply seek_induction (C := fun _ _ _ _ spot => ∀ i, spot = .file i → ∃ l, fs.entry l = some (.file i))
    _ _ _ _ _ h
  · nofun
  · nofun
  · intro k d n i hn j hj
    obtain rfl := Spot.file.inj hj
    exact ⟨_, hn⟩
  · intro k d n ns e ls spot hn ih
    exact ih
  · intro k d n ns absolute names ls spot hn ih
    exact ih

theorem seek_congr (hroot : fs'.root = fs.root) (h : fs.seek k d ns = some (ls, spot))
    (hspot : ∀ l, spot ≠ .vacant l) (hsame : ∀ l ∈ ls, fs'.entry l = fs.entry l) :
    fs'.seek k d ns = some (ls, spot) := by
  revert hspot hsame
  apply seek_induction (C := fun k d ns ls spot => (∀ l, spot ≠ .vacant l) →
    (∀ l ∈ ls, fs'.entry l = fs.entry l) → fs'.seek k d ns = some (ls, spot)) _ _ _ _ _ h
  · intro k d _ _
    exact seek_nil
  · intro k d n hn hspot _
    exact absurd rfl (hspot _)
  · intro k d n i hn _ hsame
    exact seek_file (by rw [hsame _ (List.mem_singleton_self _), hn])
  · intro k d n ns e ls spot hn ih hspot hsame
    obtain ⟨hfirst, hrest⟩ := List.forall_mem_cons.mp hsame
    exact seek_dir (by rw [hfirst, hn]) (ih hspot hrest)
  · intro k d n ns absolute names ls spot hn ih hspot hsame
    obtain ⟨hfirst, hrest⟩ := List.forall_mem_cons.mp hsame
    exact seek_link (by rw [hfirst, hn]) (by rw [hroot]; exact ih hspot hrest)

theorem seek_filled (hroot : fs'.root = fs.root) (h : fs.seek k d ns = some (ls, .vacant l))
    (hl : fs'.entry l = some (.file i)) (hsame : ∀ m ∈ ls, fs'.entry m = fs.entry m) :
    fs'.seek k d ns = some (ls ++ [l], .file i) := by
  have hall : ∀ m, Spot.vacant l = .vacant m → fs'.entry m = some (.file i) →
      fs'.seek k d ns = some (ls ++ [m], .file i) := by
    revert hsame
    apply seek_induction (C := fun k d ns ls spot => (∀ m ∈ ls, fs'.entry m = fs.entry m) →
      ∀ m, spot = .vacant m → fs'.entry m = some (.file i) →
        fs'.seek k d ns = some (ls ++ [m], .file i)) _ _ _ _ _ h
    · nofun
    · intro k d n hn _ m hm hfile
      obtain rfl := Spot.vacant.inj hm
      exact seek_file hfile
    · nofun
    · intro k d n ns e ls spot hn ih hsame m hm hfile
      obtain ⟨hfirst, hrest⟩ := List.forall_mem_cons.mp hsame
      exact seek_dir (by rw [hfirst, hn]) (ih hrest m hm hfile)
    · intro k d n ns absolute names ls spot hn ih hsame m hm hfile
      obtain ⟨hfirst, hrest⟩ := List.forall_mem_cons.mp hsame
      exact seek_link (by rw [hfirst, hn]) (by rw [hroot]; exact ih hrest m hm hfile)
  exact hall l rfl hl

theorem seek_concat (h : fs.seek k d ns = some (ls, .dir e)) (hn : fs.entry ⟨e, n⟩ = some (.file i)) :
    fs.seek k d (ns ++ [n]) = some (ls ++ [⟨e, n⟩], .file i) := by
  have hall : ∀ f, Spot.dir e = .dir f → fs.entry ⟨f, n⟩ = some (.file i) →
      fs.seek k d (ns ++ [n]) = some (ls ++ [⟨f, n⟩], .file i) := by
    apply seek_induction (C := fun k d ns ls spot => ∀ f, spot = .dir f → fs.entry ⟨f, n⟩ = some (.file i) →
      fs.seek k d (ns ++ [n]) = some (ls ++ [Loc.mk f n], .file i)) _ _ _ _ _ h
    · rintro k d f hf hfile
      obtain rfl := Spot.dir.inj hf
      exact seek_file hfile
    · nofun
    · nofun
    · intro k d m ns e ls spot hm ih f hf hfile
      exact seek_dir hm (ih f hf hfile)
    · intro k d m ns absolute names ls spot hm ih f hf hfile
      have hrest := ih f hf hfile
      rw [List.append_assoc] at hrest
      exact seek_link hm hrest
  exact hall e rfl hn

end Seek

section Paths

variable {p : Path} {way : List Loc} {b : Loc}

theorem wayTo_eq_some : fs.wayTo p = some (way, b) ↔
    ∃ n e, p.names.getLast? = some n ∧ fs.resolve ⟨p.start, p.names.dropLast⟩ = some (way, .dir e) ∧
      b = ⟨e, n⟩ := by
  unfold wayTo
  constructor
  · intro h
    split at h
    · next n ls e hn hdir =>
      obtain ⟨rfl, rfl⟩ := Prod.mk.inj (Option.some.inj h)
      exact ⟨n, e, hn, hdir, rfl⟩
    · cases h
  · rintro ⟨n, e, hn, hdir, rfl⟩
    rw [hn, hdir]

theorem locate_eq_some : fs.locate p = some b ↔ ∃ way, fs.wayTo p = some (way, b) := by
  unfold locate
  rw [Option.map_eq_some_iff]
  constructor
  · rintro ⟨⟨way, c⟩, hway, rfl⟩
    exact ⟨way, hway⟩
  · rintro ⟨way, hway⟩
    exact ⟨_, hway, rfl⟩

theorem resolve_file (h : fs.wayTo p = some (way, b)) (hb : fs.entry b = some (.file i)) :
    fs.resolve p = some (way ++ [b], .file i) := by
  obtain ⟨n, e, hn, hdir, rfl⟩ := wayTo_eq_some.mp h
  have hnames : p.names = p.names.dropLast ++ [n] := by
    rw [List.dropLast_append_getLast? n hn]
  rw [resolve, hnames]
  exact seek_concat hdir hb

theorem wayTo_congr (hroot : fs'.root = fs.root) (h : fs.wayTo p = some (way, b))
    (hsame : ∀ l ∈ way, fs'.entry l = fs.entry l) : fs'.wayTo p = some (way, b) := by
  obtain ⟨n, e, hn, hdir, rfl⟩ := wayTo_eq_some.mp h
  exact wayTo_eq_some.mpr ⟨n, e, hn, seek_congr hroot hdir nofun hsame, rfl⟩

theorem not_mem_way (h : fs.wayTo p = some (way, b)) {l : Loc} (hl : fs.entry l = some (.file i)) :
    l ∉ way := by
  obtain ⟨n, e, -, hdir, -⟩ := wayTo_eq_some.mp h
  intro hmem
  cases seek_file_last hdir l hmem i hl

theorem isDir_iff : fs.isDir p ↔ ∃ ls d, fs.resolve p = some (ls, .dir d) := by
  unfold isDir
  split
  · next ls d h => simp [h]
  · next h =>
    constructor
    · nofun
    · rintro ⟨ls, d, hres⟩
      exact absurd hres (h ls d)

theorem content_eq_some {bytes : List UInt8} : fs.content p = some bytes ↔
    ∃ ls i, fs.resolve p = some (ls, .file i) ∧ fs.data i = bytes := by
  unfold content
  split
  · next ls i h => simp [h]
  · next h =>
    constructor
    · nofun
    · rintro ⟨ls, i, hres, -⟩
      exact absurd hres (h ls i)

end Paths

section Rename

variable {p q : Path} {a b : Loc}

theorem renameOutcome_moves (h : fs.renameOutcome p q = .moves a b) :
    fs.locate p = some a ∧ fs.entry a ≠ none ∧ fs.locate q = some b ∧ a ≠ b := by
  unfold renameOutcome at h
  split at h
  · next a' b' ha hb =>
    split at h
    · cases h
    · cases h
    · cases h
    · next i j hi hj =>
      split_ifs at h with hij
      obtain ⟨rfl, rfl⟩ := RenameOutcome.moves.inj h
      refine ⟨ha, by simp [hi], hb, ?_⟩
      rintro rfl
      rw [hi] at hj
      exact hij (Entry.file.inj (Option.some.inj hj))
    · next e _ _ _ hi _ _ =>
      split_ifs at h with hab
      obtain ⟨rfl, rfl⟩ := RenameOutcome.moves.inj h
      exact ⟨ha, by simp [hi], hb, hab⟩
  · cases h

theorem removeFile_entry (h : fs.locate p ≠ some l) : (fs.removeFile p).entry l = fs.entry l := by
  unfold removeFile
  split
  · next a ha =>
    split
    · rfl
    · apply if_neg
      rintro rfl
      exact h ha
  · rfl

@[simp]
theorem removeFile_root : (fs.removeFile p).root = fs.root := by
  unfold removeFile
  split
  · split <;> rfl
  · rfl

@[simp]
theorem removeFile_data : (fs.removeFile p).data = fs.data := by
  unfold removeFile
  split
  · split <;> rfl
  · rfl

theorem removeFile_less {e : Entry} (h : (fs.removeFile p).entry l = some e) : fs.entry l = some e := by
  unfold removeFile at h
  split at h
  · split at h
    · exact h
    · exact (ite_eq_iff.mp h).elim (fun h => nomatch h.2) And.right
  · exact h

end Rename

structure Opened (fs : Fs) (q : Path) (fs' : Fs) (j : ℕ) : Prop where
  root : fs'.root = fs.root
  entry : ∀ l, fs.entry l ≠ none → fs'.entry l = fs.entry l
  made : ∀ l, fs.entry l = none → fs'.entry l = none ∨ fs'.entry l = some (.file j)
  data : ∀ i, i ≠ j → fs'.data i = fs.data i
  leads : ∃ ls, fs'.resolve q = some (ls, .file j)
  old : (∃ ls, fs.resolve q = some (ls, .file j)) ∨ j = fs.next

namespace Opened

variable {q : Path} {j : ℕ}

theorem setData (h : Opened fs q fs' j) (bytes : List UInt8) : Opened fs q (fs'.setData j bytes) j where
  root := h.root
  entry := h.entry
  made := h.made
  data i hi := by
    change (if i = j then bytes else fs'.data i) = fs.data i
    rw [if_neg hi, h.data i hi]
  leads := by
    have hroot : (fs'.setData j bytes).root = fs'.root := rfl
    obtain ⟨ls, hls⟩ := h.leads
    exact ⟨ls, seek_congr hroot hls nofun fun _ _ => rfl⟩
  old := h.old

theorem of_openTruncate (h : fs.openTruncate q = some (fs', j)) : Opened fs q fs' j := by
  unfold openTruncate at h
  split at h
  · next ls j' hres =>
    obtain ⟨rfl, rfl⟩ := Prod.mk.inj (Option.some.inj h)
    have hself : Opened fs q fs j' :=
      ⟨rfl, fun _ _ => rfl, fun _ hl => .inl hl, fun _ _ => rfl, ⟨ls, hres⟩, .inl ⟨ls, hres⟩⟩
    exact hself.setData []
  · next ls l hres =>
    obtain ⟨rfl, rfl⟩ := Prod.mk.inj (Option.some.inj h)
    have hvacant : fs.entry l = none := seek_spot_vacant hres l rfl
    have hentry : ∀ m, fs.entry m ≠ none → (fs.create l).entry m = fs.entry m := by
      intro m hm
      change (if m = l then _ else fs.entry m) = fs.entry m
      rw [if_neg]
      rintro rfl
      exact hm hvacant
    have hl : (fs.create l).entry l = some (.file fs.next) := if_pos rfl
    have hroot : (fs.create l).root = fs.root := rfl
    constructor
    · exact hroot
    · exact hentry
    · intro m hm
      by_cases hml : m = l
      · exact .inr (hml ▸ hl)
      · exact .inl ((if_neg hml).trans hm)
    · intro i hi
      exact if_neg hi
    · exact ⟨_, seek_filled hroot hres hl fun m hm => hentry m (seek_exists hres m hm)⟩
    · exact .inr rfl
  · cases h

theorem resolve {spot : Spot} (h : Opened fs q fs' j) {p : Path} (hres : fs.resolve p = some (ls, spot))
    (hspot : ∀ l, spot ≠ .vacant l) : fs'.resolve p = some (ls, spot) :=
  seek_congr h.root hres hspot fun l hl => h.entry l (seek_exists hres l hl)

theorem ne_of_old (h : Opened fs q fs' j) {p : Path} (hres : fs.resolve p = some (ls, .file i))
    (hold : ∀ ls, fs.resolve q ≠ some (ls, .file i)) : i ≠ j := by
  rintro rfl
  obtain ⟨ls', hls'⟩ | rfl := h.old
  · exact hold ls' hls'
  · obtain ⟨l, hl⟩ := seek_spot_file hres _ rfl
    exact absurd (fs.used l _ hl) (Nat.lt_irrefl _)

end Opened

theorem copy_cases {fault : CopyFault} {p q : Path} {ok : Bool} (h : fs.copy fault p q = (fs', ok)) :
    fs' = fs ∧ ok = false ∨ fault ≠ .before ∧ ∃ j, Opened fs q fs' j ∧
      (ok = true → ∃ ls i, fs.resolve p = some (ls, .file i) ∧ (i ≠ j → fs'.data j = fs.data i)) := by
  unfold copy at h
  split at h
  · obtain ⟨rfl, rfl⟩ := Prod.mk.inj h
    exact .inl ⟨rfl, rfl⟩
  · next ls i hbefore hres =>
    cases hopen : fs.openTruncate q with
    | none =>
      rw [hopen] at h
      obtain ⟨rfl, rfl⟩ := Prod.mk.inj h
      exact .inl ⟨rfl, rfl⟩
    | some opened =>
      obtain ⟨fs₁, j⟩ := opened
      have hopened := Opened.of_openTruncate hopen
      rw [hopen] at h
      dsimp only at h
      split at h
      · obtain ⟨rfl, rfl⟩ := Prod.mk.inj h
        exact .inr ⟨hbefore, j, hopened.setData _, nofun⟩
      · obtain ⟨rfl, rfl⟩ := Prod.mk.inj h
        refine .inr ⟨hbefore, j, hopened.setData _, fun _ => ⟨ls, i, hres, fun hij => ?_⟩⟩
        change (if j = j then fs₁.data i else fs₁.data j) = fs.data i
        rw [if_pos rfl, hopened.data i hij]
  · obtain ⟨rfl, rfl⟩ := Prod.mk.inj h
    exact .inl ⟨rfl, rfl⟩

end Fs

end Rustils.Coreutils.Links
