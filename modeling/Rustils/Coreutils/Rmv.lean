import Rustils.Coreutils.Links
import Rustils.Lib.Trace

namespace Rustils.Coreutils.Rmv

open Links Lib.Trace

/-- Which operations of one move fail without a reason in the file system. -/
structure Fault where
  rename : Bool
  copy : Fs.CopyFault
  remove : Bool

inductive Complaint
  | cannotStat (src : Path)
  | cannotMove (src dst : Path)

def fileName (p : Path) : Option Name := p.names.getLast?.filter (· ≠ [0x2E, 0x2E])

def join (p : Path) (n : Name) : Path := ⟨p.start, p.names ++ [n]⟩

def finalDst (fs : Fs) (dst src : Path) : Option Path :=
  if fs.isDir dst then (fileName src).map (join dst) else some dst

def renamed (fs : Fs) (fault : Fault) (src q : Path) : Option Fs :=
  if fault.rename then none else fs.rename src q

def moveFile (fs : Fs) (dst src : Path) (fault : Fault) : Option (Fs × List Complaint) :=
  if !fs.pathExists src then some (fs, [.cannotStat src])
  else
    match finalDst fs dst src with
    | none => none
    | some q =>
      match renamed fs fault src q with
      | some fs => some (fs, [])
      | none =>
        match fs.copy fault.copy src q with
        | (fs, false) => some (fs, [.cannotMove src q])
        | (fs, true) => some (if fault.remove then fs else fs.removeFile src, [])

def moveFiles (dst : Path) : List (Path × Fault) → Fs → Fs × List Complaint
  | [], fs => (fs, [])
  | (src, fault) :: rest, fs =>
    match moveFile fs dst src fault with
    | none => (fs, [])
    | some (fs, complaints) =>
      let (fs, more) := moveFiles dst rest fs
      (fs, complaints ++ more)

def operands (args : List String) : Option (List String × String) :=
  match (args.tail.filter fun a => a.toList.head? ≠ some '-').reverse with
  | dst :: src :: srcs => some ((src :: srcs).reverse, dst)
  | _ => none

def moves (faults : ℕ → Fault) (srcs : List Path) : List (Path × Fault) :=
  srcs.zipIdx.map fun (src, k) => (src, faults k)

inductive Outcome
  | usage
  | notADirectory
  | moved (complaints : List Complaint)

def main (path : String → Path) (faults : ℕ → Fault) (args : List String) (fs : Fs) : Fs × Outcome :=
  match operands args with
  | none => (fs, .usage)
  | some (srcs, dst) =>
    if 1 < srcs.length && !fs.isDir (path dst) then (fs, .notADirectory)
    else
      let (fs, complaints) := moveFiles (path dst) (moves faults (srcs.map path)) fs
      (fs, .moved complaints)

def Moved (dst : Path) (fs : Fs) (e : Path × Fault) (fs' : Fs) : Prop :=
  ∃ complaints, moveFile fs dst e.1 e.2 = some (fs', complaints)

def Regular (fs : Fs) (src : Path) : Prop := ∃ way a i, fs.wayTo src = some (way, a) ∧ fs.entry a = some (.file i)

def Holds (fs₀ fs : Fs) (dst src home : Path) : Prop :=
  (home = src ∨ finalDst fs₀ dst src = some home) ∧ fs.content home = fs₀.content src

def Kept (fs₀ fs : Fs) (dst src : Path) : Prop := ∃ home, Holds fs₀ fs dst src home

/-- What `home` leads to, the move of `src` leaves: it is not taken away but with the file that goes to
the place where it may be, no entry on the way to it is replaced, and no copy is written over it. -/
structure Spares (fs₀ fs : Fs) (dst src : Path) (fault : Fault) (other home : Path) : Prop where
  taken : ∀ ls spot a, fs.resolve home = some (ls, spot) → fs.locate src = some a → a ∈ ls →
    finalDst fs₀ dst other = finalDst fs₀ dst src
  replaced : ∀ ls spot q a b, fs.resolve home = some (ls, spot) → finalDst fs dst src = some q →
    fault.rename = false → fs.renameOutcome src q = .moves a b → b ∉ ls
  overwritten : ∀ ls ls' q i, fs.resolve home = some (ls, .file i) → finalDst fs dst src = some q →
    renamed fs fault src q = none → fault.copy ≠ .before → fs.resolve q ≠ some (ls', .file i)

structure Careful (fs₀ fs : Fs) (sources : List Path) (dst src : Path) (fault : Fault) : Prop where
  way : ∀ q a b way, finalDst fs dst src = some q → fault.rename = false →
    fs.renameOutcome src q = .moves a b → fs.wayTo q = some (way, b) → b ∉ way
  spares : ∀ other ∈ sources, Kept fs₀ fs dst other →
    ∃ home, Holds fs₀ fs dst other home ∧ Spares fs₀ fs dst src fault other home

structure Inherits (fs₀ fs : Fs) : Prop where
  root : fs₀.root = fs.root
  entry : ∀ l e, fs.entry l = some e → (∀ i, e ≠ .file i) → fs₀.entry l = some e

namespace Inherits

variable {fs₀ fs fs' : Fs} {src q : Path} {a b l : Loc} {i j : ℕ}

theorem refl (fs : Fs) : Inherits fs fs := ⟨rfl, fun _ _ h _ => h⟩

theorem trans (h : Inherits fs₀ fs) (h' : Inherits fs fs') : Inherits fs₀ fs' :=
  ⟨h.root.trans h'.root, fun l e he hfile => h.entry l e (h'.entry l e he hfile) hfile⟩

theorem move (ha : fs.entry a = some (.file i)) (b : Loc) : Inherits fs (fs.move a b) where
  root := rfl
  entry l e he hfile := by
    change (if l = a then none else if l = b then fs.entry a else fs.entry l) = some e at he
    split_ifs at he with hla hlb
    · rw [ha] at he
      exact absurd (Option.some.inj he).symm (hfile i)
    · exact he

theorem opened (h : Fs.Opened fs q fs' j) : Inherits fs fs' where
  root := h.root.symm
  entry l e he hfile := by
    by_cases hl : fs.entry l = none
    · obtain hl' | hl' := h.made l hl
      · rw [hl'] at he
        cases he
      · rw [hl'] at he
        exact absurd (Option.some.inj he).symm (hfile j)
    · rw [← h.entry l hl]
      exact he

theorem removeFile (fs : Fs) (src : Path) : Inherits fs (fs.removeFile src) where
  root := Fs.removeFile_root.symm
  entry _ _ he _ := Fs.removeFile_less he

theorem wayTo {p : Path} {way : List Loc} (h : Inherits fs₀ fs) (hp : fs.wayTo p = some (way, b)) :
    fs₀.wayTo p = some (way, b) := by
  apply Fs.wayTo_congr h.root hp
  intro l hl
  obtain ⟨n, d, -, hdir, -⟩ := Fs.wayTo_eq_some.mp hp
  obtain ⟨e, he⟩ := Option.ne_none_iff_exists'.mp (Fs.seek_exists hdir l hl)
  rw [he]
  apply h.entry l e he
  rintro i rfl
  exact Fs.not_mem_way hp he hl

theorem locate {p : Path} (h : Inherits fs₀ fs) (hp : fs.locate p = some a) : fs₀.locate p = some a := by
  obtain ⟨way, hway⟩ := Fs.locate_eq_some.mp hp
  exact Option.map_eq_some_iff.mpr ⟨_, h.wayTo hway, rfl⟩

theorem source (h : Inherits fs₀ fs) (hsrc : Regular fs₀ src) (ha : fs.locate src = some a)
    (hne : fs.entry a ≠ none) : ∃ way i, fs.wayTo src = some (way, a) ∧ fs.entry a = some (.file i) := by
  obtain ⟨way, hway⟩ := Fs.locate_eq_some.mp ha
  obtain ⟨way', a', i, hway', hfile⟩ := hsrc
  obtain ⟨-, rfl⟩ := Prod.mk.inj (Option.some.inj ((h.wayTo hway).symm.trans hway'))
  obtain ⟨e, he⟩ := Option.ne_none_iff_exists'.mp hne
  cases e with
  | file j => exact ⟨way, j, hway, he⟩
  | dir d =>
    rw [h.entry _ _ he nofun] at hfile
    cases hfile
  | link absolute names =>
    rw [h.entry _ _ he nofun] at hfile
    cases hfile

end Inherits

section Move

variable {fs₀ fs fs₁ fs' : Fs} {sources : List Path} {dst src other home q : Path} {fault : Fault} {a b : Loc}
  {complaints : List Complaint} {ok : Bool}

theorem Regular.content (h : Regular fs src) : fs.content src ≠ none := by
  obtain ⟨way, a, i, hway, ha⟩ := h
  rw [Fs.content_eq_some.mpr ⟨_, i, Fs.resolve_file hway ha, rfl⟩]
  nofun

theorem Holds.file (h : Holds fs₀ fs dst other home) (hother : Regular fs₀ other) :
    ∃ ls i, fs.resolve home = some (ls, .file i) ∧ fs₀.content other = some (fs.data i) := by
  obtain ⟨bytes, hbytes⟩ := Option.ne_none_iff_exists'.mp hother.content
  obtain ⟨ls, i, hres, rfl⟩ := Fs.content_eq_some.mp (h.2.trans hbytes)
  exact ⟨ls, i, hres, hbytes⟩

theorem Holds.stays (h : Holds fs₀ fs dst other home) {ls : List Loc} {i : ℕ}
    (hres : fs.resolve home = some (ls, .file i)) (hroot : fs'.root = fs.root)
    (hsame : ∀ l ∈ ls, fs'.entry l = fs.entry l) (hdata : fs'.data i = fs.data i) : Kept fs₀ fs' dst other := by
  refine ⟨home, h.1, ?_⟩
  rw [← h.2, Fs.content_eq_some.mpr ⟨ls, i, hres, rfl⟩]
  exact Fs.content_eq_some.mpr ⟨ls, i, Fs.seek_congr hroot hres nofun hsame, hdata⟩

theorem finalDst_congr (h : fs₀.isDir dst = fs.isDir dst) : finalDst fs₀ dst src = finalDst fs dst src := by
  rw [finalDst, finalDst, h]

theorem moveFile_cases (h : moveFile fs dst src fault = some (fs', complaints)) :
    fs' = fs ∨ fs.pathExists src ∧ ∃ q, finalDst fs dst src = some q ∧
      ((∃ a b, fault.rename = false ∧ fs.renameOutcome src q = .moves a b ∧ fs' = fs.move a b) ∨
        renamed fs fault src q = none ∧ ∃ fs₁ ok, fs.copy fault.copy src q = (fs₁, ok) ∧
          (fs' = fs₁ ∨ ok = true ∧ fs' = fs₁.removeFile src)) := by
  unfold moveFile at h
  cases hsrc : fs.pathExists src with
  | false =>
    rw [hsrc] at h
    exact .inl (Prod.mk.inj (Option.some.inj h)).1.symm
  | true =>
    rw [hsrc] at h
    cases hq : finalDst fs dst src with
    | none =>
      rw [hq] at h
      cases h
    | some q =>
      rw [hq] at h
      dsimp only at h
      cases hrenamed : renamed fs fault src q with
      | some fs₂ =>
        rw [hrenamed] at h
        obtain ⟨rfl, -⟩ := Prod.mk.inj (Option.some.inj h)
        rw [renamed] at hrenamed
        split_ifs at hrenamed with hfault
        rw [Fs.rename] at hrenamed
        split at hrenamed
        · cases hrenamed
        · exact .inl (Option.some.inj hrenamed).symm
        · next a b hmoves =>
          refine .inr ⟨rfl, q, rfl, .inl ⟨a, b, ?_, hmoves, (Option.some.inj hrenamed).symm⟩⟩
          exact Bool.eq_false_iff.mpr hfault
      | none =>
        rw [hrenamed] at h
        obtain ⟨⟨fs₁, ok⟩, hcopy⟩ : ∃ r, fs.copy fault.copy src q = r := ⟨_, rfl⟩
        rw [hcopy] at h
        refine .inr ⟨rfl, q, rfl, .inr ⟨hrenamed, fs₁, ok, hcopy, ?_⟩⟩
        cases ok with
        | false => exact .inl (Prod.mk.inj (Option.some.inj h)).1.symm
        | true =>
          obtain ⟨hfs, -⟩ := Prod.mk.inj (Option.some.inj h)
          split_ifs at hfs
          · exact .inl hfs.symm
          · exact .inr ⟨rfl, hfs.symm⟩

section Rename

variable (hinh : Inherits fs₀ fs) (hsrc : Regular fs₀ src) (hmoves : fs.renameOutcome src q = .moves a b)

include hinh hsrc hmoves

theorem moves_file : ∃ i, fs.entry a = some (.file i) := by
  obtain ⟨ha, hne, -, -⟩ := Fs.renameOutcome_moves hmoves
  obtain ⟨_, i, -, hfile⟩ := hinh.source hsrc ha hne
  exact ⟨i, hfile⟩

theorem entry_of_moves {ls : List Loc} {d : ℕ} {p : Path} (hres : fs.resolve p = some (ls, .dir d)) (hb : b ∉ ls) :
    ∀ l ∈ ls, (fs.move a b).entry l = fs.entry l := by
  obtain ⟨i, hfile⟩ := moves_file hinh hsrc hmoves
  intro l hl
  have hla : l ≠ a := by
    rintro rfl
    cases Fs.seek_file_last hres l hl i hfile
  have hlb : l ≠ b := by
    rintro rfl
    exact hb hl
  exact (if_neg hla).trans (if_neg hlb)

theorem kept_of_moves (hother : Regular fs₀ other) (hfinal : finalDst fs₀ dst src = some q)
    (hq : finalDst fs dst src = some q) (hrename : fault.rename = false)
    (hway : ∀ way, fs.wayTo q = some (way, b) → b ∉ way) (hhome : Holds fs₀ fs dst other home)
    (h : Spares fs₀ fs dst src fault other home) : Kept fs₀ (fs.move a b) dst other := by
  obtain ⟨ha, hne, hb, hab⟩ := Fs.renameOutcome_moves hmoves
  obtain ⟨ls, i, hres, hbytes⟩ := hhome.file hother
  have hroot : (fs.move a b).root = fs.root := rfl
  by_cases hals : a ∈ ls
  · -- the file moved is the one that holds it
    obtain ⟨j, hfile⟩ := moves_file hinh hsrc hmoves
    obtain rfl : i = j := Spot.file.inj (Fs.seek_file_last hres a hals j hfile)
    obtain ⟨way, hwayq⟩ := Fs.locate_eq_some.mp hb
    obtain ⟨n, d, hn, hdir, hbd⟩ := Fs.wayTo_eq_some.mp hwayq
    have hwayq' : (fs.move a b).wayTo q = some (way, b) :=
      Fs.wayTo_congr hroot hwayq (entry_of_moves hinh hsrc hmoves hdir (hway way hwayq))
    have hput : (fs.move a b).entry b = some (.file i) := (if_neg hab.symm).trans ((if_pos rfl).trans hfile)
    refine ⟨q, .inr ((h.taken ls _ a hres ha hals).trans hfinal), ?_⟩
    rw [hbytes]
    exact Fs.content_eq_some.mpr ⟨_, i, Fs.resolve_file hwayq' hput, rfl⟩
  · apply hhome.stays hres hroot _ rfl
    intro l hl
    have hla : l ≠ a := by
      rintro rfl
      exact hals hl
    have hlb : l ≠ b := by
      rintro rfl
      exact h.replaced ls _ q a l hres hq hrename hmoves hl
    exact (if_neg hla).trans (if_neg hlb)

end Rename

theorem inherits_of_copy (hcopy : fs.copy fault.copy src q = (fs₁, ok)) : Inherits fs fs₁ := by
  obtain ⟨rfl, -⟩ | ⟨-, j, hopened, -⟩ := Fs.copy_cases hcopy
  · exact .refl fs₁
  · exact .opened hopened

section Copy

variable (hother : Regular fs₀ other) (hq : finalDst fs dst src = some q)
  (hrenamed : renamed fs fault src q = none) (hhome : Holds fs₀ fs dst other home)
  (h : Spares fs₀ fs dst src fault other home)

include hother hq hrenamed hhome h

theorem kept_of_copy (hcopy : fs.copy fault.copy src q = (fs₁, ok)) : Kept fs₀ fs₁ dst other := by
  obtain ⟨rfl, -⟩ | ⟨hbefore, j, hopened, -⟩ := Fs.copy_cases hcopy
  · exact ⟨home, hhome⟩
  · obtain ⟨ls, i, hres, -⟩ := hhome.file hother
    apply hhome.stays hres hopened.root
    · intro l hl
      exact hopened.entry l (Fs.seek_exists hres l hl)
    · apply hopened.data
      apply hopened.ne_of_old hres
      intro ls'
      exact h.overwritten ls ls' q i hres hq hrenamed hbefore

theorem kept_of_remove (hinh : Inherits fs₀ fs) (hsrc : Regular fs₀ src) (hfinal : finalDst fs₀ dst src = some q)
    (hcopy : fs.copy fault.copy src q = (fs₁, true)) : Kept fs₀ (fs₁.removeFile src) dst other := by
  obtain ⟨-, hok⟩ | ⟨hbefore, j, hopened, hdata⟩ := Fs.copy_cases hcopy
  · cases hok
  · obtain ⟨ls, i, hres, hbytes⟩ := hhome.file hother
    have hij : i ≠ j := by
      apply hopened.ne_of_old hres
      intro ls'
      exact h.overwritten ls ls' q i hres hq hrenamed hbefore
    have hroot : (fs₁.removeFile src).root = fs₁.root := Fs.removeFile_root
    have hres₁ := hopened.resolve hres nofun
    by_cases htaken : ∃ a ∈ ls, fs₁.locate src = some a
    · obtain ⟨a, hals, ha₁⟩ := htaken
      have ha : fs.locate src = some a := (inherits_of_copy hcopy).locate ha₁
      obtain ⟨way, k, hway, hfile⟩ := hinh.source hsrc ha (Fs.seek_exists hres a hals)
      obtain rfl : i = k := Spot.file.inj (Fs.seek_file_last hres a hals k hfile)
      have hfile₁ : fs₁.entry a = some (.file i) := (hopened.entry a (by simp [hfile])).trans hfile
      obtain ⟨ls', i', hres', hcopied⟩ := hdata rfl
      obtain ⟨-, rfl⟩ : way ++ [a] = ls' ∧ i = i' := by
        simpa using (Fs.resolve_file hway hfile).symm.trans hres'
      obtain ⟨lsq, hq₁⟩ := hopened.leads
      refine ⟨q, .inr ((h.taken ls _ a hres ha hals).trans hfinal), ?_⟩
      rw [hbytes, Fs.content_eq_some]
      refine ⟨lsq, j, Fs.seek_congr hroot hq₁ nofun ?_, ?_⟩
      · intro l hl
        apply Fs.removeFile_entry
        rintro hloc
        obtain rfl : a = l := Option.some.inj (ha₁.symm.trans hloc)
        exact hij (Spot.file.inj (Fs.seek_file_last hq₁ a hl i hfile₁)).symm
      · rw [Fs.removeFile_data, hcopied hij]
    · apply hhome.stays hres (hroot.trans hopened.root)
      · intro l hl
        rw [← hopened.entry l (Fs.seek_exists hres l hl)]
        apply Fs.removeFile_entry
        intro hloc
        exact htaken ⟨l, hl, hloc⟩
      · rw [Fs.removeFile_data, hopened.data i hij]

end Copy

end Move

section Step

variable {fs₀ fs fs' : Fs} {sources : List Path} {dst src other : Path} {fault : Fault} {complaints : List Complaint}

theorem moveFile_inherits (hinh : Inherits fs₀ fs) (hsrc : Regular fs₀ src)
    (h : moveFile fs dst src fault = some (fs', complaints)) : Inherits fs₀ fs' := by
  obtain rfl | ⟨-, q, -, ⟨a, b, -, hmoves, rfl⟩ | ⟨-, fs₁, ok, hcopy, hfs'⟩⟩ := moveFile_cases h
  · exact hinh
  · obtain ⟨i, hfile⟩ := moves_file hinh hsrc hmoves
    exact hinh.trans (.move hfile b)
  · have hinh₁ := hinh.trans (inherits_of_copy hcopy)
    obtain rfl | ⟨-, rfl⟩ := hfs'
    · exact hinh₁
    · exact hinh₁.trans (.removeFile fs₁ src)

theorem moveFile_isDir (hinh : Inherits fs₀ fs) (hsrc : Regular fs₀ src)
    (hcareful : fs.pathExists src → Careful fs₀ fs sources dst src fault)
    (h : moveFile fs dst src fault = some (fs', complaints)) (hdir : fs.isDir dst) : fs'.isDir dst := by
  obtain rfl | ⟨hexists, q, hq, ⟨a, b, hrename, hmoves, rfl⟩ | ⟨-, fs₁, ok, hcopy, hfs'⟩⟩ := moveFile_cases h
  · exact hdir
  · obtain ⟨ls, d, hres⟩ := Fs.isDir_iff.mp hdir
    obtain ⟨-, -, hb, -⟩ := Fs.renameOutcome_moves hmoves
    obtain ⟨way, hwayq⟩ := Fs.locate_eq_some.mp hb
    have hbls : b ∉ ls := by
      have hbway := (hcareful hexists).way q a b way hq hrename hmoves hwayq
      rw [finalDst, if_pos hdir] at hq
      obtain ⟨n, -, rfl⟩ := Option.map_eq_some_iff.mp hq
      obtain ⟨n', d', -, hdst, -⟩ := Fs.wayTo_eq_some.mp hwayq
      rw [join, List.dropLast_concat] at hdst
      obtain ⟨rfl, -⟩ := Prod.mk.inj (Option.some.inj (hres.symm.trans hdst))
      exact hbway
    have hroot : (fs.move a b).root = fs.root := rfl
    apply Fs.isDir_iff.mpr
    exact ⟨ls, d, Fs.seek_congr hroot hres nofun (entry_of_moves hinh hsrc hmoves hres hbls)⟩
  · obtain ⟨ls, d, hres⟩ := Fs.isDir_iff.mp hdir
    have hinh₁ := inherits_of_copy hcopy
    have hres₁ : fs₁.resolve dst = some (ls, .dir d) := by
      obtain ⟨rfl, -⟩ | ⟨-, j, hopened, -⟩ := Fs.copy_cases hcopy
      · exact hres
      · exact hopened.resolve hres nofun
    obtain rfl | ⟨-, rfl⟩ := hfs'
    · exact Fs.isDir_iff.mpr ⟨ls, d, hres₁⟩
    · refine Fs.isDir_iff.mpr ⟨ls, d, Fs.seek_congr Fs.removeFile_root hres₁ nofun ?_⟩
      intro l hl
      apply Fs.removeFile_entry
      intro hloc
      obtain ⟨_, i, -, hfile⟩ := (hinh.trans hinh₁).source hsrc hloc (Fs.seek_exists hres₁ l hl)
      cases Fs.seek_file_last hres₁ l hl i hfile

theorem moveFile_keeps (hinh : Inherits fs₀ fs) (hsrc : Regular fs₀ src)
    (hfinal : finalDst fs₀ dst src = finalDst fs dst src)
    (hcareful : fs.pathExists src → Careful fs₀ fs sources dst src fault)
    (h : moveFile fs dst src fault = some (fs', complaints)) (hmem : other ∈ sources)
    (hother : Regular fs₀ other) (hkept : Kept fs₀ fs dst other) : Kept fs₀ fs' dst other := by
  obtain rfl | ⟨hexists, q, hq, hcase⟩ := moveFile_cases h
  · exact hkept
  · obtain ⟨hway, hspares⟩ := hcareful hexists
    obtain ⟨home, hhome, hspared⟩ := hspares other hmem hkept
    have hfinalq : finalDst fs₀ dst src = some q := hfinal.trans hq
    obtain ⟨a, b, hrename, hmoves, rfl⟩ | ⟨hrenamed, fs₁, ok, hcopy, hfs'⟩ := hcase
    · apply kept_of_moves hinh hsrc hmoves hother hfinalq hq hrename _ hhome hspared
      intro way hwayq
      exact hway q a b way hq hrename hmoves hwayq
    · obtain rfl | ⟨rfl, rfl⟩ := hfs'
      · exact kept_of_copy hother hq hrenamed hhome hspared hcopy
      · exact kept_of_remove hother hq hrenamed hhome hspared hinh hsrc hfinalq hcopy

end Step

def CarefulMove (fs₀ : Fs) (sources : List Path) (dst : Path) (fs : Fs) (e : Path × Fault) (fs' : Fs) : Prop :=
  Moved dst fs e fs' ∧ (fs.pathExists e.1 → Careful fs₀ fs sources dst e.1 e.2)

section Runs

variable {fs₀ fs fs' : Fs} {sources : List Path} {dst src : Path} {tr all : List (Path × Fault)}

theorem run_keeps (hsrcs : ∀ src ∈ sources, Regular fs₀ src) (hdst : sources.length ≤ 1 ∨ fs₀.isDir dst)
    (hrun : Run (CarefulMove fs₀ sources dst) fs₀ tr fs) (htr : tr.map Prod.fst <+: sources) :
    Inherits fs₀ fs ∧ (fs₀.isDir dst → fs.isDir dst) ∧ ∀ src ∈ sources, Kept fs₀ fs dst src := by
  induction hrun with
  | refl => exact ⟨.refl fs₀, id, fun src _ => ⟨src, .inl rfl, rfl⟩⟩
  | @tail tr fs fs' e hrun hs ih =>
    rw [List.map_append] at htr
    obtain ⟨hinh, hdir, hkept⟩ := ih ((List.prefix_append _ _).trans htr)
    obtain ⟨⟨complaints, hmove⟩, hcareful⟩ := hs
    have hsrc : Regular fs₀ e.1 := hsrcs e.1 (htr.subset (by simp))
    have hfinal : finalDst fs₀ dst e.1 = finalDst fs dst e.1 := by
      cases hdir₀ : fs₀.isDir dst with
      | true => exact finalDst_congr (hdir₀.trans (hdir hdir₀).symm)
      | false =>
        -- the only move is the first
        have hlen := htr.length_le
        have hsources : sources.length ≤ 1 := hdst.resolve_right (by simp [hdir₀])
        obtain rfl : tr = [] := List.eq_nil_of_length_eq_zero (by simp at hlen; omega)
        rw [run_nil.mp hrun]
    refine ⟨moveFile_inherits hinh hsrc hmove, ?_, ?_⟩
    · intro hdir₀
      exact moveFile_isDir hinh hsrc hcareful hmove (hdir hdir₀)
    · intro src hmem
      exact moveFile_keeps hinh hsrc hfinal hcareful hmove hmem (hsrcs src hmem) (hkept src hmem)

theorem run_moveFiles {complaints : List Complaint} (h : moveFiles dst all fs = (fs', complaints)) :
    ∃ tr, tr <+: all ∧ Run (Moved dst) fs tr fs' := by
  induction all generalizing fs complaints with
  | nil =>
    obtain ⟨rfl, -⟩ := Prod.mk.inj h
    exact ⟨[], List.prefix_rfl, .refl⟩
  | cons e rest ih =>
    obtain ⟨src, fault⟩ := e
    rw [moveFiles] at h
    cases hmove : moveFile fs dst src fault with
    | none =>
      rw [hmove] at h
      obtain ⟨rfl, -⟩ := Prod.mk.inj h
      exact ⟨[], List.nil_prefix, .refl⟩
    | some moved =>
      obtain ⟨fs₁, first⟩ := moved
      rw [hmove] at h
      obtain ⟨rfl, -⟩ := Prod.mk.inj h
      obtain ⟨tr, hpre, hrun⟩ := ih rfl
      have hs : Moved dst fs (src, fault) fs₁ := ⟨first, hmove⟩
      exact ⟨(src, fault) :: tr, List.cons_prefix_cons.mpr ⟨rfl, hpre⟩,
        run_append.mpr ⟨fs₁, .tail .refl hs, hrun⟩⟩

theorem careful_run (hrun : Run (Moved dst) fs₀ tr fs) (htr : tr <+: all)
    (hcareful : ∀ before e fs, before ++ [e] <+: all → Run (Moved dst) fs₀ before fs → fs.pathExists e.1 →
      Careful fs₀ fs sources dst e.1 e.2) : Run (CarefulMove fs₀ sources dst) fs₀ tr fs := by
  induction hrun with
  | refl => exact .refl
  | @tail tr fs fs' e hrun hs ih =>
    exact .tail (ih ((List.prefix_append _ _).trans htr)) ⟨hs, hcareful tr e fs htr hrun⟩

theorem moves_sources (faults : ℕ → Fault) (srcs : List Path) : (moves faults srcs).map Prod.fst = srcs := by
  rw [moves, List.map_map]
  exact List.zipIdx_map_fst 0 srcs

end Runs

theorem moves_lose_nothing {path : String → Path} {faults : ℕ → Fault} {args : List String} {fs₀ : Fs}
    {srcs : List String} {dst : String} (hargs : operands args = some (srcs, dst))
    (hfiles : ∀ src ∈ srcs, Regular fs₀ (path src))
    (hcareful : ∀ before e fs, before ++ [e] <+: moves faults (srcs.map path) →
      Run (Moved (path dst)) fs₀ before fs → fs.pathExists e.1 →
      Careful fs₀ fs (srcs.map path) (path dst) e.1 e.2) :
    ((srcs.length ≤ 1 ∨ fs₀.isDir (path dst)) →
      ∀ tr fs, tr <+: moves faults (srcs.map path) → Run (Moved (path dst)) fs₀ tr fs →
      ∀ src ∈ srcs, Kept fs₀ fs (path dst) (path src)) ∧
    ∀ src ∈ srcs, Kept fs₀ (main path faults args fs₀).1 (path dst) (path src) := by
  have hall : (srcs.length ≤ 1 ∨ fs₀.isDir (path dst)) → ∀ tr fs, tr <+: moves faults (srcs.map path) →
      Run (Moved (path dst)) fs₀ tr fs → ∀ src ∈ srcs, Kept fs₀ fs (path dst) (path src) := by
    intro hdst tr fs htr hrun src hsrc
    have hsources : ∀ src ∈ srcs.map path, Regular fs₀ src := List.forall_mem_map.mpr hfiles
    have hpre : tr.map Prod.fst <+: srcs.map path := by
      rw [← moves_sources faults (srcs.map path)]
      exact htr.map Prod.fst
    obtain ⟨-, -, hkept⟩ := run_keeps hsources (by simpa using hdst) (careful_run hrun htr hcareful) hpre
    exact hkept _ (List.mem_map_of_mem hsrc)
  refine ⟨hall, ?_⟩
  rw [main, hargs]
  dsimp only
  split_ifs with hrefused
  · exact fun src _ => ⟨path src, .inl rfl, rfl⟩
  · have hdst : srcs.length ≤ 1 ∨ fs₀.isDir (path dst) := by
      simpa [Nat.lt_iff_add_one_le, or_iff_not_imp_left] using hrefused
    obtain ⟨⟨fs, complaints⟩, hmoves⟩ : ∃ r, moveFiles (path dst) (moves faults (srcs.map path)) fs₀ = r := ⟨_, rfl⟩
    rw [hmoves]
    obtain ⟨tr, htr, hrun⟩ := run_moveFiles hmoves
    exact hall hdst tr fs htr hrun

def plainPath (s : String) : Path := ⟨0, (s.toList.splitOn '/').map (List.map fun c => c.toNat.toUInt8)⟩

def noFault : Fault := ⟨false, .none, false⟩

def twoFiles : Fs where
  root := 0
  entry l :=
    if l = ⟨0, [97]⟩ then some (.dir 1)
    else if l = ⟨0, [98]⟩ then some (.dir 2)
    else if l = ⟨0, [100]⟩ then some (.dir 3)
    else if l = ⟨1, [120]⟩ then some (.file 0)
    else if l = ⟨2, [120]⟩ then some (.file 1)
    else none
  data i := if i = 0 then [1] else [2]
  next := 2
  used l i h := by
    split_ifs at h <;> simp at h <;> omega

theorem twoFiles_regular : ∀ src ∈ ["a/x", "b/x"], Regular twoFiles (plainPath src) := by
  rw [List.forall_mem_cons, List.forall_mem_singleton]
  exact ⟨⟨[⟨0, [97]⟩], ⟨1, [120]⟩, 0, by decide, by decide⟩, ⟨[⟨0, [98]⟩], ⟨2, [120]⟩, 1, by decide, by decide⟩⟩

theorem same_name_overwrites :
    (∀ src ∈ ["a/x", "b/x"], Regular twoFiles (plainPath src)) ∧ twoFiles.isDir (plainPath "d") ∧
      ¬ ∀ src ∈ ["a/x", "b/x"],
        Kept twoFiles (main plainPath (fun _ => noFault) ["rmv", "a/x", "b/x", "d"] twoFiles).1
          (plainPath "d") (plainPath src) := by
  refine ⟨twoFiles_regular, by decide, fun h => ?_⟩
  obtain ⟨home, hplace, hcontent⟩ := h "a/x" (List.mem_cons_self)
  have hdst : finalDst twoFiles (plainPath "d") (plainPath "a/x") = some (plainPath "d/x") := by decide
  rw [hdst] at hplace
  obtain rfl | hhome := hplace
  · revert hcontent
    decide
  · obtain rfl := Option.some.inj hhome
    revert hcontent
    decide

theorem careful_of_moves {fs₀ fs : Fs} {sources : List Path} {dst src q : Path} {a b : Loc} {way : List Loc}
    (hfinal : finalDst fs dst src = some q) (hmoves : fs.renameOutcome src q = .moves a b)
    (hway : fs.wayTo q = some (way, b)) (hb : b ∉ way)
    (hspares : ∀ other ∈ sources, ∃ home ls spot, Holds fs₀ fs dst other home ∧ fs.resolve home = some (ls, spot) ∧ b ∉ ls ∧
      (a ∈ ls → finalDst fs₀ dst other = finalDst fs₀ dst src)) : Careful fs₀ fs sources dst src noFault := by
  constructor
  · intro q' a' b' way' hq _ hab hway'
    obtain rfl := Option.some.inj (hfinal.symm.trans hq)
    obtain ⟨rfl, rfl⟩ := Fs.RenameOutcome.moves.inj (hmoves.symm.trans hab)
    obtain ⟨rfl, -⟩ := Prod.mk.inj (Option.some.inj (hway.symm.trans hway'))
    exact hb
  · intro other hother _
    obtain ⟨home, ls, spot, hholds, hres, hbls, hsame⟩ := hspares other hother
    refine ⟨home, hholds, ?_, ?_, ?_⟩
    · intro ls' spot' a' hres' ha' hmem
      obtain ⟨rfl, -⟩ := Prod.mk.inj (Option.some.inj (hres.symm.trans hres'))
      obtain rfl := Option.some.inj ((Fs.renameOutcome_moves hmoves).1.symm.trans ha')
      exact hsame hmem
    · intro ls' spot' q' a' b' hres' hq _ hab
      obtain ⟨rfl, -⟩ := Prod.mk.inj (Option.some.inj (hres.symm.trans hres'))
      obtain rfl := Option.some.inj (hfinal.symm.trans hq)
      obtain ⟨-, rfl⟩ := Fs.RenameOutcome.moves.inj (hmoves.symm.trans hab)
      exact hbls
    · intro ls' ls'' q' i _ hq hrenamed
      obtain rfl := Option.some.inj (hfinal.symm.trans hq)
      rw [renamed, if_neg (by decide), Fs.rename, hmoves] at hrenamed
      cases hrenamed

def twoNames : Fs where
  root := 0
  entry l :=
    if l = ⟨0, [97]⟩ then some (.dir 1)
    else if l = ⟨0, [98]⟩ then some (.dir 2)
    else if l = ⟨0, [100]⟩ then some (.dir 3)
    else if l = ⟨1, [120]⟩ then some (.file 0)
    else if l = ⟨2, [121]⟩ then some (.file 1)
    else none
  data i := if i = 0 then [1] else [2]
  next := 2
  used l i h := by
    split_ifs at h <;> simp at h <;> omega

def firstMoved : Fs := twoNames.move ⟨1, [120]⟩ ⟨3, [120]⟩

theorem careful_first : Careful twoNames twoNames (["a/x", "b/y"].map plainPath) (plainPath "d") (plainPath "a/x") noFault := by
  refine careful_of_moves (q := plainPath "d/x") (a := ⟨1, [120]⟩) (b := ⟨3, [120]⟩) (by decide) (by decide)
    (by decide : _ = some ([⟨0, [100]⟩], _)) (by decide) ?_
  refine List.forall_mem_cons.mpr ⟨?_, List.forall_mem_singleton.mpr ?_⟩
  · exact ⟨plainPath "a/x", [⟨0, [97]⟩, ⟨1, [120]⟩], .file 0, ⟨.inl rfl, rfl⟩, by decide, by decide, fun _ => rfl⟩
  · exact ⟨plainPath "b/y", [⟨0, [98]⟩, ⟨2, [121]⟩], .file 1, ⟨.inl rfl, rfl⟩, by decide, by decide, fun h => absurd h (by decide)⟩

theorem careful_second : Careful twoNames firstMoved (["a/x", "b/y"].map plainPath) (plainPath "d") (plainPath "b/y") noFault := by
  refine careful_of_moves (q := plainPath "d/y") (a := ⟨2, [121]⟩) (b := ⟨3, [121]⟩) (by decide) (by decide)
    (by decide : _ = some ([⟨0, [100]⟩], _)) (by decide) ?_
  refine List.forall_mem_cons.mpr ⟨?_, List.forall_mem_singleton.mpr ?_⟩
  · exact ⟨plainPath "d/x", [⟨0, [100]⟩, ⟨3, [120]⟩], .file 0, ⟨.inr (by decide), by decide⟩, by decide, by decide,
      fun h => absurd h (by decide)⟩
  · exact ⟨plainPath "b/y", [⟨0, [98]⟩, ⟨2, [121]⟩], .file 1, ⟨.inl rfl, by decide⟩, by decide, by decide, fun _ => rfl⟩

theorem moved_first {fs : Fs} (h : Moved (plainPath "d") twoNames (plainPath "a/x", noFault) fs) : fs = firstMoved := by
  obtain ⟨complaints, h⟩ := h
  have hfinal : finalDst twoNames (plainPath "d") (plainPath "a/x") = some (plainPath "d/x") := by decide
  have hmoves : twoNames.renameOutcome (plainPath "a/x") (plainPath "d/x") = .moves ⟨1, [120]⟩ ⟨3, [120]⟩ := by decide
  have hexists : twoNames.pathExists (plainPath "a/x") = true := by decide
  simp only [moveFile, hexists, hfinal, renamed, noFault, Fs.rename, hmoves] at h
  exact (Prod.mk.inj (Option.some.inj h)).1.symm

theorem two_files_moved :
    ((["a/x", "b/y"].length ≤ 1 ∨ twoNames.isDir (plainPath "d")) →
      ∀ tr fs, tr <+: moves (fun _ => noFault) (["a/x", "b/y"].map plainPath) → Run (Moved (plainPath "d")) twoNames tr fs →
      ∀ src ∈ ["a/x", "b/y"], Kept twoNames fs (plainPath "d") (plainPath src)) ∧
    ∀ src ∈ ["a/x", "b/y"], Kept twoNames (main plainPath (fun _ => noFault) ["rmv", "a/x", "b/y", "d"] twoNames).1
      (plainPath "d") (plainPath src) := by
  apply moves_lose_nothing
  · decide
  · rw [List.forall_mem_cons, List.forall_mem_singleton]
    exact ⟨⟨[⟨0, [97]⟩], ⟨1, [120]⟩, 0, by decide, by decide⟩, ⟨[⟨0, [98]⟩], ⟨2, [121]⟩, 1, by decide, by decide⟩⟩
  · intro before e fs hpre hrun _
    have hall : moves (fun _ => noFault) (["a/x", "b/y"].map plainPath) =
        [(plainPath "a/x", noFault), (plainPath "b/y", noFault)] := rfl
    rw [hall] at hpre
    match before, hpre, hrun with
    | [], hpre, hrun =>
      obtain rfl : e = (plainPath "a/x", noFault) := (List.cons_prefix_cons.mp hpre).1
      obtain rfl := run_nil.mp hrun
      exact careful_first
    | [e₀], hpre, hrun =>
      obtain ⟨rfl, hrest⟩ := List.cons_prefix_cons.mp hpre
      obtain rfl : e = (plainPath "b/y", noFault) := (List.cons_prefix_cons.mp hrest).1
      have hone : Run (Moved (plainPath "d")) twoNames ([] ++ [(plainPath "a/x", noFault)]) fs := hrun
      obtain ⟨fs₁, hfirst, hs⟩ := run_concat.mp hone
      obtain rfl := run_nil.mp hfirst
      rw [moved_first hs]
      exact careful_second
    | e₀ :: e₁ :: before, hpre, _ =>
      have hlen := hpre.length_le
      simp at hlen

end Rustils.Coreutils.Rmv
