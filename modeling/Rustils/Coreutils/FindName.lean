import Mathlib.Algebra.Order.BigOperators.Group.List
import Mathlib.Algebra.Order.Group.Nat
import Rustils.Coreutils.FindPattern
import Rustils.Coreutils.Rfind

namespace Rustils.Coreutils.Rfind

open Coreutils.Tree Lib.Walk Lib.Ere Lib.Glob Lib.Lossy Lib.Utf8

structure Regx where
  Regex : Type
  new : String → Option Regex
  isMatch : Regex → String → Bool

structure Options where
  searchPath : String
  namePattern : Option String
  typeFilter : Option Char
  deriving DecidableEq

def optionsFrom : Bool → List String → Options → Options
  | _, [], o => o
  | first, [arg], o => if first && arg.toList.head? ≠ some '-' then { o with searchPath := arg } else o
  | first, arg :: value :: rest, o =>
    if arg = "-name" then optionsFrom false rest { o with namePattern := some value }
    else if arg = "-type" then optionsFrom false rest { o with typeFilter := value.toList.head? }
    else if first && arg.toList.head? ≠ some '-' then optionsFrom false (value :: rest) { o with searchPath := arg }
    else optionsFrom false (value :: rest) o

def options (args : List String) : Options := optionsFrom true args.tail ⟨".", none, none⟩

inductive Exit
  | badPattern
  | walked (r : Except Errno Unit)

structure Run where
  first : List Path
  below : ℕ → Option (List Path × Exit)

def printed (visits : List Visit) : List Path := (visits.filter (·.printed)).map (·.path)

section Main

variable {D : Type} (fs : Fs D) (root : Option (Object D)) (typeFilter : Option Char)

def find (nameRegex : Option (String → Bool)) : Run where
  first := if matchesType typeFilter (fs.isDir root []) then [[]] else []
  below fuel :=
    if fs.isDir root [] then
      (walkDir fs root nameRegex typeFilter fuel []).map fun (visits, r) => (printed visits, .walked r)
    else some ([], .walked (.ok ()))

def main (regx : Regx) (locate : String → Option (Object D)) (args : List String) : Run :=
  let o := options args
  match o.namePattern with
  | none => find fs (locate o.searchPath) o.typeFilter none
  | some pattern =>
    match regx.new (regexStr pattern) with
    | none => ⟨[], fun _ => some ([], .badPattern)⟩
    | some re => find fs (locate o.searchPath) o.typeFilter (some (regx.isMatch re))

def baseName (searchPath : String) : Name :=
  match ((asBytes searchPath).reverse.dropWhile (· = 0x2F)).takeWhile (· ≠ 0x2F) with
  | [] => (asBytes searchPath).take 1
  | name => name.reverse

def InWalk (path : Path) : Prop :=
  path = [] ∨ ∃ dir n names, path = dir ++ [n] ∧ fs.readDir root dir = .ok names ∧ n ∈ names

def Selected (searchPath pattern : String) (path : Path) : Prop :=
  InWalk fs root path ∧ matchesType typeFilter (fs.isDir root path) ∧
    glob String.utf8EncodeChar pattern.toList (path.getLastD (baseName searchPath))

structure Finds (run : Run) (selected : Path → Prop) : Prop where
  first : ∀ path, path ∈ run.first ↔ path = [] ∧ selected path
  below : ∀ fuel printed exit, run.below fuel = some (printed, exit) →
    ∀ path, path ∈ printed ↔ path ≠ [] ∧ selected path
  ends : (∀ d, root = some (.dir d) → NoCycle fs d) → ∃ fuel, (run.below fuel).isSome

def RootNamed (searchPath pattern : String) : Prop :=
  matchesType typeFilter (fs.isDir root []) → glob String.utf8EncodeChar pattern.toList (baseName searchPath)

end Main

def Regx.Conforms (regx : Regx) : Prop :=
  ∀ s e, Lib.Ere.read s.toList = some e →
    ∃ re, regx.new s = some re ∧ ∀ text, regx.isMatch re text ↔ Search e text.toList

def FileName (n : Name) : Prop := n ≠ [] ∧ n ≠ [0x2E] ∧ n ≠ [0x2E, 0x2E] ∧ 0x2F ∉ n ∧ 0 ∉ n

def FindsByName (regx : Regx) (pattern : String) : Prop :=
  ∀ (D : Type) [Finite D] (fs : Fs D) (locate : String → Option (Object D)) (args : List String) (o : Options),
    (∀ d, ∀ e ∈ fs.entries d, FileName e.name) → options args = o → o.namePattern = some pattern →
      (Finds fs (locate o.searchPath) (main fs regx locate args)
          (Selected fs (locate o.searchPath) o.typeFilter o.searchPath pattern) ↔
        RootNamed fs (locate o.searchPath) o.typeFilter o.searchPath pattern)

section Walk

variable {D : Type} {fs : Fs D} {root : Option (Object D)} {typeFilter : Option Char} {isMatch : String → Bool}
  {searchPath pattern : String}

theorem inWalk_iff {d : D} {path : Path} (hpath : path ≠ []) : InWalk fs (some (.dir d)) path ↔
    ∃ c w e, Leads fs.entries Entry.child d c w ∧ e ∈ fs.entries w ∧ path = (c ++ [e]).map Entry.name := by
  constructor
  · rintro (rfl | ⟨dir, n, names, rfl, hnames, hn⟩)
    · exact absurd rfl hpath
    · unfold Fs.readDir at hnames
      split at hnames
      · next w hdir =>
        obtain rfl := Except.ok.inj hnames
        obtain ⟨c, hc, rfl⟩ := leads_of_follow hdir
        obtain ⟨e, he, rfl⟩ := List.mem_map.mp hn
        exact ⟨c, w, e, hc, he, by simp⟩
      · cases hnames
      · cases hnames
  · rintro ⟨c, w, e, hc, he, rfl⟩
    refine .inr ⟨c.map Entry.name, e.name, _, by simp, readDir_dir (follow_of_leads hc), ?_⟩
    exact List.mem_map_of_mem he

theorem inWalk_file {path : Path} (hroot : fs.isDir root [] = false) : InWalk fs root path ↔ path = [] := by
  refine ⟨?_, .inl⟩
  rintro (h | ⟨dir, n, names, -, hnames, -⟩)
  · exact h
  · have hstuck : ∀ dir : Path, ∀ o, fs.follow root dir = some (.dir o) → False := by
      intro dir
      induction dir using List.reverseRecOn with
      | nil =>
        intro o ho
        rw [Fs.isDir, ho] at hroot
        cases hroot
      | append_singleton dir n ih =>
        intro o ho
        rw [follow_concat] at ho
        unfold Fs.enter at ho
        split at ho
        · next u hu => exact ih u hu
        · cases ho
    unfold Fs.readDir at hnames
    split at hnames
    · next w hdir => exact (hstuck dir w hdir).elim
    · cases hnames
    · cases hnames

theorem mem_printed {d : D} {fuel : ℕ} {cs : List (List (Entry D))} {nameRegex : Option (String → Bool)}
    (h : walk fs.entries Entry.child fuel d = some cs) (path : Path) :
    path ∈ printed (cs.map (visitAt fs (some (.dir d)) nameRegex typeFilter [])) ↔
      path ≠ [] ∧ InWalk fs (some (.dir d)) path ∧ matchesType typeFilter (fs.isDir (some (.dir d)) path) ∧
        matchesName nameRegex (toStringLossy (path.getLastD [])) := by
  have hvisit : ∀ c, (visitAt fs (some (.dir d)) nameRegex typeFilter [] c).printed ↔
      matchesType typeFilter (fs.isDir (some (.dir d)) (c.map Entry.name)) ∧
        matchesName nameRegex (toStringLossy ((c.map Entry.name).getLastD [])) := by
    intro c
    rw [visitAt, List.nil_append, Bool.and_eq_true]
  rw [printed, List.mem_map]
  constructor
  · rintro ⟨visit, hmem, rfl⟩
    obtain ⟨hmem, hprinted⟩ := List.mem_filter.mp hmem
    obtain ⟨x, hx, rfl⟩ := List.mem_map.mp hmem
    obtain ⟨c, w, e, hc, he, rfl⟩ := (mem_walk h x).mp hx
    have hne : (c ++ [e]).map Entry.name ≠ [] := by simp
    exact ⟨hne, (inWalk_iff hne).mpr ⟨c, w, e, hc, he, rfl⟩, (hvisit _).mp hprinted⟩
  · rintro ⟨hne, hin, hprinted⟩
    obtain ⟨c, w, e, hc, he, rfl⟩ := (inWalk_iff hne).mp hin
    refine ⟨visitAt fs (some (.dir d)) nameRegex typeFilter [] (c ++ [e]), List.mem_filter.mpr ⟨?_, ?_⟩, rfl⟩
    · exact List.mem_map_of_mem ((mem_walk h _).mpr ⟨c, w, e, hc, he, rfl⟩)
    · exact (hvisit _).mpr hprinted

theorem mem_first {nameRegex : Option (String → Bool)} (path : Path) :
    path ∈ (find fs root typeFilter nameRegex).first ↔ path = [] ∧ matchesType typeFilter (fs.isDir root []) := by
  rw [find]
  split_ifs with h <;> simp [h]

theorem below_dir {d : D} {nameRegex : Option (String → Bool)} (fuel : ℕ) :
    (find fs (some (.dir d)) typeFilter nameRegex).below fuel = (walk fs.entries Entry.child fuel d).map
      fun cs => (printed (cs.map (visitAt fs (some (.dir d)) nameRegex typeFilter [])), .walked (.ok ())) := by
  have hhere : fs.follow (some (.dir d)) [] = some (.dir d) := rfl
  have hdir : fs.isDir (some (.dir d)) [] = true := rfl
  simp only [find, hdir, if_true, walkDir_eq fuel hhere, Option.map_map]
  rfl

theorem mem_below {fuel : ℕ} {paths : List Path} {exit : Exit}
    (hagree : ∀ d, ∀ e ∈ fs.entries d,
      (isMatch (toStringLossy e.name) ↔ glob String.utf8EncodeChar pattern.toList e.name))
    (h : (find fs root typeFilter (some isMatch)).below fuel = some (paths, exit)) (path : Path) :
    path ∈ paths ↔ path ≠ [] ∧ Selected fs root typeFilter searchPath pattern path := by
  cases hdir : fs.isDir root [] with
  | false =>
    simp only [find, hdir] at h
    obtain ⟨rfl, -⟩ := Prod.mk.inj (Option.some.inj h)
    refine iff_of_false (List.not_mem_nil) ?_
    rintro ⟨hne, hin, -⟩
    exact hne ((inWalk_file hdir).mp hin)
  | true =>
    obtain ⟨d, rfl⟩ : ∃ d, root = some (.dir d) := by
      unfold Fs.isDir at hdir
      split at hdir
      · next d hd => exact ⟨d, hd⟩
      · cases hdir
    rw [below_dir] at h
    obtain ⟨cs, hcs, hpaths⟩ := Option.map_eq_some_iff.mp h
    obtain ⟨rfl, -⟩ := Prod.mk.inj hpaths
    rw [mem_printed hcs, Selected]
    apply and_congr_right
    intro hne
    apply and_congr_right
    intro hin
    obtain ⟨c, w, e, hc, he, rfl⟩ := (inWalk_iff hne).mp hin
    have hlast : ∀ n : Name, ((c ++ [e]).map Entry.name).getLastD n = e.name := by simp
    rw [hlast, hlast, matchesName, hagree w e he]

theorem find_ends [Finite D] {nameRegex : Option (String → Bool)} (h : ∀ d, root = some (.dir d) → NoCycle fs d) :
    ∃ fuel, ((find fs root typeFilter nameRegex).below fuel).isSome := by
  rcases root with _ | ⟨d | _⟩
  · exact ⟨0, rfl⟩
  · obtain ⟨fuel, hfuel⟩ := walk_ends_iff.mpr (h d rfl)
    exact ⟨fuel, by rwa [below_dir, Option.isSome_map]⟩
  · exact ⟨0, rfl⟩

theorem finds_iff [Finite D] (hagree : ∀ d, ∀ e ∈ fs.entries d,
      (isMatch (toStringLossy e.name) ↔ glob String.utf8EncodeChar pattern.toList e.name)) :
    Finds fs root (find fs root typeFilter (some isMatch)) (Selected fs root typeFilter searchPath pattern) ↔
      RootNamed fs root typeFilter searchPath pattern := by
  constructor
  · intro h htype
    obtain ⟨-, -, -, hname⟩ := (h.first []).mp ((mem_first []).mpr ⟨rfl, htype⟩)
    exact hname
  · intro hroot
    constructor
    · intro path
      rw [mem_first]
      apply and_congr_right
      rintro rfl
      exact ⟨fun htype => ⟨.inl rfl, htype, hroot htype⟩, fun h => h.2.1⟩
    · intro fuel paths exit h path
      exact mem_below hagree h path
    · exact find_ends

end Walk

section Pattern

variable {regx : Regx} {pattern : String}

@[simp] theorem toList_toStringLossy (n : Name) : (toStringLossy n).toList = lossy n := String.toList_ofList

theorem main_eq {D : Type} {fs : Fs D} {locate : String → Option (Object D)} {args : List String}
    (hpattern : (options args).namePattern = some pattern) {re : regx.Regex}
    (hnew : regx.new (regexStr pattern) = some re) : main fs regx locate args =
      find fs (locate (options args).searchPath) (options args).typeFilter (some (regx.isMatch re)) := by
  simp only [main, hpattern, hnew]

theorem finds_of_plain (hregx : regx.Conforms) (hp : Plain pattern) : FindsByName regx pattern := by
  rintro D _ fs locate args _ - rfl hpattern
  obtain ⟨re, hnew, hmatch⟩ := hregx _ _ (read_plain fun c hc => (hp c hc).1)
  rw [main_eq hpattern hnew]
  apply finds_iff
  intro d e he
  rw [hmatch, search_plain, toList_toStringLossy]
  exact glob_lossy_iff fun hmem => (hp _ hmem).2 rfl

def oneFile (n : Name) : Fs Unit where
  entries _ := [⟨n, .here .file⟩]
  nodup _ := List.nodup_singleton n
  forest := by
    constructor
    · simp
    · intro v hv
      obtain ⟨_, ⟨_, hfirst⟩, -⟩ := Relation.TransGen.head'_iff.mp hv
      simp at hfirst

theorem agrees_of_finds (h : FindsByName regx pattern) {n : Name} (hn : FileName n) {re : regx.Regex}
    (hnew : regx.new (regexStr pattern) = some re) :
    regx.isMatch re (toStringLossy n) ↔ glob String.utf8EncodeChar pattern.toList n := by
  have hoptions : options ["rfind", "-name", pattern, "-type", "f"] = ⟨".", some pattern, some 'f'⟩ := by
    simp [options, optionsFrom]
  have hfiles : ∀ d, ∀ e ∈ (oneFile n).entries d, FileName e.name := by
    intro d e he
    obtain rfl := List.mem_singleton.mp he
    exact hn
  have hfinds := (h Unit (oneFile n) (fun _ => some (.dir ())) _ _ hfiles hoptions rfl).mpr nofun
  have hpattern : (options ["rfind", "-name", pattern, "-type", "f"]).namePattern = some pattern := by
    rw [hoptions]
  rw [main_eq hpattern hnew, hoptions] at hfinds
  have hwalk : walk (oneFile n).entries Entry.child 1 () = some [[⟨n, .here .file⟩]] := rfl
  have hbelow := hfinds.below 1 _ _ (by rw [below_dir, hwalk, Option.map_some]) [n]
  rw [mem_printed hwalk, Selected] at hbelow
  have hin : InWalk (oneFile n) (some (.dir ())) [n] :=
    .inr ⟨[], n, [n], rfl, rfl, List.mem_singleton_self n⟩
  have htype : matchesType (some 'f') ((oneFile n).isDir (some (.dir ())) [n]) = true := by
    have hfile : (oneFile n).isDir (some (.dir ())) [n] = false := by
      simp [Fs.isDir, Fs.follow, Fs.enter, Fs.lookup, oneFile, Entry.object]
    rw [hfile]
    rfl
  simpa [hin, htype, matchesName] using hbelow

theorem fileName_of_text {w : List Char} (hdots : ∃ c ∈ w, c ≠ '.') (hslash : '/' ∉ w) (hnul : '\x00' ∉ w) :
    FileName (w.flatMap String.utf8EncodeChar) := by
  have hne : ∀ k, w.flatMap String.utf8EncodeChar ≠ (List.replicate k '.').flatMap String.utf8EncodeChar := by
    intro k h
    have hk : w = List.replicate k '.' := by rw [← lossy_text w, h, lossy_text]
    obtain ⟨c, hc, hdot⟩ := hdots
    rw [hk] at hc
    exact hdot (List.eq_of_mem_replicate hc)
  have hascii : ∀ b : UInt8, b < 0x80 → b ∈ w.flatMap String.utf8EncodeChar → Char.ofNat b.toNat ∈ w := by
    intro b hb h
    obtain ⟨c, hc, hbc⟩ := List.mem_flatMap.mp h
    rw [← (mem_encodeChar hb c).mp hbc, Char.ofNat_toNat]
    exact hc
  exact ⟨hne 0, hne 1, hne 2, fun h => hslash (hascii 0x2F (by decide) h), fun h => hnul (hascii 0 (by decide) h)⟩

theorem mem_solid {c : Char} {p : List Char} : c ∈ solid p ↔ c ∈ p ∧ c ≠ '*' := by
  rw [solid, List.mem_filter, decide_eq_true_iff]

theorem weigh_solid (p : List Char) : ((solid p).map weigh).sum = (p.map weigh).sum := by
  induction p with
  | nil => rfl
  | cons c p ih =>
    rw [List.map_cons, List.sum_cons, ← ih]
    obtain rfl | hc := eq_or_ne c '*'
    · exact (Nat.zero_add _).symm
    · rw [solid, List.filter_cons_of_pos (by simpa using hc), List.map_cons, List.sum_cons, solid]

theorem not_finds_of_operator (hregx : regx.Conforms) {e : Expr} (he : Lib.Ere.read (regexStr pattern).toList = some e)
    (hslash : '/' ∉ pattern.toList) (hnul : '\x00' ∉ pattern.toList)
    (hop : ∃ c ∈ pattern.toList, c ∈ operators) : ¬ FindsByName regx pattern := by
  intro h
  obtain ⟨re, hnew, hmatch⟩ := hregx _ _ he
  have hsame : ∀ w : List Char, (∃ c ∈ w, c ≠ '.') → (∀ c ∈ w, c ∈ solid pattern.toList ∨ c = 'z') →
      (Search e w ↔ glob String.utf8EncodeChar pattern.toList (w.flatMap String.utf8EncodeChar)) := by
    intro w hdots hw
    have hnot : ∀ c, c ∉ pattern.toList → c ≠ 'z' → c ∉ w := by
      intro c hc hz hmem
      exact (hw c hmem).elim (fun hs => hc (mem_solid.mp hs).1) hz
    have hname := fileName_of_text hdots (hnot _ hslash (by decide)) (hnot _ hnul (by decide))
    rw [← agrees_of_finds h hname hnew, hmatch, toList_toStringLossy, lossy_text]
  have hdots : ∃ c ∈ solid pattern.toList, c ≠ '.' := by
    obtain ⟨c, hc, hcop⟩ := hop
    have hplain : ∀ d ∈ operators, d ≠ '*' ∧ d ≠ '.' := by simp [operators]
    exact ⟨c, mem_solid.mpr ⟨hc, (hplain c hcop).1⟩, (hplain c hcop).2⟩
  have hsearch : Search e (solid pattern.toList) :=
    (hsame _ hdots fun _ hc => .inl hc).mpr (glob_solid pattern.toList)
  have hz : weigh 'z' = 0 := by decide
  have hzdot : 'z' ≠ '.' := by decide
  obtain ⟨w, hshrinks, hweight, hw⟩ := @search_small weigh 2 'z' (· ≠ '.') hz hzdot weigh_le e _ hsearch
  have hglob := glob_lossy ((hsame w (hshrinks.kept hdots) hshrinks.mem).mp hw)
  rw [lossy_text] at hglob
  have hsub := sublist_of_glob hglob
  rw [List.flatMap_singleton'] at hsub
  have hle : ((solid pattern.toList).map weigh).sum ≤ (w.map weigh).sum :=
    (hsub.map weigh).sum_le_sum fun _ _ => Nat.zero_le _
  rw [weigh_solid] at hle
  exact absurd (read_weight he hop) (by omega)

def garbled (c : Char) : List UInt8 := if c = replacement then [0x80] else String.utf8EncodeChar c

theorem lossy_garbled (w : List Char) : lossy (w.flatMap garbled) = w := by
  induction w with
  | nil => rw [List.flatMap_nil, lossy]
  | cons c w ih =>
    rw [List.flatMap_cons, garbled]
    split_ifs with hc
    · rw [List.singleton_append, lossy_cont, ih, hc]
    · rw [lossy_encodeChar, ih]

theorem not_finds_of_replacement (hregx : regx.Conforms) (hslash : '/' ∉ pattern.toList)
    (hnul : '\x00' ∉ pattern.toList) (hplain : ∀ c ∈ pattern.toList, c ∉ operators)
    (hrep : replacement ∈ pattern.toList) : ¬ FindsByName regx pattern := by
  intro h
  obtain ⟨re, hnew, hmatch⟩ := hregx _ _ (read_plain hplain)
  have hsolid : replacement ∈ solid pattern.toList := mem_solid.mpr ⟨hrep, by decide⟩
  have hcont : 0x80 ∈ (solid pattern.toList).flatMap garbled :=
    List.mem_flatMap.mpr ⟨replacement, hsolid, by decide⟩
  have hascii : ∀ b : UInt8, b < 0x80 → Char.ofNat b.toNat ∉ pattern.toList →
      b ∉ (solid pattern.toList).flatMap garbled := by
    intro b hb hnot hmem
    obtain ⟨c, hc, hbc⟩ := List.mem_flatMap.mp hmem
    rw [garbled] at hbc
    split_ifs at hbc
    · rw [List.mem_singleton.mp hbc] at hb
      exact absurd hb (by decide)
    · rw [← (mem_encodeChar hb c).mp hbc, Char.ofNat_toNat] at hnot
      exact hnot (mem_solid.mp hc).1
  have hname : FileName ((solid pattern.toList).flatMap garbled) := by
    refine ⟨List.ne_nil_of_mem hcont, ?_, ?_, hascii 0x2F (by decide) hslash, hascii 0 (by decide) hnul⟩
    · intro heq
      rw [heq] at hcont
      revert hcont
      decide
    · intro heq
      rw [heq] at hcont
      revert hcont
      decide
  have hglob : glob String.utf8EncodeChar pattern.toList ((solid pattern.toList).flatMap garbled) := by
    rw [← agrees_of_finds h hname hnew, hmatch, toList_toStringLossy, lossy_garbled, search_plain]
    have hsolid := @glob_solid _ _ (fun c => [c]) pattern.toList
    rwa [List.flatMap_singleton'] at hsolid
  have hlen := (sublist_of_glob hglob).length_le
  rw [List.length_flatMap, List.length_flatMap] at hlen
  have hlt : ((solid pattern.toList).map fun c => (garbled c).length).sum <
      ((solid pattern.toList).map fun c => (String.utf8EncodeChar c).length).sum := by
    apply List.sum_lt_sum
    · intro c _
      rw [garbled]
      split_ifs with hc
      · rw [hc]
        decide
      · exact Nat.le_refl _
    · exact ⟨replacement, hsolid, by decide⟩
  omega

theorem find_name_globs_iff (hregx : regx.Conforms) (pattern : String) :
    (Plain pattern → FindsByName regx pattern) ∧
      ((∃ e, Lib.Ere.read (regexStr pattern).toList = some e) → '/' ∉ pattern.toList → '\x00' ∉ pattern.toList →
        (FindsByName regx pattern ↔ Plain pattern)) := by
  refine ⟨finds_of_plain hregx, ?_⟩
  rintro ⟨e, he⟩ hslash hnul
  refine ⟨fun h => ?_, finds_of_plain hregx⟩
  have hnone : ∀ c ∈ pattern.toList, c ∉ operators := by
    intro c hc hop
    exact not_finds_of_operator hregx he hslash hnul ⟨c, hc, hop⟩ h
  intro c hc
  refine ⟨hnone c hc, ?_⟩
  rintro rfl
  exact not_finds_of_replacement hregx hslash hnul hnone hc h

end Pattern

def posix : Regx := ⟨Expr, fun s => Lib.Ere.read s.toList, fun e text => decide (Search e text.toList)⟩

theorem posix_conforms : posix.Conforms := fun _ e he => ⟨e, he, fun _ => decide_eq_true_iff⟩

theorem rust_files_found : FindsByName posix "*.rs" := by
  apply (find_name_globs_iff posix_conforms "*.rs").1
  have htext : "*.rs".toList = ['*', '.', 'r', 's'] := rfl
  rw [Plain, htext]
  simp [operators, replacement]

theorem repeated_letter_found :
    posix.Conforms ∧
      (main (oneFile [0x61, 0x61]) posix (fun _ => some (.dir ())) ["rfind", ".", "-name", "a+"]).first = [[]] ∧
      (main (oneFile [0x61, 0x61]) posix (fun _ => some (.dir ())) ["rfind", ".", "-name", "a+"]).below 1 =
        some ([[[0x61, 0x61]]], .walked (.ok ())) ∧
      ¬ Finds (oneFile [0x61, 0x61]) (some (.dir ()))
        (main (oneFile [0x61, 0x61]) posix (fun _ => some (.dir ())) ["rfind", ".", "-name", "a+"])
        (Selected (oneFile [0x61, 0x61]) (some (.dir ())) none "." "a+") := by
  have hfirst : (main (oneFile [0x61, 0x61]) posix (fun _ => some (.dir ())) ["rfind", ".", "-name", "a+"]).first =
      [[]] := rfl
  refine ⟨posix_conforms, hfirst, ?_, fun h => ?_⟩
  · have hoptions : options ["rfind", ".", "-name", "a+"] = ⟨".", some "a+", none⟩ := by decide
    have hnamed : (options ["rfind", ".", "-name", "a+"]).namePattern = some "a+" := by rw [hoptions]
    obtain ⟨re, hnew⟩ : ∃ re, posix.new (regexStr "a+") = some re := ⟨_, rfl⟩
    have hwalk : walk (oneFile [0x61, 0x61]).entries Entry.child 1 () = some [[⟨[0x61, 0x61], .here .file⟩]] := rfl
    have htext : toStringLossy [0x61, 0x61] = "aa" := congrArg String.ofList (lossy_text ['a', 'a'])
    have hfits : posix.isMatch re "aa" = true := by
      obtain rfl := Option.some.inj hnew
      decide
    rw [main_eq hnamed hnew, hoptions, below_dir, hwalk, Option.map_some]
    simp [printed, visitAt, matchesType, matchesName, htext, hfits]
  · have hroot := h.first []
    rw [hfirst] at hroot
    obtain ⟨-, -, -, hname⟩ := hroot.mp (List.mem_singleton_self [])
    revert hname
    decide

end Rustils.Coreutils.Rfind
