import Mathlib.Data.List.Induction
import Rustils.Lib.Graph
import Rustils.Lib.Walk

namespace Rustils.Coreutils.Tree

open Lib.Graph Lib.Walk Relation

abbrev Name := List UInt8

abbrev Path := List Name

inductive Object (D : Type)
  | dir (d : D)
  | file
  deriving DecidableEq

inductive Target (D : Type)
  | here (o : Object D)
  | link (dest : Option (Object D))
  deriving DecidableEq

structure Entry (D : Type) where
  name : Name
  target : Target D
  deriving DecidableEq

variable {D : Type}

def Entry.object (e : Entry D) : Option (Object D) :=
  match e.target with
  | .here o => some o
  | .link dest => dest

def Entry.child (e : Entry D) : Option D :=
  match e.object with
  | some (.dir d) => some d
  | _ => none

/-- Directories may hold links to any other, yet the directories themselves are a tree. -/
structure Fs (D : Type) where
  entries : D → List (Entry D)
  nodup : ∀ d, ((entries d).map Entry.name).Nodup
  forest : Forest fun d n d' => ⟨n, .here (.dir d')⟩ ∈ entries d

inductive Errno
  | enoent
  | enotdir
  deriving DecidableEq

section Paths

variable (fs : Fs D)

def Fs.lookup (d : D) (n : Name) : Option (Object D) :=
  ((fs.entries d).find? (·.name = n)).bind Entry.object

def Fs.enter (o : Option (Object D)) (n : Name) : Option (Object D) :=
  match o with
  | some (.dir d) => fs.lookup d n
  | _ => none

variable (root : Option (Object D))

def Fs.follow (path : Path) : Option (Object D) := path.foldl fs.enter root

def Fs.pathExists (path : Path) : Bool := (fs.follow root path).isSome

def Fs.isDir (path : Path) : Bool :=
  match fs.follow root path with
  | some (.dir _) => true
  | _ => false

def Fs.readDir (path : Path) : Except Errno (List Name) :=
  match fs.follow root path with
  | some (.dir d) => .ok ((fs.entries d).map Entry.name)
  | some .file => .error .enotdir
  | none => .error .enoent

def Fs.entryAt (path : Path) : Option (D × Name) :=
  match fs.follow root path.dropLast, path.getLast? with
  | some (.dir d), some n => some (d, n)
  | _, _ => none

end Paths

variable {fs : Fs D} {root : Option (Object D)} {d : D} {e : Entry D}

@[simp] theorem follow_concat (path : Path) (n : Name) :
    fs.follow root (path ++ [n]) = fs.enter (fs.follow root path) n := by
  simp [Fs.follow]

theorem Fs.name_inj {e' : Entry D} (he : e ∈ fs.entries d) (he' : e' ∈ fs.entries d)
    (h : e.name = e'.name) : e = e' :=
  List.inj_on_of_nodup_map (fs.nodup d) he he' h

theorem Fs.nodup_entries (fs : Fs D) (d : D) : (fs.entries d).Nodup := (fs.nodup d).of_map

theorem lookup_of_mem (he : e ∈ fs.entries d) : fs.lookup d e.name = e.object := by
  have hfind : (fs.entries d).find? (·.name = e.name) = some e := by
    cases h : (fs.entries d).find? (·.name = e.name) with
    | none => simpa using List.find?_eq_none.mp h e he
    | some e' =>
      have hname : e'.name = e.name := by simpa using List.find?_some h
      rw [fs.name_inj (List.mem_of_find?_eq_some h) he hname]
  rw [Fs.lookup, hfind, Option.bind_some]

theorem follow_entry {path : Path} (h : fs.follow root path = some (.dir d)) (he : e ∈ fs.entries d) :
    fs.follow root (path ++ [e.name]) = e.object := by
  rw [follow_concat, h, Fs.enter, lookup_of_mem he]

theorem Entry.child_eq_some {w : D} : e.child = some w ↔ e.object = some (.dir w) := by
  unfold Entry.child
  split <;> simp_all

theorem isDir_entry {path : Path} (h : fs.follow root path = some (.dir d)) (he : e ∈ fs.entries d) :
    fs.isDir root (path ++ [e.name]) = e.child.isSome := by
  rw [Fs.isDir, follow_entry h he, Entry.child]
  rcases e.object with _ | ⟨_ | _⟩ <;> rfl

theorem readDir_dir {path : Path} (h : fs.follow root path = some (.dir d)) :
    fs.readDir root path = .ok ((fs.entries d).map Entry.name) := by
  rw [Fs.readDir, h]

theorem follow_of_leads {v w : D} {c : List (Entry D)} (h : Leads fs.entries Entry.child v c w) :
    fs.follow (some (.dir v)) (c.map Entry.name) = some (.dir w) := by
  induction c using List.reverseRecOn generalizing w with
  | nil =>
    obtain rfl := leads_nil.mp h
    rfl
  | append_singleton c e ih =>
    obtain ⟨u, hc, he, hw⟩ := leads_concat.mp h
    rw [List.map_append, List.map_singleton, follow_entry (ih hc) he, Entry.child_eq_some.mp hw]

theorem mem_of_lookup {n : Name} {o : Object D} (h : fs.lookup d n = some o) :
    ∃ e ∈ fs.entries d, e.name = n ∧ e.object = some o := by
  obtain ⟨e, he, hobj⟩ := Option.bind_eq_some_iff.mp h
  exact ⟨e, List.mem_of_find?_eq_some he, by simpa using List.find?_some he, hobj⟩

theorem leads_of_follow {v w : D} {path : Path} (h : fs.follow (some (.dir v)) path = some (.dir w)) :
    ∃ c, Leads fs.entries Entry.child v c w ∧ c.map Entry.name = path := by
  induction path using List.reverseRecOn generalizing w with
  | nil =>
    obtain rfl := Object.dir.inj (Option.some.inj h)
    exact ⟨[], .nil v, rfl⟩
  | append_singleton path n ih =>
    rw [follow_concat] at h
    cases hdir : fs.follow (some (.dir v)) path with
    | none =>
      rw [hdir] at h
      cases h
    | some o =>
      cases o with
      | file =>
        rw [hdir] at h
        cases h
      | dir u =>
        rw [hdir] at h
        obtain ⟨c, hc, rfl⟩ := ih hdir
        obtain ⟨e, he, rfl, hobj⟩ := mem_of_lookup h
        exact ⟨c ++ [e], leads_concat.mpr ⟨u, hc, he, Entry.child_eq_some.mpr hobj⟩, by simp⟩

theorem entryAt_of_leads {v w : D} {c : List (Entry D)} (h : Leads fs.entries Entry.child v c w)
    (e : Entry D) : fs.entryAt (some (.dir v)) ((c ++ [e]).map Entry.name) = some (w, e.name) := by
  rw [Fs.entryAt, List.map_append, List.map_singleton, List.dropLast_concat, List.getLast?_concat,
    follow_of_leads h]

def InTree (fs : Fs D) (start d : D) : Prop :=
  ReflTransGen (Child fun d n d' => ⟨n, .here (.dir d')⟩ ∈ fs.entries d) start d

def Real (e : Entry D) : Prop := ∃ d, e.target = .here (.dir d)

theorem real_child {w : D} (h : Real e) (hw : e.child = some w) : e = ⟨e.name, .here (.dir w)⟩ := by
  obtain ⟨n, t⟩ := e
  obtain ⟨u, rfl⟩ := h
  obtain rfl : u = w := by simpa [Entry.child, Entry.object] using hw
  rfl

theorem real_below {v w : D} (he : e ∈ fs.entries v) (h : Real e) (hw : e.child = some w) :
    Child (fun d n d' => (⟨n, .here (.dir d')⟩ : Entry D) ∈ fs.entries d) v w :=
  ⟨e.name, real_child h hw ▸ he⟩

theorem inTree_iff {start d : D} :
    InTree fs start d ↔ ∃ c, Leads fs.entries Entry.child start c d ∧ ∀ e ∈ c, Real e := by
  constructor
  · intro h
    induction h with
    | refl => exact ⟨[], .nil start, by simp⟩
    | tail _ hb ih =>
      obtain ⟨c, hc, hreal⟩ := ih
      obtain ⟨n, hn⟩ := hb
      refine ⟨c ++ [⟨n, .here (.dir _)⟩], leads_concat.mpr ⟨_, hc, hn, rfl⟩, ?_⟩
      intro e he
      obtain he | he := List.mem_append.mp he
      · exact hreal e he
      · obtain rfl := List.mem_singleton.mp he
        exact ⟨_, rfl⟩
  · rintro ⟨c, hc, hreal⟩
    induction hc with
    | nil => exact .refl
    | cons he hw _ ih =>
      rw [List.forall_mem_cons] at hreal
      exact .head (real_below he hreal.1 hw) (ih hreal.2)

theorem real_unique {start d : D} {c c' : List (Entry D)}
    (hc : Leads fs.entries Entry.child start c d) (hreal : ∀ e ∈ c, Real e)
    (hc' : Leads fs.entries Entry.child start c' d) (hreal' : ∀ e ∈ c', Real e) : c = c' := by
  have hloop : ∀ {c : List (Entry D)} {e : Entry D},
      Leads fs.entries Entry.child start (c ++ [e]) start → (∀ x ∈ c ++ [e], Real x) → False := by
    intro c e h hr
    obtain ⟨w, hw, he, hstart⟩ := leads_concat.mp h
    rw [List.forall_mem_append, List.forall_mem_singleton] at hr
    exact fs.forest.acyclic start
      (TransGen.tail' (inTree_iff.mpr ⟨c, hw, hr.1⟩) (real_below he hr.2 hstart))
  induction c using List.reverseRecOn generalizing d c' with
  | nil =>
    obtain rfl := leads_nil.mp hc
    obtain rfl | ⟨c'', e', rfl⟩ := List.eq_nil_or_concat' c'
    · rfl
    · exact (hloop hc' hreal').elim
  | append_singleton c e ih =>
    obtain rfl | ⟨c'', e', rfl⟩ := List.eq_nil_or_concat' c'
    · obtain rfl := leads_nil.mp hc'
      exact (hloop hc hreal).elim
    · obtain ⟨w, hw, he, hd⟩ := leads_concat.mp hc
      obtain ⟨w', hw', he', hd'⟩ := leads_concat.mp hc'
      rw [List.forall_mem_append, List.forall_mem_singleton] at hreal hreal'
      have hdir := real_child hreal.2 hd
      have hdir' := real_child hreal'.2 hd'
      obtain ⟨rfl, hname⟩ := fs.forest.parent w w' e.name e'.name d (hdir ▸ he) (hdir' ▸ he')
      rw [ih hw hreal.1 hw' hreal'.1, fs.name_inj he he' hname]

def NoCycle (fs : Fs D) (start : D) : Prop :=
  ∀ v, ReflTransGen (Below fs.entries Entry.child) start v →
    ¬ TransGen (Below fs.entries Entry.child) v v

def NoSecondWay (fs : Fs D) (start : D) : Prop :=
  ∀ v, ReflTransGen (Below fs.entries Entry.child) start v → ∀ e ∈ fs.entries v,
    ∀ t, e.target = .link (some (.dir t)) → ∀ d, InTree fs t d → InTree fs start d → fs.entries d = []

theorem real_or_link {w : D} (hw : e.child = some w) : Real e ∨ e.target = .link (some (.dir w)) := by
  have hobj := Entry.child_eq_some.mp hw
  cases ht : e.target with
  | here o =>
    rw [Entry.object, ht] at hobj
    exact .inl ⟨w, by rw [ht, Option.some.inj hobj]⟩
  | link dest =>
    rw [Entry.object, ht] at hobj
    exact .inr (congrArg Target.link hobj)

theorem last_link {start d : D} {c : List (Entry D)} (hc : Leads fs.entries Entry.child start c d)
    (h : ¬ ∀ e ∈ c, Real e) :
    ∃ v, ReflTransGen (Below fs.entries Entry.child) start v ∧ ∃ e ∈ fs.entries v,
      ∃ t, e.target = .link (some (.dir t)) ∧ InTree fs t d := by
  induction c using List.reverseRecOn generalizing d with
  | nil => simp at h
  | append_singleton c e ih =>
    obtain ⟨w, hw, he, hd⟩ := leads_concat.mp hc
    obtain hreal | hlink := real_or_link hd
    · rw [List.forall_mem_append, List.forall_mem_singleton] at h
      obtain ⟨v, hv, e', he', t, ht, htree⟩ := ih hw fun hall => h ⟨hall, hreal⟩
      exact ⟨v, hv, e', he', t, ht, htree.tail (real_below he hreal hd)⟩
    · exact ⟨w, reaches_iff.mpr ⟨c, hw⟩, e, he, d, hlink, .refl⟩

theorem one_way_iff {start : D} :
    (∀ d, InTree fs start d → fs.entries d ≠ [] → ∃! c, Leads fs.entries Entry.child start c d) ↔
      NoSecondWay fs start := by
  constructor
  · intro h v hv e he t ht d htd hd
    by_contra hne
    obtain ⟨c, hc⟩ := reaches_iff.mp hv
    obtain ⟨below, hbelow, -⟩ := inTree_iff.mp htd
    obtain ⟨direct, hdirect, hreal⟩ := inTree_iff.mp hd
    have hchild : e.child = some t := by simp [Entry.child, Entry.object, ht]
    have hsecond : Leads fs.entries Entry.child start (c ++ e :: below) d :=
      leads_append.mpr ⟨v, hc, .cons he hchild hbelow⟩
    have heq := (h d hd hne).unique hsecond hdirect
    obtain ⟨u, hu⟩ := hreal e (heq ▸ List.mem_append_right c List.mem_cons_self)
    rw [ht] at hu
    cases hu
  · intro h d hd hne
    obtain ⟨c, hc, hreal⟩ := inTree_iff.mp hd
    refine ⟨c, hc, fun c' hc' => ?_⟩
    by_cases hreal' : ∀ e ∈ c', Real e
    · exact real_unique hc' hreal' hc hreal
    · obtain ⟨v, hv, e, he, t, ht, htd⟩ := last_link hc' hreal'
      exact absurd (h v hv e he t ht d htd hd) hne

def VisitsOnce [DecidableEq D] (fs : Fs D) (start : D)
    (run : ℕ → Option (List Path × Except Errno Unit)) : Prop :=
  ∃ fuel visits r, run fuel = some (visits, r) ∧
    ∀ d, InTree fs start d → ∀ e ∈ fs.entries d,
      visits.countP (fs.entryAt (some (.dir start)) · = some (d, e.name)) = 1

section Once

variable [DecidableEq D] {start : D} {n : ℕ} {cs : List (List (Entry D))}

theorem count_visits (h : walk fs.entries Entry.child n start = some cs) (he : e ∈ fs.entries d) :
    (cs.map (·.map Entry.name)).countP (fs.entryAt (some (.dir start)) · = some (d, e.name)) = 1 ↔
      ∃! c, Leads fs.entries Entry.child start c d := by
  have hat : ∀ c, (c ∈ cs ∧ fs.entryAt (some (.dir start)) (c.map Entry.name) = some (d, e.name)) ↔
      ∃ c', Leads fs.entries Entry.child start c' d ∧ c = c' ++ [e] := by
    intro c
    rw [mem_walk h]
    constructor
    · rintro ⟨⟨c', w, e', hc', he', rfl⟩, hentry⟩
      rw [entryAt_of_leads hc' e'] at hentry
      obtain ⟨rfl, hname⟩ := Prod.mk.inj (Option.some.inj hentry)
      exact ⟨c', hc', by rw [fs.name_inj he' he hname]⟩
    · rintro ⟨c', hc', rfl⟩
      exact ⟨⟨c', d, e, hc', he, rfl⟩, entryAt_of_leads hc' e⟩
  rw [List.countP_map, countP_eq_one (nodup_walk fs.nodup_entries h).1]
  simp only [Function.comp_apply, decide_eq_true_eq, hat]
  constructor
  · rintro ⟨c, ⟨c', hc', rfl⟩, honly⟩
    refine ⟨c', hc', fun c'' hc'' => ?_⟩
    exact List.append_cancel_right (honly (c'' ++ [e]) ⟨c'', hc'', rfl⟩)
  · rintro ⟨c, hc, honly⟩
    refine ⟨c ++ [e], ⟨c, hc, rfl⟩, ?_⟩
    rintro _ ⟨c', hc', rfl⟩
    rw [honly c' hc']

theorem visits_once_iff [Finite D] {run : ℕ → Option (List Path × Except Errno Unit)}
    (hrun : ∀ n, run n = (walk fs.entries Entry.child n start).map
      fun cs => (cs.map (·.map Entry.name), .ok ())) :
    VisitsOnce fs start run ↔ NoCycle fs start ∧ NoSecondWay fs start := by
  have hways : ∀ n cs, walk fs.entries Entry.child n start = some cs →
      ((∀ d, InTree fs start d → ∀ e ∈ fs.entries d, (cs.map (·.map Entry.name)).countP
        (fs.entryAt (some (.dir start)) · = some (d, e.name)) = 1) ↔ NoSecondWay fs start) := by
    intro n cs h
    rw [← one_way_iff]
    apply forall₂_congr
    intro d _
    constructor
    · intro hall hne
      obtain ⟨e, he⟩ := List.exists_mem_of_ne_nil _ hne
      exact (count_visits h he).mp (hall e he)
    · intro hone e he
      exact (count_visits h he).mpr (hone (List.ne_nil_of_mem he))
  rw [NoCycle, ← walk_ends_iff]
  constructor
  · rintro ⟨n, visits, r, hn, hall⟩
    rw [hrun] at hn
    obtain ⟨cs, hcs, hvisits⟩ := Option.map_eq_some_iff.mp hn
    obtain ⟨rfl, rfl⟩ := Prod.mk.inj hvisits
    exact ⟨⟨n, by rw [hcs]; rfl⟩, (hways n cs hcs).mp hall⟩
  · rintro ⟨⟨n, hn⟩, hsecond⟩
    obtain ⟨cs, hcs⟩ := Option.isSome_iff_exists.mp hn
    exact ⟨n, _, _, by rw [hrun, hcs]; rfl, (hways n cs hcs).mpr hsecond⟩

end Once

end Rustils.Coreutils.Tree
