import Mathlib.Tactic.SplitIfs
import Rustils.Process.Spawn

namespace Rustils.Process.Grouped

open Platform Lib.Program
open Wiring (Stdio)
open WinFs (Wide)

/-- `began` is the jobs a process was in at its first instruction, if it has come to one. The process that the
call makes has no `parent` here: none of those that run has made it. -/
structure Proc where
  alive : Bool
  suspended : Bool
  began : Option (List JobId)
  jobs : List JobId
  parent : Option Pid

structure Job where
  killOnClose : Bool
  breakaway : Bool

structure Kernel where
  procs : Pid → Option Proc
  jobs : JobId → Option Job

namespace Kernel

def setProc (k : Kernel) (pid : Pid) (p : Proc) : Kernel := { k with procs := Function.update k.procs pid (some p) }

def setJob (k : Kernel) (j : JobId) (job : Job) : Kernel := { k with jobs := Function.update k.jobs j (some job) }

def parentOf (k : Kernel) (pid : Pid) : Option Pid := (k.procs pid).bind Proc.parent

/-- No process by that number, and none that such a one has made. -/
def Fresh (k : Kernel) (pid : Pid) : Prop := k.procs pid = none ∧ ∀ c, k.parentOf c ≠ some pid

def kill (k : Kernel) (j : JobId) : Kernel :=
  { k with procs := fun pid => (k.procs pid).map fun p => if j ∈ p.jobs then { p with alive := false } else p }

end Kernel

variable {k k' k₀ : Kernel} {pid c : Pid} {p p' : Proc} {j : JobId} {job : Job}

theorem setProc_self (k : Kernel) (pid : Pid) (p : Proc) : (k.setProc pid p).procs pid = some p := Function.update_self ..

theorem setProc_of_ne (h : c ≠ pid) : (k.setProc pid p).procs c = k.procs c := Function.update_of_ne h ..

theorem setProc_cases (h : (k.setProc pid p).procs c = some p') : c = pid ∧ p' = p ∨ c ≠ pid ∧ k.procs c = some p' := by
  by_cases hc : c = pid
  · subst hc
    exact .inl ⟨rfl, Option.some.inj (h.symm.trans (setProc_self k c p))⟩
  · rw [setProc_of_ne hc] at h
    exact .inr ⟨hc, h⟩

theorem parentOf_eq (h : k.procs c = some p) : k.parentOf c = p.parent := by
  rw [Kernel.parentOf, h]
  rfl

/-- What goes on by itself. A suspended process is resumed by the one that made it, and a new process is in its
maker's jobs, those apart that it may break away from. -/
inductive Move : Kernel → Kernel → Prop
  | exec {k : Kernel} {pid : Pid} {p : Proc} (h : k.procs pid = some p) (hruns : p.alive ∧ ¬p.suspended) :
    Move k (k.setProc pid { p with began := p.began.or (some p.jobs) })
  | make {k : Kernel} {pid child : Pid} {p c : Proc} (h : k.procs pid = some p) (hruns : p.began ≠ none)
    (hfresh : k.Fresh child) (hbegan : c.began = none) (hparent : c.parent = some pid)
    (hjobs : ∀ j ∈ p.jobs, (∃ job, k.jobs j = some job ∧ job.breakaway) ∨ j ∈ c.jobs) :
    Move k (k.setProc child c)
  | resume {k : Kernel} {pid : Pid} {p : Proc} (h : k.procs pid = some p) (hparent : p.parent ≠ none) :
    Move k (k.setProc pid { p with suspended := false })
  | join {k : Kernel} {pid : Pid} {p : Proc} (h : k.procs pid = some p) (j : JobId) :
    Move k (k.setProc pid { p with jobs := j :: p.jobs })
  | exit {k : Kernel} {pid : Pid} {p : Proc} (h : k.procs pid = some p) :
    Move k (k.setProc pid { p with alive := false })
  | newJob {k : Kernel} {j : JobId} (h : k.jobs j = none) (job : Job) : Move k (k.setJob j job)
  | close {k : Kernel} (j : JobId) : Move k (k.kill j)

structure Later (p p' : Proc) : Prop where
  parent : p'.parent = p.parent
  jobs : p.jobs ⊆ p'.jobs
  alive : p'.alive → p.alive
  suspended : p.parent = none → p'.suspended = p.suspended
  began : p'.began = p.began ∨ (p.alive ∧ ¬p.suspended) ∧ p'.began = p.began.or (some p.jobs)

theorem Later.refl (p : Proc) : Later p p := ⟨rfl, List.Subset.refl _, id, fun _ => rfl, .inl rfl⟩

structure Born (k : Kernel) (child : Pid) (c : Proc) (pid : Pid) (p : Proc) : Prop where
  fresh : k.Fresh child
  parent : c.parent = some pid
  maker : k.procs pid = some p
  runs : p.began ≠ none
  began : c.began = none
  jobs : ∀ j ∈ p.jobs, (∃ job, k.jobs j = some job ∧ job.breakaway) ∨ j ∈ c.jobs

theorem Move.proc (h : Move k k') (hp : k'.procs c = some p') :
    (∃ p, k.procs c = some p ∧ Later p p') ∨ ∃ d p, Born k c p' d p := by
  cases h with
  | exec h hruns =>
    rcases setProc_cases hp with ⟨rfl, rfl⟩ | ⟨-, hp⟩
    · exact .inl ⟨_, h, rfl, List.Subset.refl _, id, fun _ => rfl, .inr ⟨hruns, rfl⟩⟩
    · exact .inl ⟨_, hp, .refl _⟩
  | make h hruns hfresh hbegan hparent hjobs =>
    rcases setProc_cases hp with ⟨rfl, rfl⟩ | ⟨-, hp⟩
    · exact .inr ⟨_, _, hfresh, hparent, h, hruns, hbegan, hjobs⟩
    · exact .inl ⟨_, hp, .refl _⟩
  | resume h hparent =>
    rcases setProc_cases hp with ⟨rfl, rfl⟩ | ⟨-, hp⟩
    · exact .inl ⟨_, h, rfl, List.Subset.refl _, id, fun hnone => absurd hnone hparent, .inl rfl⟩
    · exact .inl ⟨_, hp, .refl _⟩
  | join h j =>
    rcases setProc_cases hp with ⟨rfl, rfl⟩ | ⟨-, hp⟩
    · exact .inl ⟨_, h, rfl, List.subset_cons_self _ _, id, fun _ => rfl, .inl rfl⟩
    · exact .inl ⟨_, hp, .refl _⟩
  | exit h =>
    rcases setProc_cases hp with ⟨rfl, rfl⟩ | ⟨-, hp⟩
    · exact .inl ⟨_, h, rfl, List.Subset.refl _, fun hdead => (by cases hdead), fun _ => rfl, .inl rfl⟩
    · exact .inl ⟨_, hp, .refl _⟩
  | newJob h job => exact .inl ⟨_, hp, .refl _⟩
  | close j =>
    obtain ⟨p, h, rfl⟩ := Option.map_eq_some_iff.mp hp
    refine .inl ⟨p, h, ?_⟩
    split_ifs
    · exact ⟨rfl, List.Subset.refl _, fun hdead => (by cases hdead), fun _ => rfl, .inl rfl⟩
    · exact .refl p

theorem setProc_some (pid : Pid) (p' : Proc) (h : k.procs c = some p) : ∃ q, (k.setProc pid p').procs c = some q := by
  by_cases hc : c = pid
  · subst hc
    exact ⟨p', setProc_self k c p'⟩
  · exact ⟨p, (setProc_of_ne hc).trans h⟩

theorem Move.proc_later (h : Move k k') (hp : k.procs c = some p) : ∃ p', k'.procs c = some p' ∧ Later p p' := by
  obtain ⟨p', hp'⟩ : ∃ p', k'.procs c = some p' := by
    cases h with
    | newJob => exact ⟨p, hp⟩
    | close j => exact ⟨_, congrArg (Option.map _) hp⟩
    | _ => exact setProc_some _ _ hp
  rcases h.proc hp' with ⟨q, hq, hlater⟩ | ⟨d, q, hborn⟩
  · cases hp.symm.trans hq
    exact ⟨p', hp', hlater⟩
  · cases hp.symm.trans hborn.fresh.1

theorem Move.keeps_job (h : Move k k') (hj : k.jobs j = some job) : k'.jobs j = some job := by
  cases h with
  | @newJob j' hnone _ =>
    have hne : j ≠ j' := by
      rintro rfl
      cases hj.symm.trans hnone
    exact (Function.update_of_ne hne ..).trans hj
  | _ => exact hj

def Made (k₀ k : Kernel) (pid : Pid) : Prop := k₀.procs pid = none ∧ ∃ p, k.procs pid = some p ∧ p.parent = none

theorem Move.made (h : Move k k') (hmade : Made k₀ k' pid) : Made k₀ k pid := by
  obtain ⟨hnew, p', hp', hparent⟩ := hmade
  rcases h.proc hp' with ⟨p, hp, hlater⟩ | ⟨d, p, hborn⟩
  · exact ⟨hnew, p, hp, hlater.parent.symm.trans hparent⟩
  · cases hborn.parent.symm.trans hparent

def Unmade (k₀ k : Kernel) : Prop := ∀ pid, ¬Made k₀ k pid

theorem stable_unmade (k₀ : Kernel) : Stable Move (Unmade k₀) := fun _ _ h hm pid hmade => h pid (hm.made hmade)

structure Held (k₀ : Kernel) (pid : Pid) (P : Proc → Prop) (k : Kernel) : Prop where
  only : ∀ c, Made k₀ k c → c = pid
  proc : ∃ p, k.procs pid = some p ∧ p.parent = none ∧ p.began = none ∧ (p.alive → p.suspended) ∧ P p
  childless : ∀ c, k.parentOf c ≠ some pid

def Lasting (P : Proc → Prop) : Prop := ∀ p p', Later p p' → P p → P p'

theorem stable_held {P : Proc → Prop} (hP : Lasting P) (k₀ : Kernel) (pid : Pid) : Stable Move (Held k₀ pid P) := by
  rintro k k' ⟨honly, ⟨p, hp, hparent, hbegan, hheld, hPp⟩, hchildless⟩ hm
  obtain ⟨p', hp', hlater⟩ := hm.proc_later hp
  refine ⟨fun c hmade => honly c (hm.made hmade), ⟨p', hp', hlater.parent.trans hparent, ?_, ?_, hP _ _ hlater hPp⟩, ?_⟩
  · rcases hlater.began with h | ⟨⟨halive, hruns⟩, -⟩
    · exact h.trans hbegan
    · exact absurd (hheld halive) hruns
  · intro halive
    rw [hlater.suspended hparent]
    exact hheld (hlater.alive halive)
  · intro c hc
    obtain ⟨q', hq', hqparent⟩ := Option.bind_eq_some_iff.mp hc
    rcases hm.proc hq' with ⟨q, hq, hqlater⟩ | ⟨d, q, hborn⟩
    · apply hchildless c
      rw [parentOf_eq hq, ← hqlater.parent, hqparent]
    · -- the child has no children, as it has not begun
      cases hborn.parent.symm.trans hqparent
      cases hp.symm.trans hborn.maker
      exact hborn.runs hbegan

inductive Descends (k : Kernel) (pid : Pid) : Pid → Prop
  | self : Descends k pid pid
  | child {c d : Pid} (h : Descends k pid d) (hc : k.parentOf c = some d) : Descends k pid c

structure Contained (pid : Pid) (j : JobId) (k : Kernel) : Prop where
  job : k.jobs j = some ⟨true, false⟩
  began : ∀ p jobs, k.procs pid = some p → p.began = some jobs → j ∈ jobs
  family : ∀ c, Descends k pid c → ∃ p, k.procs c = some p ∧ j ∈ p.jobs

theorem Move.descends (h : Move k k') (hd : Descends k' pid c) :
    Descends k pid c ∨ k.Fresh c ∧ ∃ c' d p, Born k c c' d p ∧ k'.procs c = some c' ∧ Descends k pid d := by
  induction hd with
  | self => exact .inl .self
  | @child c d hd hc ih =>
    obtain ⟨p', hp', hparent⟩ := Option.bind_eq_some_iff.mp hc
    rcases h.proc hp' with ⟨p, hp, hlater⟩ | ⟨d', p, hborn⟩
    · have hold : k.parentOf c = some d := (parentOf_eq hp).trans (hlater.parent.symm.trans hparent)
      rcases ih with ih | ⟨hfresh, -⟩
      · exact .inl (.child ih hold)
      · exact absurd hold (hfresh.2 c)
    · cases hborn.parent.symm.trans hparent
      rcases ih with ih | ⟨hfresh, -⟩
      · exact .inr ⟨hborn.fresh, p', d, p, hborn, hp', ih⟩
      · cases hborn.maker.symm.trans hfresh.1

theorem stable_contained (pid : Pid) (j : JobId) : Stable Move (Contained pid j) := by
  rintro k k' ⟨hjob, hbegan, hfamily⟩ hm
  refine ⟨hm.keeps_job hjob, ?_, ?_⟩
  · intro p' jobs hp' hjobs
    obtain ⟨p, hp, hj⟩ := hfamily pid .self
    rcases hm.proc hp' with ⟨q, hq, hlater⟩ | ⟨d, q, hborn⟩
    · cases hp.symm.trans hq
      rcases hlater.began with h | ⟨-, h⟩
      · exact hbegan p jobs hp (h.symm.trans hjobs)
      · cases hpast : p.began with
        | some past =>
          rw [hpast] at h
          exact hbegan p jobs hp (hpast.trans (h.symm.trans hjobs))
        | none =>
          rw [hpast] at h
          cases h.symm.trans hjobs
          exact hj
    · cases hp.symm.trans hborn.fresh.1
  · intro c hd
    rcases hm.descends hd with hd | ⟨-, c', d, p, hborn, hc', hd⟩
    · obtain ⟨p, hp, hj⟩ := hfamily c hd
      obtain ⟨p', hp', hlater⟩ := hm.proc_later hp
      exact ⟨p', hp', hlater.jobs hj⟩
    · obtain ⟨q, hq, hj⟩ := hfamily d hd
      cases hq.symm.trans hborn.maker
      refine ⟨c', hc', ?_⟩
      rcases hborn.jobs j hj with ⟨job, hjob', hbreak⟩ | hj'
      · cases hjob.symm.trans hjob'
        cases hbreak
      · exact hj'

/-- The answers of the calls. A process is made with handles to it and to its thread, in jobs that are not for the
call to choose. -/
def step : Env Kernel Answer
  | k, .createProcessW args, .ok pi, k' =>
    pi.hProcess = some pi.dwProcessId ∧ (pi.hThread = none ∨ pi.hThread = some pi.dwProcessId) ∧
      k.Fresh pi.dwProcessId ∧ ∃ jobs, k' = k.setProc pi.dwProcessId
        { alive := true, suspended := args.creationFlags &&& CREATE_SUSPENDED ≠ 0, began := none, jobs, parent := none }
  | k, .createJobObjectW, .ok j, k' => k.jobs j = none ∧ k' = k.setJob j ⟨false, false⟩
  | k, .setInformationJobObject j flags, .ok _, k' =>
    k.jobs j ≠ none ∧ k' = k.setJob j
      { killOnClose := flags &&& JOB_OBJECT_LIMIT_KILL_ON_JOB_CLOSE ≠ 0
        breakaway := flags &&& (JOB_OBJECT_LIMIT_BREAKAWAY_OK ||| JOB_OBJECT_LIMIT_SILENT_BREAKAWAY_OK) ≠ 0 }
  | k, .assignProcessToJobObject j pid, .ok _, k' =>
    ∃ p, k.procs pid = some p ∧ k' = k.setProc pid { p with jobs := j :: p.jobs }
  | k, .resumeThread pid, .ok _, k' => ∃ p, k.procs pid = some p ∧ k' = k.setProc pid { p with suspended := false }
  | k, .terminateProcess pid, .ok _, k' => ∃ p, k.procs pid = some p ∧ k' = k.setProc pid { p with alive := false }
  | k, .closeHandle (.job j), _, k' => k' = if (k.jobs j).any Job.killOnClose then k.kill j else k
  | k, _, _, k' => k' = k

/-- A process can be terminated by the one that made it. -/
def Obeyed : (o : Call) → Answer o → Prop
  | .terminateProcess _, .error _ => False
  | _, _ => True

def system : Env Kernel Answer := Env.amid (fun k o r k' => Obeyed o r ∧ step k o r k') Move

def Harmless : Call → Prop
  | .createProcessW _ | .setInformationJobObject _ _ | .resumeThread _ => False
  | _ => True

theorem step_harmless {o : Call} {r : Answer o} (h : step k o r k') (ho : Harmless o) : k' = k ∨ Move k k' := by
  cases o with
  | createProcessW args => cases ho
  | setInformationJobObject j flags => cases ho
  | resumeThread pid => cases ho
  | createJobObjectW =>
    rcases r with code | j
    · exact .inl h
    · obtain ⟨hnone, rfl⟩ := h
      exact .inr (.newJob hnone _)
  | assignProcessToJobObject j pid =>
    rcases r with code | ⟨⟩
    · exact .inl h
    · obtain ⟨p, hp, rfl⟩ := h
      exact .inr (.join hp j)
  | terminateProcess pid =>
    rcases r with code | ⟨⟩
    · exact .inl h
    · obtain ⟨p, hp, rfl⟩ := h
      exact .inr (.exit hp)
  | closeHandle h' =>
    cases h' with
    | job j =>
      by_cases hkill : (k.jobs j).any Job.killOnClose
      · exact .inr (h.trans (if_pos hkill) ▸ .close j)
      · exact .inl (h.trans (if_neg hkill))
    | _ => exact .inl h
  | _ => exact .inl h

abbrev Ensures {α : Type} (Q : α → Kernel → Prop) (x : Prog Answer α) (k : Kernel) : Prop :=
  Lib.Program.Safe system (fun _ _ => True) Q x k

section Ensures

variable {α β : Type} {I : Kernel → Prop} {Q : α → Kernel → Prop} {o : Call} {rest : Answer o → Prog Answer α}

theorem ensures_op (hI : Stable Move I) (hk : I k)
    (hrest : ∀ k₁ r k', I k₁ → Obeyed o r → step k₁ o r k' → Ensures Q (rest r) k') : Ensures Q (.op o rest) k :=
  Safe.amid hI hk fun k₁ r k' hk₁ hstep => hrest k₁ r k' hk₁ hstep.1 hstep.2

theorem ensures_harmless (hI : Stable Move I) (hk : I k) (ho : Harmless o)
    (hrest : ∀ r k', I k' → Ensures Q (rest r) k') : Ensures Q (.op o rest) k := by
  apply ensures_op hI hk
  intro k₁ r k' hk₁ _ hstep
  rcases step_harmless hstep ho with rfl | hm
  · exact hrest r k' hk₁
  · exact hrest r k' (hI _ _ hk₁ hm)

theorem ensures_closeAll (hI : Stable Move I) (hk : I k) (hs : List Owned) : Ensures (fun _ => I) (closeAll hs) k := by
  induction hs generalizing k with
  | nil => exact hk
  | cons h hs ih => exact ensures_harmless hI hk (by trivial) fun _ _ hk' => ih hk'

theorem ensures_closing (hI : Stable Move I) (hk : I k) (hs : List Owned) {a : α} (hQ : ∀ k', I k' → Q a k') :
    Ensures Q (closeAll hs >>= fun _ => pure a) k :=
  Safe.bind (ensures_closeAll hI hk hs) fun _ k' hk' => hQ k' hk'

theorem ensures_slotHandle (hI : Stable Move I) (hk : I k) (slot : Fin 3) (spec : Stdio) :
    Ensures (fun _ => I) (slotHandle slot spec) k := by
  cases spec with
  | inherit =>
    refine Safe.bind (Q := fun _ => I) ?_ ?_
    · refine ensures_harmless hI hk (by trivial) ?_
      rintro (_ | current) k' hk'
      · exact hk'
      · refine ensures_harmless hI hk' (by trivial) ?_
        rintro (code | code | dup) k' hk' <;> exact hk'
    · rintro (e | h) k' hk' <;> exact hk'
  | null =>
    refine Safe.bind (Q := fun _ => I) ?_ ?_
    · refine ensures_harmless hI hk (by trivial) ?_
      rintro (code | h) k' hk' <;> exact hk'
    · rintro (e | h) k' hk' <;> exact hk'
  | pipe =>
    refine Safe.bind (Q := fun _ => I) ?_ ?_
    · refine ensures_harmless hI hk (by trivial) ?_
      rintro (code | ⟨_ | read, _ | write⟩) k' hk'
      · exact hk'
      · exact hk'
      · exact hk'
      · exact ensures_closing hI hk' _ fun _ h => h
      · refine ensures_harmless hI hk' (by trivial) ?_
        rintro (code | ⟨⟩) k' hk'
        · exact ensures_closing hI hk' _ fun _ h => h
        · exact hk'
    · rintro (e | ⟨child, parent⟩) k' hk' <;> exact hk'
  | file fd =>
    refine Safe.bind (Q := fun _ => I) ?_ ?_
    · cases fd with
      | none => exact hk
      | some h =>
        refine ensures_harmless hI hk (by trivial) ?_
        rintro (code | code | dup) k' hk' <;> exact hk'
    · rintro (e | h) k' hk' <;> exact hk'

theorem ensures_prepare (hI : Stable Move I) (hk : I k) (stdio : Fin 3 → Stdio) (slots : List (Fin 3)) (acc : Prepared) :
    Ensures (fun _ => I) (prepare stdio slots acc) k := by
  induction slots generalizing k acc with
  | nil => exact hk
  | cons slot slots ih =>
    refine Safe.bind (ensures_slotHandle hI hk slot (stdio slot)) ?_
    rintro (e | ⟨child, parent⟩) k' hk'
    · exact ensures_closing hI hk' _ fun _ h => h
    · exact ih hk' _

end Ensures

theorem Held.imp {P Q : Proc → Prop} (h : Held k₀ pid P k) (hPQ : ∀ p, k.procs pid = some p → P p → Q p) :
    Held k₀ pid Q k := by
  obtain ⟨honly, ⟨p, hp, hparent, hbegan, hheld, hPp⟩, hchildless⟩ := h
  exact ⟨honly, ⟨p, hp, hparent, hbegan, hheld, hPQ p hp hPp⟩, hchildless⟩

theorem Held.set {P Q : Proc → Prop} (h : Held k₀ pid P (k.setProc pid p)) (hQ : Q p) :
    Held k₀ pid Q (k.setProc pid p) :=
  h.imp fun q hq _ => by
    cases (setProc_self k pid p).symm.trans hq
    exact hQ

theorem lasting_true : Lasting fun _ => True := fun _ _ _ _ => trivial

theorem lasting_mem (j : JobId) : Lasting fun p => j ∈ p.jobs := fun _ _ hlater hj => hlater.jobs hj

theorem lasting_dead : Lasting fun p => p.alive = false := by
  intro p p' hlater hdead
  by_contra halive
  rw [Bool.not_eq_false] at halive
  rw [hlater.alive halive] at hdead
  cases hdead

theorem stable_jobs (j : JobId) (job : Job) : Stable Move fun k => k.jobs j = some job :=
  fun _ _ h hm => hm.keeps_job h

theorem parentOf_setProc (h : k.procs pid = some p) (hparent : p'.parent = p.parent) :
    (k.setProc pid p').parentOf = k.parentOf := by
  funext c
  by_cases hc : c = pid
  · subst hc
    rw [parentOf_eq (setProc_self k c p'), parentOf_eq h, hparent]
  · exact congrArg (Option.bind · Proc.parent) (setProc_of_ne hc)

theorem descends_childless (h : ∀ c, k.parentOf c ≠ some pid) (hd : Descends k pid c) : c = pid := by
  induction hd with
  | self => rfl
  | child hd hc ih =>
    rw [ih] at hc
    exact absurd hc (h _)

theorem contained_of_resumed (h : Held k₀ pid (fun p => j ∈ p.jobs) k) (hjob : k.jobs j = some ⟨true, false⟩)
    (hp : k.procs pid = some p) : Contained pid j (k.setProc pid { p with suspended := false }) := by
  obtain ⟨-, ⟨q, hq, hparent, hbegan, -, hj⟩, hchildless⟩ := h
  cases hp.symm.trans hq
  have hself := setProc_self k pid { p with suspended := false }
  have hsame : (k.setProc pid { p with suspended := false }).parentOf = k.parentOf := parentOf_setProc hp rfl
  refine ⟨hjob, fun p' jobs hp' hjobs => ?_, fun c hd => ?_⟩
  · cases hself.symm.trans hp'
    cases hbegan.symm.trans hjobs
  · rw [descends_childless (by rwa [hsame]) hd]
    exact ⟨_, hself, hj⟩

section Sequence

variable {k₀ k : Kernel} {pid : Pid}

theorem ensures_createKillOnCloseJob (h : Held k₀ pid (fun _ => True) k) :
    Ensures (fun r k' => Held k₀ pid (fun _ => True) k' ∧ ∀ j, r = .ok j → k'.jobs j = some ⟨true, false⟩)
      createKillOnCloseJob k := by
  have hI := stable_held lasting_true k₀ pid
  refine ensures_harmless hI h (by trivial) ?_
  rintro (code | j) k₁ hk₁
  · exact ⟨hk₁, fun j hj => (by cases hj)⟩
  · refine ensures_op hI hk₁ ?_
    rintro k₂ (code | ⟨⟩) k' hk₂ - hstep
    · cases hstep
      exact ensures_closing hI hk₂ _ fun _ hk' => ⟨hk', fun j hj => (by cases hj)⟩
    · obtain ⟨-, rfl⟩ := hstep
      refine ⟨⟨hk₂.only, hk₂.proc, hk₂.childless⟩, fun j' hj' => ?_⟩
      cases hj'
      exact Function.update_self ..

def Sequenced (k₀ : Kernel) (pid : Pid) (r : Result JobId) (k : Kernel) : Prop :=
  (∀ e, r = .error e → Held k₀ pid (fun _ => True) k) ∧ ∀ j, r = .ok j → Contained pid j k

theorem ensures_dropped {I : Kernel → Prop} (hI : Stable Move I) (hk : I k) (e : PlatformError)
    (hheld : ∀ k', I k' → Held k₀ pid (fun _ => True) k') :
    Ensures (Sequenced k₀ pid) (closeAll [.job j] >>= fun _ => pure (.error e)) k :=
  ensures_closing hI hk _ fun k' hk' => ⟨fun _ _ => hheld k' hk', fun j hj => (by cases hj)⟩

theorem ensures_sequence (h : Held k₀ pid (fun _ => True) k) {thread : Option Pid}
    (hthread : thread = none ∨ thread = some pid) : Ensures (Sequenced k₀ pid) (sequence pid thread) k := by
  have hI := stable_held lasting_true k₀ pid
  refine Safe.bind (ensures_createKillOnCloseJob h) ?_
  rintro (e | j) k₁ ⟨hk₁, hj₁⟩
  · exact ⟨fun _ _ => hk₁, fun j hj => (by cases hj)⟩
  · have hjobs := stable_jobs j ⟨true, false⟩
    refine ensures_op (hI.and hjobs) ⟨hk₁, hj₁ j rfl⟩ ?_
    rintro k₂ (code | ⟨⟩) k₃ ⟨hk₂, hj₂⟩ - hstep
    · cases hstep
      exact ensures_dropped hI hk₂ _ fun _ => id
    · obtain ⟨p, hp, rfl⟩ := hstep
      have hheld := (hI _ _ hk₂ (.join hp j)).set (Q := fun p => j ∈ p.jobs) List.mem_cons_self
      have hI' := (stable_held (lasting_mem j) k₀ pid).and hjobs
      have himp (k' : Kernel) (hk' : Held k₀ pid (fun p => j ∈ p.jobs) k' ∧ k'.jobs j = some ⟨true, false⟩) :=
        hk'.1.imp (Q := fun _ => True) fun _ _ _ => trivial
      rcases hthread with rfl | rfl
      · exact ensures_dropped hI' ⟨hheld, hj₂⟩ _ himp
      · refine ensures_op hI' ⟨hheld, hj₂⟩ ?_
        rintro k₄ (code | ⟨⟩) k₅ ⟨hk₄, hj₄⟩ - hstep
        · cases hstep
          exact ensures_dropped hI' ⟨hk₄, hj₄⟩ _ himp
        · obtain ⟨q, hq, rfl⟩ := hstep
          refine ⟨fun e he => (by cases he), fun j' hj' => ?_⟩
          cases hj'
          exact contained_of_resumed hk₄ hj₄ hq

def Ended (k₀ k : Kernel) : Prop := Unmade k₀ k ∨ ∃ pid, Held k₀ pid (fun p => p.alive = false) k

theorem stable_ended (k₀ : Kernel) : Stable Move (Ended k₀) := by
  rintro k k' (h | ⟨pid, h⟩) hm
  · exact .inl (stable_unmade k₀ _ _ h hm)
  · exact .inr ⟨pid, stable_held lasting_dead k₀ pid _ _ h hm⟩

theorem Ended.made (h : Ended k₀ k) (hmade : Made k₀ k pid) : ∃ p, k.procs pid = some p ∧ p.alive = false ∧ p.began = none := by
  rcases h with h | ⟨pid', h⟩
  · exact absurd hmade (h pid)
  · cases h.only pid hmade
    obtain ⟨p, hp, -, hbegan, -, hdead⟩ := h.proc
    exact ⟨p, hp, hdead, hbegan⟩

def Settled (k₀ : Kernel) (r : Result Spawned) (k : Kernel) : Prop :=
  (∀ e, r = .error e → Ended k₀ k) ∧ ∀ s, r = .ok s → ∃ j, s.job = some j ∧ Contained s.process j k

theorem stable_settled (k₀ : Kernel) (r : Result Spawned) : Stable Move (Settled k₀ r) := by
  rintro k k' ⟨herr, hok⟩ hm
  refine ⟨fun e he => stable_ended k₀ _ _ (herr e he) hm, fun s hs => ?_⟩
  obtain ⟨j, hj, h⟩ := hok s hs
  exact ⟨j, hj, stable_contained _ _ _ _ h hm⟩

theorem ensures_refused {I : Kernel → Prop} (hI : Stable Move I) (hk : I k) (hs : List Owned) (e : PlatformError)
    (hended : ∀ k', I k' → Ended k₀ k') : Ensures (Settled k₀) (closeAll hs >>= fun _ => pure (.error e)) k :=
  ensures_closing hI hk _ fun k' hk' => ⟨fun _ _ => hended k' hk', fun s hs => (by cases hs)⟩

theorem ensures_adopt (h : Held k₀ pid (fun _ => True) k) (prepared : Prepared) {pi : ProcessInformation}
    (hthread : pi.hThread = none ∨ pi.hThread = some pid) :
    Ensures (Settled k₀) (adopt true prepared pid pi) k := by
  refine Safe.bind (ensures_sequence h hthread) ?_
  rintro (e | j) k₁ hk₁
  · have hI := stable_held lasting_true k₀ pid
    refine ensures_op hI (hk₁.1 e rfl) ?_
    rintro k₂ (code | ⟨⟩) k₃ hk₂ hobeyed hstep
    · cases hobeyed
    · obtain ⟨p, hp, rfl⟩ := hstep
      have hdead := (hI _ _ hk₂ (.exit hp)).set (Q := fun p => p.alive = false) rfl
      exact ensures_refused (stable_held lasting_dead k₀ pid) hdead _ _ fun _ hk' => .inr ⟨pid, hk'⟩
  · refine ensures_closing (stable_contained pid j) (hk₁.2 j rfl) _ fun k' hk' => ?_
    refine ⟨fun e he => (by cases he), fun s hs => ?_⟩
    cases hs
    exact ⟨j, rfl, hk'⟩

theorem held_of_made {k' : Kernel} (hnone : Unmade k₀ k) (hfresh : k.Fresh pid) (jobs : List JobId)
    (hk' : k' = k.setProc pid { alive := true, suspended := true, began := none, jobs, parent := none }) :
    Held k₀ pid (fun _ => True) k' := by
  subst hk'
  refine ⟨fun c hmade => ?_, ⟨_, setProc_self .., rfl, rfl, fun _ => rfl, trivial⟩, fun c hc => ?_⟩
  · obtain ⟨hnew, p, hp, hparent⟩ := hmade
    rcases setProc_cases hp with ⟨rfl, -⟩ | ⟨-, hp⟩
    · rfl
    · exact absurd ⟨hnew, p, hp, hparent⟩ (hnone c)
  · obtain ⟨p, hp, hparent⟩ := Option.bind_eq_some_iff.mp hc
    rcases setProc_cases hp with ⟨-, rfl⟩ | ⟨-, hp⟩
    · cases hparent
    · exact hfresh.2 c ((parentOf_eq hp).trans hparent)

theorem creationFlags_suspended (block : Option Wide) (detached : Bool) :
    creationFlags block true detached &&& CREATE_SUSPENDED ≠ 0 := by
  rw [creationFlags]
  cases block.isSome <;> cases detached <;> decide

theorem ensures_spawn (k₀ : Kernel) (commandLine cwd : Wide) (env : EnvSpec UInt16) (stdio : Fin 3 → Stdio)
    (detached : Bool) : Ensures (Settled k₀) (spawn commandLine cwd env stdio true detached) k₀ := by
  have hnone : Unmade k₀ k₀ := fun pid hmade => by
    obtain ⟨hnew, p, hp, -⟩ := hmade
    cases hnew.symm.trans hp
  have hI := stable_unmade k₀
  refine Safe.bind (Q := fun _ => Unmade k₀) ?_ ?_
  · split_ifs
    · exact ensures_prepare hI hnone stdio _ _
    · exact hnone
  · rintro (e | prepared) k₁ hk₁
    · exact ⟨fun _ _ => .inl hk₁, fun s hs => (by cases hs)⟩
    · refine ensures_op hI hk₁ ?_
      rintro k₂ (code | pi) k₃ hk₂ - hstep
      · cases hstep
        exact ensures_refused hI hk₂ _ _ fun _ => .inl
      · obtain ⟨hprocess, hthread, hfresh, jobs, hk₃⟩ := hstep
        dsimp only at hk₃
        rw [decide_eq_true (creationFlags_suspended (Environ.envBlock env) detached)] at hk₃
        have hheld := held_of_made hk₂ hfresh jobs hk₃
        dsimp only
        rw [hprocess]
        exact ensures_adopt hheld prepared hthread

end Sequence

theorem grouped_spawn_all_or_nothing {commandLine cwd : Wide} {env : EnvSpec UInt16} {stdio : Fin 3 → Stdio}
    {detached : Bool} {r : Result Spawned}
    (h : Reaches system (spawn commandLine cwd env stdio true detached, k₀) (.ret r, k))
    (hlater : Relation.ReflTransGen Move k k') :
    (∀ e, r = .error e → ∀ pid, Made k₀ k' pid → ∃ p, k'.procs pid = some p ∧ p.alive = false ∧ p.began = none) ∧
      ∀ s, r = .ok s → ∃ j, s.job = some j ∧ Contained s.process j k' := by
  have hend : Settled k₀ r k := (ensures_spawn k₀ commandLine cwd env stdio detached).reaches h
  obtain ⟨herr, hok⟩ := (stable_settled k₀ r).later hend hlater
  exact ⟨fun e he pid hmade => (herr e he).made hmade, hok⟩

def idle : Kernel := ⟨fun _ => none, fun _ => none⟩

def groupedCalls : Transcript Answer :=
  [⟨.createProcessW ⟨[0x61, 0], false, creationFlags none true false, none, [0], none⟩,
      .ok (⟨some 7, some 7, 7⟩ : ProcessInformation)⟩,
    ⟨.createJobObjectW, .ok (1 : JobId)⟩, ⟨.setInformationJobObject 1 JOB_OBJECT_LIMIT_KILL_ON_JOB_CLOSE, .ok ()⟩,
    ⟨.assignProcessToJobObject 1 7, .ok ()⟩, ⟨.resumeThread 7, .ok ()⟩, ⟨.closeHandle (.thread 7), ()⟩]

theorem grouped_child_contained : ∃ (k : Kernel) (j : JobId), some 1 = some j ∧ Contained 7 j k := by
  have hruns : Runs (spawn [0x61] [] .inherit (fun _ => .inherit) true false) groupedCalls
      (.ok ⟨7, some 1, 7, [none, none, none]⟩) := .op _ (.op _ (.op _ (.op _ (.op _ (.op _ (.ret _))))))
  obtain ⟨k, hk⟩ : ∃ k, Follows system idle groupedCalls k :=
    ⟨_, .cons ⟨_, .refl, trivial, rfl, .inr rfl, ⟨rfl, fun c hc => (by cases hc)⟩, [], rfl⟩
      (.cons ⟨_, .refl, trivial, rfl, rfl⟩
        (.cons ⟨_, .refl, trivial, Option.some_ne_none (⟨false, false⟩ : Job), rfl⟩
          (.cons ⟨_, .refl, trivial, _, rfl, rfl⟩
            (.cons ⟨_, .refl, trivial, _, rfl, rfl⟩ (.cons ⟨_, .refl, trivial, rfl⟩ (.nil _))))))⟩
  have hreaches := reaches_ret_iff.mpr ⟨groupedCalls, hruns, hk⟩
  exact ⟨k, (grouped_spawn_all_or_nothing hreaches .refl).2 _ rfl⟩

end Rustils.Process.Grouped
