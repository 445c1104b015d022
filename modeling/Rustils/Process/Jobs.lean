import Rustils.Process.Grouped

namespace Rustils.Process.Grouped.Jobs

open Platform Lib.Program

inductive HostCall
  | call (c : Call)
  | openProcess (pid : ℕ)
  | terminateJobObject (job : JobId)
  | waitForSingleObject (process : Pid) (block : Bool)
  | getExitCodeProcess (process : Pid)

/-- A wait answers nothing where the process is signaled, and the last error where the call says anything else. -/
@[reducible] def Reply : HostCall → Type
  | .call c => Answer c
  | .openProcess _ => Except UInt32 Pid
  | .terminateJobObject _ => Except UInt32 Unit
  | .waitForSingleObject _ _ => Option UInt32
  | .getExitCodeProcess _ => Except UInt32 UInt32

/-- What a job was given, and which processes there were before. -/
structure Group where
  root : Pid
  before : Set Pid

/-- The jobs the host has made and those it has open. Kept on record: what a job was given, which processes and jobs
the host was asked to end, and which processes its calls have ended. -/
structure Host where
  kernel : Kernel
  made : Set JobId
  held : Set JobId
  group : JobId → Option Group
  askedProcs : Set Pid
  askedJobs : Set JobId
  ended : Set Pid

def Alive (k : Kernel) (c : Pid) : Prop := ∃ p, k.procs c = some p ∧ p.alive = true

def Dead (k : Kernel) (c : Pid) : Prop := ∃ p, k.procs c = some p ∧ p.alive = false

inductive Grown (k : Kernel) (g : Group) : Pid → Prop
  | root : Grown k g g.root
  | child {c d : Pid} (h : Grown k g d) (hc : k.parentOf c = some d) (hnew : c ∉ g.before) : Grown k g c

def Group.Old (g : Group) (k : Kernel) : Prop := k.procs g.root ≠ none ∧ ∀ c ∈ g.before, k.procs c ≠ none

def NeverRan (k : Kernel) (c : Pid) : Prop := ∃ p, k.procs c = some p ∧ p.parent = none ∧ p.began = none

def record (s : Host) : (c : Call) → Answer c → Host
  | .createJobObjectW, .ok j => { s with made := insert j s.made, held := insert j s.held }
  | .assignProcessToJobObject j pid, .ok _ =>
    { s with group := Function.update s.group j (some ⟨pid, {c | s.kernel.procs c ≠ none}⟩) }
  | .closeHandle (.job j), _ => { s with held := s.held \ {j} }
  | _, _ => s

/-- A new job has no process in it, and a new process is in none of the host's jobs. -/
def Fair (s : Host) : (c : Call) → Answer c → Kernel → Prop
  | .createJobObjectW, .ok j, _ => ∀ c p, s.kernel.procs c = some p → j ∉ p.jobs
  | .createProcessW _, .ok pi, k' => ∀ p, k'.procs pi.dwProcessId = some p → ∀ j ∈ p.jobs, j ∉ s.made
  | _, _, _ => True

def Host.after (s : Host) (k' : Kernel) : Host :=
  { s with kernel := k', ended := s.ended ∪ {c | Alive s.kernel c ∧ Dead k' c} }

def answer : Env Host Reply
  | s, .call c, r, s' => ∃ k', Grouped.step s.kernel c r k' ∧ Fair s c r k' ∧ s' = (record s c r).after k'
  | s, .openProcess _, .ok pid, s' => (∃ p, s.kernel.procs pid = some p) ∧ s' = s
  | s, .terminateJobObject j, .ok _, s' => s' = s.after (s.kernel.kill j)
  | s, .waitForSingleObject pid _, none, s' => Dead s.kernel pid ∧ s' = s
  | s, _, _, s' => s' = s

/-- What goes on by itself. Nobody else has a handle of the host's jobs, so that a process is in one of them only
with the process that made it. -/
structure Elsewhere (s s' : Host) : Prop where
  move : Move s.kernel s'.kernel
  joins : ∀ c p', s'.kernel.procs c = some p' → ∀ j ∈ s.made, j ∈ p'.jobs →
    (∃ p, s.kernel.procs c = some p ∧ j ∈ p.jobs) ∨ ∃ d p, Born s.kernel c p' d p ∧ j ∈ p.jobs
  makers : ∀ c p' d p, s'.kernel.procs c = some p' → Born s.kernel c p' d p → p.alive = true
  same : s' = { s with kernel := s'.kernel }

def Reason (s : Host) (c : Pid) : Prop :=
  NeverRan s.kernel c ∨ c ∈ s.askedProcs ∨ ∃ j ∈ s.askedJobs, ∃ g, s.group j = some g ∧ Grown s.kernel g c

structure Sound (s : Host) : Prop where
  known : ∀ j ∈ s.made, s.kernel.jobs j ≠ none
  held : s.held ⊆ s.made
  given : ∀ j g, s.group j = some g → j ∈ s.made ∧ s.kernel.jobs j = some ⟨true, false⟩
  old : ∀ j g, s.group j = some g → g.Old s.kernel
  members : ∀ j ∈ s.made, ∀ c p, s.kernel.procs c = some p →
    (j ∈ p.jobs ↔ ∃ g, s.group j = some g ∧ Grown s.kernel g c)
  closed : ∀ j ∈ s.made, j ∉ s.held → ∀ c p, s.kernel.procs c = some p → j ∈ p.jobs → p.alive = false
  ended : ∀ c ∈ s.ended, Dead s.kernel c ∧ Reason s c

def Guard (s : Host) : HostCall → Prop
  | .call (.setInformationJobObject j _) => s.group j = none
  | .call (.assignProcessToJobObject j _) => j ∈ s.held ∧ s.group j = none ∧ s.kernel.jobs j = some ⟨true, false⟩
  | .call (.terminateProcess pid) => pid ∈ s.askedProcs ∨ NeverRan s.kernel pid
  | .call (.closeHandle (.job j)) =>
    j ∈ s.made ∧ (j ∈ s.askedJobs ∨ ∀ c p, s.kernel.procs c = some p → j ∈ p.jobs → NeverRan s.kernel c)
  | .terminateJobObject j => j ∈ s.made ∧ j ∈ s.askedJobs
  | _ => True

/-- How processes go on: those that are there keep their maker, do not come back to life and stay in the same of the
jobs; a new one is in the jobs of a living maker, or the host has made it. -/
structure Onward (jobs : Set JobId) (k k' : Kernel) : Prop where
  old : ∀ c p, k.procs c = some p → ∃ p', k'.procs c = some p' ∧ p'.parent = p.parent ∧
    (p.alive = false → p'.alive = false ∧ p'.began = p.began) ∧ ∀ j ∈ jobs, j ∈ p'.jobs ↔ j ∈ p.jobs
  new : ∀ c p', k.procs c = none → k'.procs c = some p' → k.Fresh c ∧
    ((p'.parent = none ∧ ∀ j ∈ jobs, j ∉ p'.jobs) ∨
      ∃ d p, p'.parent = some d ∧ k.procs d = some p ∧ p.alive = true ∧ ∀ j ∈ jobs, j ∈ p'.jobs ↔ j ∈ p.jobs)

section Onward

variable {jobs : Set JobId} {k k' : Kernel} {g : Group} {c d : Pid} {p' : Proc}

theorem procs_of_parentOf (h : k.parentOf c = some d) : k.procs c ≠ none := by
  intro hnone
  rw [Kernel.parentOf, hnone] at h
  cases h

theorem Grown.old (h : Grown k g c) (hg : g.Old k) : k.procs c ≠ none := by
  cases h with
  | root => exact hg.1
  | child _ hc _ => exact procs_of_parentOf hc

theorem Onward.parentOf_old (h : Onward jobs k k') (hc : k.procs c ≠ none) : k'.parentOf c = k.parentOf c := by
  obtain ⟨p, hp⟩ := Option.ne_none_iff_exists'.mp hc
  obtain ⟨p', hp', hparent, -⟩ := h.old c p hp
  rw [Grouped.parentOf_eq hp, Grouped.parentOf_eq hp', hparent]

theorem Onward.mono (h : Onward jobs k k') (hg : Grown k g c) : Grown k' g c := by
  induction hg with
  | root => exact .root
  | child _ hc hnew ih => exact .child ih ((h.parentOf_old (procs_of_parentOf hc)).trans hc) hnew

theorem Onward.grown (h : Onward jobs k k') (hc : Grown k' g c) :
    Grown k g c ∨ k.Fresh c ∧ ∃ d, k'.parentOf c = some d ∧ Grown k g d := by
  induction hc with
  | root => exact .inl .root
  | @child c d hd hc hnew ih =>
    obtain ⟨p', hp', hparent⟩ := Option.bind_eq_some_iff.mp hc
    by_cases hold : k.procs c = none
    · obtain ⟨hfresh, ⟨hnone, -⟩ | ⟨d', p, hd', hp, -⟩⟩ := h.new c p' hold hp'
      · cases hnone.symm.trans hparent
      · cases hd'.symm.trans hparent
        rcases ih with ih | ⟨hfresh', -⟩
        · exact .inr ⟨hfresh, d, hc, ih⟩
        · cases hp.symm.trans hfresh'.1
    · have hc' : k.parentOf c = some d := (h.parentOf_old hold).symm.trans hc
      rcases ih with ih | ⟨hfresh', -⟩
      · exact .inl (.child ih hc' hnew)
      · exact absurd hc' (hfresh'.2 c)

theorem Onward.grown_old (h : Onward jobs k k') (hc : k.procs c ≠ none) : Grown k' g c ↔ Grown k g c := by
  refine ⟨fun hgrown => ?_, h.mono⟩
  rcases h.grown hgrown with hgrown | ⟨hfresh, -⟩
  · exact hgrown
  · exact absurd hfresh.1 hc

theorem Onward.grown_new (h : Onward jobs k k') (hg : g.Old k) (hc : k.procs c = none) (hp : k'.parentOf c = some d) :
    Grown k' g c ↔ Grown k g d := by
  constructor
  · intro hgrown
    rcases h.grown hgrown with hgrown | ⟨-, d', hd', hgrown⟩
    · exact absurd hc (hgrown.old hg)
    · cases hd'.symm.trans hp
      exact hgrown
  · exact fun hgrown => .child (h.mono hgrown) hp fun hmem => hg.2 c hmem hc

theorem Onward.known (h : Onward jobs k k') (hc : k.procs c ≠ none) : k'.procs c ≠ none := by
  obtain ⟨p, hp⟩ := Option.ne_none_iff_exists'.mp hc
  obtain ⟨p', hp', -⟩ := h.old c p hp
  exact fun hnone => nomatch hp'.symm.trans hnone

theorem Onward.dead (h : Onward jobs k k') (hdead : Dead k c) : Dead k' c := by
  obtain ⟨p, hp, hp₀⟩ := hdead
  obtain ⟨p', hp', -, hstays, -⟩ := h.old c p hp
  exact ⟨p', hp', (hstays hp₀).1⟩

theorem Onward.neverRan (h : Onward jobs k k') (hran : NeverRan k c) (hdead : Dead k c) : NeverRan k' c := by
  obtain ⟨p, hp, hp₀⟩ := hdead
  obtain ⟨q, hq, hparent, hbegan⟩ := hran
  cases hp.symm.trans hq
  obtain ⟨p', hp', hparent', hstays, -⟩ := h.old c p hp
  exact ⟨p', hp', hparent'.trans hparent, (hstays hp₀).2.trans hbegan⟩

theorem Onward.group_dead (h : Onward jobs k k') (hdead : ∀ c, Grown k g c → Dead k c) (hc : Grown k' g c) :
    Dead k' c := by
  rcases h.grown hc with hc | ⟨hfresh, d, hparent, hd⟩
  · exact h.dead (hdead c hc)
  · obtain ⟨p', hp', hp'd⟩ := Option.bind_eq_some_iff.mp hparent
    obtain ⟨-, ⟨hnone, -⟩ | ⟨d', p, hd', hp, halive, -⟩⟩ := h.new c p' hfresh.1 hp'
    · cases hnone.symm.trans hp'd
    · cases hd'.symm.trans hp'd
      obtain ⟨q, hq, hq₀⟩ := hdead d hd
      cases hp.symm.trans hq
      cases halive.symm.trans hq₀

end Onward

section Sound

variable {s s' : Host} {k' : Kernel} {c : Pid} {j : JobId}

theorem Sound.onward (h : Sound s) (ho : Onward s.made s.kernel k')
    (hknown : ∀ j ∈ s.made, k'.jobs j ≠ none) (hflags : ∀ j g, s.group j = some g → k'.jobs j = s.kernel.jobs j)
    {ended : Set Pid}
    (hended : ∀ c ∈ ended, Dead k' c ∧ Reason { s with kernel := k' } c) :
    Sound { s with kernel := k', ended := s.ended ∪ ended } := by
  have hnew {c : Pid} {p' : Proc} (hold : s.kernel.procs c = none) (hp' : k'.procs c = some p') {j : JobId}
      (hj : j ∈ s.made) : (p'.parent = none ∧ j ∉ p'.jobs) ∨
        ∃ d p, k'.parentOf c = some d ∧ s.kernel.procs d = some p ∧ p.alive = true ∧ (j ∈ p'.jobs ↔ j ∈ p.jobs) := by
    obtain ⟨-, ⟨hnone, hout⟩ | ⟨d, p, hd, hp, halive, hin⟩⟩ := ho.new c p' hold hp'
    · exact .inl ⟨hnone, hout j hj⟩
    · exact .inr ⟨d, p, (Grouped.parentOf_eq hp').trans hd, hp, halive, hin j hj⟩
  refine ⟨hknown, h.held, fun j g hg => ?_, fun j g hg => ?_, fun j hj c p' hp' => ?_,
    fun j hj hopen c p' hp' hin => ?_, fun c hc => ?_⟩
  · exact ⟨(h.given j g hg).1, (hflags j g hg).trans (h.given j g hg).2⟩
  · obtain ⟨hroot, hbefore⟩ := h.old j g hg
    exact ⟨ho.known hroot, fun c hc => ho.known (hbefore c hc)⟩
  · by_cases hold : s.kernel.procs c = none
    · rcases hnew hold hp' hj with ⟨hnone, hout⟩ | ⟨d, p, hparent, hp, -, hin⟩
      · refine ⟨fun hin => absurd hin hout, fun ⟨g, hg, hgrown⟩ => ?_⟩
        rcases ho.grown hgrown with hgrown | ⟨-, d, hd, -⟩
        · exact absurd hold (hgrown.old (h.old j g hg))
        · cases ((Grouped.parentOf_eq hp').symm.trans hd).symm.trans hnone
      · rw [hin, h.members j hj d p hp]
        exact exists_congr fun g => and_congr_right fun hg => (ho.grown_new (h.old j g hg) hold hparent).symm
    · obtain ⟨p, hp⟩ := Option.ne_none_iff_exists'.mp hold
      obtain ⟨q, hq, -, -, hsame⟩ := ho.old c p hp
      cases hq.symm.trans hp'
      rw [hsame j hj, h.members j hj c p hp]
      exact exists_congr fun g => and_congr_right fun hg => (ho.grown_old hold).symm
  · by_cases hold : s.kernel.procs c = none
    · rcases hnew hold hp' hj with ⟨-, hout⟩ | ⟨d, p, -, hp, halive, hiff⟩
      · exact absurd hin hout
      · cases (h.closed j hj hopen d p hp (hiff.mp hin)).symm.trans halive
    · obtain ⟨p, hp⟩ := Option.ne_none_iff_exists'.mp hold
      obtain ⟨q, hq, -, hstays, hsame⟩ := ho.old c p hp
      cases hq.symm.trans hp'
      exact (hstays (h.closed j hj hopen c p hp ((hsame j hj).mp hin))).1
  · rcases hc with hc | hc
    · obtain ⟨hdead, hran | hasked | ⟨j, hj, g, hg, hgrown⟩⟩ := h.ended c hc
      · exact ⟨ho.dead hdead, .inl (ho.neverRan hran hdead)⟩
      · exact ⟨ho.dead hdead, .inr (.inl hasked)⟩
      · exact ⟨ho.dead hdead, .inr (.inr ⟨j, hj, g, hg, ho.mono hgrown⟩)⟩
    · exact hended c hc

theorem Sound.elsewhere_onward (h : Sound s) (he : Elsewhere s s') : Onward s.made s.kernel s'.kernel := by
  constructor
  · intro c p hp
    obtain ⟨p', hp', hlater⟩ := he.move.proc_later hp
    refine ⟨p', hp', hlater.parent, fun hdead => ?_, fun j hj => ⟨fun hin => ?_, fun hin => hlater.jobs hin⟩⟩
    · refine ⟨Bool.eq_false_iff.mpr fun halive => ?_, ?_⟩
      · cases hdead.symm.trans (hlater.alive halive)
      · rcases hlater.began with hsame | ⟨⟨halive, -⟩, -⟩
        · exact hsame
        · cases hdead.symm.trans halive
    · rcases he.joins c p' hp' j hj hin with ⟨q, hq, hin⟩ | ⟨d, q, hborn, -⟩
      · cases hp.symm.trans hq
        exact hin
      · cases hp.symm.trans hborn.fresh.1
  · intro c p' hnone hp'
    rcases he.move.proc hp' with ⟨p, hp, -⟩ | ⟨d, p, hborn⟩
    · cases hnone.symm.trans hp
    · refine ⟨hborn.fresh, .inr ⟨d, p, hborn.parent, hborn.maker, he.makers c p' d p hp' hborn, fun j hj => ⟨?_, ?_⟩⟩⟩
      · intro hin
        rcases he.joins c p' hp' j hj hin with ⟨q, hq, -⟩ | ⟨d', q, hborn', hin⟩
        · cases hnone.symm.trans hq
        · cases hborn.parent.symm.trans hborn'.parent
          cases hborn.maker.symm.trans hborn'.maker
          exact hin
      · intro hin
        obtain ⟨g, hg, -⟩ := (h.members j hj d p hborn.maker).mp hin
        rcases hborn.jobs j hin with ⟨job, hjob, hbreak⟩ | hin
        · cases (h.given j g hg).2.symm.trans hjob
          cases hbreak
        · exact hin

theorem Sound.elsewhere (h : Sound s) (he : Elsewhere s s') : Sound s' := by
  have ho : Onward s.made s.kernel s'.kernel := h.elsewhere_onward he
  have hjobs (j : JobId) (hj : j ∈ s.made) : s'.kernel.jobs j = s.kernel.jobs j := by
    obtain ⟨job, hjob⟩ := Option.ne_none_iff_exists'.mp (h.known j hj)
    rw [he.move.keeps_job hjob, hjob]
  have hs' : Sound { s with kernel := s'.kernel, ended := s.ended ∪ ∅ } :=
    h.onward ho (fun j hj => hjobs j hj ▸ h.known j hj) (fun j g hg => hjobs j (h.given j g hg).1) fun c hc => hc.elim
  rw [Set.union_empty, ← he.same] at hs'
  exact hs'

end Sound

section Calls

variable {jobs : Set JobId} {k k' : Kernel} {s s' : Host} {pid c : Pid} {p p' : Proc} {j : JobId}

theorem onward_same (h : k'.procs = k.procs) : Onward jobs k k' where
  old _ p hp := ⟨p, h ▸ hp, rfl, fun h => ⟨h, rfl⟩, fun _ _ => .rfl⟩
  new c _ hnone hp' := nomatch hnone.symm.trans ((congrFun h c).symm.trans hp')

theorem onward_setProc (hp : k.procs pid = some p) (hparent : p'.parent = p.parent)
    (hstays : p.alive = false → p'.alive = false ∧ p'.began = p.began) (hjobs : ∀ j ∈ jobs, j ∈ p'.jobs ↔ j ∈ p.jobs) :
    Onward jobs k (k.setProc pid p') := by
  constructor
  · intro c q hq
    by_cases hc : c = pid
    · subst hc
      cases hp.symm.trans hq
      exact ⟨p', Grouped.setProc_self k c p', hparent, hstays, hjobs⟩
    · exact ⟨q, (Grouped.setProc_of_ne hc).trans hq, rfl, fun h => ⟨h, rfl⟩, fun _ _ => .rfl⟩
  · intro c q hnone hq
    rcases Grouped.setProc_cases hq with ⟨rfl, -⟩ | ⟨-, hq⟩
    · cases hnone.symm.trans hp
    · cases hnone.symm.trans hq

theorem onward_kill (jobs : Set JobId) (k : Kernel) (j : JobId) : Onward jobs k (k.kill j) := by
  constructor
  · intro c p hp
    refine ⟨_, congrArg (Option.map _) hp, ?_⟩
    dsimp only
    split_ifs
    · exact ⟨rfl, fun _ => ⟨rfl, rfl⟩, fun _ _ => .rfl⟩
    · exact ⟨rfl, fun h => ⟨h, rfl⟩, fun _ _ => .rfl⟩
  · intro c p' hnone hp'
    obtain ⟨p, hp, -⟩ := Option.map_eq_some_iff.mp hp'
    cases hnone.symm.trans hp

theorem onward_make (hfresh : k.Fresh pid) (hparent : p'.parent = none) (hjobs : ∀ j ∈ jobs, j ∉ p'.jobs) :
    Onward jobs k (k.setProc pid p') := by
  constructor
  · intro c q hq
    have hc : c ≠ pid := by
      rintro rfl
      cases hq.symm.trans hfresh.1
    exact ⟨q, (Grouped.setProc_of_ne hc).trans hq, rfl, fun h => ⟨h, rfl⟩, fun _ _ => .rfl⟩
  · intro c q hnone hq
    rcases Grouped.setProc_cases hq with ⟨rfl, rfl⟩ | ⟨-, hq⟩
    · exact ⟨hfresh, .inl ⟨hparent, hjobs⟩⟩
    · cases hnone.symm.trans hq

theorem dead_kill (hdead : Dead (k.kill j) c) (halive : Alive k c) : ∃ p, k.procs c = some p ∧ j ∈ p.jobs := by
  obtain ⟨p, hp, hp₁⟩ := halive
  obtain ⟨p', hp', hp₀⟩ := hdead
  obtain ⟨q, hq, rfl⟩ := Option.map_eq_some_iff.mp hp'
  cases hp.symm.trans hq
  refine ⟨p, hp, ?_⟩
  by_contra hj
  rw [if_neg hj] at hp₀
  cases hp₁.symm.trans hp₀

theorem kill_dead (hp : (k.kill j).procs c = some p) (hj : j ∈ p.jobs) : p.alive = false := by
  obtain ⟨q, -, rfl⟩ := Option.map_eq_some_iff.mp hp
  by_cases hin : j ∈ q.jobs
  · rw [if_pos hin]
  · rw [if_neg hin] at hj
    exact absurd hj hin

theorem neverRan_kill (h : NeverRan k c) : NeverRan (k.kill j) c := by
  obtain ⟨p, hp, hparent, hbegan⟩ := h
  refine ⟨_, congrArg (Option.map _) hp, ?_⟩
  dsimp only
  split_ifs
  · exact ⟨hparent, hbegan⟩
  · exact ⟨hparent, hbegan⟩

theorem not_dead (h : Alive k c) : ¬Dead k c := by
  obtain ⟨p, hp, hp₁⟩ := h
  rintro ⟨q, hq, hq₀⟩
  cases hp.symm.trans hq
  cases hp₁.symm.trans hq₀

theorem setProc_spares (hp : k.procs pid = some p) (hsame : p'.alive = p.alive) (h : Alive k c) :
    ¬Dead (k.setProc pid p') c := by
  rintro ⟨q, hq, hq₀⟩
  rcases Grouped.setProc_cases hq with ⟨rfl, rfl⟩ | ⟨-, hq⟩
  · exact not_dead h ⟨p, hp, hsame.symm.trans hq₀⟩
  · exact not_dead h ⟨q, hq, hq₀⟩

theorem Sound.closed_empty (h : Sound s) (hj : j ∈ s.made) (hkill : ¬(s.kernel.jobs j).any Job.killOnClose)
    (hp : s.kernel.procs c = some p) : j ∉ p.jobs := by
  intro hin
  obtain ⟨g, hg, -⟩ := (h.members j hj c p hp).mp hin
  rw [(h.given j g hg).2] at hkill
  exact hkill rfl

theorem Sound.after (h : Sound s) (ho : Onward s.made s.kernel k') (hjobs : k'.jobs = s.kernel.jobs)
    (hreason : ∀ c, Alive s.kernel c → Dead k' c → Reason { s with kernel := k' } c) : Sound (s.after k') :=
  h.onward ho (fun j hj => hjobs ▸ h.known j hj) (fun j _ _ => congrFun hjobs j) fun c hc => ⟨hc.2, hreason c hc.1 hc.2⟩

theorem Sound.unchanged (h : Sound s) : Sound (s.after s.kernel) :=
  h.after (onward_same rfl) rfl fun _ halive hdead => absurd hdead (not_dead halive)

theorem Sound.kill (h : Sound s) (hj : j ∈ s.made)
    (hasked : j ∈ s.askedJobs ∨ ∀ c p, s.kernel.procs c = some p → j ∈ p.jobs → NeverRan s.kernel c) :
    Sound (s.after (s.kernel.kill j)) := by
  have ho : Onward s.made s.kernel (s.kernel.kill j) := onward_kill s.made s.kernel j
  refine h.after ho rfl fun c halive hdead => ?_
  obtain ⟨p, hp, hin⟩ := dead_kill hdead halive
  rcases hasked with hasked | hran
  · obtain ⟨g, hg, hgrown⟩ := (h.members j hj c p hp).mp hin
    exact .inr (.inr ⟨j, hasked, g, hg, ho.mono hgrown⟩)
  · exact .inl (neverRan_kill (hran c p hp hin))

theorem Sound.release (h : Sound s) (hdead : ∀ c p, s.kernel.procs c = some p → j ∈ p.jobs → p.alive = false) :
    Sound { s with held := s.held \ {j} } where
  known := h.known
  held := Set.sdiff_subset.trans h.held
  given := h.given
  old := h.old
  members := h.members
  closed j' hj' hopen c p hp hin := by
    by_cases heq : j' = j
    · subst heq
      exact hdead c p hp hin
    · exact h.closed j' hj' (fun hheld => hopen ⟨hheld, heq⟩) c p hp hin
  ended := h.ended

theorem Sound.create (h : Sound s) (hnone : s.kernel.jobs j = none)
    (hempty : ∀ c p, s.kernel.procs c = some p → j ∉ p.jobs) :
    Sound ({ s with made := insert j s.made, held := insert j s.held }.after (s.kernel.setJob j ⟨false, false⟩)) := by
  have hfresh {j' : JobId} (hj' : j' ∈ s.made) : j' ≠ j := by
    rintro rfl
    exact h.known j' hj' hnone
  have hold (j' : JobId) (hj' : j' ∈ s.made) : (s.kernel.setJob j ⟨false, false⟩).jobs j' = s.kernel.jobs j' :=
    Function.update_of_ne (hfresh hj') ..
  have ho : Onward s.made s.kernel (s.kernel.setJob j ⟨false, false⟩) := onward_same rfl
  have hs : Sound (s.after (s.kernel.setJob j ⟨false, false⟩)) :=
    h.onward ho (fun j' hj' => hold j' hj' ▸ h.known j' hj') (fun j' g hg => hold j' (h.given j' g hg).1)
      fun c hc => absurd hc.2 (not_dead hc.1)
  refine ⟨?_, Set.insert_subset_insert hs.held, fun j' g hg => ⟨.inr (hs.given j' g hg).1, (hs.given j' g hg).2⟩,
    hs.old, ?_, ?_, hs.ended⟩
  · rintro j' (rfl | hj')
    · exact fun hn => nomatch (Function.update_self ..).symm.trans hn
    · exact hs.known j' hj'
  · rintro j' (rfl | hj') c p hp
    · exact ⟨fun hin => absurd hin (hempty c p hp), fun ⟨g, hg, _⟩ => absurd rfl (hfresh (h.given j' g hg).1)⟩
    · exact hs.members j' hj' c p hp
  · rintro j' (rfl | hj') hopen c p hp hin
    · exact absurd hin (hempty c p hp)
    · exact hs.closed j' hj' (fun hheld => hopen (.inr hheld)) c p hp hin

theorem Sound.configure (h : Sound s) (hnone : s.group j = none) (job : Job) : Sound (s.after (s.kernel.setJob j job)) := by
  have ho : Onward s.made s.kernel (s.kernel.setJob j job) := onward_same rfl
  refine h.onward ho (fun j' hj' => ?_) (fun j' g hg => ?_) fun c hc => absurd hc.2 (not_dead hc.1)
  · by_cases heq : j' = j
    · subst heq
      exact fun hn => nomatch (Function.update_self ..).symm.trans hn
    · exact fun hn => h.known j' hj' ((Function.update_of_ne heq ..).symm.trans hn)
  · refine Function.update_of_ne ?_ ..
    rintro rfl
    cases hnone.symm.trans hg

theorem Sound.assign (h : Sound s) (hheld : j ∈ s.held) (hnone : s.group j = none)
    (hflags : s.kernel.jobs j = some ⟨true, false⟩) (hp : s.kernel.procs pid = some p) :
    Sound ({ s with group := Function.update s.group j (some ⟨pid, {c | s.kernel.procs c ≠ none}⟩) }.after
      (s.kernel.setProc pid { p with jobs := j :: p.jobs })) := by
  let k' := s.kernel.setProc pid { p with jobs := j :: p.jobs }
  have ho : Onward (s.made \ {j}) s.kernel k' := by
    refine onward_setProc hp rfl (fun hdead => ⟨hdead, rfl⟩) fun j' hj' => ?_
    rw [List.mem_cons]
    exact or_iff_right hj'.2
  have hknown {c : Pid} {q : Proc} (hq : k'.procs c = some q) : s.kernel.procs c ≠ none := by
    rcases Grouped.setProc_cases hq with ⟨rfl, -⟩ | ⟨-, hq⟩
    · exact fun hn => nomatch hp.symm.trans hn
    · exact fun hn => nomatch hq.symm.trans hn
  have hgroup {j' : JobId} {g : Group}
      (hg : Function.update s.group j (some ⟨pid, {c | s.kernel.procs c ≠ none}⟩) j' = some g) :
      j' = j ∧ g = ⟨pid, {c | s.kernel.procs c ≠ none}⟩ ∨ j' ≠ j ∧ s.group j' = some g := by
    by_cases heq : j' = j
    · subst heq
      rw [Function.update_self] at hg
      cases hg
      exact .inl ⟨rfl, rfl⟩
    · rw [Function.update_of_ne heq] at hg
      exact .inr ⟨heq, hg⟩
  refine ⟨h.known, h.held, fun j' g hg => ?_, fun j' g hg => ?_, fun j' hj' c q hq => ?_, fun j' hj' hopen c q hq hin => ?_,
    fun c hc => ?_⟩
  · rcases hgroup hg with ⟨rfl, -⟩ | ⟨-, hg⟩
    · exact ⟨h.held hheld, hflags⟩
    · exact h.given j' g hg
  · rcases hgroup hg with ⟨-, rfl⟩ | ⟨-, hg⟩
    · exact ⟨ho.known (hknown (Grouped.setProc_self ..)), fun c hc => ho.known hc⟩
    · exact ⟨ho.known (h.old j' g hg).1, fun c hc => ho.known ((h.old j' g hg).2 c hc)⟩
  · obtain ⟨p₀, hp₀⟩ := Option.ne_none_iff_exists'.mp (hknown hq)
    obtain ⟨q', hq', -, -, hsame⟩ := ho.old c p₀ hp₀
    cases hq'.symm.trans hq
    by_cases heq : j' = j
    · subst heq
      constructor
      · intro hin
        rcases Grouped.setProc_cases hq with ⟨rfl, -⟩ | ⟨-, hold⟩
        · exact ⟨_, Function.update_self .., .root⟩
        · obtain ⟨g, hg, -⟩ := (h.members j' hj' c q hold).mp hin
          cases hnone.symm.trans hg
      · rintro ⟨g, hg, hgrown⟩
        rcases hgroup hg with ⟨-, rfl⟩ | ⟨hne, -⟩
        · cases hgrown with
          | root =>
            cases (Grouped.setProc_self ..).symm.trans hq
            exact List.mem_cons_self
          | child _ _ hnew => exact absurd (hknown hq) hnew
        · exact absurd rfl hne
    · rw [hsame j' ⟨hj', heq⟩, h.members j' hj' c p₀ hp₀]
      simp only [Host.after, Function.update_of_ne heq]
      exact exists_congr fun g => and_congr_right fun _ => (ho.grown_old (hknown hq)).symm
  · obtain ⟨p₀, hp₀⟩ := Option.ne_none_iff_exists'.mp (hknown hq)
    obtain ⟨q', hq', -, hstays, hsame⟩ := ho.old c p₀ hp₀
    cases hq'.symm.trans hq
    have hne : j' ≠ j := fun heq => hopen (heq ▸ hheld)
    exact (hstays (h.closed j' hj' hopen c p₀ hp₀ ((hsame j' ⟨hj', hne⟩).mp hin))).1
  · rcases hc with hc | ⟨halive, hdead⟩
    · obtain ⟨hdead, hran | hasked | ⟨j', hj', g, hg, hgrown⟩⟩ := h.ended c hc
      · exact ⟨ho.dead hdead, .inl (ho.neverRan hran hdead)⟩
      · exact ⟨ho.dead hdead, .inr (.inl hasked)⟩
      · have hne : j' ≠ j := by
          rintro rfl
          cases hnone.symm.trans hg
        exact ⟨ho.dead hdead, .inr (.inr ⟨j', hj', g, (Function.update_of_ne hne ..).trans hg, ho.mono hgrown⟩)⟩
    · exact absurd hdead (setProc_spares hp rfl halive)

theorem Sound.make (h : Sound s) (hfresh : s.kernel.Fresh pid) (hparent : p.parent = none) (hp : p.alive = true)
    (hout : ∀ j ∈ p.jobs, j ∉ s.made) : Sound (s.after (s.kernel.setProc pid p)) := by
  have ho : Onward s.made s.kernel (s.kernel.setProc pid p) :=
    onward_make hfresh hparent fun j hj hin => hout j hin hj
  refine h.after ho rfl fun c halive hdead => ?_
  obtain ⟨q, hq, hq₀⟩ := hdead
  rcases Grouped.setProc_cases hq with ⟨rfl, rfl⟩ | ⟨-, hq⟩
  · cases hp.symm.trans hq₀
  · exact absurd ⟨q, hq, hq₀⟩ (not_dead halive)

theorem Sound.resume (h : Sound s) (hp : s.kernel.procs pid = some p) :
    Sound (s.after (s.kernel.setProc pid { p with suspended := false })) :=
  h.after (onward_setProc hp rfl (fun hdead => ⟨hdead, rfl⟩) fun _ _ => .rfl) rfl
    fun _ halive hdead => absurd hdead (setProc_spares hp rfl halive)

theorem Sound.terminate (h : Sound s) (hp : s.kernel.procs pid = some p)
    (hreason : pid ∈ s.askedProcs ∨ NeverRan s.kernel pid) :
    Sound (s.after (s.kernel.setProc pid { p with alive := false })) := by
  refine h.after (onward_setProc hp rfl (fun _ => ⟨rfl, rfl⟩) fun _ _ => .rfl) rfl fun c halive hdead => ?_
  obtain ⟨q, hq, hq₀⟩ := hdead
  rcases Grouped.setProc_cases hq with ⟨rfl, rfl⟩ | ⟨-, hq⟩
  · rcases hreason with hasked | ⟨p', hp', hran⟩
    · exact .inr (.inl hasked)
    · cases hp.symm.trans hp'
      exact .inl ⟨_, Grouped.setProc_self .., hran⟩
  · exact absurd ⟨q, hq, hq₀⟩ (not_dead halive)

theorem Sound.closeJob (h : Sound s) (hj : j ∈ s.made)
    (hasked : j ∈ s.askedJobs ∨ ∀ c p, s.kernel.procs c = some p → j ∈ p.jobs → NeverRan s.kernel c)
    (hk : k' = if (s.kernel.jobs j).any Job.killOnClose then s.kernel.kill j else s.kernel) :
    Sound { s.after k' with held := s.held \ {j} } := by
  by_cases hkill : (s.kernel.jobs j).any Job.killOnClose
  · rw [if_pos hkill] at hk
    subst hk
    exact (h.kill hj hasked).release fun c p hp => kill_dead hp
  · rw [if_neg hkill] at hk
    subst hk
    exact h.unchanged.release fun c p hp hin => absurd hin (h.closed_empty hj hkill hp)

theorem Sound.call (h : Sound s) {c : Call} {r : Answer c} (hguard : Guard s (.call c))
    (hstep : Grouped.step s.kernel c r k') (hfair : Fair s c r k') : Sound ((record s c r).after k') := by
  cases c with
  | createProcessW args =>
    rcases r with code | pi
    · cases hstep
      exact h.unchanged
    · obtain ⟨-, -, hfresh, jobs, rfl⟩ := hstep
      exact h.make hfresh rfl rfl (hfair _ (Grouped.setProc_self ..))
  | createJobObjectW =>
    rcases r with code | j
    · cases hstep
      exact h.unchanged
    · obtain ⟨hnone, rfl⟩ := hstep
      exact h.create hnone hfair
  | setInformationJobObject j flags =>
    rcases r with code | ⟨⟩
    · cases hstep
      exact h.unchanged
    · obtain ⟨-, rfl⟩ := hstep
      exact h.configure hguard _
  | assignProcessToJobObject j pid =>
    rcases r with code | ⟨⟩
    · cases hstep
      exact h.unchanged
    · obtain ⟨p, hp, rfl⟩ := hstep
      exact h.assign hguard.1 hguard.2.1 hguard.2.2 hp
  | resumeThread pid =>
    rcases r with code | ⟨⟩
    · cases hstep
      exact h.unchanged
    · obtain ⟨p, hp, rfl⟩ := hstep
      exact h.resume hp
  | terminateProcess pid =>
    rcases r with code | ⟨⟩
    · cases hstep
      exact h.unchanged
    · obtain ⟨p, hp, rfl⟩ := hstep
      exact h.terminate hp hguard
  | closeHandle owned =>
    cases owned with
    | job j => exact h.closeJob hguard.1 hguard.2 hstep
    | _ =>
      cases hstep
      exact h.unchanged
  | _ =>
    cases hstep
    exact h.unchanged

theorem Sound.answer (h : Sound s) {o : HostCall} {r : Reply o} (hguard : Guard s o) (ha : answer s o r s') : Sound s' := by
  cases o with
  | call c =>
    obtain ⟨k', hstep, hfair, rfl⟩ := ha
    exact h.call hguard hstep hfair
  | openProcess pid =>
    rcases r with code | pid'
    · cases ha
      exact h
    · obtain ⟨-, rfl⟩ := ha
      exact h
  | terminateJobObject j =>
    rcases r with code | ⟨⟩
    · cases ha
      exact h
    · cases ha
      exact h.kill hguard.1 (.inl hguard.2)
  | waitForSingleObject pid block =>
    rcases r with _ | code
    · obtain ⟨-, rfl⟩ := ha
      exact h
    · cases ha
      exact h
  | getExitCodeProcess pid =>
    cases ha
    exact h

end Calls

end Rustils.Process.Grouped.Jobs
