import Rustils.Process.WindowsHost

namespace Rustils.Process.Grouped.Jobs

open Platform Lib.Program
open Wiring (Stdio)
open WinFs (Wide)

def Covers (k : Kernel) (g : Group) : Prop := ∀ c, Grown k ⟨g.root, ∅⟩ c → Grown k g c

structure Account (handed : List Handed) (killed : List JobId) (s : Host) : Prop where
  sound : Sound s
  groups : ∀ e ∈ handed, ∃ g, s.group e.job = some g ∧ g.root = e.root ∧ (e.spawned = true → Covers s.kernel g)
  dead : ∀ j ∈ killed, ∃ g, s.group j = some g ∧ ∀ c, Grown s.kernel g c → Dead s.kernel c

section Steps

variable {jobs : Set JobId} {k k' : Kernel} {g : Group} {s s' : Host} {j : JobId} {pid : Pid} {handed : List Handed}
  {killed : List JobId}

theorem Onward.weaken (h : Onward jobs k k') : Onward ∅ k k' where
  old c p hp := by
    obtain ⟨p', hp', hparent, hstays, -⟩ := h.old c p hp
    exact ⟨p', hp', hparent, hstays, fun _ hj => hj.elim⟩
  new c p' hnone hp' := by
    obtain ⟨hfresh, ⟨hnone, -⟩ | ⟨d, p, hd, hp, halive, -⟩⟩ := h.new c p' hnone hp'
    · exact ⟨hfresh, .inl ⟨hnone, fun _ hj => hj.elim⟩⟩
    · exact ⟨hfresh, .inr ⟨d, p, hd, hp, halive, fun _ hj => hj.elim⟩⟩

theorem Covers.onward (h : Covers k g) (ho : Onward ∅ k k') (hold : g.Old k) : Covers k' g := by
  intro c hc
  rcases ho.grown hc with hc | ⟨hfresh, d, hparent, hd⟩
  · exact ho.mono (h c hc)
  · exact .child (ho.mono (h d hd)) hparent fun hmem => hold.2 c hmem hfresh.1

theorem step_onward {c : Call} {r : Answer c} (h : Grouped.step k c r k') : Onward ∅ k k' := by
  cases c with
  | createProcessW args =>
    rcases r with code | pi
    · cases h
      exact onward_same rfl
    · obtain ⟨-, -, hfresh, jobs, rfl⟩ := h
      exact onward_make hfresh rfl fun _ hj => hj.elim
  | createJobObjectW =>
    rcases r with code | j
    · cases h
      exact onward_same rfl
    · obtain ⟨-, rfl⟩ := h
      exact onward_same rfl
  | setInformationJobObject j flags =>
    rcases r with code | ⟨⟩
    · cases h
      exact onward_same rfl
    · obtain ⟨-, rfl⟩ := h
      exact onward_same rfl
  | assignProcessToJobObject j pid | resumeThread pid =>
    rcases r with code | ⟨⟩
    · cases h
      exact onward_same rfl
    · obtain ⟨p, hp, rfl⟩ := h
      exact onward_setProc hp rfl (fun hdead => ⟨hdead, rfl⟩) fun _ hj => hj.elim
  | terminateProcess pid =>
    rcases r with code | ⟨⟩
    · cases h
      exact onward_same rfl
    · obtain ⟨p, hp, rfl⟩ := h
      exact onward_setProc hp rfl (fun _ => ⟨rfl, rfl⟩) fun _ hj => hj.elim
  | closeHandle owned =>
    cases owned with
    | job j =>
      have hk : k' = if (k.jobs j).any Job.killOnClose then k.kill j else k := h
      split_ifs at hk
      · exact hk ▸ onward_kill ∅ k j
      · exact onward_same (congrArg _ hk)
    | _ =>
      cases h
      exact onward_same rfl
  | _ =>
    cases h
    exact onward_same rfl

theorem answer_onward {o : HostCall} {r : Reply o} (h : answer s o r s') : Onward ∅ s.kernel s'.kernel := by
  cases o with
  | call c =>
    obtain ⟨k', hstep, -, rfl⟩ := h
    exact step_onward hstep
  | openProcess pid =>
    rcases r with code | pid'
    · cases h
      exact onward_same rfl
    · obtain ⟨-, rfl⟩ := h
      exact onward_same rfl
  | terminateJobObject j =>
    rcases r with code | ⟨⟩
    · cases h
      exact onward_same rfl
    · cases h
      exact onward_kill ∅ _ j
  | waitForSingleObject pid block =>
    rcases r with _ | code
    · obtain ⟨-, rfl⟩ := h
      exact onward_same rfl
    · cases h
      exact onward_same rfl
  | getExitCodeProcess pid =>
    cases h
    exact onward_same rfl

theorem record_keeps (s : Host) (c : Call) (r : Answer c) :
    (record s c r).askedProcs = s.askedProcs ∧ (record s c r).askedJobs = s.askedJobs ∧ s.made ⊆ (record s c r).made := by
  unfold record
  split
  · exact ⟨rfl, rfl, Set.subset_insert ..⟩
  · exact ⟨rfl, rfl, subset_rfl⟩
  · exact ⟨rfl, rfl, subset_rfl⟩
  · exact ⟨rfl, rfl, subset_rfl⟩

theorem record_group {c : Call} {r : Answer c} (hguard : Guard s (.call c)) (hg : s.group j = some g) :
    (record s c r).group j = some g := by
  unfold record
  split
  · exact hg
  · refine (Function.update_of_ne ?_ ..).trans hg
    rintro rfl
    cases hguard.2.1.symm.trans hg
  · exact hg
  · exact hg

theorem answer_keeps {o : HostCall} {r : Reply o} (h : answer s o r s') :
    s'.askedProcs = s.askedProcs ∧ s'.askedJobs = s.askedJobs ∧ s.made ⊆ s'.made ∧
      (Guard s o → ∀ j g, s.group j = some g → s'.group j = some g) := by
  have hsame (heq : s' = s) : s'.askedProcs = s.askedProcs ∧ s'.askedJobs = s.askedJobs ∧ s.made ⊆ s'.made ∧
      (Guard s o → ∀ j g, s.group j = some g → s'.group j = some g) := by
    subst heq
    exact ⟨rfl, rfl, subset_rfl, fun _ _ _ => id⟩
  cases o with
  | call c =>
    obtain ⟨k', -, -, rfl⟩ := h
    obtain ⟨hprocs, hjobs, hmade⟩ := record_keeps s c r
    exact ⟨hprocs, hjobs, hmade, fun hguard j g hg => record_group hguard hg⟩
  | openProcess pid =>
    rcases r with code | pid'
    · exact hsame h
    · exact hsame h.2
  | terminateJobObject j =>
    rcases r with code | ⟨⟩
    · exact hsame h
    · cases h
      exact ⟨rfl, rfl, subset_rfl, fun _ _ _ => id⟩
  | waitForSingleObject pid block =>
    rcases r with _ | code
    · exact hsame h.2
    · exact hsame h
  | getExitCodeProcess pid => exact hsame h

theorem Account.onward (h : Account handed killed s) (hs' : Sound s') (ho : Onward ∅ s.kernel s'.kernel)
    (hgroup : ∀ j g, s.group j = some g → s'.group j = some g) : Account handed killed s' := by
  refine ⟨hs', fun e he => ?_, fun j hj => ?_⟩
  · obtain ⟨g, hg, hroot, hcovers⟩ := h.groups e he
    exact ⟨g, hgroup _ _ hg, hroot, fun hspawned => (hcovers hspawned).onward ho (h.sound.old _ g hg)⟩
  · obtain ⟨g, hg, hdead⟩ := h.dead j hj
    exact ⟨g, hgroup _ _ hg, fun c hc => ho.group_dead hdead hc⟩

theorem Account.elsewhere (h : Account handed killed s) (he : Elsewhere s s') : Account handed killed s' := by
  refine h.onward (h.sound.elsewhere he) (h.sound.elsewhere_onward he).weaken fun j g hg => ?_
  rw [he.same]
  exact hg

theorem Account.answer {o : HostCall} {r : Reply o} (h : Account handed killed s) (hguard : Guard s o)
    (ha : answer s o r s') : Account handed killed s' :=
  h.onward (h.sound.answer hguard ha) (answer_onward ha) ((answer_keeps ha).2.2.2 hguard)

theorem Account.tail {e : Handed} (h : Account (e :: handed) killed s) : Account handed killed s :=
  ⟨h.sound, fun e' he' => h.groups e' (.tail e he'), h.dead⟩

end Steps

structure Kept (handed : List Handed) (killed : List JobId) (s₀ : Host) (held : Set JobId) (s : Host) : Prop where
  account : Account handed killed s
  held : s.held = held
  made : s₀.made ⊆ s.made
  procs : s.askedProcs = s₀.askedProcs
  jobs : s.askedJobs = s₀.askedJobs

def Inert : Call → Prop
  | .createProcessW _ | .createJobObjectW | .setInformationJobObject _ _ | .assignProcessToJobObject _ _
  | .resumeThread _ | .terminateProcess _ | .closeHandle (.job _) => False
  | _ => True

def Still : HostCall → Prop
  | .call c => Inert c
  | .terminateJobObject _ => False
  | _ => True

abbrev Ensures {α : Type} (handed : List Handed) (killed : List JobId) (Q : α → Host → Prop) (p : Prog Reply α)
    (s : Host) : Prop :=
  Lib.Program.Safe env (fun s _ => Account handed killed s) Q p s

section Ensures

variable {α β : Type} {handed H : List Handed} {killed : List JobId} {Q : α → Host → Prop} {I : Host → Prop} {s s₀ s' : Host}
  {held : Set JobId} {j : JobId}

theorem Kept.elsewhere (h : Kept handed killed s₀ held s) (he : Elsewhere s s') : Kept handed killed s₀ held s' := by
  refine ⟨h.account.elsewhere he, ?_, ?_, ?_, ?_⟩
  · rw [he.same]
    exact h.held
  · rw [he.same]
    exact h.made
  · rw [he.same]
    exact h.procs
  · rw [he.same]
    exact h.jobs

theorem stable_kept : Stable Elsewhere (Kept handed killed s₀ held) := fun _ _ h he => h.elsewhere he

theorem Kept.answer {o : HostCall} {r : Reply o} (h : Kept handed killed s₀ held s) (hguard : Guard s o)
    (ha : answer s o r s') : Kept handed killed s₀ s'.held s' := by
  obtain ⟨hprocs, hjobs, hmade, -⟩ := answer_keeps ha
  exact ⟨h.account.answer hguard ha, rfl, h.made.trans hmade, hprocs.trans h.procs, hjobs.trans h.jobs⟩

theorem after_self (s : Host) : s.after s.kernel = s := by
  have hnone : {c | Alive s.kernel c ∧ Dead s.kernel c} = ∅ :=
    Set.eq_empty_of_forall_notMem fun c hc => not_dead hc.1 hc.2
  rw [Host.after, hnone, Set.union_empty]

theorem answer_still {o : HostCall} {r : Reply o} (ho : Still o) (h : answer s o r s') : s' = s := by
  cases o with
  | call c =>
    obtain ⟨k', hstep, -, rfl⟩ := h
    cases c with
    | closeHandle owned =>
      cases owned with
      | job j => cases ho
      | _ =>
        cases hstep
        exact after_self s
    | createFileW | getStdHandle | duplicateHandle | createPipe | setHandleInformation =>
      cases hstep
      exact after_self s
    | _ => cases ho
  | openProcess pid =>
    rcases r with code | pid'
    · exact h
    · exact h.2
  | terminateJobObject j => cases ho
  | waitForSingleObject process block =>
    rcases r with _ | code
    · exact h.2
    · exact h
  | getExitCodeProcess process => exact h

theorem Still.guard {o : HostCall} (ho : Still o) : Guard s o := by
  cases o with
  | call c =>
    cases c with
    | closeHandle owned =>
      cases owned with
      | job j => cases ho
      | _ => trivial
    | setInformationJobObject | assignProcessToJobObject | terminateProcess => cases ho
    | _ => trivial
  | terminateJobObject j => cases ho
  | _ => trivial

theorem ensures_op {o : HostCall} {rest : Reply o → Prog Reply α} (hI : Stable Elsewhere I) (hs : I s)
    (hguard : ∀ s, I s → Account handed killed s ∧ Guard s o)
    (hrest : ∀ s₁ r s', I s₁ → answer s₁ o r s' → Ensures handed killed Q (rest r) s') :
    Ensures handed killed Q (.op o rest) s := by
  refine ⟨(hguard s hs).1, ?_⟩
  rintro r s' ⟨s₁, hm, ha⟩
  exact hrest s₁ r s' (hI.later hs hm) ha

theorem ensures_still {o : HostCall} {rest : Reply o → Prog Reply α} (hI : Stable Elsewhere I) (hs : I s)
    (hacc : ∀ s, I s → Account handed killed s) (ho : Still o)
    (hrest : ∀ r s', I s' → Ensures handed killed Q (rest r) s') : Ensures handed killed Q (.op o rest) s := by
  refine ensures_op hI hs (fun s hs => ⟨hacc s hs, ho.guard⟩) fun s₁ r s' hs₁ ha => ?_
  cases answer_still ho ha
  exact hrest r s₁ hs₁

theorem ensures_quiet (hI : Stable Elsewhere I) (hs : I s) (hacc : ∀ s, I s → Account handed killed s)
    {p : Prog Reply α} (hp : Everywhere (fun o _ => Still o) p) : Ensures handed killed (fun _ => I) p s := by
  induction p generalizing s with
  | ret a => exact hs
  | op o k ih => exact ensures_still hI hs hacc hp.1 fun r s' hs' => ih r hs' (hp.2 r)

theorem still_lift {p : Prog Answer α} (hp : Everywhere (fun c _ => Inert c) p) : Everywhere (fun o _ => Still o) (lift p) := by
  induction p with
  | ret a => trivial
  | op c k ih => exact ⟨hp.1, fun r => ih r (hp.2 r)⟩

end Ensures

section Inert

variable {α β : Type}

theorem lift_bind (p : Prog Answer α) (f : α → Prog Answer β) : lift (p >>= f) = lift p >>= fun a => lift (f a) := by
  induction p with
  | ret a => rfl
  | op c k ih => exact congrArg (Prog.op (HostCall.call c)) (funext ih)

theorem inert_closeAll {hs : List Owned} (h : ∀ j, .job j ∉ hs) :
    Everywhere (fun c _ => Inert c) (Grouped.closeAll hs) := by
  induction hs with
  | nil => trivial
  | cons o hs ih =>
    refine ⟨?_, fun _ => ih fun j hj => h j (.tail o hj)⟩
    cases o with
    | job j => exact absurd List.mem_cons_self (h j)
    | _ => trivial

theorem inert_closing {hs : List Owned} (h : ∀ j, .job j ∉ hs) (a : α) :
    Everywhere (fun c _ => Inert c) (Grouped.closeAll hs >>= fun _ => pure a) :=
  (inert_closeAll h).bind fun _ => trivial

theorem job_notMem_plain (hs : List (Option Handle)) (j : JobId) : .job j ∉ hs.filterMap fun h => h.map Owned.plain := by
  intro hj
  obtain ⟨h, -, hh⟩ := List.mem_filterMap.mp hj
  obtain ⟨x, -, hx⟩ := Option.map_eq_some_iff.mp hh
  cases hx

theorem inert_slotHandle (slot : Fin 3) (spec : Stdio) : Everywhere (fun c _ => Inert c) (slotHandle slot spec) := by
  cases spec with
  | null =>
    refine Everywhere.bind ⟨trivial, ?_⟩ ?_
    · rintro (code | h) <;> trivial
    · rintro (e | h) <;> trivial
  | inherit =>
    refine Everywhere.bind ⟨trivial, ?_⟩ ?_
    · rintro (_ | current)
      · trivial
      · refine ⟨trivial, ?_⟩
        rintro (code | code | dup) <;> trivial
    · rintro (e | h) <;> trivial
  | pipe =>
    refine Everywhere.bind ⟨trivial, ?_⟩ ?_
    · rintro (code | ⟨_ | read, _ | write⟩)
      · trivial
      · trivial
      · trivial
      · exact inert_closing (fun j hj => by simp at hj) _
      · refine ⟨trivial, ?_⟩
        rintro (code | ⟨⟩)
        · exact inert_closing (fun j hj => by simp at hj) _
        · trivial
    · rintro (e | ⟨child, parent⟩) <;> trivial
  | file fd =>
    refine Everywhere.bind ?_ ?_
    · cases fd with
      | none => trivial
      | some h =>
        refine ⟨trivial, ?_⟩
        rintro (code | code | dup) <;> trivial
    · rintro (e | h) <;> trivial

theorem inert_prepare (stdio : Fin 3 → Stdio) (slots : List (Fin 3)) (acc : Prepared) :
    Everywhere (fun c _ => Inert c) (prepare stdio slots acc) := by
  induction slots generalizing acc with
  | nil => trivial
  | cons slot slots ih =>
    refine (inert_slotHandle slot (stdio slot)).bind ?_
    rintro (e | ⟨child, parent⟩)
    · refine inert_closing (fun j hj => ?_) _
      rcases List.mem_append.mp hj with hj | hj
      · exact job_notMem_plain _ j hj
      · exact job_notMem_plain _ j hj
    · exact ih _

end Inert

structure NewJob (handed : List Handed) (killed : List JobId) (s₀ : Host) (held : Set JobId) (j : JobId) (s : Host) :
    Prop where
  kept : Kept handed killed s₀ (insert j held) s
  fresh : j ∉ s₀.made
  empty : s.group j = none

section Sequence

variable {α : Type} {handed : List Handed} {killed : List JobId} {Q : α → Host → Prop} {I : Host → Prop}
  {J : Kernel → Prop} {s s₀ s' : Host} {k k₀ : Kernel} {g : Group} {held : Set JobId} {j : JobId} {pid c : Pid}

theorem stable_newJob : Stable Elsewhere (NewJob handed killed s₀ held j) := by
  intro s s' h he
  refine ⟨h.kept.elsewhere he, h.fresh, ?_⟩
  rw [he.same]
  exact h.empty

theorem stable_kernel (hJ : Stable Move J) : Stable Elsewhere fun s => J s.kernel := fun _ _ h he => hJ _ _ h he.move

theorem NewJob.guard (h : NewJob handed killed s₀ held j s) : Guard s (.call (.closeHandle (.job j))) := by
  have hj : j ∈ s.made := h.kept.account.sound.held (h.kept.held ▸ Set.mem_insert j held)
  refine ⟨hj, .inr fun c p hp hin => ?_⟩
  obtain ⟨g, hg, -⟩ := (h.kept.account.sound.members j hj c p hp).mp hin
  cases h.empty.symm.trans hg

theorem harmless_call {c : Call} {r : Answer c} (hJ : Stable Move J) (hc : Harmless c) (hs : J s.kernel)
    (ha : answer s (.call c) r s') : J s'.kernel := by
  obtain ⟨k', hstep, -, rfl⟩ := ha
  rcases step_harmless hstep hc with rfl | hm
  · exact hs
  · exact hJ _ _ hs hm

theorem ensures_closeJob {rest : Unit → Prog Reply α} (hI : Stable Elsewhere I) (hs : I s) (hJ : Stable Move J)
    (hkept : ∀ s, I s → Kept handed killed s₀ (insert j held) s ∧ J s.kernel)
    (hguard : ∀ s, I s → Guard s (.call (.closeHandle (.job j)))) (hj : j ∉ held)
    (hrest : ∀ s', Kept handed killed s₀ held s' → J s'.kernel → Ensures handed killed Q (rest ()) s') :
    Ensures handed killed Q (.op (.call (.closeHandle (.job j))) rest) s := by
  refine ensures_op hI hs (fun s hs => ⟨(hkept s hs).1.account, hguard s hs⟩) fun s₁ r s' hs₁ ha => ?_
  obtain ⟨hkept₁, hJ₁⟩ := hkept s₁ hs₁
  have hkept' : Kept handed killed s₀ s'.held s' := hkept₁.answer (hguard s₁ hs₁) ha
  have hheld : s'.held = held := by
    obtain ⟨k', -, -, rfl⟩ := ha
    change s₁.held \ {j} = held
    rw [hkept₁.held]
    exact Set.insert_sdiff_self_of_notMem hj
  exact hrest s' (hheld ▸ hkept') (harmless_call hJ (by trivial) hJ₁ ha)

theorem ensures_createKillOnCloseJob (hJ : Stable Move J) (hset : ∀ k j job, J k → J (k.setJob j job))
    (hs : Kept handed killed s₀ held s ∧ J s.kernel) (hheld : held ⊆ s₀.made) :
    Ensures handed killed (fun r s => (∀ e, r = .error e → Kept handed killed s₀ held s ∧ J s.kernel) ∧
      ∀ j, r = .ok j → NewJob handed killed s₀ held j s ∧ s.kernel.jobs j = some ⟨true, false⟩ ∧ J s.kernel)
      (lift Grouped.createKillOnCloseJob) s := by
  have hI : Stable Elsewhere fun s => Kept handed killed s₀ held s ∧ J s.kernel := stable_kept.and (stable_kernel hJ)
  refine ensures_op hI hs (fun s hs => ⟨hs.1.account, trivial⟩) ?_
  rintro s₁ (code | j) s₂ ⟨hkept, hJ₁⟩ ha
  · obtain ⟨k', hstep, -, rfl⟩ := ha
    cases hstep
    refine ⟨fun e he => ?_, nofun⟩
    change Kept handed killed s₀ held (s₁.after s₁.kernel) ∧ J s₁.kernel
    rw [after_self]
    exact ⟨hkept, hJ₁⟩
  · have hJ₂ : J s₂.kernel := harmless_call hJ (by trivial) hJ₁ ha
    have hkept₂ : Kept handed killed s₀ s₂.held s₂ := hkept.answer (by trivial) ha
    obtain ⟨k', ⟨hnone, rfl⟩, -, hs₂⟩ := ha
    have hj : j ∉ s₁.made := fun hj => hkept.account.sound.known j hj hnone
    have hheld₂ : s₂.held = insert j held := by
      rw [hs₂]
      exact congrArg (insert j) hkept.held
    have hgroup₂ : s₂.group j = none := by
      rw [hs₂]
      by_contra hg
      obtain ⟨g, hg⟩ := Option.ne_none_iff_exists'.mp hg
      exact hj (hkept.account.sound.given j g hg).1
    have hnew : NewJob handed killed s₀ held j s₂ := ⟨hheld₂ ▸ hkept₂, fun hj' => hj (hkept.made hj'), hgroup₂⟩
    have hI' : Stable Elsewhere fun s => NewJob handed killed s₀ held j s ∧ J s.kernel :=
      stable_newJob.and (stable_kernel hJ)
    refine ensures_op hI' ⟨hnew, hJ₂⟩ (fun s hs => ⟨hs.1.kept.account, hs.1.empty⟩) ?_
    rintro s₃ (code | ⟨⟩) s₄ ⟨hnew₃, hJ₃⟩ ha
    · obtain ⟨k', hstep, -, rfl⟩ := ha
      cases hstep
      have hsame : (record s₃ (.setInformationJobObject j JOB_OBJECT_LIMIT_KILL_ON_JOB_CLOSE) (.error code)).after
          s₃.kernel = s₃ := after_self s₃
      rw [hsame]
      refine ensures_closeJob hI' ⟨hnew₃, hJ₃⟩ hJ (fun s hs => ⟨hs.1.kept, hs.2⟩) (fun s hs => hs.1.guard)
        (fun hj' => hnew.fresh (hheld hj')) fun s' hkept' hJ' => ⟨fun e he => ⟨hkept', hJ'⟩, nofun⟩
    · have hkept₄ : Kept handed killed s₀ s₄.held s₄ := hnew₃.kept.answer (by exact hnew₃.empty) ha
      obtain ⟨k', ⟨-, rfl⟩, -, hs₄⟩ := ha
      refine ⟨nofun, fun j' hj' => ?_⟩
      cases hj'
      have hheld₄ : s₄.held = insert j held := by
        rw [hs₄]
        exact hnew₃.kept.held
      refine ⟨⟨hheld₄ ▸ hkept₄, hnew.fresh, ?_⟩, ?_, ?_⟩
      · rw [hs₄]
        exact hnew₃.empty
      · rw [hs₄]
        exact Function.update_self ..
      · rw [hs₄]
        exact hset _ _ _ hJ₃

theorem grown_childless (h : ∀ c, k.parentOf c ≠ some g.root) (hc : Grown k g c) : c = g.root := by
  induction hc with
  | root => rfl
  | child _ hc _ ih =>
    rw [ih] at hc
    exact absurd hc (h _)

theorem Kept.tail {e : Handed} (h : Kept (e :: handed) killed s₀ held s) : Kept handed killed s₀ held s :=
  ⟨h.account.tail, h.held, h.made, h.procs, h.jobs⟩

def Loaded (handed : List Handed) (killed : List JobId) (s₀ : Host) (held : Set JobId) (j : JobId) (k₀ : Kernel) (pid : Pid)
    (s : Host) : Prop :=
  Kept (⟨j, pid, true⟩ :: handed) killed s₀ (insert j held) s ∧ Held k₀ pid (fun _ => True) s.kernel

theorem Loaded.guard (h : Loaded handed killed s₀ held j k₀ pid s) : Guard s (.call (.closeHandle (.job j))) := by
  have hj : j ∈ s.made := h.1.account.sound.held (h.1.held ▸ Set.mem_insert j held)
  refine ⟨hj, .inr fun c p hp hin => ?_⟩
  obtain ⟨g, hg, hgrown⟩ := (h.1.account.sound.members j hj c p hp).mp hin
  obtain ⟨g', hg', hroot, -⟩ := h.1.account.groups _ List.mem_cons_self
  cases hg.symm.trans hg'
  obtain ⟨q, hq, hparent, hbegan, -⟩ := h.2.proc
  cases (grown_childless (by rw [hroot]; exact h.2.childless) hgrown).trans hroot
  exact ⟨q, hq, hparent, hbegan⟩

theorem stable_loaded : Stable Elsewhere (Loaded handed killed s₀ held j k₀ pid) :=
  stable_kept.and (stable_kernel (stable_held lasting_true k₀ pid))

theorem NewJob.assign {process : Pid} {spawned : Bool} (h : NewJob handed killed s₀ held j s)
    (hflags : s.kernel.jobs j = some ⟨true, false⟩) {u : Unit}
    (ha : answer s (.call (.assignProcessToJobObject j process)) (.ok u) s')
    (hchildless : spawned = true → ∀ c, s.kernel.parentOf c ≠ some process) :
    Kept (⟨j, process, spawned⟩ :: handed) killed s₀ (insert j held) s' := by
  have hguard : Guard s (.call (.assignProcessToJobObject j process)) :=
    ⟨h.kept.held ▸ Set.mem_insert j held, h.empty, hflags⟩
  have hkept : Kept handed killed s₀ s'.held s' := h.kept.answer hguard ha
  obtain ⟨k', ⟨p, hp, rfl⟩, -, hs'⟩ := ha
  have hheld : s'.held = insert j held := by
    rw [hs']
    exact h.kept.held
  have hgroup : s'.group j = some ⟨process, {c | s.kernel.procs c ≠ none}⟩ := by
    rw [hs']
    exact Function.update_self ..
  have hsame : s'.kernel.parentOf = s.kernel.parentOf := by
    rw [hs']
    exact parentOf_setProc hp rfl
  refine ⟨⟨hkept.account.sound, ?_, hkept.account.dead⟩, hheld, hkept.made, hkept.procs, hkept.jobs⟩
  rintro e (_ | ⟨_, he⟩)
  · refine ⟨_, hgroup, rfl, fun hspawned c hc => ?_⟩
    rw [grown_childless (g := ⟨process, ∅⟩) (by rw [hsame]; exact hchildless hspawned) hc]
    exact .root
  · exact hkept.account.groups e he

theorem ensures_sequence {thread : Option Pid}
    (h : Kept handed killed s₀ held s ∧ Held k₀ pid (fun _ => True) s.kernel) (hheld : held ⊆ s₀.made)
    (hthread : thread = none ∨ thread = some pid) :
    Ensures handed killed (fun r s =>
      (∀ e, r = .error e → Kept handed killed s₀ held s ∧ Held k₀ pid (fun _ => True) s.kernel) ∧
      ∀ j, r = .ok j → Kept (⟨j, pid, true⟩ :: handed) killed s₀ (insert j held) s ∧ j ∉ s₀.made)
      (lift (sequence pid thread)) s := by
  have hJ : Stable Move (Held k₀ pid fun _ => True) := stable_held lasting_true k₀ pid
  have hset (k : Kernel) (j : JobId) (job : Job) (h : Held k₀ pid (fun _ => True) k) :
      Held k₀ pid (fun _ => True) (k.setJob j job) := ⟨h.only, h.proc, h.childless⟩
  unfold sequence
  rw [lift_bind]
  refine Safe.bind (ensures_createKillOnCloseJob hJ hset h hheld) ?_
  rintro (e | j) s₁ ⟨herr, hok⟩
  · exact ⟨fun _ _ => herr e rfl, nofun⟩
  obtain ⟨hnew, hflags, hchild⟩ := hok j rfl
  have hj : j ∉ held := fun hj => hnew.fresh (hheld hj)
  have hI : Stable Elsewhere fun s => (NewJob handed killed s₀ held j s ∧ s.kernel.jobs j = some ⟨true, false⟩) ∧
      Held k₀ pid (fun _ => True) s.kernel :=
    (stable_newJob.and (stable_kernel (stable_jobs j _))).and (stable_kernel hJ)
  refine ensures_op hI ⟨⟨hnew, hflags⟩, hchild⟩
    (fun s hs => ⟨hs.1.1.kept.account, hs.1.1.kept.held ▸ Set.mem_insert j held, hs.1.1.empty, hs.1.2⟩) ?_
  rintro s₂ (code | ⟨⟩) s₃ ⟨⟨hnew₂, hflags₂⟩, hchild₂⟩ ha
  · obtain ⟨k', hstep, -, rfl⟩ := ha
    cases hstep
    have hsame : (record s₂ (.assignProcessToJobObject j pid) (.error code)).after s₂.kernel = s₂ := after_self s₂
    rw [hsame]
    exact ensures_closeJob hI ⟨⟨hnew₂, hflags₂⟩, hchild₂⟩ hJ (fun s hs => ⟨hs.1.1.kept, hs.2⟩) (fun s hs => hs.1.1.guard)
      hj fun s' hkept hchild => ⟨fun _ _ => ⟨hkept, hchild⟩, nofun⟩
  have hloaded : Loaded handed killed s₀ held j k₀ pid s₃ :=
    ⟨hnew₂.assign hflags₂ ha fun _ => hchild₂.childless, harmless_call hJ (by trivial) hchild₂ ha⟩
  rcases hthread with rfl | rfl
  · exact ensures_closeJob stable_loaded hloaded hJ (fun s hs => ⟨hs.1.tail, hs.2⟩) (fun s hs => hs.guard)
      hj fun s' hkept hchild => ⟨fun _ _ => ⟨hkept, hchild⟩, nofun⟩
  refine ensures_op stable_loaded hloaded (fun s hs => ⟨hs.1.tail.account, trivial⟩) ?_
  rintro s₄ (code | ⟨⟩) s₅ hloaded₄ ha
  · obtain ⟨k', hstep, -, rfl⟩ := ha
    cases hstep
    have hsame : (record s₄ (.resumeThread pid) (.error code)).after s₄.kernel = s₄ := after_self s₄
    rw [hsame]
    exact ensures_closeJob stable_loaded hloaded₄ hJ (fun s hs => ⟨hs.1.tail, hs.2⟩) (fun s hs => hs.guard)
      hj fun s' hkept hchild => ⟨fun _ _ => ⟨hkept, hchild⟩, nofun⟩
  · have hkept₅ := hloaded₄.1.answer (by trivial) ha
    obtain ⟨k', ⟨p, hp, rfl⟩, -, hs₅⟩ := ha
    have hheld₅ : s₅.held = insert j held := by
      rw [hs₅]
      exact hloaded₄.1.held
    refine ⟨nofun, fun j' hj' => ?_⟩
    cases hj'
    exact ⟨hheld₅ ▸ hkept₅, hnew.fresh⟩

end Sequence

def Hands (handed : List Handed) (killed : List JobId) (s₀ : Host) (held : Set JobId) (spawned : Bool) (process : Pid) :
    Option JobId → Host → Prop
  | none, s => Kept handed killed s₀ held s
  | some j, s => Kept (⟨j, process, spawned⟩ :: handed) killed s₀ (insert j held) s ∧ j ∉ s₀.made

section Spawn

variable {α : Type} {handed : List Handed} {killed : List JobId} {Q : α → Host → Prop} {I : Host → Prop} {s s₀ : Host}
  {k₀ : Kernel} {held : Set JobId} {process : Pid} {job : Option JobId} {spawned : Bool}

theorem stable_hands : Stable Elsewhere (Hands handed killed s₀ held spawned process job) := by
  intro s s' h he
  cases job with
  | none => exact Kept.elsewhere h he
  | some j => exact ⟨h.1.elsewhere he, h.2⟩

theorem Hands.account (h : Hands handed killed s₀ held spawned process job s) : Account handed killed s := by
  cases job with
  | none => exact Kept.account h
  | some j => exact h.1.account.tail

theorem ensures_closing {hs : List Owned} {a : α} (hI : Stable Elsewhere I) (hs' : I s)
    (hacc : ∀ s, I s → Account handed killed s) (hjob : ∀ j, .job j ∉ hs) (hQ : ∀ s, I s → Q a s) :
    Ensures handed killed Q (lift (Grouped.closeAll hs >>= fun _ => pure a)) s := by
  rw [lift_bind]
  exact Safe.bind (ensures_quiet hI hs' hacc (still_lift (inert_closeAll hjob))) fun _ s' hs' => hQ s' hs'

theorem job_notMem_thread (thread : Option Pid) (j : JobId) : .job j ∉ threadHandle thread := by
  cases thread <;> simp [threadHandle]

def Answered (handed : List Handed) (killed : List JobId) (s₀ : Host) (held : Set JobId) (r : Result Spawned) (s : Host) :
    Prop :=
  (∀ e, r = .error e → Kept handed killed s₀ held s) ∧
    ∀ c, r = .ok c → Hands handed killed s₀ held true c.process c.job s

theorem ensures_adoptSpawned (newGroup : Bool) (prepared : Prepared) {pi : ProcessInformation}
    (h : Kept handed killed s₀ held s) (hchild : newGroup = true → Held k₀ process (fun _ => True) s.kernel)
    (hheld : held ⊆ s₀.made) (hthread : pi.hThread = none ∨ pi.hThread = some process) :
    Ensures handed killed (Answered handed killed s₀ held) (lift (Grouped.adopt newGroup prepared process pi)) s := by
  have hslots (j : JobId) : .job j ∉ threadHandle pi.hThread ++ prepared.slots := fun hj => by
    rcases List.mem_append.mp hj with hj | hj
    · exact job_notMem_thread _ j hj
    · exact job_notMem_plain _ j hj
  cases newGroup with
  | false =>
    refine ensures_closing stable_kept h (fun s hs => hs.account) hslots fun s' hs' => ⟨nofun, fun c hc => ?_⟩
    cases hc
    exact hs'
  | true =>
    change Ensures handed killed _ (lift (sequence process pi.hThread >>= _)) s
    rw [lift_bind]
    refine Safe.bind (ensures_sequence ⟨h, hchild rfl⟩ hheld hthread) ?_
    rintro (e | j) s₁ ⟨herr, hok⟩
    · have hJ : Stable Move (Held k₀ process fun _ => True) := stable_held lasting_true k₀ process
      have hI : Stable Elsewhere fun s => Kept handed killed s₀ held s ∧ Held k₀ process (fun _ => True) s.kernel :=
        stable_kept.and (stable_kernel hJ)
      refine ensures_op hI (herr e rfl) (fun s hs => ⟨hs.1.account, ?_⟩) fun s₂ r s₃ hs₂ ha => ?_
      · obtain ⟨q, hq, hparent, hbegan, -⟩ := hs.2.proc
        exact .inr ⟨q, hq, hparent, hbegan⟩
      · have hguard : Guard s₂ (.call (.terminateProcess process)) := by
          obtain ⟨q, hq, hparent, hbegan, -⟩ := hs₂.2.proc
          exact .inr ⟨q, hq, hparent, hbegan⟩
        have hkept : Kept handed killed s₀ s₃.held s₃ := hs₂.1.answer hguard ha
        have hheld₃ : s₃.held = held := by
          obtain ⟨k', -, -, rfl⟩ := ha
          exact hs₂.1.held
        refine ensures_closing stable_kept (hheld₃ ▸ hkept) (fun s hs => hs.account) (fun j hj => ?_)
          fun s' hs' => ⟨fun _ _ => hs', nofun⟩
        simp only [List.mem_append, List.mem_cons, reduceCtorEq, false_or] at hj
        rcases hj with (hj | hj) | hj
        · exact job_notMem_thread _ j hj
        · exact job_notMem_plain _ j hj
        · exact job_notMem_plain _ j hj
    · have hhands : Hands handed killed s₀ held true process (some j) s₁ := hok j rfl
      refine ensures_closing stable_hands hhands (fun s hs => hs.account) hslots fun s' hs' => ⟨nofun, fun c hc => ?_⟩
      cases hc
      exact hs'

theorem ensures_spawnProcess (line cwd : Wide) (ev : EnvSpec UInt16) (stdio : Fin 3 → Stdio) (newGroup detached : Bool)
    (h : Kept handed killed s₀ held s) (hheld : held ⊆ s₀.made) :
    Ensures handed killed (Answered handed killed s₀ held) (lift (Grouped.spawn line cwd ev stdio newGroup detached)) s := by
  unfold Grouped.spawn
  dsimp only
  rw [lift_bind]
  refine Safe.bind (Q := fun _ => Kept handed killed s₀ held) ?_ ?_
  · refine ensures_quiet stable_kept h (fun s hs => hs.account) (still_lift ?_)
    split_ifs
    · exact inert_prepare stdio _ _
    · trivial
  rintro (e | prepared) s₁ hs₁
  · exact ⟨fun _ _ => hs₁, nofun⟩
  have hslots (j : JobId) : .job j ∉ prepared.slots ++ prepared.pipes := fun hj => by
    rcases List.mem_append.mp hj with hj | hj
    · exact job_notMem_plain _ j hj
    · exact job_notMem_plain _ j hj
  refine ensures_op stable_kept hs₁ (fun s hs => ⟨hs.account, trivial⟩) ?_
  rintro s₂ (code | pi) s₃ hs₂ ha
  · obtain ⟨k', hstep, -, rfl⟩ := ha
    cases hstep
    refine ensures_closing stable_kept ?_ (fun s hs => hs.account) hslots fun s' hs' => ⟨fun _ _ => hs', nofun⟩
    exact (after_self s₂).symm ▸ hs₂
  · have hkept := hs₂.answer (by trivial) ha
    obtain ⟨k', ⟨hprocess, hthread, hfresh, jobs, hk'⟩, -, hs₃⟩ := ha
    have hheld₃ : s₃.held = held := by
      rw [hs₃]
      exact hs₂.held
    dsimp only
    rw [hprocess]
    have hchild : newGroup = true → Held s₂.kernel pi.dwProcessId (fun _ => True) s₃.kernel := fun hgroup => by
      subst hgroup
      rw [decide_eq_true (creationFlags_suspended (Environ.envBlock ev) detached)] at hk'
      have hnone : Unmade s₂.kernel s₂.kernel := fun pid hmade => by
        obtain ⟨hnew, p, hp, -⟩ := hmade
        cases hnew.symm.trans hp
      rw [hs₃]
      exact held_of_made hnone hfresh jobs hk'
    exact ensures_adoptSpawned newGroup prepared (hheld₃ ▸ hkept) hchild hheld hthread

theorem ensures_spawn (cmd : Command) (line : Result Wide) (h : Kept handed killed s₀ held s) (hheld : held ⊆ s₀.made) :
    Ensures handed killed (fun r s => (∀ e, r = .error e → Kept handed killed s₀ held s) ∧
      ∀ c, r = .ok c → Hands handed killed s₀ held true c.process c.job s) (spawn cmd line) s := by
  have hrefused (e : PlatformError) : Ensures handed killed (fun r s => (∀ e, r = .error e → Kept handed killed s₀ held s) ∧
      ∀ c, r = .ok c → Hands handed killed s₀ held true c.process c.job s) (.ret (.error e : Result WindowsChild)) s :=
    ⟨fun _ _ => h, nofun⟩
  unfold spawn
  split
  · exact hrefused _
  split_ifs
  · exact hrefused _
  cases line with
  | error e => exact hrefused e
  | ok line =>
    refine Safe.bind (ensures_spawnProcess line cmd.cwd cmd.env cmd.stdio _ cmd.detached h hheld) ?_
    rintro (e | c) s' ⟨herr, hok⟩
    · exact ⟨fun _ _ => herr e rfl, nofun⟩
    · refine ⟨nofun, fun c' hc' => ?_⟩
      cases hc'
      exact hok c rfl

theorem ensures_adopt (pid : ℕ) (h : Kept handed killed s₀ held s) (hheld : held ⊆ s₀.made) :
    Ensures handed killed (fun r s => (∀ e, r = .error e → Kept handed killed s₀ held s) ∧
      ∀ p, r = .ok p → Hands handed killed s₀ held false p.1 (some p.2) s) (adopt pid) s := by
  refine ensures_op stable_kept h (fun s hs => ⟨hs.account, trivial⟩) ?_
  rintro s₁ (code | process) s₂ hs₁ ha
  · cases ha
    exact ⟨fun _ _ => hs₁, nofun⟩
  obtain ⟨-, rfl⟩ := ha
  refine Safe.bind (ensures_createKillOnCloseJob (J := fun _ => True) (fun _ _ _ _ => trivial) (fun _ _ _ _ => trivial)
    ⟨hs₁, trivial⟩ hheld) ?_
  rintro (e | j) s₃ ⟨herr, hok⟩
  · have hjob (j : JobId) : Owned.job j ∉ [.process process] := by simp
    have hclose := ensures_quiet stable_kept (herr e rfl).1 (fun s hs => hs.account) (still_lift (inert_closeAll hjob))
    exact Safe.bind hclose fun _ s' hs' => ⟨fun _ _ => hs', nofun⟩
  obtain ⟨hnew, hflags, -⟩ := hok j rfl
  have hj : j ∉ held := fun hj => hnew.fresh (hheld hj)
  have hI : Stable Elsewhere fun s => NewJob handed killed s₀ held j s ∧ s.kernel.jobs j = some ⟨true, false⟩ :=
    stable_newJob.and (stable_kernel (stable_jobs j _))
  refine ensures_op hI ⟨hnew, hflags⟩
    (fun s hs => ⟨hs.1.kept.account, hs.1.kept.held ▸ Set.mem_insert j held, hs.1.empty, hs.2⟩) ?_
  rintro s₄ (code | ⟨⟩) s₅ ⟨hnew₄, hflags₄⟩ ha
  · obtain ⟨k', hstep, -, rfl⟩ := ha
    cases hstep
    have hsame : (record s₄ (.assignProcessToJobObject j process) (.error code)).after s₄.kernel = s₄ := after_self s₄
    rw [hsame]
    refine ensures_closeJob (J := fun _ => True) hI ⟨hnew₄, hflags₄⟩ (fun _ _ _ _ => trivial)
      (fun s hs => ⟨hs.1.kept, trivial⟩) (fun s hs => hs.1.guard) hj fun s' hkept _ => ?_
    exact ensures_still stable_kept hkept (fun s hs => hs.account) trivial fun _ s' hs' => ⟨fun _ _ => hs', nofun⟩
  · refine ⟨nofun, fun p hp => ?_⟩
    cases hp
    exact ⟨hnew₄.assign hflags₄ ha nofun, hnew.fresh⟩

def Doomed (s₀ : Host) (j : JobId) : Prop := j ∈ s₀.made ∧ j ∈ s₀.askedJobs

theorem Kept.doomed {j : JobId} (h : Kept handed killed s₀ held s) (hj : Doomed s₀ j) : Doomed s j :=
  ⟨h.made hj.1, h.jobs ▸ hj.2⟩

theorem ensures_closeAll {hs : List Owned} (h : Kept handed killed s₀ held s) (hjobs : ∀ j, .job j ∈ hs → Doomed s₀ j) :
    Ensures handed killed (fun _ => Kept handed killed s₀ (held \ {j | .job j ∈ hs})) (closeAll hs) s := by
  induction hs generalizing s held with
  | nil =>
    have hnone : held \ {j | .job j ∈ ([] : List Owned)} = held := by simp
    rw [hnone]
    exact h
  | cons o hs ih =>
    have hrest {held' : Set JobId} {s' : Host} (hkept : Kept handed killed s₀ held' s')
        (hheld : held' \ {j | .job j ∈ hs} = held \ {j | .job j ∈ o :: hs}) :
        Ensures handed killed (fun _ => Kept handed killed s₀ (held \ {j | .job j ∈ o :: hs})) (closeAll hs) s' := by
      rw [← hheld]
      exact ih hkept fun j hj => hjobs j (.tail o hj)
    cases o with
    | job j =>
      have hguard (s : Host) (hs : Kept handed killed s₀ held s) : Guard s (.call (.closeHandle (.job j))) :=
        ⟨(hs.doomed (hjobs j List.mem_cons_self)).1, .inl (hs.doomed (hjobs j List.mem_cons_self)).2⟩
      refine ensures_op stable_kept h (fun s hs => ⟨hs.account, hguard s hs⟩) fun s₁ r s₂ hs₁ ha => ?_
      have hkept : Kept handed killed s₀ s₂.held s₂ := hs₁.answer (hguard s₁ hs₁) ha
      have hheld : s₂.held = held \ {j} := by
        obtain ⟨k', -, -, rfl⟩ := ha
        change s₁.held \ {j} = _
        rw [hs₁.held]
      refine hrest (hheld ▸ hkept) ?_
      rw [Set.sdiff_sdiff]
      congr 1
      ext j'
      simp
    | _ =>
      refine ensures_still stable_kept h (fun s hs => hs.account) trivial fun _ s' hs' => hrest hs' ?_
      simp

end Spawn

end Rustils.Process.Grouped.Jobs
