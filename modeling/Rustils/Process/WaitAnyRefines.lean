import Rustils.Process.Reap
import Rustils.Process.WaitAny

namespace Rustils.Process.WaitAny

open Platform

variable {n : ℕ} {w w' : World n} {i j : Fin n} {pid : Pid} {t : Termination} {status : ExitStatus}
  {e : Event n} {evs : List (Event n)} {timeout : Option ℕ} {s₀ s s' : State n}

section TryWait

theorem tryWait_running (h : w.children i = .linux pid none) (hp : w.procs pid = .running) :
    w.tryWait i = (.ok none, w) := by
  simp only [World.tryWait, h, hp]

theorem tryWait_zombie (h : w.children i = .linux pid none) (hp : w.procs pid = .zombie t) :
    w.tryWait i = (.ok (some t.status), w.reap i pid t) := by
  simp only [World.tryWait, h, hp]

theorem tryWait_stashed (h : w.stashed i = some status) : w.tryWait i = (.ok (some status), w) := by
  unfold World.stashed at h
  unfold World.tryWait
  split at h
  next pid reaped hc =>
    subst h
    rw [hc]
  next ended hc =>
    subst h
    rw [hc]

theorem tryWait_none (h : w.tryWait i = (.ok none, w')) :
    w' = w ∧ (w.children i = .foreign none ∨ ∃ pid, w.children i = .linux pid none ∧ w.procs pid = .running) := by
  unfold World.tryWait at h
  split at h
  next ended hc =>
    cases h
    exact ⟨rfl, .inl hc⟩
  next pid status hc => cases h
  next pid hc =>
    split at h
    next hp =>
      cases h
      exact ⟨rfl, .inr ⟨pid, hc, hp⟩⟩
    · cases h
    · cases h

theorem tryWait_some (h : w.tryWait i = (.ok (some status), w')) :
    w.stashed i = some status ∧ w' = w ∨
      ∃ pid t, w.children i = .linux pid none ∧ w.procs pid = .zombie t ∧ status = t.status ∧
        w' = w.reap i pid t := by
  unfold World.tryWait at h
  split at h
  next ended hc =>
    cases h
    exact .inl ⟨by simp only [World.stashed, hc], rfl⟩
  next pid status hc =>
    cases h
    exact .inl ⟨by simp only [World.stashed, hc], rfl⟩
  next pid hc =>
    split at h
    · cases h
    next t hp =>
      cases h
      exact .inr ⟨pid, t, hc, hp, rfl, rfl⟩
    · cases h

theorem stashed_of_tryWait (h : w.tryWait i = (.ok (some status), w')) : w'.stashed i = some status := by
  obtain ⟨hs, rfl⟩ | ⟨pid, t, -, -, rfl, rfl⟩ := tryWait_some h
  · exact hs
  · simp [World.stashed, World.reap]

theorem tryWait_other (h : w.tryWait i = (.ok (some status), w')) (hj : j ≠ i) :
    w'.children j = w.children j ∧ (w'.tryWait j).1 = (w.tryWait j).1 := by
  obtain ⟨-, rfl⟩ | ⟨pid, t, hc, -, -, rfl⟩ := tryWait_some h
  · exact ⟨rfl, rfl⟩
  · have hsame : (w.reap i pid t).children j = w.children j := Function.update_of_ne hj _ _
    refine ⟨hsame, ?_⟩
    unfold World.tryWait
    rw [hsame]
    rcases hother : w.children j with ⟨pid', _ | status⟩ | ended
    · have hpid : pid' ≠ pid := by
        rintro rfl
        exact hj (w.unshared j i pid' hother hc)
      have hprocs : (w.reap i pid t).procs pid' = w.procs pid' := Function.update_of_ne hpid _ _
      simp only [hprocs]
      cases w.procs pid' <;> rfl
    · rfl
    · rfl

end TryWait

section Events

theorem stashed_apply (he : Happens w e) (h : w.stashed i = some status) :
    (e.apply w).stashed i = some status := by
  cases he with
  | exit t hp => exact h
  | @ends k status' hc =>
    have hik : i ≠ k := by
      rintro rfl
      simp [World.stashed, hc] at h
    simpa only [World.stashed, Event.apply, Function.update_of_ne hik] using h

theorem reap_apply (hc : w.children i = .linux pid none) (hp : w.procs pid = .zombie t) (he : Happens w e) :
    Happens (w.reap i pid t) e ∧ (e.apply w).children i = .linux pid none ∧
      (e.apply w).procs pid = .zombie t ∧ (e.apply w).reap i pid t = e.apply (w.reap i pid t) := by
  cases he with
  | @exit pid' t' hr =>
    have hne : pid ≠ pid' := by
      rintro rfl
      cases hr.symm.trans hp
    refine ⟨.exit t' ?_, hc, (Function.update_of_ne hne _ _).trans hp, ?_⟩
    · exact (Function.update_of_ne hne.symm _ _).trans hr
    · simp only [World.reap, Event.apply, Function.update_comm hne]
  | @ends k status' hk =>
    have hne : i ≠ k := by
      rintro rfl
      cases hk.symm.trans hc
    refine ⟨.ends status' ?_, (Function.update_of_ne hne _ _).trans hc, hp, ?_⟩
    · exact (Function.update_of_ne hne.symm _ _).trans hk
    · simp only [World.reap, Event.apply, Function.update_comm hne]

theorem tryWait_apply (h : w.tryWait i = (.ok (some status), w')) (he : Happens w e) :
    Happens w' e ∧ (e.apply w).tryWait i = (.ok (some status), e.apply w') := by
  obtain ⟨hs, rfl⟩ | ⟨pid, t, hc, hp, rfl, rfl⟩ := tryWait_some h
  · exact ⟨he, tryWait_stashed (stashed_apply he hs)⟩
  · obtain ⟨hhappens, hc', hp', hcomm⟩ := reap_apply hc hp he
    refine ⟨hhappens, ?_⟩
    rw [tryWait_zombie hc' hp', hcomm]

theorem happens_of_tryWait (h : w.tryWait i = (.ok (some status), w')) (he : Happens w' e) : Happens w e := by
  obtain ⟨-, rfl⟩ | ⟨pid, t, -, -, -, rfl⟩ := tryWait_some h
  · exact he
  · cases he with
    | @exit pid' t' hr =>
      have hne : pid' ≠ pid := by
        rintro rfl
        cases hr.symm.trans (Function.update_self _ _ _)
      exact .exit t' ((Function.update_of_ne hne _ _).symm.trans hr)
    | @ends k status' hk =>
      have hne : k ≠ i := by
        rintro rfl
        cases hk.symm.trans (Function.update_self _ _ _)
      exact .ends status' ((Function.update_of_ne hne _ _).symm.trans hk)

theorem children_of_apply {c : Child} (hc : ∀ status, c ≠ .foreign (some status))
    (h : (e.apply w).children i = c) : w.children i = c := by
  cases e with
  | exit pid t => exact h
  | ends k status =>
    have hne : i ≠ k := by
      rintro rfl
      exact hc status (h.symm.trans (Function.update_self _ _ _))
    exact (Function.update_of_ne hne _ _).symm.trans h

theorem running_of_apply (h : (e.apply w).procs pid = .running) : w.procs pid = .running := by
  cases e with
  | ends k status => exact h
  | exit pid' t =>
    have hne : pid ≠ pid' := by
      rintro rfl
      cases h.symm.trans (Function.update_self _ _ _)
    exact (Function.update_of_ne hne _ _).symm.trans h

theorem tryWait_none_of_apply (h : ((e.apply w).tryWait i).1 = .ok none) : (w.tryWait i).1 = .ok none := by
  have hgo : (e.apply w).tryWait i = (.ok none, ((e.apply w).tryWait i).2) := Prod.ext h rfl
  obtain ⟨-, hc | ⟨pid, hc, hp⟩⟩ := tryWait_none hgo
  · have hwas : w.children i = .foreign none := children_of_apply nofun hc
    simp only [World.tryWait, hwas]
  · rw [tryWait_running (children_of_apply nofun hc) (running_of_apply hp)]

theorem tryWait_none_of_applyAll (h : ((applyAll evs w).tryWait i).1 = .ok none) :
    (w.tryWait i).1 = .ok none := by
  induction evs generalizing w with
  | nil => exact h
  | cons e evs ih => exact tryWait_none_of_apply (ih h)

theorem applyAll_append (evs₁ evs₂ : List (Event n)) (w : World n) :
    applyAll (evs₁ ++ evs₂) w = applyAll evs₂ (applyAll evs₁ w) := List.foldl_append

end Events

section Pending

variable {m : ℕ} {pending : List (Fin n × Pid)} {x : Fin n × Pid}

structure Pending (w : World n) (m : ℕ) (pending : List (Fin n × Pid)) : Prop where
  length : pending.length = m
  index : ∀ (k : ℕ) (x : Fin n × Pid), pending[k]? = some x → x.1.val = k
  ours : ∀ x ∈ pending, w.children x.1 = .linux x.2 none
  there : ∀ x ∈ pending, w.procs x.2 ≠ .gone

theorem Pending.nil (w : World n) : Pending w 0 [] := ⟨rfl, nofun, nofun, nofun⟩

theorem Pending.snoc (h : Pending w i.val pending) (hc : w.children i = .linux pid none)
    (hp : w.procs pid = .running) : Pending w (i.val + 1) (pending ++ [(i, pid)]) := by
  refine ⟨?_, ?_, ?_, ?_⟩
  · rw [List.length_append, h.length, List.length_singleton]
  · intro k x hx
    rw [List.getElem?_append] at hx
    split at hx
    · exact h.index k x hx
    next hk =>
      rw [List.getElem?_singleton] at hx
      split at hx
      · cases hx
        have hlen := h.length
        change i.val = k
        omega
      · cases hx
  · intro x hx
    rcases List.mem_append.mp hx with hx | hx
    · exact h.ours x hx
    · cases List.mem_singleton.mp hx
      exact hc
  · intro x hx
    rcases List.mem_append.mp hx with hx | hx
    · exact h.there x hx
    · cases List.mem_singleton.mp hx
      rw [hp]
      nofun

theorem Pending.apply (h : Pending w m pending) (he : Happens w e) : Pending (e.apply w) m pending := by
  refine ⟨h.length, h.index, ?_, ?_⟩
  · intro x hx
    cases he with
    | exit t hr => exact h.ours x hx
    | @ends k status hk =>
      have hne : x.1 ≠ k := by
        rintro rfl
        cases hk.symm.trans (h.ours x hx)
      exact (Function.update_of_ne hne _ _).trans (h.ours x hx)
  · intro x hx
    cases he with
    | ends status hk => exact h.there x hx
    | @exit pid t hr =>
      by_cases hpid : x.2 = pid
      · subst hpid
        exact ne_of_eq_of_ne (Function.update_self _ _ _) nofun
      · exact ne_of_eq_of_ne (Function.update_of_ne hpid _ _) (h.there x hx)

theorem Pending.tryWait_unreadable (h : Pending w m pending) (hx : pending[i.val]? = some x)
    (hr : w.readable x.2 = false) : w.tryWait i = (.ok none, w) := by
  have hi : x.1 = i := Fin.ext (h.index i.val x hx)
  have hc := h.ours x (List.mem_of_getElem? hx)
  rw [hi] at hc
  apply tryWait_running hc
  unfold World.readable at hr
  split at hr
  next hp => exact hp
  · cases hr

theorem Pending.tryWait_all (h : Pending w n pending) (hr : ∀ x ∈ pending, w.readable x.2 = false)
    (i : Fin n) : w.tryWait i = (.ok none, w) := by
  have hlt : i.val < pending.length := by
    rw [h.length]
    exact i.isLt
  exact h.tryWait_unreadable (List.getElem?_eq_getElem hlt) (hr _ (List.getElem_mem hlt))

theorem Pending.tryWait_readable (h : Pending w m pending) (hx : x ∈ pending) (hr : w.readable x.2 = true) :
    ∃ status w', w.tryWait x.1 = (.ok (some status), w') := by
  cases hp : w.procs x.2 with
  | running => simp [World.readable, hp] at hr
  | zombie t => exact ⟨_, _, tryWait_zombie (h.ours x hx) hp⟩
  | gone => exact absurd hp (h.there x hx)

theorem Pending.hit (h : Pending w m pending) (hh : hit w pending = some x) :
    x ∈ pending ∧ w.readable x.2 = true ∧
      ∀ k < x.1.val, ∃ y, pending[k]? = some y ∧ w.readable y.2 = false := by
  obtain ⟨pos, hpos, hx⟩ := Option.bind_eq_some_iff.mp hh
  obtain ⟨hlt, hr, hbefore⟩ := List.findIdx?_eq_some_iff_getElem.mp hpos
  have hindex := h.index pos x hx
  obtain ⟨hlt', hget⟩ := List.getElem?_eq_some_iff.mp hx
  subst hget
  rw [List.getElem_map] at hr
  refine ⟨List.getElem_mem hlt', hr, ?_⟩
  intro k hk
  rw [hindex] at hk
  have hnot := hbefore k hk
  rw [List.getElem_map, Bool.not_eq_true] at hnot
  exact ⟨pending[k], List.getElem?_eq_getElem (Nat.lt_trans hk hlt'), hnot⟩

theorem Run.pass (h : Run (Step timeout) s₀ evs ⟨w, .visit 0⟩) (hm : m ≤ n)
    (hgo : ∀ k : Fin n, k.val < m → w.tryWait k = (.ok none, w)) : Run (Step timeout) s₀ evs ⟨w, .visit m⟩ := by
  induction m with
  | zero => exact h
  | succ m ih =>
    have hpass := ih (Nat.le_of_succ_le hm) fun k hk => hgo k (Nat.lt_succ_of_lt hk)
    exact hpass.step (.visitNone hm (hgo ⟨m, hm⟩ (Nat.lt_succ_self m)))

end Pending

section Simulation

/-- Where the portable loop may be, for `LinuxSpawner::wait_any` to be where it is. -/
def Sim (timeout : Option ℕ) (w₀ : World n) (evs : List (Event n)) (s : State n) : Prop :=
  match s.pc with
  | .fast i pending =>
    Pending s.world i pending ∧ Run (Step timeout) (portable w₀) evs ⟨s.world, .visit 0⟩ ∧
      Run (Step timeout) (portable w₀) evs ⟨s.world, .visit i⟩
  | .poll pending => Pending s.world n pending ∧ Run (Step timeout) (portable w₀) evs ⟨s.world, .visit 0⟩
  | .reap i =>
    ∃ status w', s.world.tryWait i = (.ok (some status), w') ∧
      Run (Step timeout) (portable w₀) evs ⟨w', .done (.ok (some i))⟩
  | .done (.error _) | .panicked => True
  | pc => Run (Step timeout) (portable w₀) evs ⟨s.world, pc⟩

variable {w₀ : World n}

theorem sim_native (timeout : Option ℕ) (w₀ : World n) : Sim timeout w₀ [] (native w₀) := by
  by_cases hn : n = 0
  · simp only [native, if_pos hn, Sim]
  · have hstart : Run (Step timeout) (portable w₀) [] ⟨w₀, .visit 0⟩ := by
      have hr : Run (Step timeout) (portable w₀) [] (portable w₀) := .start
      rwa [portable, if_neg hn] at hr ⊢
    simp only [native, if_neg hn, Sim]
    exact ⟨.nil w₀, hstart, hstart⟩

theorem Sim.event (h : Sim timeout w₀ evs s) (he : Happens s.world e) :
    Sim timeout w₀ (evs ++ [e]) ⟨e.apply s.world, s.pc⟩ := by
  obtain ⟨w, pc⟩ := s
  cases pc with
  | fast i pending => exact ⟨h.1.apply he, h.2.1.event he, h.2.2.event he⟩
  | poll pending => exact ⟨h.1.apply he, h.2.event he⟩
  | reap i =>
    obtain ⟨status, w', hw, hr⟩ := h
    obtain ⟨he', hw'⟩ := tryWait_apply hw he
    exact ⟨status, _, hw', hr.event he'⟩
  | visit i => exact Run.event h he
  | clock => exact Run.event h he
  | done r =>
    cases r with
    | error e => trivial
    | ok a => exact Run.event h he
  | panicked => trivial

theorem sim_pollHit {pending : List (Fin n × Pid)} {x : Fin n × Pid} (hp : Pending w n pending)
    (hr : Run (Step timeout) (portable w₀) evs ⟨w, .visit 0⟩) (hh : hit w pending = some x) :
    Sim timeout w₀ evs ⟨w, .reap x.1⟩ := by
  obtain ⟨hx, hreadable, hbefore⟩ := hp.hit hh
  obtain ⟨status, w', hw⟩ := hp.tryWait_readable hx hreadable
  have hvisit : Run (Step timeout) (portable w₀) evs ⟨w, .visit x.1⟩ := by
    apply hr.pass (Nat.le_of_lt x.1.isLt)
    intro k hk
    obtain ⟨y, hy, hunreadable⟩ := hbefore k.val hk
    exact hp.tryWait_unreadable hy hunreadable
  exact ⟨status, w', hw, hvisit.step (.visitFound x.1.isLt hw)⟩

theorem sim_pollTimedOut {pending : List (Fin n × Pid)} (hp : Pending w n pending)
    (hr : Run (Step timeout) (portable w₀) evs ⟨w, .visit 0⟩) (ht : timeout ≠ none)
    (hgo : ∀ x ∈ pending, w.readable x.2 = false) : Sim timeout w₀ evs ⟨w, .done (.ok none)⟩ := by
  have hall := hr.pass (Nat.le_refl n) fun k _ => hp.tryWait_all hgo k
  exact (hall.step .visitAll).step (.clockOut ht)

theorem Sim.step (h : Sim timeout w₀ evs s) (hs : Step timeout s s') : Sim timeout w₀ evs s' := by
  cases hs with
  | fastFound hi hw => exact h.2.2.step (.visitFound hi hw)
  | fastOurs hi hw hc =>
    obtain ⟨rfl, hother | ⟨pid, hc', hp⟩⟩ := tryWait_none hw
    · cases hother.symm.trans hc
    · cases hc'.symm.trans hc
      exact ⟨h.1.snoc hc hp, h.2.1, h.2.2.step (.visitNone hi hw)⟩
  | fastForeign hi hw hc =>
    obtain ⟨rfl, -⟩ := tryWait_none hw
    exact h.2.1
  | fastFailed hi e => trivial
  | fastAll => exact ⟨h.1, h.2.1⟩
  | pollFailed e =>
    by_cases he : e.kind = .unsupported
    · simp only [if_pos he]
      exact h.2
    · simp only [if_neg he]
      trivial
  | pollOverflow ht hlimit => trivial
  | pollInterrupted => exact h
  | pollTimedOut ht hgo => exact sim_pollTimedOut h.1 h.2 ht hgo
  | pollHit hh => exact sim_pollHit h.1 h.2 hh
  | reapWinner hw =>
    obtain ⟨status, w', hw', hr⟩ := h
    cases hw'.symm.trans hw
    exact hr
  | reapFailed e => trivial
  | visitFound hi hw => exact Run.step h (.visitFound hi hw)
  | visitNone hi hw => exact Run.step h (.visitNone hi hw)
  | visitFailed hi e => trivial
  | visitAll => exact Run.step h .visitAll
  | clockOut ht => exact Run.step h (.clockOut ht)
  | clockSleep => exact Run.step h .clockSleep

theorem sim_of_run (h : Run (Step timeout) (native w₀) evs s) : Sim timeout w₀ evs s := by
  induction h with
  | start => exact sim_native timeout w₀
  | event h he ih => exact ih.event he
  | step h hs ih => exact ih.step hs

end Simulation

section Answers

variable {w₀ : World n} {m : ℕ}

theorem Step.unanswered (hs : Step timeout s s') (i : Fin n) : s.pc ≠ .done (.ok (some i)) := by
  intro hpc
  cases hs <;> cases hpc

theorem Step.world_eq (hs : Step timeout s s') (h : ∀ i, s'.pc ≠ .done (.ok (some i))) :
    s'.world = s.world := by
  cases hs with
  | fastFound hi hw => exact absurd rfl (h _)
  | fastOurs hi hw hc => exact (tryWait_none hw).1
  | fastForeign hi hw hc => exact (tryWait_none hw).1
  | reapWinner hw => exact absurd rfl (h _)
  | visitFound hi hw => exact absurd rfl (h _)
  | visitNone hi hw => exact (tryWait_none hw).1
  | _ => rfl

theorem world_of_run (h : Run (Step timeout) s₀ evs s) (hs : ∀ i, s.pc ≠ .done (.ok (some i))) :
    s.world = applyAll evs s₀.world := by
  induction h with
  | start => rfl
  | event h he ih =>
    rw [applyAll_append, ← ih hs]
    rfl
  | step h hstep ih => rw [hstep.world_eq hs, ih hstep.unanswered]

def Going (timeout : Option ℕ) (s₀ : State n) (evs : List (Event n)) (m : ℕ) (s : State n) : Prop :=
  ∃ evs₁ evs₂ s₁, evs = evs₁ ++ evs₂ ∧ Run (Step timeout) s₀ evs₁ s₁ ∧ Run (SamePass timeout) s₁ evs₂ s ∧
    (s₁.pc = .visit 0 ∨ s₁.pc = .done (.ok none)) ∧
    ∀ i : Fin n, i.val < m → (s₁.world.tryWait i).1 = .ok none

theorem Going.now (h : Run (Step timeout) s₀ evs s) (hpc : s.pc = .visit 0 ∨ s.pc = .done (.ok none))
    (hgo : ∀ i : Fin n, i.val < m → (s.world.tryWait i).1 = .ok none) : Going timeout s₀ evs m s :=
  ⟨evs, [], s, (List.append_nil evs).symm, h, .start, hpc, hgo⟩

theorem Going.event (h : Going timeout s₀ evs m s) (he : Happens s.world e) :
    Going timeout s₀ (evs ++ [e]) m ⟨e.apply s.world, s.pc⟩ := by
  obtain ⟨evs₁, evs₂, s₁, rfl, hrun, hpass, hpc, hgo⟩ := h
  exact ⟨evs₁, evs₂ ++ [e], s₁, List.append_assoc evs₁ evs₂ [e], hrun, hpass.event he, hpc, hgo⟩

theorem Going.step (h : Going timeout s₀ evs m s) (hs : Step timeout s s') (hpc' : s'.pc ≠ .visit 0) :
    Going timeout s₀ evs m s' := by
  obtain ⟨evs₁, evs₂, s₁, hevs, hrun, hpass, hpc, hgo⟩ := h
  exact ⟨evs₁, evs₂, s₁, hevs, hrun, hpass.step ⟨hs, hpc'⟩, hpc, hgo⟩

theorem run_of_samePass (h : Run (SamePass timeout) s₀ evs s) : Run (Step timeout) s₀ evs s := by
  induction h with
  | start => exact .start
  | event h he ih => exact ih.event he
  | step h hs ih => exact ih.step hs.1

theorem Going.succ (h : Going timeout s₀ evs m s) (hs : ∀ i, s.pc ≠ .done (.ok (some i))) (hm : m < n)
    (hw : (s.world.tryWait ⟨m, hm⟩).1 = .ok none) : Going timeout s₀ evs (m + 1) s := by
  obtain ⟨evs₁, evs₂, s₁, hevs, hrun, hpass, hpc, hgo⟩ := h
  refine ⟨evs₁, evs₂, s₁, hevs, hrun, hpass, hpc, ?_⟩
  intro k hk
  rcases Nat.lt_succ_iff_lt_or_eq.mp hk with hk | hk
  · exact hgo k hk
  · obtain rfl : k = ⟨m, hm⟩ := Fin.ext hk
    rw [world_of_run (run_of_samePass hpass) hs] at hw
    exact tryWait_none_of_applyAll hw

def Knows (timeout : Option ℕ) (w₀ : World n) (evs : List (Event n)) (s : State n) : Prop :=
  match s.pc with
  | .visit i => Going timeout (native w₀) evs i s
  | .clock => Going timeout (native w₀) evs n s
  | .done (.ok none) => timeout ≠ none ∧ Going timeout (native w₀) evs n s
  | .done (.ok (some i)) => ∃ status, (applyAll evs w₀).tryWait i = (.ok (some status), s.world)
  | _ => True

theorem knows_native (timeout : Option ℕ) (w₀ : World n) : Knows timeout w₀ [] (native w₀) := by
  by_cases hn : n = 0
  · simp only [native, if_pos hn, Knows]
  · simp only [native, if_neg hn, Knows]

theorem Knows.event (h : Knows timeout w₀ evs s) (he : Happens s.world e) :
    Knows timeout w₀ (evs ++ [e]) ⟨e.apply s.world, s.pc⟩ := by
  obtain ⟨w, pc⟩ := s
  cases pc with
  | fast i pending => trivial
  | poll pending => trivial
  | reap i => trivial
  | visit i => exact Going.event h he
  | clock => exact Going.event h he
  | done r =>
    rcases r with err | _ | i
    · trivial
    · exact ⟨h.1, h.2.event he⟩
    · obtain ⟨status, hw⟩ := h
      have happened := tryWait_apply hw (happens_of_tryWait hw he)
      rw [Knows, applyAll_append]
      exact ⟨status, happened.2⟩
  | panicked => trivial

theorem Knows.step (h : Knows timeout w₀ evs s) (hsim : Sim timeout w₀ evs s)
    (hworld : s.world = applyAll evs w₀) (hs : Step timeout s s')
    (hrun : Run (Step timeout) (native w₀) evs s') : Knows timeout w₀ evs s' := by
  have begun : ∀ i : Fin n, i.val < 0 → (s'.world.tryWait i).1 = .ok none :=
    fun i hi => absurd hi (Nat.not_lt_zero i.val)
  cases hs with
  | fastFound hi hw =>
    subst hworld
    exact ⟨_, hw⟩
  | fastForeign hi hw hc => exact .now hrun (.inl rfl) begun
  | pollFailed e =>
    by_cases he : e.kind = .unsupported
    · simp only [if_pos he] at hrun begun ⊢
      exact .now hrun (.inl rfl) begun
    · simp only [if_neg he]
      trivial
  | pollTimedOut ht hgo =>
    refine ⟨ht, .now hrun (.inr rfl) ?_⟩
    intro i hi
    exact congrArg Prod.fst (hsim.1.tryWait_all hgo i)
  | reapWinner hw =>
    obtain ⟨status, w', hw', -⟩ := hsim
    cases hw'.symm.trans hw
    subst hworld
    exact ⟨status, hw⟩
  | visitFound hi hw =>
    subst hworld
    exact ⟨_, hw⟩
  | visitNone hi hw =>
    have hgoing := Going.succ h nofun hi (congrArg Prod.fst hw)
    exact hgoing.step (.visitNone hi hw) nofun
  | visitAll => exact Going.step h .visitAll nofun
  | clockOut ht => exact ⟨ht, Going.step h (.clockOut ht) nofun⟩
  | clockSleep => exact .now hrun (.inl rfl) begun
  | _ => trivial

theorem knows_of_run (h : Run (Step timeout) (native w₀) evs s) : Knows timeout w₀ evs s := by
  induction h with
  | start => exact knows_native timeout w₀
  | event h he ih => exact ih.event he
  | step h hs ih => exact ih.step (sim_of_run h) (world_of_run h hs.unanswered) hs (h.step hs)

theorem others_kept (h : Run (Step timeout) (native w₀) evs s) (hj : s.pc ≠ .done (.ok (some j))) :
    s.world.children j = (applyAll evs w₀).children j ∧
      (s.world.tryWait j).1 = ((applyAll evs w₀).tryWait j).1 := by
  by_cases hs : ∃ i, s.pc = .done (.ok (some i))
  · obtain ⟨i, hpc⟩ := hs
    have hk := knows_of_run h
    simp only [Knows, hpc] at hk
    obtain ⟨status, hw⟩ := hk
    have hne : j ≠ i := by
      rintro rfl
      exact hj hpc
    exact tryWait_other hw hne
  · have hworld := world_of_run h fun i hpc => hs ⟨i, hpc⟩
    rw [hworld]
    exact ⟨rfl, rfl⟩

theorem wait_any_refines (h : Run (Step timeout) (native w₀) evs s) :
    (∀ a, s.pc = .done (.ok a) → Run (Step timeout) (portable w₀) evs s) ∧
    (∀ i, s.pc = .done (.ok (some i)) →
      ∃ status, ((applyAll evs w₀).tryWait i).1 = .ok (some status) ∧ s.world.stashed i = some status ∧
        s.world.tryWait i = (.ok (some status), s.world)) ∧
    (s.pc = .done (.ok none) → timeout ≠ none ∧ Going timeout (native w₀) evs n s) ∧
    ∀ j, s.pc ≠ .done (.ok (some j)) →
      s.world.children j = (applyAll evs w₀).children j ∧
        (s.world.tryWait j).1 = ((applyAll evs w₀).tryWait j).1 := by
  have hsim := sim_of_run h
  have hk := knows_of_run h
  refine ⟨?_, ?_, ?_, fun j => others_kept h⟩
  · intro a hpc
    obtain ⟨w, pc⟩ := s
    cases hpc
    exact hsim
  · intro i hpc
    simp only [Knows, hpc] at hk
    obtain ⟨status, hw⟩ := hk
    have hstashed := stashed_of_tryWait hw
    exact ⟨status, congrArg Prod.fst hw, hstashed, tryWait_stashed hstashed⟩
  · intro hpc
    simp only [Knows, hpc] at hk
    exact hk

def pair : World 2 where
  procs _ := .running
  children i := .linux (7 + Int32.ofNat i.val) none
  unshared := by
    have distinct : ∀ i j : Fin 2, 7 + Int32.ofNat i.val = 7 + Int32.ofNat j.val → i = j := by decide
    intro i j pid hi hj
    cases hi
    injection hj with hj
    exact distinct i j hj.symm

theorem second_of_pair : ∃ s : State 2, s.pc = .done (.ok (some 1)) ∧
    Run (Step none) (native pair) [.exit 8 (.exited 3)] s ∧
    Run (Step none) (portable pair) [.exit 8 (.exited 3)] s ∧ s.world.stashed 1 = some (.code 3) := by
  have hfast : Run (Step none) (native pair) [] ⟨pair, .poll [(0, 7), (1, 8)]⟩ := by
    have hstart : Run (Step none) (native pair) [] (native pair) := .start
    have hfirst := hstart.step (.fastOurs (by decide) (tryWait_running rfl rfl) rfl)
    have hsecond := hfirst.step (.fastOurs (by decide) (tryWait_running rfl rfl) rfl)
    exact hsecond.step .fastAll
  have hended : Run (Step none) (native pair) [.exit 8 (.exited 3)]
      ⟨Event.apply (.exit 8 (.exited 3)) pair, .poll [(0, 7), (1, 8)]⟩ := hfast.event (.exit (.exited 3) rfl)
  have hpolled := hended.step (.pollHit (x := (1, 8)) rfl)
  have hdone := hpolled.step (.reapWinner (tryWait_zombie rfl rfl))
  obtain ⟨hportable, hstashed, -, -⟩ := wait_any_refines hdone
  refine ⟨_, rfl, hdone, hportable _ rfl, ?_⟩
  obtain ⟨status, htold, hs, -⟩ := hstashed 1 rfl
  cases htold
  exact hs

end Answers

end Rustils.Process.WaitAny
