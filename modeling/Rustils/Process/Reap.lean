import Rustils.Lib.Trace
import Rustils.Process.System

namespace Rustils.Process

open Platform Lib.Program Lib.Trace

def reapedIn (tr : List Label) : Option Termination :=
  tr.findSome? fun
    | .waitpid _ (.report (.terminated t)) => some t
    | _ => none

def Reports (known : Option ExitStatus) : Ret → Prop
  | .wait r => match known with
    | some st => r = .ok st
    | none => ∃ e, r = .error e
  | .tryWait r => match known with
    | some st => r = .ok (some st)
    | none => r = .ok none ∨ ∃ e, r = .error e
  | .waitJob r => match known with
    | some st => r = .ok st
    | none => (∃ st, r = .ok st ∧ ¬ st.Terminal) ∨ ∃ e, r = .error e
  | .tryWaitJob r => match known with
    | some st => r = .ok (some st)
    | none => r = .ok none ∨ (∃ st, r = .ok (some st) ∧ ¬ st.Terminal) ∨ ∃ e, r = .error e
  | _ => True

section Loops

variable {f : WaitFn} {flags : WaitFlags} {p p' : Proc} {a : KernelAnswer} {pid : Pid}
  {known : Option ExitStatus}

def learned (known : Option ExitStatus) : KernelAnswer → Option ExitStatus
  | .report (.terminated t) => some t.status
  | _ => known

def LoopAnswer (known known' : Option ExitStatus) : (f : WaitFn) → Result f.Ret → Prop
  | .wait, .ok st | .tryWait, .ok (some st) => known' = some st
  | .waitJob, .ok st | .tryWaitJob, .ok (some st) =>
    if st.Terminal then known' = some st else known' = known
  | _, _ => known' = known

theorem report_of_plain (hw : Waitpid flags p a p') (hu : flags.untraced = false)
    (hc : flags.continued = false) {r : Report} (ha : a = .report r) : ∃ t, r = .terminated t := by
  cases hw with
  | terminated t =>
    cases ha
    exact ⟨t, rfl⟩
  | stopped sig continued h => cases hu.symm.trans h
  | continued stopped h => cases hc.symm.trans h
  | nothing => cases ha
  | failed => cases ha

theorem learned_report (known : Option ExitStatus) (r : Report) :
    if r.status.Terminal then learned known (.report r) = some r.status
    else learned known (.report r) = known := by
  split
  next h =>
    obtain ⟨t, rfl⟩ := r.terminal_iff.mp h
    rfl
  next h =>
    cases r with
    | terminated t => exact absurd t.terminal h
    | stopped sig => rfl
    | continued => rfl

theorem nothing_of_blocking (hw : Waitpid flags p .nothing p') : flags.nohang = true := by
  cases hw with
  | nothing stopped continued h => exact h

theorem turn_failed (hpid : (-1 : Pid) ≠ pid) (errno : Int32) :
    f.turn pid (KernelAnswer.raw pid (.failed errno)) =
      if errno = EINTR then none else some (.error (errnoErr "waitpid" errno)) := by
  have hzero : ¬ (-1 : Pid) = 0 := by decide
  cases f <;> simp only [WaitFn.turn, KernelAnswer.raw, hpid, hzero, ↓reduceIte] <;> rfl

theorem loopAnswer_of_turn (hpid : 0 < pid) (hw : Waitpid f.flags p a p') {r : Result f.Ret}
    (ht : f.turn pid (a.raw pid) = some r) : LoopAnswer known (learned known a) f r := by
  have hzero : ¬ (0 : Pid) = pid := by
    rintro rfl
    exact absurd hpid (by decide)
  cases a with
  | report rep =>
    cases f with
    | wait =>
      obtain ⟨t, rfl⟩ := report_of_plain hw rfl rfl rfl
      simp only [WaitFn.turn, KernelAnswer.raw, if_pos, Option.some.injEq] at ht
      subst ht
      exact congrArg some (decode_word t).symm
    | tryWait =>
      obtain ⟨t, rfl⟩ := report_of_plain hw rfl rfl rfl
      simp only [WaitFn.turn, KernelAnswer.raw, if_pos, Option.some.injEq] at ht
      subst ht
      exact congrArg some (decode_word t).symm
    | waitJob =>
      simp only [WaitFn.turn, KernelAnswer.raw, if_pos, Option.some.injEq] at ht
      subst ht
      rw [LoopAnswer, decodeJob_word]
      exact learned_report known rep
    | tryWaitJob =>
      simp only [WaitFn.turn, KernelAnswer.raw, if_pos, Option.some.injEq] at ht
      subst ht
      rw [LoopAnswer, decodeJob_word]
      exact learned_report known rep
  | nothing =>
    have hn := nothing_of_blocking hw
    cases f with
    | wait => cases hn
    | waitJob => cases hn
    | tryWait =>
      simp only [WaitFn.turn, KernelAnswer.raw, if_neg hzero, if_pos, Option.some.injEq] at ht
      subst ht
      rfl
    | tryWaitJob =>
      simp only [WaitFn.turn, KernelAnswer.raw, if_neg hzero, if_pos, Option.some.injEq] at ht
      subst ht
      rfl
  | failed errno =>
    have hneg : ¬ (-1 : Pid) = pid := by
      rintro rfl
      exact absurd hpid (by decide)
    rw [turn_failed hneg] at ht
    split at ht
    · cases ht
    · cases ht
      cases f <;> rfl

theorem failed_of_again (ht : f.turn pid (a.raw pid) = none) : learned known a = known := by
  cases a with
  | report r => cases f <;> simp [WaitFn.turn, KernelAnswer.raw] at ht
  | nothing => rfl
  | failed errno => rfl

end Loops

section Programs

variable {pid : Pid} {care : Prop} {known : Option ExitStatus} {child : LinuxChild} {co : Company}

def knowledge : Env (Option ExitStatus) Answer
  | known, .loop f _, r, known' => LoopAnswer known known' f r
  | known, _, _, known' => known' = known

def Allowed (pid : Pid) (care : Prop) (known : Option ExitStatus) : Op → Prop
  | .loop _ p => p = pid ∧ known = none
  | .killSingle _ _ => care → known = none
  | _ => True

structure Faithful (pid : Pid) (known : Option ExitStatus) (child : LinuxChild) : Prop where
  pid : child.pid = pid
  reaped : child.reaped = known

theorem safe_tryWait (h : Faithful pid known child) :
    Safe knowledge (Allowed pid care)
      (fun x known => Faithful pid known x.2 ∧ Reports known (.tryWait x.1)) child.tryWait known := by
  unfold LinuxChild.tryWait
  rw [h.reaped]
  rcases known with _ | st
  · refine ⟨⟨h.pid, rfl⟩, ?_⟩
    rintro (e | _ | st) known hk
    · cases hk
      exact ⟨h, .inr ⟨e, rfl⟩⟩
    · cases hk
      exact ⟨⟨h.pid, rfl⟩, .inl rfl⟩
    · cases hk
      exact ⟨⟨h.pid, rfl⟩, rfl⟩
  · exact ⟨h, rfl⟩

theorem known_cases {st : ExitStatus} {known : Option ExitStatus}
    (hk : if st.Terminal then known = some st else known = none) :
    st.Terminal ∧ known = some st ∨ ¬ st.Terminal ∧ known = none := by
  by_cases ht : st.Terminal
  · rw [if_pos ht] at hk
    exact .inl ⟨ht, hk⟩
  · rw [if_neg ht] at hk
    exact .inr ⟨ht, hk⟩

theorem safe_waitJob (h : Faithful pid known child) :
    Safe knowledge (Allowed pid care)
      (fun x known => Faithful pid known x.2 ∧ Reports known (.waitJob x.1)) child.waitJob known := by
  unfold LinuxChild.waitJob
  rw [h.reaped]
  rcases known with _ | st
  · refine ⟨⟨h.pid, rfl⟩, ?_⟩
    rintro (e | st) known hk
    · cases hk
      exact ⟨h, .inr ⟨e, rfl⟩⟩
    · obtain ⟨ht, rfl⟩ | ⟨ht, rfl⟩ := known_cases hk
      · simp only [Prog.bind, pure, if_pos ht]
        exact ⟨⟨h.pid, rfl⟩, rfl⟩
      · simp only [Prog.bind, pure, if_neg ht]
        exact ⟨h, .inl ⟨st, rfl, ht⟩⟩
  · exact ⟨h, rfl⟩

theorem safe_tryWaitJob (h : Faithful pid known child) :
    Safe knowledge (Allowed pid care)
      (fun x known => Faithful pid known x.2 ∧ Reports known (.tryWaitJob x.1))
      child.tryWaitJob known := by
  unfold LinuxChild.tryWaitJob
  rw [h.reaped]
  rcases known with _ | st
  · refine ⟨⟨h.pid, rfl⟩, ?_⟩
    rintro (e | _ | st) known hk
    · cases hk
      exact ⟨h, .inr (.inr ⟨e, rfl⟩)⟩
    · cases hk
      exact ⟨h, .inl rfl⟩
    · obtain ⟨ht, rfl⟩ | ⟨ht, rfl⟩ := known_cases hk
      · simp only [Prog.bind, pure, if_pos ht]
        exact ⟨⟨h.pid, rfl⟩, rfl⟩
      · simp only [Prog.bind, pure, if_neg ht]
        exact ⟨h, .inr (.inl ⟨st, rfl, ht⟩)⟩
  · exact ⟨h, rfl⟩

theorem safe_wait (h : Faithful pid known child) :
    Safe knowledge (Allowed pid care) (fun r known => Reports known (.wait r)) child.wait known := by
  unfold LinuxChild.wait
  rw [h.reaped]
  rcases known with _ | st
  · refine ⟨⟨h.pid, rfl⟩, ?_⟩
    rintro (e | st) known hk
    · cases hk
      exact ⟨e, rfl⟩
    · cases hk
      rfl
  · rfl

theorem safe_tryWaitAt (h : Faithful pid known child) (i : ℕ) :
    Safe knowledge (Allowed pid care) (fun x known => Faithful pid known x.2)
      (child.tryWaitAt co i) known := by
  unfold LinuxChild.tryWaitAt
  split
  · exact (safe_tryWait h).mono fun _ _ hx => hx.1
  · refine ⟨trivial, ?_⟩
    rintro r known ⟨⟩
    exact h

theorem safe_pass (downcast : Bool) (n i : ℕ) (h : Faithful pid known child) :
    Safe knowledge (Allowed pid care) (fun x known => Faithful pid known x.2)
      (LinuxChild.pass co downcast n i child) known := by
  induction n generalizing i child known with
  | zero => exact h
  | succ n ih =>
    apply (safe_tryWaitAt h i).bind
    rintro ⟨e | _ | st, child⟩ known h
    · exact h
    · dsimp only
      split
      · exact h
      · exact ih (i + 1) h
    · exact h

theorem safe_portableWaitAny (ticks : ℕ) (h : Faithful pid known child) :
    Safe knowledge (Allowed pid care) (fun x known => Faithful pid known x.2)
      (LinuxChild.portableWaitAny co ticks child) known := by
  induction ticks generalizing child known with
  | zero =>
    unfold LinuxChild.portableWaitAny
    apply (safe_pass false co.size 0 h).bind
    rintro ⟨_ | _ | _ | _, child⟩ known h <;> exact h
  | succ ticks ih =>
    unfold LinuxChild.portableWaitAny
    apply (safe_pass false co.size 0 h).bind
    rintro ⟨_ | _ | _ | _, child⟩ known h
    · exact h
    · exact h
    · exact ih h
    · exact ih h

theorem safe_waitAny (h : Faithful pid known child) :
    Safe knowledge (Allowed pid care) (fun x known => Faithful pid known x.2)
      (LinuxChild.waitAny co child) known := by
  unfold LinuxChild.waitAny
  split
  · exact h
  · apply (safe_pass true co.size 0 h).bind
    rintro ⟨_ | _ | _ | _, child⟩ known h
    · exact h
    · exact h
    · exact safe_portableWaitAny co.ticks h
    · refine ⟨trivial, ?_⟩
      rintro (e | _ | pos) known ⟨⟩
      · change Safe _ _ _ (if e.kind = .unsupported then LinuxChild.portableWaitAny co co.ticks child
          else .ret (.error e, child)) known
        split
        · exact safe_portableWaitAny co.ticks h
        · exact h
      · exact h
      · apply (safe_tryWaitAt h pos).bind
        rintro ⟨_ | _, child⟩ known h <;> exact h

def Returned (pid : Pid) (x : Ret × Option LinuxChild) (known : Option ExitStatus) : Prop :=
  (∀ child, x.2 = some child → Faithful pid known child) ∧ Reports known x.1

theorem safe_run (h : Faithful pid known child) (c : Call)
    (hc : ∀ sig, c = .killSingle sig → care → known = none) :
    Safe knowledge (Allowed pid care) (Returned pid) (child.run c) known := by
  cases c with
  | wait =>
    apply (safe_wait h).bind
    intro r known hr
    exact ⟨by rintro _ ⟨⟩, hr⟩
  | tryWait =>
    apply (safe_tryWait h).bind
    rintro ⟨r, child⟩ known ⟨hf, hr⟩
    exact ⟨by rintro _ ⟨⟩; exact hf, hr⟩
  | waitJob =>
    apply (safe_waitJob h).bind
    rintro ⟨r, child⟩ known ⟨hf, hr⟩
    exact ⟨by rintro _ ⟨⟩; exact hf, hr⟩
  | tryWaitJob =>
    apply (safe_tryWaitJob h).bind
    rintro ⟨r, child⟩ known ⟨hf, hr⟩
    exact ⟨by rintro _ ⟨⟩; exact hf, hr⟩
  | waitAny co =>
    apply (safe_waitAny h).bind
    rintro ⟨r, child⟩ known hf
    exact ⟨by rintro _ ⟨⟩; exact hf, trivial⟩
  | killSingle sig =>
    refine ⟨hc sig rfl, ?_⟩
    rintro (code | ⟨⟩) known ⟨⟩ <;> exact ⟨by rintro _ ⟨⟩; exact h, trivial⟩
  | killTree sig =>
    unfold LinuxChild.run LinuxChild.killTree
    rcases child.group with _ | pgid
    · exact ⟨by rintro _ ⟨⟩; exact h, trivial⟩
    · refine ⟨trivial, ?_⟩
      rintro (code | ⟨⟩) known ⟨⟩ <;> exact ⟨by rintro _ ⟨⟩; exact h, trivial⟩

end Programs

section Runs

variable {pid : Pid} {care : Prop} {tr : List Label} {s s' : Sys} {l : Label}

def knownIn (tr : List Label) : Option ExitStatus := (reapedIn tr).map Termination.status

theorem reapedIn_concat (tr : List Label) (l : Label) :
    reapedIn (tr ++ [l]) = (reapedIn tr).or (reapedIn [l]) := by
  simp [reapedIn, List.findSome?_append]

theorem knownIn_concat_of_none (h : reapedIn [l] = none) : knownIn (tr ++ [l]) = knownIn tr := by
  rw [knownIn, reapedIn_concat, h, Option.or_none, knownIn]

theorem knownIn_waitpid {flags : WaitFlags} {a : KernelAnswer} (h : knownIn tr = none) :
    knownIn (tr ++ [.waitpid flags a]) = learned (knownIn tr) a := by
  have hnone : reapedIn tr = none := Option.map_eq_none_iff.mp h
  rw [h, knownIn, reapedIn_concat, hnone, Option.none_or]
  rcases a with (_ | _ | _) | _ | _ <;> rfl

def Inv (pid : Pid) (care : Prop) (tr : List Label) (s : Sys) : Prop :=
  match s.task with
  | .idle child => Faithful pid (knownIn tr) child
  | .running p => Safe knowledge (Allowed pid care) (Returned pid) p (knownIn tr)
  | .consumed => True

def Careful (s : Sys) (l : Label) : Prop :=
  ∀ child sig, s.task = .idle child → l = .call (.killSingle sig) → child.reaped = none

theorem Inv.step (hpid : 0 < pid) (h : Inv pid care tr s) (hs : Step pid s l s')
    (hc : care → Careful s l) : Inv pid care (tr ++ [l]) s' := by
  cases hs with
  | kernel he =>
    unfold Inv at h ⊢
    rw [knownIn_concat_of_none rfl]
    exact h
  | @call p child c =>
    have hf : Faithful pid (knownIn tr) child := h
    unfold Inv
    rw [knownIn_concat_of_none rfl]
    apply safe_run hf
    rintro sig rfl hcare
    rw [← hf.reaped]
    exact hc hcare child sig rfl rfl
  | again hw ht =>
    obtain ⟨⟨-, hnone⟩, -⟩ := id h
    unfold Inv
    rw [knownIn_waitpid hnone, failed_of_again ht]
    exact h
  | answered hw ht =>
    obtain ⟨⟨-, hnone⟩, hk⟩ := h
    unfold Inv
    rw [knownIn_waitpid hnone]
    exact hk _ _ (loopAnswer_of_turn hpid hw ht)
  | @op p o k ho r =>
    unfold Inv
    rw [knownIn_concat_of_none rfl]
    apply h.2
    cases o with
    | loop f pid => exact absurd rfl (ho f pid)
    | _ => rfl
  | @ret p r child =>
    unfold Inv
    rw [knownIn_concat_of_none rfl]
    rcases child with _ | child
    · trivial
    · exact h.1 child rfl

theorem inv_spawned (pid : Pid) (group : Option Pid) : Inv pid care [] (spawned pid group) :=
  ⟨rfl, rfl⟩

theorem inv_of_run {group : Option Pid} (hpid : 0 < pid)
    (h : Run (fun s l s' => Step pid s l s' ∧ (care → Careful s l)) (spawned pid group) tr s) :
    Inv pid care tr s := by
  induction h with
  | refl => exact inv_spawned pid group
  | tail _ hs ih => exact ih.step hpid hs.1 hs.2

theorem reapedIn_eq_none (h : knownIn tr = none) : reapedIn tr = none := Option.map_eq_none_iff.mp h

theorem Inv.waitpid {f : WaitFn} {p : Pid} {k : Result f.Ret → Prog Answer (Ret × Option LinuxChild)}
    (h : Inv pid care tr s) (ht : s.task = .running (.op (.loop f p) k)) :
    p = pid ∧ reapedIn tr = none := by
  unfold Inv at h
  rw [ht] at h
  exact ⟨h.1.1, reapedIn_eq_none h.1.2⟩

theorem Inv.killSingle {p : Pid} {sig : Int32}
    {k : Except Int32 Unit → Prog Answer (Ret × Option LinuxChild)} (h : Inv pid care tr s)
    (ht : s.task = .running (.op (.killSingle p sig) k)) (hcare : care) : reapedIn tr = none := by
  unfold Inv at h
  rw [ht] at h
  exact reapedIn_eq_none (h.1 hcare)

end Runs

theorem linuxChild_reaps_once (pid : Pid) (group : Option Pid) (hpid : 0 < pid) (tr : List Label)
    (s : Sys) (h : Run (Step pid) (spawned pid group) tr s) :
    (∀ f p k, s.task = .running (.op (.loop f p) k) → p = pid ∧ reapedIn tr = none) ∧
    (∀ tr₁ flags a tr₂, tr = tr₁ ++ .waitpid flags a :: tr₂ → reapedIn tr₁ = none) ∧
    (∀ tr₁ r tr₂, tr = tr₁ ++ .ret r :: tr₂ →
      Reports ((reapedIn tr₁).map Termination.status) r) ∧
    ∀ child, s.task = .idle child → child.reaped = (reapedIn tr).map Termination.status := by
  have hinv : ∀ {tr s}, Run (Step pid) (spawned pid group) tr s → Inv pid False tr s :=
    fun h => inv_of_run hpid (h.mono fun s l s' hs => ⟨hs, False.elim⟩)
  refine ⟨fun f p k ht => (hinv h).waitpid ht, ?_, ?_, ?_⟩
  · rintro tr₁ flags a tr₂ rfl
    obtain ⟨s₁, s₂, h₁, hs, -⟩ := run_mid.mp h
    cases hs with
    | again hw ht => exact ((hinv h₁).waitpid rfl).2
    | answered hw ht => exact ((hinv h₁).waitpid rfl).2
  · rintro tr₁ r tr₂ rfl
    obtain ⟨s₁, s₂, h₁, hs, -⟩ := run_mid.mp h
    cases hs with
    | ret => exact (hinv h₁).2
  · intro child ht
    have hi := hinv h
    unfold Inv at hi
    rw [ht] at hi
    exact hi.reaped

def polled : List Label :=
  [.kernel, .call .tryWait, .waitpid WaitFn.tryWait.flags (.report (.terminated (.exited 3))),
    .ret (.tryWait (.ok (some (.code 3))))]

theorem run_polled :
    Run (Step 7) (spawned 7 none) polled ⟨.gone, .idle ⟨7, none, some (.code 3)⟩⟩ := by
  have h₁ : Step 7 (spawned 7 none) .kernel ⟨.zombie (.exited 3), .idle ⟨7, none, none⟩⟩ :=
    .kernel (.exit _)
  have h₂ : Step 7 ⟨.zombie (.exited 3), .idle ⟨7, none, none⟩⟩ (.call .tryWait)
      ⟨.zombie (.exited 3), .running (LinuxChild.run ⟨7, none, none⟩ .tryWait)⟩ := .call _
  have h₃ : Step 7 ⟨.zombie (.exited 3), .running (LinuxChild.run ⟨7, none, none⟩ .tryWait)⟩
      (.waitpid WaitFn.tryWait.flags (.report (.terminated (.exited 3))))
      ⟨.gone, .running (.ret (.tryWait (.ok (some (.code 3))), some ⟨7, none, some (.code 3)⟩))⟩ :=
    .answered (f := .tryWait) (r := .ok (some (.code 3))) (.terminated _) rfl
  exact .tail (.tail (.tail (.tail .refl h₁) h₂) h₃) .ret

theorem polled_reaped :
    Run (Step 7) (spawned 7 none) polled ⟨.gone, .idle ⟨7, none, some (.code 3)⟩⟩ ∧
      (reapedIn polled).map Termination.status = some (.code 3) := by
  refine ⟨run_polled, ?_⟩
  exact ((linuxChild_reaps_once 7 none (by decide) polled _ run_polled).2.2.2 _ rfl).symm

theorem killSingle_before_reaped (pid : Pid) (group : Option Pid) (hpid : 0 < pid) (tr : List Label)
    (s : Sys)
    (h : Run (fun s l s' => Step pid s l s' ∧ Careful s l) (spawned pid group) tr s) :
    (∀ p sig k, s.task = .running (.op (.killSingle p sig) k) → reapedIn tr = none) ∧
    ∀ tr₁ p sig tr₂, tr = tr₁ ++ .op (.killSingle p sig) :: tr₂ → reapedIn tr₁ = none := by
  have hinv : ∀ {tr s}, Run (fun s l s' => Step pid s l s' ∧ Careful s l) (spawned pid group) tr s →
      Inv pid True tr s := fun h => inv_of_run hpid (h.mono fun s l s' hs => ⟨hs.1, fun _ => hs.2⟩)
  refine ⟨fun p sig k ht => (hinv h).killSingle ht trivial, ?_⟩
  rintro tr₁ p sig tr₂ rfl
  obtain ⟨s₁, s₂, h₁, hs, -⟩ := run_mid.mp h
  obtain ⟨⟨⟩, -⟩ := hs
  exact (hinv h₁).killSingle rfl trivial

theorem killSingle_of_running_child :
    ∃ s, Run (fun s l s' => Step 7 s l s' ∧ Careful s l) (spawned 7 none)
      [.call (.killSingle .kill), .op (.killSingle 7 9)] s ∧ reapedIn [.call (.killSingle .kill)] = none := by
  have h : Run (fun s l s' => Step 7 s l s' ∧ Careful s l) (spawned 7 none)
      [.call (.killSingle .kill), .op (.killSingle 7 9)]
      ⟨.alive none false, .running (.ret (.killSingle (.ok ()), some ⟨7, none, none⟩))⟩ :=
    .tail (.tail .refl ⟨.call _, by rintro _ _ ⟨⟩ -; rfl⟩)
      ⟨.op (o := .killSingle 7 9) (by rintro _ _ ⟨⟩) (.ok ()), by rintro _ _ ⟨⟩⟩
  exact ⟨_, h, (killSingle_before_reaped 7 none (by decide) _ _ h).2 [.call (.killSingle .kill)] _ _ [] rfl⟩

theorem killSingle_after_reaped :
    ∃ s, Run (Step 7) (spawned 7 none)
        (polled ++ .call (.killSingle .kill) :: [.op (.killSingle 7 9)]) s ∧
      (reapedIn (polled ++ [.call (.killSingle .kill)])).isSome := by
  have h₁ : Step 7 ⟨.gone, .idle ⟨7, none, some (.code 3)⟩⟩ (.call (.killSingle .kill))
      ⟨.gone, .running (LinuxChild.run ⟨7, none, some (.code 3)⟩ (.killSingle .kill))⟩ := .call _
  have h₂ : Step 7 ⟨.gone, .running (LinuxChild.run ⟨7, none, some (.code 3)⟩ (.killSingle .kill))⟩
      (.op (.killSingle 7 9))
      ⟨.gone, .running (.ret (.killSingle (.ok ()), some ⟨7, none, some (.code 3)⟩))⟩ :=
    .op (o := .killSingle 7 9) (by rintro _ _ ⟨⟩) (.ok ())
  exact ⟨_, run_mid.mpr ⟨_, _, run_polled, h₁, .tail .refl h₂⟩, rfl⟩

end Rustils.Process
