import Rustils.Pty.ConPtyMoves

namespace Rustils.Pty.ConPty

open Platform Lib.Program
open Mock.Pty (WinSize)
open Process (EnvSpec)
open Process.Environ (envBlock)
open WinFs (Wide)

def Closing (t : Thread) (c : Hpcon) (k : Kernel) : Prop :=
  (∀ c', k.consoles c' = some t.session ↔ c' = c) ∧ (t = .watcher t.session → k.closures t.session ≠ none)

/-- A handle in use is the thread's own, and so is a console; but one may resize what the watcher has closed. -/
def Sound (t : Thread) (k : Kernel) : Call → Prop
  | .createPseudoConsole _ input output _ => k.handles input = some t ∧ k.handles output = some t
  | .duplicate _ h | .wait h | .peek h | .readFile h _ | .writeFile h _ | .closeHandle h => k.handles h = some t
  | .updateAttribute c => k.consoles c = some t.session
  | .closePseudoConsole c => Closing t c k
  | .resizePseudoConsole c _ => k.consoles c = some t.session ∨ k.closed t.session = some (.watcher t.session)
  | _ => True

abbrev Guarded {α : Type} (t : Thread) (Q : α → Kernel → Prop) (p : Prog Answer α) (k : Kernel) : Prop :=
  Secure kernel (Rely t) (Move t) (Sound t) Q p k

theorem stable_of_move {t : Thread} {I : Kernel → Prop} (h : ∀ u k k', u ≠ t → Move u k k' → I k → I k') :
    Stable (Rely t) I := fun k k' hk ⟨u, hu, hm⟩ => h u k k' hu hm hk

structure Quiet (i : Session) (J : Kernel → Prop) : Prop where
  move : ∀ u k k', u ≠ .caller i → Move u k k' → J k → J k'
  openAll : ∀ k hs, J k → J (k.openAll (.caller i) hs)
  closeHandle : ∀ k h, J k → J (k.closeHandle h)

section Quiet

variable {i : Session} {J K : Kernel → Prop}

theorem Quiet.and (hJ : Quiet i J) (hK : Quiet i K) : Quiet i fun k => J k ∧ K k :=
  ⟨fun u k k' hu hm h => ⟨hJ.move u k k' hu hm h.1, hK.move u k k' hu hm h.2⟩,
    fun k hs h => ⟨hJ.openAll k hs h.1, hK.openAll k hs h.2⟩, fun k a h => ⟨hJ.closeHandle k a h.1, hK.closeHandle k a h.2⟩⟩

theorem Quiet.or (hJ : Quiet i J) (hK : Quiet i K) : Quiet i fun k => J k ∨ K k :=
  ⟨fun u k k' hu hm => Or.imp (hJ.move u k k' hu hm) (hK.move u k k' hu hm),
    fun k hs => Or.imp (hJ.openAll k hs) (hK.openAll k hs), fun k a => Or.imp (hJ.closeHandle k a) (hK.closeHandle k a)⟩

theorem quiet_bare (i : Session) : Quiet i (Bare i) :=
  ⟨fun _ _ _ hu hm h => hm.bare (fun hu' => absurd hu' hu) h, fun _ _ h => h, fun _ _ h => h⟩

theorem quiet_console (i : Session) (c : Hpcon) : Quiet i (Console (.caller i) c) :=
  ⟨fun _ _ _ hu hm h => hm.console hu (fun ht => nomatch ht) h, fun _ _ h => h, fun _ _ h => h⟩

theorem quiet_claimed (i : Session) (t : Thread) : Quiet i fun k => k.closed i = some t :=
  ⟨fun _ _ _ _ hm h => hm.closed_some h, fun _ _ h => h, fun _ _ h => h⟩

theorem quiet_unclaimed (i : Session) : Quiet i (Unclaimed i) :=
  ⟨fun _ _ _ hu hm h => hm.unclaimed hu h, fun _ _ h => h, fun _ _ h => h⟩

theorem unshared_openAll {k : Kernel} (hs : List Handle) (h : Unshared i k) : Unshared i (k.openAll (.caller i) hs) := by
  intro a
  simp only [Kernel.openAll]
  split
  · simp
  · exact h a

theorem unshared_closeHandle {k : Kernel} (b : Handle) (h : Unshared i k) : Unshared i (k.closeHandle b) := by
  intro a
  by_cases ha : a = b
  · subst ha
    simp [Kernel.closeHandle]
  · simpa [Kernel.closeHandle, Function.update_of_ne ha] using h a

theorem quiet_started (i : Session) : Quiet i (Started i) :=
  ⟨fun _ _ _ hu hm h => hm.started hu h, fun _ hs h => ⟨h.1, fun hcl => unshared_openAll hs (h.2 hcl)⟩,
    fun _ b h => ⟨h.1, fun hcl => unshared_closeHandle b (h.2 hcl)⟩⟩

theorem quiet_alone (i : Session) : Quiet i (Alone i) :=
  ⟨fun _ _ _ hu hm h => hm.alone hu h, fun _ hs h => ⟨h.1, h.2.1, unshared_openAll hs h.2.2⟩,
    fun _ b h => ⟨h.1, h.2.1, unshared_closeHandle b h.2.2⟩⟩

theorem Quiet.stable (hJ : Quiet i J) (hs : List Handle) : Stable (Rely (.caller i)) fun k => Holds (.caller i) hs k ∧ J k :=
  stable_of_move fun u k k' hu hm h => ⟨h.1.move hm hu (fun _ ht => nomatch ht), hJ.move u k k' hu hm h.2⟩

end Quiet

section Handles

variable {t : Thread} {i : Session} {hs hs' : List Handle} {h : Handle} {k : Kernel} {J I : Kernel → Prop}

theorem Holds.perm (hk : Holds t hs k) (hp : hs.Perm hs') : Holds t hs' k :=
  ⟨hp.nodup hk.1, fun a => (hk.2 a).trans hp.mem_iff⟩

theorem Holds.mem (hk : Holds t hs k) (hh : h ∈ hs) : k.handles h = some t := (hk.2 h).mpr hh

theorem Holds.openAll (hk : Holds t hs k) (hnodup : hs'.Nodup) (hfree : ∀ a ∈ hs', k.handles a = none) :
    Holds t (hs' ++ hs) (k.openAll t hs') := by
  refine ⟨List.nodup_append.mpr ⟨hnodup, hk.1, ?_⟩, fun a => ?_⟩
  · rintro a ha _ hb rfl
    cases (hfree a ha).symm.trans (hk.mem hb)
  · simp only [Kernel.openAll, List.mem_append]
    split
    · rename_i ha
      simp [ha]
    · rename_i ha
      simp [ha, hk.2 a]

theorem Holds.closeHandle (hk : Holds t (h :: hs) k) : Holds t hs (k.closeHandle h) := by
  obtain ⟨hnodup, hmem⟩ := hk
  rw [List.nodup_cons] at hnodup
  refine ⟨hnodup.2, fun a => ?_⟩
  by_cases ha : a = h
  · subst ha
    simp [Kernel.closeHandle, hnodup.1]
  · simp [Kernel.closeHandle, hmem a, ha]

theorem guarded_idle {α : Type} {Q : α → Kernel → Prop} {o : Call} {rest : Answer o → Prog Answer α}
    (hI : Stable (Rely t) I) (hk : I k) (hG : ∀ k, I k → Sound t k o) (hidle : ∀ k r k', kernel k o r k' → k' = k)
    (h : ∀ r k', I k' → Guarded t Q (rest r) k') : Guarded t Q (.op o rest) k := by
  refine Secure.op hI hk hG fun k₁ r k' hk₁ he => ?_
  cases hidle k₁ r k' he
  exact ⟨.idle t k₁, h r k₁ hk₁⟩

theorem guarded_closeAll (hJ : Quiet i J) (hs : List Handle) (hk : Holds (.caller i) (hs ++ hs') k ∧ J k) :
    Guarded (.caller i) (fun _ k => Holds (.caller i) hs' k ∧ J k) (closeAll hs) k := by
  induction hs generalizing k with
  | nil => exact Secure.ret (hJ.stable hs') hk fun _ h => h
  | cons h hs ih =>
    refine Secure.op (hJ.stable _) hk (fun k₁ hk₁ => hk₁.1.mem (by simp)) ?_
    rintro k₁ r k' hk₁ rfl
    exact ⟨.closeHandle (hk₁.1.mem (by simp)), ih ⟨hk₁.1.closeHandle, hJ.closeHandle _ _ hk₁.2⟩⟩

theorem guarded_closing {α : Type} {Q : α → Kernel → Prop} {a : α} (hJ : Quiet i J) {hs₀ : List Handle}
    (hk : Holds (.caller i) hs₀ k ∧ J k) (hs hs' : List Handle) (hp : hs₀.Perm (hs ++ hs'))
    (hQ : ∀ k, Holds (.caller i) hs' k ∧ J k → Q a k) :
    Guarded (.caller i) Q (closeAll hs >>= fun _ => pure a) k :=
  (guarded_closeAll hJ hs ⟨hk.1.perm hp, hk.2⟩).bind fun _ _ hk' => Secure.ret (hJ.stable hs') hk' hQ

end Handles

theorem compareExchange_cases {t : Thread} {k k' : Kernel} {won : Bool}
    (h : kernel k (.compareExchange t) won k') :
    k.closed t.session = none ∧ won = true ∧ k' = k.claim t ∨ k.closed t.session ≠ none ∧ won = false ∧ k' = k := by
  by_cases hclosed : k.closed t.session = none
  · exact .inl ⟨hclosed, by simpa [kernel, hclosed] using h⟩
  · exact .inr ⟨hclosed, by simpa [kernel, hclosed] using h⟩

theorem Closing.bare {t : Thread} {c : Hpcon} {k : Kernel} (h : Closing t c k) : Bare t.session (k.closeConsole c) := by
  intro c' hc'
  by_cases hne : c' = c
  · subst hne
    simp [Kernel.closeConsole] at hc'
  · exact hne ((h.1 c').mp ((Function.update_of_ne hne ..).symm.trans hc'))

section Caller

variable {i : Session} {hs : List Handle} {c : Hpcon} {k : Kernel} {J : Kernel → Prop}

theorem guarded_createPipePair (hJ : Quiet i J) (hk : Holds (.caller i) hs k ∧ J k) :
    Guarded (.caller i) (fun r k => match r with
      | .error _ => Holds (.caller i) hs k ∧ J k
      | .ok (a, b) => Holds (.caller i) (a :: b :: hs) k ∧ J k) (createPipePair i) k := by
  refine Secure.op (hJ.stable hs) hk (fun _ _ => trivial) ?_
  rintro k₁ (code | ⟨r, w⟩) k' hk₁ he
  · cases he
    exact ⟨.idle _ _, Secure.ret (hJ.stable hs) hk₁ fun _ h => h⟩
  · obtain ⟨hr, hw, hne, rfl⟩ := he
    have hfree : ∀ a ∈ [r, w], k₁.handles a = none := by simp [hr, hw]
    have hholds := hk₁.1.openAll (by simp [hne]) hfree
    exact ⟨.openAll hfree, Secure.ret (hJ.stable _) ⟨hholds, hJ.openAll _ _ hk₁.2⟩ fun _ h => h⟩

def Opening (i : Session) (k : Kernel) : Prop := Alone i k ∧ Bare i k

def Open (i : Session) (c : Hpcon) (k : Kernel) : Prop := Alone i k ∧ Console (.caller i) c k

theorem quiet_opening (i : Session) : Quiet i (Opening i) := (quiet_alone i).and (quiet_bare i)

theorem quiet_open (i : Session) (c : Hpcon) : Quiet i (Open i c) := (quiet_alone i).and (quiet_console i c)

theorem Open.own (h : Open i c k) : k.consoles c = some i := by
  obtain ⟨⟨_, hclosed, _⟩, _, hkept⟩ := h
  exact hkept (by simp [Thread.session, hclosed])

theorem Open.sole (h : Open i c k) (c' : Hpcon) : k.consoles c' = some i ↔ c' = c := by
  refine ⟨h.2.1 c', ?_⟩
  rintro rfl
  exact h.own

theorem open_createConsole (h : Opening i k) : Open i c (k.createConsole i c) := by
  refine ⟨h.1, fun c' hc' => ?_, fun _ => Function.update_self ..⟩
  by_contra hne
  exact h.2 c' ((Function.update_of_ne hne ..).symm.trans hc')

def Created (i : Session) (r : Result (Hpcon × Handle × Handle)) (k : Kernel) : Prop :=
  match r with
  | .error _ => Holds (.caller i) [] k ∧ Opening i k
  | .ok (c, input, output) => Holds (.caller i) [input, output] k ∧ Open i c k

theorem guarded_createConsole {a b d e : Handle} (size : WinSize) (hk : Holds (.caller i) [d, e, a, b] k ∧ Opening i k) :
    Guarded (.caller i) (Created i) (createConsole i a b d e size) k := by
  have hopening := quiet_opening i
  refine Secure.op (hopening.stable _) hk (fun k₁ hk₁ => ⟨hk₁.1.mem (by simp), hk₁.1.mem (by simp)⟩) ?_
  rintro k₁ (hr | c) k' hk₁ he
  · cases he
    have hholds : Holds (.caller i) ([a, e] ++ [d, b]) k₁ := hk₁.1.perm (by grind)
    refine ⟨.idle _ _, (guarded_closeAll hopening [a, e] ⟨hholds, hk₁.2⟩).bind ?_⟩
    intro _ k₂ hk₂
    exact guarded_closing hopening hk₂ [d, b] [] (by simp) fun _ h => h
  · obtain ⟨hfree, rfl⟩ := he
    have hholds : Holds (.caller i) ([a, e] ++ [b, d]) (k₁.createConsole i c) := Holds.perm hk₁.1 (by grind)
    refine ⟨.createConsole hfree hk₁.2.1.1, (guarded_closeAll (quiet_open i c) [a, e] ⟨hholds, ?_⟩).bind ?_⟩
    · exact open_createConsole hk₁.2
    · intro _ k₂ hk₂
      exact Secure.ret ((quiet_open i c).stable _) hk₂ fun _ h => h

theorem guarded_createPty (size : WinSize) (hk : Holds (.caller i) [] k ∧ Opening i k) :
    Guarded (.caller i) (Created i) (createPty i size) k := by
  refine (guarded_createPipePair (quiet_opening i) hk).bind ?_
  rintro (e | ⟨a, b⟩) k₁ hk₁
  · exact Secure.ret ((quiet_opening i).stable []) hk₁ fun _ h => h
  · refine (guarded_createPipePair (quiet_opening i) hk₁).bind ?_
    rintro (e | ⟨d, e⟩) k₂ hk₂
    · exact guarded_closing (quiet_opening i) hk₂ [b, a] [] (by grind) fun _ h => h
    · exact guarded_createConsole size hk₂

def Attached (i : Session) (hs : List Handle) (c : Hpcon) (r : Result (Handle × Pid)) (k : Kernel) : Prop :=
  match r with
  | .error _ => Holds (.caller i) hs k ∧ Open i c k
  | .ok (process, _) => Holds (.caller i) (process :: hs) k ∧ Open i c k

theorem guarded_attached (line : List UInt16) (cwd : Wide) (block : Option (List UInt16))
    (hk : Holds (.caller i) hs k ∧ Open i c k) :
    Guarded (.caller i) (Attached i hs c) (attached i c line cwd block) k := by
  have hopen := quiet_open i c
  refine guarded_idle (hopen.stable hs) hk (fun _ h => h.2.own) (fun _ _ _ h => h) ?_
  rintro (code | ⟨⟩) k₁ hk₁
  · exact Secure.ret (hopen.stable hs) hk₁ fun _ h => h
  · refine Secure.op (hopen.stable hs) hk₁ (fun _ _ => trivial) ?_
    rintro k₂ (code | ⟨process, thread, pid⟩) k' hk₂ he
    · cases he
      exact ⟨.idle _ _, Secure.ret (hopen.stable hs) hk₂ fun _ h => h⟩
    · obtain ⟨hp, ht, hne, rfl⟩ := he
      have hfree : ∀ a ∈ [process, thread], k₂.handles a = none := by simp [hp, ht]
      have hholds : Holds (.caller i) ([thread] ++ process :: hs) (k₂.openAll (.caller i) [process, thread]) :=
        (hk₂.1.openAll (by simp [hne]) hfree).perm (.swap ..)
      refine ⟨.openAll hfree, Secure.op (hopen.stable _) ⟨hholds, hopen.openAll _ _ hk₂.2⟩
        (fun _ h => h.1.mem (by simp)) ?_⟩
      rintro k₃ r k' hk₃ rfl
      refine ⟨.closeHandle (hk₃.1.mem (by simp)), Secure.ret (hopen.stable (process :: hs)) ?_ fun _ h => h⟩
      exact ⟨hk₃.1.closeHandle, hopen.closeHandle _ _ hk₃.2⟩

theorem stable_attached (i : Session) (hs : List Handle) (c : Hpcon) (r : Result (Handle × Pid)) :
    Stable (Rely (.caller i)) (Attached i hs c r) := by
  rcases r with e | ⟨process, pid⟩
  · exact (quiet_open i c).stable hs
  · exact (quiet_open i c).stable (process :: hs)

theorem guarded_spawnAttached (line : List UInt16) (cwd : Wide) (env : EnvSpec UInt16)
    (hk : Holds (.caller i) hs k ∧ Open i c k) :
    Guarded (.caller i) (Attached i hs c) (spawnAttached i c line cwd env) k := by
  have hopen := (quiet_open i c).stable hs
  refine guarded_idle hopen hk (fun _ _ => trivial) (fun _ _ _ h => h) ?_
  rintro ⟨size, code⟩ k₁ hk₁
  by_cases hsize : size = 0
  · simp only [hsize, ↓reduceIte]
    exact Secure.ret hopen hk₁ fun _ h => h
  · simp only [hsize, ↓reduceIte]
    refine guarded_idle hopen hk₁ (fun _ _ => trivial) (fun _ _ _ h => h) ?_
    rintro (code | ⟨⟩) k₂ hk₂
    · exact Secure.ret hopen hk₂ fun _ h => h
    · refine (guarded_attached (line ++ [0]) cwd (envBlock env) hk₂).bind ?_
      intro r k₃ hk₃
      exact guarded_idle (stable_attached i hs c r) hk₃ (fun _ _ => trivial) (fun _ _ _ h => h) fun _ _ hk₄ =>
        Secure.ret (stable_attached i hs c r) hk₄ fun _ h => h

theorem guarded_drain {t : Thread} {I : Kernel → Prop} {output : Handle} (hI : Stable (Rely t) I)
    (hown : ∀ k, I k → k.handles output = some t) (rounds : ℕ) (hk : I k) :
    Guarded t (fun _ => I) (drain output rounds) k := by
  induction rounds generalizing k with
  | zero => exact Secure.ret hI hk fun _ h => h
  | succ rounds ih =>
    refine guarded_idle hI hk hown (fun _ _ _ h => h) ?_
    rintro (code | available) k₁ hk₁
    · exact Secure.ret hI hk₁ fun _ h => h
    · by_cases havail : available = 0
      · simp only [havail, ↓reduceIte]
        exact ih hk₁
      · simp only [havail, ↓reduceIte]
        refine guarded_idle hI hk₁ hown (fun _ _ _ h => h) ?_
        rintro (code | bytes) k₂ hk₂
        · exact Secure.ret hI hk₂ fun _ h => h
        · exact ih hk₂

/-- No other thread closes the console: the caller has set the flag, or there is no watcher. -/
def Entitled (i : Session) (k : Kernel) : Prop := k.closed i = some (.caller i) ∨ Alone i k

theorem quiet_entitled (i : Session) : Quiet i (Entitled i) := (quiet_claimed i _).or (quiet_alone i)

theorem Console.own (h : Console (.caller i) c k) (hent : Entitled i k) : k.consoles c = some i := by
  refine h.2 ?_
  rcases hent with hent | ⟨_, hclosed, _⟩
  · simp [Thread.session, Thread.other, hent]
  · simp [Thread.session, hclosed]

theorem Console.closing (h : Console (.caller i) c k) (hent : Entitled i k) : Closing (.caller i) c k := by
  refine ⟨fun c' => ⟨h.1 c', ?_⟩, fun ht => nomatch ht⟩
  rintro rfl
  exact h.own hent

theorem guarded_close {output : Handle} (hout : output ∈ hs)
    (hk : Holds (.caller i) hs k ∧ (Console (.caller i) c k ∧ Entitled i k) ∧ Started i k) :
    Guarded (.caller i) (fun _ k => Holds (.caller i) hs k ∧ Bare i k ∧ Started i k) (close c output) k := by
  have hquiet := (((quiet_console i c).and (quiet_entitled i)).and (quiet_started i)).stable hs
  refine guarded_idle hquiet hk (fun _ _ => trivial) (fun _ _ _ h => h) ?_
  intro rounds k₁ hk₁
  refine (guarded_drain hquiet (fun _ h => h.1.mem hout) rounds hk₁).bind ?_
  intro _ k₂ hk₂
  refine Secure.op hquiet hk₂ (fun _ h => h.2.1.1.closing h.2.1.2) ?_
  rintro k₃ r k' ⟨hholds, ⟨hconsole, hent⟩, hstarted⟩ rfl
  refine ⟨.closeConsole (hconsole.own hent) (hent.imp id fun h => ⟨rfl, h.1⟩), ?_⟩
  exact Secure.ret (((quiet_bare i).and (quiet_started i)).stable hs) ⟨hholds, (hconsole.closing hent).bare, hstarted⟩
    fun _ h => h

def Live (i : Session) (c : Hpcon) (k : Kernel) : Prop := Console (.caller i) c k ∧ Unclaimed i k ∧ Started i k

theorem quiet_live (i : Session) (c : Hpcon) : Quiet i (Live i c) :=
  (quiet_console i c).and ((quiet_unclaimed i).and (quiet_started i))

theorem Alone.started (h : Alone i k) : Started i k := ⟨by simp [h.2.1], fun _ => h.2.2⟩

theorem Open.live (h : Open i c k) : Live i c k := ⟨h.2, .inl h.1.2.1, h.1.started⟩

theorem live_launch {dup : Handle} (h : Open i c k) : Live i c (k.launch i ⟨dup, c⟩) := by
  obtain ⟨hconsole, hunclaimed, _⟩ := h.live
  exact ⟨hconsole, hunclaimed, fun _ => by simp [Kernel.launch], fun hcl => by simp [Kernel.launch] at hcl⟩

theorem holds_launch {dup : Handle} (h : Holds (.caller i) (dup :: hs) k) :
    Holds (.caller i) hs (k.launch i ⟨dup, c⟩) := by
  obtain ⟨hnodup, hmem⟩ := h
  rw [List.nodup_cons] at hnodup
  refine ⟨hnodup.2, fun a => ?_⟩
  by_cases ha : a = dup
  · subst ha
    simp [Kernel.launch, hnodup.1]
  · simp [Kernel.launch, hmem a, ha]

theorem guarded_spawnExitWatcher {process : Handle} (hp : process ∈ hs) (hk : Holds (.caller i) hs k ∧ Open i c k) :
    Guarded (.caller i) (fun _ k => Holds (.caller i) hs k ∧ Live i c k) (spawnExitWatcher i process c) k := by
  have hopen := quiet_open i c
  have hlive := (quiet_live i c).stable hs
  refine Secure.op (hopen.stable hs) hk (fun _ h => h.1.mem hp) ?_
  rintro k₁ (code | dup) k' hk₁ he
  · cases he
    exact ⟨.idle _ _, Secure.ret hlive ⟨hk₁.1, hk₁.2.live⟩ fun _ h => h⟩
  · obtain ⟨hfree, rfl⟩ := he
    have hfree' : ∀ a ∈ [dup], k₁.handles a = none := by simp [hfree]
    have hholds := hk₁.1.openAll (List.nodup_singleton dup) hfree'
    refine ⟨.openAll hfree', Secure.op (hopen.stable _) ⟨hholds, hopen.openAll _ _ hk₁.2⟩ (fun _ _ => trivial) ?_⟩
    rintro k₂ r k' hk₂ rfl
    obtain ⟨⟨hcl, hclosed, hdup⟩, _⟩ := hk₂.2
    refine ⟨.launch (hk₂.1.mem (by simp)) hcl hclosed hdup hk₂.2.sole, Secure.ret hlive ?_ fun _ h => h⟩
    exact ⟨holds_launch hk₂.1, live_launch hk₂.2⟩

theorem guarded_use {master : WindowsPtyMaster} (hin : master.input ∈ hs) (hout : master.output ∈ hs) (uses : List Use)
    (hk : Holds (.caller i) hs k ∧ Live i master.hpc k) :
    Guarded (.caller i) (fun _ k => Holds (.caller i) hs k ∧ Live i master.hpc k) (master.use uses) k := by
  have hlive := (quiet_live i master.hpc).stable hs
  induction uses generalizing k with
  | nil => exact Secure.ret hlive hk fun _ h => h
  | cons use uses ih =>
    cases use with
    | read len =>
      refine guarded_idle hlive hk (fun _ h => h.1.mem hout) (fun _ _ _ h => h) ?_
      rintro (code | bytes) k₁ hk₁ <;> exact ih hk₁
    | write buf =>
      refine guarded_idle hlive hk (fun _ h => h.1.mem hin) (fun _ _ _ h => h) ?_
      rintro (code | n) k₁ hk₁ <;> exact ih hk₁
    | resize size =>
      refine guarded_idle hlive hk (fun _ h => ?_) (fun _ _ _ h => h) ?_
      · exact (Classical.em _).symm.imp h.2.1.2 id
      · rintro (code | ⟨⟩) k₁ hk₁ <;> exact ih hk₁

def Gone (i : Session) (k : Kernel) : Prop := (Bare i k ∨ k.closed i = some (.watcher i)) ∧ Started i k

theorem quiet_gone (i : Session) : Quiet i (Gone i) := ((quiet_bare i).or (quiet_claimed i _)).and (quiet_started i)

theorem guarded_drop {master : WindowsPtyMaster} {process : Handle}
    (hk : Holds (.caller i) [process, master.input, master.output] k ∧ Live i master.hpc k) :
    Guarded (.caller i) (fun _ k => Holds (.caller i) [process] k ∧ Gone i k) (master.drop i) k := by
  have hgone := quiet_gone i
  have hperm : [process, master.input, master.output].Perm ([master.input, master.output] ++ [process]) := by grind
  refine Secure.op ((quiet_live i master.hpc).stable _) hk (fun _ _ => trivial) ?_
  intro k₁ won k' ⟨hholds, hconsole, hunclaimed, hstarted⟩ he
  rcases compareExchange_cases he with ⟨hclosed, rfl, rfl⟩ | ⟨hclosed, rfl, rfl⟩
  · refine ⟨.claim hclosed (fun ht => nomatch ht), ?_⟩
    have hstarted' : Started i (k₁.claim (.caller i)) := ⟨by simp [Kernel.claim, Thread.session], hstarted.2⟩
    have hconsole' : Console (.caller i) master.hpc (k₁.claim (.caller i)) :=
      ⟨hconsole.1, fun _ => hconsole.2 (by simp [hclosed])⟩
    have hk' : Holds (.caller i) [process, master.input, master.output] (k₁.claim (.caller i)) ∧
        (Console (.caller i) master.hpc (k₁.claim (.caller i)) ∧ Entitled i (k₁.claim (.caller i))) ∧
          Started i (k₁.claim (.caller i)) :=
      ⟨hholds, ⟨hconsole', .inl (Function.update_self ..)⟩, hstarted'⟩
    refine (guarded_close (by simp) hk').bind ?_
    intro _ k₂ hk₂
    exact guarded_closeAll hgone _ ⟨hk₂.1.perm hperm, .inl hk₂.2.1, hk₂.2.2⟩
  · have hlost : k'.closed i = some (.watcher i) := hunclaimed.resolve_left hclosed
    exact ⟨.idle _ _, guarded_closeAll hgone _ ⟨hholds.perm hperm, .inr hlost, hstarted⟩⟩

theorem guarded_spawn (cmd : Command) (line : Result (List UInt16)) (size : WinSize)
    (hk : Holds (.caller i) [] k ∧ Opening i k) :
    Guarded (.caller i) (fun r k => match r with
      | .error _ => Holds (.caller i) [] k ∧ Gone i k
      | .ok (master, process, _) =>
        Holds (.caller i) [process, master.input, master.output] k ∧ Live i master.hpc k)
      (spawn i cmd line size) k := by
  have hearly : ∀ k, Holds (.caller i) [] k ∧ Opening i k → Holds (.caller i) [] k ∧ Gone i k :=
    fun k hk => ⟨hk.1, .inl hk.2.2, hk.2.1.started⟩
  have hquiet := (quiet_opening i).stable []
  unfold spawn
  split
  · exact Secure.ret hquiet hk hearly
  · exact Secure.ret hquiet hk hearly
  · refine (guarded_createPty size hk).bind ?_
    rintro (e | ⟨c, input, output⟩) k₁ hk₁
    · exact Secure.ret hquiet hk₁ hearly
    · refine (guarded_spawnAttached _ cmd.cwd cmd.env hk₁).bind ?_
      rintro (e | ⟨process, pid⟩) k₂ ⟨hholds, hopen⟩
      · refine (guarded_close (by simp) ⟨hholds, ⟨hopen.2, .inr hopen.1⟩, hopen.1.started⟩).bind ?_
        intro _ k₃ hk₃
        refine guarded_closing ((quiet_bare i).and (quiet_started i)) hk₃ [output, input] [] (by grind) ?_
        exact fun k h => ⟨h.1, .inl h.2.1, h.2.2⟩
      · refine (guarded_spawnExitWatcher (by simp) ⟨hholds, hopen⟩).bind ?_
        intro _ k₃ hk₃
        exact Secure.ret ((quiet_live i c).stable _) hk₃ fun _ h => h

theorem guarded_caller (plan : Plan) (hk : Holds (.caller i) [] k ∧ Opening i k) :
    Guarded (.caller i) (fun r k => Holds (.caller i) r.toList k ∧ Gone i k) (caller i plan) k := by
  refine (guarded_spawn plan.cmd plan.line plan.size hk).bind ?_
  rintro (e | ⟨master, process, pid⟩) k₁ hk₁
  · exact Secure.ret ((quiet_gone i).stable []) hk₁ fun _ h => h
  · refine (guarded_use (by simp) (by simp) plan.uses hk₁).bind ?_
    intro _ k₂ hk₂
    refine (guarded_drop hk₂).bind ?_
    intro _ k₃ hk₃
    exact Secure.ret ((quiet_gone i).stable [process]) hk₃ fun _ h => h

end Caller

def Retired (i : Session) (hs : List Handle) (k : Kernel) : Prop :=
  k.closures i ≠ none ∧ Holds (.watcher i) hs k ∧ (k.closed i = some (.watcher i) → Bare i k) ∧ k.closed i ≠ none

section Watcher

variable {i : Session} {cl : Closure} {k : Kernel}

theorem stable_retired (i : Session) (hs : List Handle) : Stable (Rely (.watcher i)) (Retired i hs) := by
  refine stable_of_move fun u k k' hu hm ⟨hcl, hholds, hbare, hclosed⟩ => ?_
  obtain ⟨cl, hcl'⟩ := Option.ne_none_iff_exists'.mp hcl
  obtain ⟨t, ht⟩ := Option.ne_none_iff_exists'.mp hclosed
  have ht' := hm.closed_some ht
  refine ⟨by simp [hm.closures_some hcl'], hholds.move hm hu ?_, fun hw => ?_, by simp [ht']⟩
  · rintro j ⟨⟩
    exact hcl
  · cases ht'.symm.trans hw
    exact hm.bare (fun _ => hcl) (hbare ht)

theorem stable_watching (i : Session) (cl : Closure) :
    Stable (Rely (.watcher i)) fun k => Watched i cl k ∧ k.closed i ≠ some (.watcher i) :=
  stable_of_move fun _ _ _ hu hm h => ⟨h.1.move hm hu, hm.closed_ne hu h.2⟩

theorem stable_waiting (i : Session) :
    Stable (Rely (.watcher i)) fun k => Waiting i k ∧ k.closed i ≠ some (.watcher i) :=
  stable_of_move fun _ _ _ hu hm h => ⟨h.1.move hm hu, hm.closed_ne hu h.2⟩

theorem stable_winning (i : Session) (cl : Closure) :
    Stable (Rely (.watcher i)) fun k => Watched i cl k ∧ k.closed i = some (.watcher i) :=
  stable_of_move fun _ _ _ hu hm h => ⟨h.1.move hm hu, hm.closed_some h.2⟩

theorem Watched.own (h : Watched i cl k) (hwon : k.closed i = some (.watcher i)) : k.consoles cl.hpc = some i :=
  h.2.2.2 (by simp [Thread.session, Thread.other, hwon])

theorem Watched.closing (h : Watched i cl k) (hwon : k.closed i = some (.watcher i)) : Closing (.watcher i) cl.hpc k := by
  refine ⟨fun c' => ⟨h.2.2.1 c', ?_⟩, fun _ => by simp [Thread.session, h.1]⟩
  rintro rfl
  exact h.own hwon

theorem retired_closeConsole (h : Watched i cl k) (hwon : k.closed i = some (.watcher i)) :
    Retired i [cl.dup] (k.closeConsole cl.hpc) := by
  have hbare : Bare i (k.closeConsole cl.hpc) := (h.closing hwon).bare
  exact ⟨by simp [Kernel.closeConsole, h.1], h.2.1, fun _ => hbare, by simp [Kernel.closeConsole, hwon]⟩

theorem guarded_retire (hk : Retired i [cl.dup] k) :
    Guarded (.watcher i) (fun _ => Retired i []) (.op (.closeHandle cl.dup) fun _ => .ret (none : Option Handle)) k := by
  refine Secure.op (stable_retired i _) hk (fun _ h => h.2.1.mem (by simp)) ?_
  rintro k₁ r k' ⟨hcl, hholds, hbare, hclosed⟩ rfl
  refine ⟨.closeHandle (hholds.mem (by simp)), Secure.ret (stable_retired i []) ?_ fun _ h => h⟩
  exact ⟨hcl, hholds.closeHandle, hbare, hclosed⟩

theorem guarded_watch (hk : Waiting i k ∧ k.closed i ≠ some (.watcher i)) :
    Guarded (.watcher i) (fun _ => Retired i []) (watch i) k := by
  refine Secure.op (stable_waiting i) hk (fun _ _ => trivial) ?_
  rintro k₁ cl k' ⟨hwaiting, hclosed⟩ ⟨hcl, rfl⟩
  refine ⟨.idle _ _, guarded_idle (stable_watching i cl) ⟨hwaiting.1 cl hcl, hclosed⟩
    (fun _ h => h.1.2.1.mem (by simp)) (fun _ _ _ h => h) fun _ k₂ hk₂ => ?_⟩
  refine Secure.op (stable_watching i cl) hk₂ (fun _ _ => trivial) ?_
  intro k₃ won k' ⟨hwatched, hne⟩ he
  have hstarted : k₃.closures i ≠ none := by simp [hwatched.1]
  rcases compareExchange_cases he with ⟨hclosed, rfl, rfl⟩ | ⟨hclosed, rfl, rfl⟩
  · have hk' : Watched i cl (k₃.claim (.watcher i)) ∧ (k₃.claim (.watcher i)).closed i = some (.watcher i) :=
      ⟨⟨hwatched.1, hwatched.2.1, hwatched.2.2.1, fun _ => hwatched.2.2.2 (by simp [hclosed])⟩, Function.update_self ..⟩
    refine ⟨.claim hclosed fun _ => hstarted, ?_⟩
    refine Secure.op (stable_winning i cl) hk' (fun _ h => h.1.closing h.2) ?_
    rintro k₄ r k' hk₄ rfl
    exact ⟨.closeConsole (hk₄.1.own hk₄.2) (.inl hk₄.2), guarded_retire (retired_closeConsole hk₄.1 hk₄.2)⟩
  · exact ⟨.idle _ _, guarded_retire ⟨hstarted, hwatched.2.1, fun hw => absurd hw hne, hclosed⟩⟩

end Watcher

def Left : Thread → Option Handle → Kernel → Prop
  | .caller i, r, k => Holds (.caller i) r.toList k ∧ Gone i k
  | .watcher i, _, k => Retired i [] k

theorem guarded_sessions (plans : Session → Plan) (t : Thread) :
    Guarded t (Left t) ((sessions plans).progs t) (sessions plans).state := by
  cases t with
  | caller i => exact guarded_caller (plans i) (by simp [sessions, Holds, Opening, Alone, Unshared, Bare])
  | watcher i => exact guarded_watch (by simp [sessions, Waiting, Unshared])

end Rustils.Pty.ConPty
