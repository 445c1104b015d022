import Rustils.Pty.ConPtyOnce

namespace Rustils.Pty.ConPty

open Platform Lib.Program
open Mock.Pty (WinSize)

theorem reaches_step {α : Type} {o : Call} {rest : Answer o → Prog Answer α} {k k' : Kernel} {d : Prog Answer α × Kernel}
    (r : Answer o) (he : kernel k o r k') (h : Reaches kernel (rest r, k') d) : Reaches kernel (.op o rest, k) d :=
  .head (.op rest he) h

theorem runs {c₀ c : Pool Thread Answer (Option Handle) Kernel} (h : Pool.Reaches kernel c₀ c) {t : Thread}
    {p p' : Prog Answer (Option Handle)} {k' : Kernel} (hp : c.progs t = p)
    (hr : Reaches kernel (p, c.state) (p', k')) : Pool.Reaches kernel c₀ ⟨Function.update c.progs t p', k'⟩ := by
  subst hp
  exact h.run t hr

def Plan.Runs (plan : Plan) : Prop := (∀ pgid, plan.cmd.group ≠ .joinGroup pgid) ∧ ∃ line, plan.line = .ok line

def spawned (i : Session) : Kernel :=
  let t := Thread.caller i
  let k : Kernel := ⟨fun _ => none, fun _ => none, fun _ => none, fun _ => none⟩
  let k := ((((k.openAll t [0, 1]).openAll t [2, 3]).createConsole i 0).closeHandle 0).closeHandle 3
  (((k.openAll t [4, 5]).closeHandle 5).openAll t [6]).launch i ⟨6, 0⟩

theorem caller_of_runs {plan : Plan} (h : plan.Runs) : ∃ cwd env line, ∀ i, caller i plan =
    caller i ⟨⟨.inherit, cwd, env⟩, .ok line, plan.size, plan.uses⟩ := by
  obtain ⟨⟨group, cwd, env⟩, line, size, uses⟩ := plan
  obtain ⟨hgroup, line, rfl⟩ := h
  refine ⟨cwd, env, line, fun i => ?_⟩
  cases group with
  | joinGroup pgid => exact absurd rfl (hgroup pgid)
  | inherit | newGroup => rfl

def onward (i : Session) (uses : List Use) : Prog Answer (Option Handle) := do
  WindowsPtyMaster.use ⟨0, 1, 2⟩ uses
  WindowsPtyMaster.drop ⟨0, 1, 2⟩ i
  return some 4

theorem reaches_spawned {plan : Plan} (plans : Session → Plan) (h : plan.Runs) (i : Session) :
    Reaches kernel (caller i plan, (sessions plans).state) (onward i plan.uses, spawned i) := by
  obtain ⟨cwd, env, line, hspawn⟩ := caller_of_runs h
  rw [hspawn]
  refine reaches_step (.ok (0, 1)) ⟨rfl, rfl, by decide, rfl⟩ ?_
  refine reaches_step (.ok (2, 3)) ⟨rfl, rfl, by decide, rfl⟩ ?_
  refine reaches_step (.ok 0) ⟨rfl, rfl⟩ ?_
  refine reaches_step () rfl (reaches_step () rfl ?_)
  refine reaches_step (1, 0) rfl (reaches_step (.ok ()) rfl (reaches_step (.ok ()) rfl ?_))
  refine reaches_step (.ok (4, 5, 0)) ⟨rfl, rfl, by decide, rfl⟩ ?_
  refine reaches_step () rfl (reaches_step () rfl ?_)
  refine reaches_step (.ok 6) ⟨rfl, rfl⟩ (reaches_step () rfl ?_)
  exact .refl

theorem reaches_created {plan : Plan} (h : plan.Runs) (j : Session) {k : Kernel} (hfree : ∀ a, 7 ≤ a → k.handles a = none)
    (hc : k.consoles 0 = none) : ∃ p' k', Reaches kernel (caller j plan, k) (p', k') ∧ k'.consoles 0 = some j := by
  obtain ⟨cwd, env, line, hspawn⟩ := caller_of_runs h
  rw [hspawn]
  refine ⟨_, _, reaches_step (.ok (7, 8)) ⟨hfree 7 (by decide), hfree 8 (by decide), by decide, rfl⟩
    (reaches_step (.ok (9, 10)) ⟨?_, ?_, by decide, rfl⟩ (reaches_step (.ok 0) ⟨hc, rfl⟩ .refl)), ?_⟩
  · exact hfree 9 (by decide)
  · exact hfree 10 (by decide)
  · simp [Kernel.createConsole]

theorem reaches_use (master : WindowsPtyMaster) (uses uses' : List Use) (k : Kernel) :
    Reaches kernel (master.use (uses ++ uses'), k) (master.use uses', k) := by
  induction uses with
  | nil => exact .refl
  | cons use uses ih =>
    cases use with
    | read len => exact reaches_step (.ok []) rfl ih
    | write buf => exact reaches_step (.ok 0) rfl ih
    | resize size => exact reaches_step (.ok ()) rfl ih

def watched (i : Session) : Kernel := (((spawned i).claim (.watcher i)).closeConsole 0).closeHandle 6

theorem reaches_watched (i : Session) : Reaches kernel (watch i, spawned i) (.ret none, watched i) := by
  refine reaches_step ⟨6, 0⟩ ⟨Function.update_self .., rfl⟩ (reaches_step (.ok 0) rfl ?_)
  refine reaches_step true ?_ (reaches_step () rfl (reaches_step () rfl .refl))
  exact ⟨rfl, rfl⟩

theorem watched_free (i : Session) (a : Handle) (ha : 7 ≤ a) : (watched i).handles a = none := by
  obtain ⟨b, rfl⟩ := Nat.exists_eq_add_of_le' ha
  simp [watched, spawned, Kernel.closeHandle, Kernel.closeConsole, Kernel.claim, Kernel.launch, Kernel.openAll,
    Kernel.createConsole, Function.update_apply]

theorem reaches_dropped (i : Session) :
    Reaches kernel (onward i [], watched i) (.ret (some 4), ((watched i).closeHandle 1).closeHandle 2) := by
  have hclosed : (watched i).closed i ≠ none := by
    simp [watched, Kernel.closeConsole, Kernel.closeHandle, Kernel.claim, Thread.session]
  refine reaches_step false ?_ (reaches_step () rfl (reaches_step () rfl .refl))
  simp [kernel, Thread.session, hclosed]

theorem consoles_closed_once (plans : Session → Plan) (p : Pool Thread Answer (Option Handle) Kernel)
    (h : Pool.Reaches kernel (sessions plans) p) :
    (∀ t o rest, p.progs t = .op o rest → Sound t p.state o) ∧
      (∀ t c rest, p.progs t = .op (.closePseudoConsole c) rest → ∀ p',
        Pool.Reaches kernel ⟨Function.update p.progs t (rest ()), p.state.closeConsole c⟩ p' →
          ∀ u c' rest', p'.progs u = .op (.closePseudoConsole c') rest' → u.session ≠ t.session) ∧
      ∀ i r, p.progs (.caller i) = .ret r →
        p.state.closures i = none ∨ p.progs (.watcher i) = .ret none →
          Bare i p.state ∧ Unshared i p.state ∧ Holds (.caller i) r.toList p.state := by
  have hsound := guarded_sessions plans
  refine ⟨fun t o rest hp => h.guarded rely_of_move hsound hp,
    fun t c rest hp p' hp' u c' rest' hu => session_ne_of_closed h hp hp' hu, fun i r hcaller hwatcher => ?_⟩
  obtain ⟨hholds, hgone, hstarted⟩ := h.returned rely_of_move hsound hcaller
  rcases hwatcher with hnone | hwatcher
  · exact ⟨hgone.resolve_right fun hw => hstarted.1 hw hnone, hstarted.2 hnone, hholds⟩
  · obtain ⟨_, hdup, hbare, _⟩ := h.returned rely_of_move hsound hwatcher
    exact ⟨hgone.elim id hbare, fun a ha => by simpa using (hdup.2 a).mp ha, hholds⟩

def unused : Plan := ⟨⟨.inherit, [], .inherit⟩, .ok [], ⟨24, 80⟩, []⟩

theorem unused_runs : unused.Runs := ⟨fun _ h => (nomatch h), [], rfl⟩

theorem consoles_closed_once_lost : ∃ p, Pool.Reaches kernel (sessions fun _ => unused) p ∧
    p.state.closed 0 = some (.watcher 0) ∧ Bare 0 p.state ∧ Unshared 0 p.state ∧ Holds (.caller 0) [4] p.state := by
  have hstart : Pool.Reaches kernel (sessions fun _ => unused) (sessions fun _ => unused) := .refl
  have hspawned := hstart.run (.caller 0) (reaches_spawned (fun _ => unused) unused_runs 0)
  have hwatched := runs (t := .watcher 0) hspawned rfl (reaches_watched 0)
  have hdropped := runs (t := .caller 0) hwatched rfl (reaches_dropped 0)
  exact ⟨_, hdropped, rfl, (consoles_closed_once _ _ hdropped).2.2 0 _ rfl (.inr rfl)⟩

theorem resize_reaches_another {plans : Session → Plan} {i j : Session} (hij : i ≠ j) (hi : (plans i).Runs)
    (hj : (plans j).Runs) {uses uses' : List Use} {size : WinSize} (huses : (plans i).uses = uses ++ .resize size :: uses') :
    ∃ p c rest, Pool.Reaches kernel (sessions plans) p ∧
      p.progs (.caller i) = .op (.resizePseudoConsole c (coord size)) rest ∧ p.state.consoles c = some j := by
  obtain ⟨rest, hrest⟩ : ∃ rest, onward i (.resize size :: uses') = .op (.resizePseudoConsole 0 (coord size)) rest :=
    ⟨_, rfl⟩
  have huse : Reaches kernel (onward i (plans i).uses, spawned i) (.op (.resizePseudoConsole 0 (coord size)) rest, spawned i) := by
    rw [huses, ← hrest]
    exact (reaches_use ⟨0, 1, 2⟩ uses (.resize size :: uses') (spawned i)).bind_left _
  have hstart : Pool.Reaches kernel (sessions plans) (sessions plans) := .refl
  have hspawned := hstart.run (.caller i) ((reaches_spawned plans hi i).trans huse)
  have hwatched := runs (t := .watcher i) hspawned rfl (reaches_watched i)
  obtain ⟨p', k', hcreated, hk'⟩ := reaches_created hj j (watched_free i) rfl
  have hne : Thread.caller i ≠ .caller j := by simp [hij]
  have hprog : Function.update (Function.update (sessions plans).progs (.caller i)
      (.op (.resizePseudoConsole 0 (coord size)) rest)) (.watcher i) (.ret none) (.caller j) = caller j (plans j) := by
    rw [Function.update_of_ne (by simp), Function.update_of_ne hne.symm]
    rfl
  refine ⟨_, 0, rest, runs (t := .caller j) hwatched hprog hcreated, ?_, hk'⟩
  change Function.update _ _ _ _ = _
  rw [Function.update_of_ne hne]
  exact Function.update_self (Thread.caller i) _ (sessions plans).progs

def resizing : Plan := { unused with uses := [.read 1, .resize ⟨24, 80⟩] }

theorem resizing_runs : resizing.Runs := ⟨fun _ h => (nomatch h), [], rfl⟩

theorem resize_reaches_another_second : ∃ p c rest, Pool.Reaches kernel (sessions fun _ => resizing) p ∧
    p.progs (.caller 0) = .op (.resizePseudoConsole c (coord ⟨24, 80⟩)) rest ∧ p.state.consoles c = some 1 :=
  resize_reaches_another Nat.zero_ne_one resizing_runs resizing_runs
    (show resizing.uses = [.read 1] ++ .resize ⟨24, 80⟩ :: [] from rfl)

end Rustils.Pty.ConPty
