import Rustils.Lib.History
import Rustils.Pty.ConPtyClose

namespace Rustils.Pty.ConPty

open Platform Lib.Program
open Mock.Pty (WinSize)
open Process (EnvSpec)
open WinFs (Wide)

variable {α β : Type}

abbrev Late (p : Prog Answer α) : Prop := Everywhere (fun o _ => ∀ i a b size, o ≠ .createPseudoConsole i a b size) p

abbrev Closeless (p : Prog Answer α) : Prop := Everywhere (fun o _ => ∀ c, o ≠ .closePseudoConsole c) p

abbrev Final (p : Prog Answer α) : Prop :=
  Everywhere (fun o k => ∀ c, o = .closePseudoConsole c → ∀ r, Late (k r)) p

theorem Late.final {p : Prog Answer α} (h : Late p) : Final p := by
  induction p with
  | ret a => trivial
  | op o k ih => exact ⟨fun c _ r => h.2 r, fun r => ih r (h.2 r)⟩

theorem Closeless.final {p : Prog Answer α} (h : Closeless p) : Final p := by
  induction p with
  | ret a => trivial
  | op o k ih => exact ⟨fun c ho => absurd ho (h.1 c), fun r => ih r (h.2 r)⟩

theorem Final.bind {p : Prog Answer α} {f : α → Prog Answer β} (h : Final p) (hf : ∀ a, Late (f a)) :
    Final (p >>= f) := by
  induction p with
  | ret a => exact Late.final (hf a)
  | op o k ih => exact ⟨fun c ho r => (h.1 c ho r).bind hf, fun r => ih r (h.2 r)⟩

theorem late_closeAll (hs : List Handle) : Late (closeAll hs) := by
  induction hs with
  | nil => trivial
  | cons h hs ih => exact ⟨by simp, fun _ => ih⟩

theorem late_drain (output : Handle) (rounds : ℕ) : Late (drain output rounds) := by
  induction rounds with
  | zero => trivial
  | succ rounds ih =>
    refine ⟨by simp, ?_⟩
    rintro (code | available)
    · trivial
    · by_cases havail : available = 0
      · simpa only [havail, ↓reduceIte] using ih
      · simp only [havail, ↓reduceIte]
        refine ⟨by simp, ?_⟩
        rintro (code | bytes)
        · trivial
        · exact ih

theorem late_close (hpc : Hpcon) (output : Handle) : Late (close hpc output) :=
  ⟨by simp, fun rounds => (late_drain output rounds).bind fun _ => ⟨by simp, fun _ => trivial⟩⟩

theorem late_attached (i : Session) (hpc : Hpcon) (line : List UInt16) (cwd : Wide) (block : Option (List UInt16)) :
    Late (attached i hpc line cwd block) := by
  refine ⟨by simp, ?_⟩
  rintro (code | ⟨⟩)
  · trivial
  · refine ⟨by simp, ?_⟩
    rintro (code | ⟨process, thread, pid⟩)
    · trivial
    · exact ⟨by simp, fun _ => trivial⟩

theorem late_spawnAttached (i : Session) (hpc : Hpcon) (line : List UInt16) (cwd : Wide) (env : EnvSpec UInt16) :
    Late (spawnAttached i hpc line cwd env) := by
  refine ⟨by simp, ?_⟩
  rintro ⟨size, code⟩
  by_cases hsize : size = 0
  · simp only [hsize, ↓reduceIte]
    trivial
  · simp only [hsize, ↓reduceIte]
    refine ⟨by simp, ?_⟩
    rintro (code | ⟨⟩)
    · trivial
    · exact (late_attached i hpc _ cwd _).bind fun _ => ⟨by simp, fun _ => trivial⟩

theorem late_spawnExitWatcher (i : Session) (process : Handle) (hpc : Hpcon) : Late (spawnExitWatcher i process hpc) := by
  refine ⟨by simp, ?_⟩
  rintro (code | dup)
  · trivial
  · exact ⟨by simp, fun _ => trivial⟩

theorem late_use (master : WindowsPtyMaster) (uses : List Use) : Late (master.use uses) := by
  induction uses with
  | nil => trivial
  | cons use uses ih =>
    cases use with
    | read len =>
      refine ⟨by simp, ?_⟩
      rintro (code | bytes) <;> exact ih
    | write buf =>
      refine ⟨by simp, ?_⟩
      rintro (code | n) <;> exact ih
    | resize size =>
      refine ⟨by simp, ?_⟩
      rintro (code | ⟨⟩) <;> exact ih

theorem late_drop (master : WindowsPtyMaster) (i : Session) : Late (master.drop i) := by
  refine ⟨by simp, ?_⟩
  rintro (_ | _)
  · exact late_closeAll _
  · exact (late_close _ _).bind fun _ => late_closeAll _

theorem closeless_closeAll (hs : List Handle) : Closeless (closeAll hs) := by
  induction hs with
  | nil => trivial
  | cons h hs ih => exact ⟨by simp, fun _ => ih⟩

theorem closeless_createPipePair (i : Session) : Closeless (createPipePair i) := by
  refine ⟨by simp, ?_⟩
  rintro (code | ends) <;> trivial

theorem closeless_createConsole (i : Session) (a b d e : Handle) (size : WinSize) :
    Closeless (createConsole i a b d e size) := by
  refine ⟨by simp, ?_⟩
  rintro (hr | hpc)
  · exact (closeless_closeAll _).bind fun _ => (closeless_closeAll _).bind fun _ => trivial
  · exact (closeless_closeAll _).bind fun _ => trivial

theorem closeless_createPty (i : Session) (size : WinSize) : Closeless (createPty i size) := by
  refine (closeless_createPipePair i).bind ?_
  rintro (e | ⟨a, b⟩)
  · trivial
  · refine (closeless_createPipePair i).bind ?_
    rintro (e | ⟨d, e⟩)
    · exact (closeless_closeAll _).bind fun _ => trivial
    · exact closeless_createConsole i a b d e size

theorem final_spawn (i : Session) (cmd : Command) (line : Result (List UInt16)) (size : WinSize) :
    Final (spawn i cmd line size) := by
  unfold spawn
  split
  · trivial
  · trivial
  · refine (closeless_createPty i size).final.bind ?_
    rintro (e | ⟨hpc, input, output⟩)
    · trivial
    · refine (late_spawnAttached i hpc _ cmd.cwd cmd.env).bind ?_
      rintro (e | ⟨process, pid⟩)
      · exact (late_close hpc output).bind fun _ => (late_closeAll _).bind fun _ => trivial
      · exact (late_spawnExitWatcher i process hpc).bind fun _ => trivial

theorem final_caller (i : Session) (plan : Plan) : Final (caller i plan) := by
  refine (final_spawn i plan.cmd plan.line plan.size).bind ?_
  rintro (e | ⟨master, process, pid⟩)
  · trivial
  · exact (late_use master plan.uses).bind fun _ => (late_drop master i).bind fun _ => trivial

def Spent (i : Session) (p : Pool Thread Answer (Option Handle) Kernel) : Prop :=
  Bare i p.state ∧ (p.state.closures i ≠ none ∨ Late (p.progs (.caller i)))

section Spent

variable {i : Session} {k k' : Kernel} {o : Call} {r : Answer o} {t u : Thread} {plans : Session → Plan}
  {p p' : Pool Thread Answer (Option Handle) Kernel}

theorem consoles_kernel (he : kernel k o r k') (ho : ∀ j a b size, o ≠ .createPseudoConsole j a b size) (c : Hpcon) :
    k'.consoles c = k.consoles c ∨ k'.consoles c = none := by
  cases o with
  | createPseudoConsole j a b size => exact absurd rfl (ho j a b size)
  | closePseudoConsole c' =>
    cases he
    by_cases hc : c = c'
    · subst hc
      exact .inr (Function.update_self ..)
    · exact .inl (Function.update_of_ne hc ..)
  | compareExchange t =>
    rcases compareExchange_cases he with ⟨_, _, rfl⟩ | ⟨_, _, rfl⟩ <;> exact .inl rfl
  | createPipe | createProcess | duplicate =>
    rcases r with code | r
    · cases he
      exact .inl rfl
    · obtain ⟨_, _, _, rfl⟩ := he
      exact .inl rfl
  | threadStart j =>
    cases he.2
    exact .inl rfl
  | _ =>
    cases he
    exact .inl rfl

theorem bare_kernel (he : kernel k o r k') (ho : ∀ j a b size, o ≠ .createPseudoConsole j a b size) (h : Bare i k) :
    Bare i k' := by
  intro c hc
  rcases consoles_kernel he ho c with heq | heq
  · exact h c (heq.symm.trans hc)
  · cases heq.symm.trans hc

theorem rely_of_move (t u : Thread) (hne : t ≠ u) (k k' : Kernel) (hm : Move t k k') : Rely u k k' := ⟨t, hne, hm⟩

theorem Spent.step (hp : Pool.Reaches kernel (sessions plans) p) (hs : Pool.Step kernel u o r p p') (h : Spent i p) :
    Spent i p' := by
  have hm : Move u p.state p'.state := hp.moved rely_of_move (guarded_sessions plans) hs
  obtain ⟨hbare, hlaunched | hlate⟩ := h
  · obtain ⟨cl, hcl⟩ := Option.ne_none_iff_exists'.mp hlaunched
    exact ⟨hm.bare (fun _ => hlaunched) hbare, .inl (by simp [hm.closures_some hcl])⟩
  · refine ⟨?_, .inr (hs.everywhere hlate)⟩
    by_cases hu : u = .caller i
    · subst hu
      obtain ⟨he, rest, hprog, -⟩ := Pool.Takes.inv (t := ⟨Thread.caller i, o, r⟩) hs
      rw [hprog] at hlate
      exact bare_kernel he hlate.1 hbare
    · exact hm.bare (fun hu' => absurd hu' hu) hbare

theorem Spent.reaches (hp : Pool.Reaches kernel (sessions plans) p) (h : Spent i p) (hr : Pool.Reaches kernel p p') :
    Spent i p' := by
  induction hr with
  | refl => exact h
  | tail hr hs ih =>
    obtain ⟨u, o, r, hs⟩ := hs
    exact ih.step (hp.trans hr) hs

theorem final_reaches (hp : Pool.Reaches kernel (sessions plans) p) (i : Session) : Final (p.progs (.caller i)) := by
  induction hp with
  | refl => exact final_caller i (plans i)
  | tail _ hs ih =>
    obtain ⟨u, o, r, hs⟩ := hs
    exact hs.everywhere ih

theorem spent_of_close {c : Hpcon} {rest : Unit → Prog Answer (Option Handle)}
    (hp : Pool.Reaches kernel (sessions plans) p) (hprog : p.progs t = .op (.closePseudoConsole c) rest) :
    Spent t.session ⟨Function.update p.progs t (rest ()), p.state.closeConsole c⟩ := by
  have hclosing : Closing t c p.state := hp.guarded rely_of_move (guarded_sessions plans) hprog
  refine ⟨hclosing.bare, ?_⟩
  cases t with
  | watcher i => exact .inl (hclosing.2 rfl)
  | caller i =>
    have hfinal := final_reaches hp i
    rw [hprog] at hfinal
    refine .inr ?_
    simpa [Thread.session] using hfinal.1 c rfl ()

theorem session_ne_of_closed {c c' : Hpcon} {rest rest' : Unit → Prog Answer (Option Handle)}
    (hp : Pool.Reaches kernel (sessions plans) p) (hprog : p.progs t = .op (.closePseudoConsole c) rest)
    (hr : Pool.Reaches kernel ⟨Function.update p.progs t (rest ()), p.state.closeConsole c⟩ p')
    (hprog' : p'.progs u = .op (.closePseudoConsole c') rest') : u.session ≠ t.session := by
  intro hsession
  have hstep : Pool.Step kernel t (.closePseudoConsole c) () p
      ⟨Function.update p.progs t (rest ()), p.state.closeConsole c⟩ := .op hprog rfl
  have hclosed := hp.tail ⟨t, .closePseudoConsole c, (), hstep⟩
  have hspent : Spent t.session p' := (spent_of_close hp hprog).reaches hclosed hr
  have hp' : Pool.Reaches kernel (sessions plans) p' := hclosed.trans hr
  have hclosing : Closing u c' p'.state := hp'.guarded rely_of_move (guarded_sessions plans) hprog'
  rw [← hsession] at hspent
  exact hspent.1 c' ((hclosing.1 c').mpr rfl)

end Spent

end Rustils.Pty.ConPty
