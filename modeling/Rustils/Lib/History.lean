import Rustils.Lib.Program
import Rustils.Lib.Trace

namespace Rustils.Lib.Program

open Lib.Trace

variable {O : Type} {R : O → Type} {S ι α : Type}

structure Taken (ι : Type) (R : O → Type) where
  call : ι
  op : O
  answer : R op

inductive Path : Prog R α → List (Σ o, R o) → Prog R α → Prop
  | nil (p : Prog R α) : Path p [] p
  | cons {o : O} {k : R o → Prog R α} {p : Prog R α} {r : R o} {hist : List (Σ o, R o)}
      (h : Path (k r) hist p) : Path (.op o k) (⟨o, r⟩ :: hist) p

theorem Path.concat {p : Prog R α} {o : O} {k : R o → Prog R α} {hist : List (Σ o, R o)}
    (h : Path p hist (.op o k)) (r : R o) : Path p (hist ++ [⟨o, r⟩]) (k r) := by
  generalize hq : Prog.op o k = q at h
  induction h with
  | nil p =>
    subst hq
    exact .cons (.nil _)
  | cons _ ih => exact .cons (ih hq)

theorem Path.ret_append {p p' : Prog R α} {a : α} {hist hist' : List (Σ o, R o)} (h : Path p hist (.ret a))
    (h' : Path p (hist ++ hist') p') : hist' = [] ∧ p' = .ret a := by
  generalize hq : Prog.ret a = q at h
  induction h with
  | nil p =>
    subst hq
    cases h'
    exact ⟨rfl, rfl⟩
  | cons _ ih =>
    cases h' with
    | cons h' => exact ih h' hq

def Everywhere (N : (o : O) → (R o → Prog R α) → Prop) : Prog R α → Prop
  | .ret _ => True
  | .op o k => N o k ∧ ∀ r, Everywhere N (k r)

theorem Everywhere.bind {β : Type} {N : O → Prop} {p : Prog R α} {f : α → Prog R β}
    (h : Everywhere (fun o _ => N o) p) (hf : ∀ a, Everywhere (fun o _ => N o) (f a)) :
    Everywhere (fun o _ => N o) (p >>= f) := by
  induction p with
  | ret a => exact hf a
  | op o k ih => exact ⟨h.1, fun r => ih r (h.2 r)⟩

theorem Path.everywhere {N : (o : O) → (R o → Prog R α) → Prop} {p p' : Prog R α}
    {hist : List (Σ o, R o)} (h : Path p hist p') (hp : Everywhere N p) :
    Everywhere N p' ∧ ∀ o r, ⟨o, r⟩ ∈ hist → ∃ k, N o k := by
  induction h with
  | nil p => exact ⟨hp, by rintro o r ⟨⟩⟩
  | @cons o k p r hist _ ih =>
    obtain ⟨hp', hmem⟩ := ih (hp.2 r)
    refine ⟨hp', ?_⟩
    intro o' r' ho
    rcases List.mem_cons.mp ho with ho | ho
    · cases ho
      exact ⟨k, hp.1⟩
    · exact hmem o' r' ho

def Ends (P : α → Prop) : Prog R α → Prop
  | .ret a => P a
  | .op _ k => ∀ r, Ends P (k r)

theorem Path.ends {P : α → Prop} {p p' : Prog R α} {hist : List (Σ o, R o)} (h : Path p hist p') (hp : Ends P p) :
    Ends P p' := by
  induction h with
  | nil p => exact hp
  | @cons o k p r hist _ ih => exact ih (hp r)

variable [DecidableEq ι]

def Pool.Takes (env : Env S R) (c : Pool ι R α S) (t : Taken ι R) (c' : Pool ι R α S) : Prop :=
  Pool.Step env t.call t.op t.answer c c'

theorem Pool.Takes.inv {env : Env S R} {c c' : Pool ι R α S} {t : Taken ι R}
    (h : Pool.Takes env c t c') :
    env c.state t.op t.answer c'.state ∧
      ∃ k, c.progs t.call = .op t.op k ∧ c'.progs = Function.update c.progs t.call (k t.answer) := by
  obtain ⟨p', hstep, hprogs⟩ := h.program
  generalize c.progs t.call = p at hstep
  cases hstep with
  | intro he => exact ⟨he, _, rfl, hprogs⟩

theorem Pool.Step.everywhere {N : (o : O) → (R o → Prog R α) → Prop} {env : Env S R} {c c' : Pool ι R α S} {i j : ι}
    {o : O} {r : R o} (hs : Pool.Step env i o r c c') (h : Everywhere N (c.progs j)) : Everywhere N (c'.progs j) := by
  obtain ⟨-, k, hp, hprogs⟩ := Pool.Takes.inv (t := ⟨i, o, r⟩) hs
  rw [hprogs]
  by_cases hj : j = i
  · subst hj
    rw [hp] at h
    rw [Function.update_self]
    exact h.2 r
  · rw [Function.update_of_ne hj]
    exact h

theorem run_op {env : Env S R} {c₀ c : Pool ι R α S} {tr : List (Taken ι R)}
    (h : Run (Pool.Takes env) c₀ tr c) (i : ι) (o : O) (r : R o) (s : S) {k : R o → Prog R α}
    (hp : c.progs i = .op o k) (he : env c.state o r s) :
    Run (Pool.Takes env) c₀ (tr ++ [⟨i, o, r⟩]) ⟨Function.update c.progs i (k r), s⟩ :=
  h.tail (Pool.Step.op hp he)

def history (i : ι) (tr : List (Taken ι R)) : List (Σ o, R o) :=
  tr.filterMap fun t => if t.call = i then some ⟨t.op, t.answer⟩ else none

theorem history_append {i : ι} {tr tr' : List (Taken ι R)} : history i (tr ++ tr') = history i tr ++ history i tr' :=
  List.filterMap_append

theorem history_concat {i : ι} {tr : List (Taken ι R)} {t : Taken ι R} :
    history i (tr ++ [t]) = history i tr ++ if t.call = i then [⟨t.op, t.answer⟩] else [] := by
  by_cases hi : t.call = i <;> simp [history, hi]

theorem mem_history {i : ι} {tr : List (Taken ι R)} {o : O} {r : R o} :
    ⟨o, r⟩ ∈ history i tr ↔ ⟨i, o, r⟩ ∈ tr := by
  rw [history, List.mem_filterMap]
  constructor
  · rintro ⟨⟨j, o', r'⟩, ht, he⟩
    simp only [Option.ite_none_right_eq_some, Option.some.injEq] at he
    obtain ⟨rfl, he⟩ := he
    cases he
    exact ht
  · intro ht
    exact ⟨_, ht, if_pos rfl⟩

theorem path_of_run {env : Env S R} {c₀ c : Pool ι R α S} {tr : List (Taken ι R)}
    (h : Run (Pool.Takes env) c₀ tr c) (i : ι) : Path (c₀.progs i) (history i tr) (c.progs i) := by
  induction h with
  | refl => exact .nil _
  | @tail tr c c' t _ hs ih =>
    obtain ⟨-, k, hp, hprogs⟩ := hs.inv
    rw [hprogs, history_concat]
    by_cases hi : t.call = i
    · subst hi
      rw [hp] at ih
      rw [Function.update_self, if_pos rfl]
      exact ih.concat t.answer
    · rw [Function.update_of_ne (Ne.symm hi), if_neg hi, List.append_nil]
      exact ih

end Rustils.Lib.Program
