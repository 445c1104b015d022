import Mathlib.Logic.Relation
import Mathlib.Logic.Function.Basic

namespace Rustils.Lib.Program

variable {O : Type} {R : O → Type} {S ι α β : Type}

inductive Prog (R : O → Type) (α : Type)
  | ret (a : α)
  | op (o : O) (k : R o → Prog R α)

def Prog.bind : Prog R α → (α → Prog R β) → Prog R β
  | .ret a, f => f a
  | .op o k, f => .op o fun r => (k r).bind f

instance : Monad (Prog R) where
  pure := .ret
  bind := .bind

def Prog.call (o : O) : Prog R (R o) := .op o .ret

@[simp] theorem op_bind (o : O) (k : R o → Prog R α) (f : α → Prog R β) :
    (Prog.op o k >>= f) = .op o fun r => k r >>= f := rfl

abbrev Env (S : Type) (R : O → Type) := S → (o : O) → R o → S → Prop

def Env.Total (env : Env S R) : Prop := ∀ s o, ∃ r s', env s o r s'

inductive Step (env : Env S R) (o : O) (r : R o) : Prog R α × S → Prog R α × S → Prop
  | intro {s s' : S} {k : R o → Prog R α} (h : env s o r s') : Step env o r (.op o k, s) (k r, s')

def Next (env : Env S R) (c c' : Prog R α × S) : Prop := ∃ o r, Step env o r c c'

def Reaches (env : Env S R) : Prog R α × S → Prog R α × S → Prop := Relation.ReflTransGen (Next env)

theorem Next.op {env : Env S R} {o : O} {r : R o} {s s' : S} (k : R o → Prog R α)
    (h : env s o r s') : Next env (.op o k, s) (k r, s') := ⟨o, r, .intro h⟩

theorem Reaches.op {env : Env S R} {c : Prog R α × S} {p : Prog R α} {s : S}
    (h : Reaches env c (p, s)) (o : O) (r : R o) (s' : S) {k : R o → Prog R α} (hp : p = .op o k)
    (he : env s o r s') : Reaches env c (k r, s') := by
  subst hp
  exact h.tail (.op k he)

theorem reaches_ret {env : Env S R} {a : α} {s : S} {c : Prog R α × S} :
    Reaches env (.ret a, s) c ↔ c = (.ret a, s) := by
  constructor
  · intro h
    rcases h.cases_head with h | ⟨_, ⟨o, r, ⟨⟩⟩, _⟩
    exact h.symm
  · rintro rfl
    exact .refl

theorem reaches_op {env : Env S R} {o : O} {k : R o → Prog R α} {s : S} {c : Prog R α × S} :
    Reaches env (.op o k, s) c ↔
      c = (.op o k, s) ∨ ∃ r s', env s o r s' ∧ Reaches env (k r, s') c := by
  constructor
  · intro h
    rcases h.cases_head with h | ⟨_, ⟨o, r, ⟨he⟩⟩, h⟩
    · exact .inl h.symm
    · exact .inr ⟨r, _, he, h⟩
  · rintro (rfl | ⟨r, s', he, h⟩)
    · exact .refl
    · exact .head (.op k he) h

theorem Env.Total.returns {env : Env S R} (h : env.Total) (p : Prog R α) (s : S) :
    ∃ a s', Reaches env (p, s) (.ret a, s') := by
  induction p generalizing s with
  | ret a => exact ⟨a, s, .refl⟩
  | op o k ih =>
    obtain ⟨r, s₁, he⟩ := h s o
    obtain ⟨a, s', hr⟩ := ih r s₁
    exact ⟨a, s', .head (.op k he) hr⟩

theorem Reaches.bind_left {env : Env S R} {p p' : Prog R α} {s s' : S}
    (h : Reaches env (p, s) (p', s')) (f : α → Prog R β) :
    Reaches env (p >>= f, s) (p' >>= f, s') := by
  induction p generalizing s with
  | ret a =>
    cases reaches_ret.mp h
    exact .refl
  | op o k ih =>
    rcases reaches_op.mp h with h | ⟨r, s₁, he, h⟩
    · cases h
      exact .refl
    · exact .head (.op _ he) (ih r h)

def Issues (env : Env S R) (p : Prog R α) (s : S) (o : O) (s' : S) : Prop :=
  ∃ k, Reaches env (p, s) (.op o k, s')

theorem issues_op {env : Env S R} {o : O} {k : R o → Prog R α} {s : S} :
    Issues env (.op o k) s o s := ⟨k, .refl⟩

theorem Reaches.issues {env : Env S R} {p p' : Prog R α} {s s' t : S} {o : O}
    (h : Reaches env (p, s) (p', s')) (h' : Issues env p' s' o t) : Issues env p s o t := by
  obtain ⟨k, hk⟩ := h'
  exact ⟨k, h.trans hk⟩

theorem Issues.bind {env : Env S R} {p : Prog R α} {s s' : S} {o : O} (h : Issues env p s o s')
    (f : α → Prog R β) : Issues env (p >>= f) s o s' := by
  obtain ⟨k, hk⟩ := h
  exact ⟨fun r => k r >>= f, hk.bind_left f⟩

def Safe (env : Env S R) (G : S → O → Prop) (Q : α → S → Prop) : Prog R α → S → Prop
  | .ret a, s => Q a s
  | .op o k, s => G s o ∧ ∀ r s', env s o r s' → Safe env G Q (k r) s'

section Safe

variable {env : Env S R} {G : S → O → Prop} {Q : α → S → Prop} {p : Prog R α} {s : S}

theorem Safe.bind {P : β → S → Prop} {f : α → Prog R β} (h : Safe env G Q p s)
    (hf : ∀ a s', Q a s' → Safe env G P (f a) s') : Safe env G P (p >>= f) s := by
  induction p generalizing s with
  | ret a => exact hf a s h
  | op o k ih => exact ⟨h.1, fun r s' he => ih r (h.2 r s' he)⟩

theorem Safe.of_bind {P : β → S → Prop} {f : α → Prog R β} (h : Safe env G P (p >>= f) s) :
    Safe env G (fun a s' => Safe env G P (f a) s') p s := by
  induction p generalizing s with
  | ret a => exact h
  | op o k ih => exact ⟨h.1, fun r s' he => ih r (h.2 r s' he)⟩

theorem Safe.mono {P : α → S → Prop} (h : Safe env G Q p s) (hP : ∀ a s', Q a s' → P a s') :
    Safe env G P p s := by
  induction p generalizing s with
  | ret a => exact hP a s h
  | op o k ih => exact ⟨h.1, fun r s' he => ih r (h.2 r s' he)⟩

theorem Safe.reaches {c : Prog R α × S} (h : Safe env G Q p s) (hc : Reaches env (p, s) c) :
    Safe env G Q c.1 c.2 := by
  induction p generalizing s with
  | ret a =>
    rw [reaches_ret.mp hc]
    exact h
  | op o k ih =>
    rcases reaches_op.mp hc with rfl | ⟨r, s', he, hc⟩
    · exact h
    · exact ih r (h.2 r s' he) hc

end Safe

def May (env : Env S R) (Q : α → S → Prop) (p : Prog R α) (s : S) : Prop :=
  ∃ a s', Reaches env (p, s) (.ret a, s') ∧ Q a s'

section May

variable {env : Env S R} {Q : α → S → Prop} {s s' : S}

theorem May.op {o : O} {r : R o} {k : R o → Prog R α} (he : env s o r s') (h : May env Q (k r) s') :
    May env Q (.op o k) s := by
  obtain ⟨a, s'', hr, hq⟩ := h
  exact ⟨a, s'', .head (.op k he) hr, hq⟩

theorem May.bind {P : β → S → Prop} {p : Prog R α} {f : α → Prog R β} (h : May env Q p s)
    (hf : ∀ a s', Q a s' → May env P (f a) s') : May env P (p >>= f) s := by
  obtain ⟨a, s', hr, hq⟩ := h
  obtain ⟨b, s'', hr', hp⟩ := hf a s' hq
  exact ⟨b, s'', (hr.bind_left f).trans hr', hp⟩

theorem Safe.may {G : S → O → Prop} {p : Prog R α} {P : α → S → Prop} (h : Safe env G Q p s) (hm : May env P p s) :
    ∃ a s', Q a s' ∧ P a s' := by
  obtain ⟨a, s', hr, hp⟩ := hm
  exact ⟨a, s', h.reaches hr, hp⟩

end May

structure Pool (ι : Type) (R : O → Type) (α S : Type) where
  progs : ι → Prog R α
  state : S

variable [DecidableEq ι]

inductive Pool.Step (env : Env S R) (i : ι) (o : O) (r : R o) : Pool ι R α S → Pool ι R α S → Prop
  | intro {c : Pool ι R α S} {p' : Prog R α} {s' : S}
      (h : Program.Step env o r (c.progs i, c.state) (p', s')) :
      Pool.Step env i o r c ⟨Function.update c.progs i p', s'⟩

theorem Pool.Step.op {env : Env S R} {i : ι} {o : O} {r : R o} {c : Pool ι R α S} {s' : S}
    {k : R o → Prog R α} (hp : c.progs i = .op o k) (h : env c.state o r s') :
    Pool.Step env i o r c ⟨Function.update c.progs i (k r), s'⟩ := by
  constructor
  rw [hp]
  exact .intro h

theorem Pool.Step.program {env : Env S R} {i : ι} {o : O} {r : R o} {c c' : Pool ι R α S}
    (h : Pool.Step env i o r c c') :
    ∃ p', Program.Step env o r (c.progs i, c.state) (p', c'.state) ∧
      c'.progs = Function.update c.progs i p' := by
  obtain ⟨h⟩ := h
  exact ⟨_, h, rfl⟩

def Pool.Reaches (env : Env S R) : Pool ι R α S → Pool ι R α S → Prop :=
  Relation.ReflTransGen fun c c' => ∃ i o r, Pool.Step env i o r c c'

theorem Pool.Reaches.run {env : Env S R} {c₀ c : Pool ι R α S} {p' : Prog R α} {s' : S}
    (h : Pool.Reaches env c₀ c) (i : ι) (hr : Program.Reaches env (c.progs i, c.state) (p', s')) :
    Pool.Reaches env c₀ ⟨Function.update c.progs i p', s'⟩ := by
  generalize hc : (p', s') = d at hr
  induction hr generalizing p' s' with
  | refl =>
    cases hc
    rw [Function.update_eq_self]
    exact h
  | tail _ hs ih =>
    subst hc
    obtain ⟨o, r, hs⟩ := hs
    cases hs with
    | @intro s _ k he =>
      have hs := Pool.Step.op (c := ⟨Function.update c.progs i (.op o k), s⟩)
        (Function.update_self i _ c.progs) he
      rw [Function.update_idem] at hs
      exact (ih rfl).tail ⟨i, o, r, hs⟩

theorem Pool.Reaches.invariant {env : Env S R} {P : Pool ι R α S → Prop} {c₀ c : Pool ι R α S}
    (h : Pool.Reaches env c₀ c) (h₀ : P c₀)
    (hP : ∀ c c' i o r, Pool.Reaches env c₀ c → P c → Pool.Step env i o r c c' → P c') : P c := by
  induction h with
  | refl => exact h₀
  | tail hr hs ih =>
    obtain ⟨i, o, r, hs⟩ := hs
    exact hP _ _ i o r hr ih hs

end Rustils.Lib.Program
