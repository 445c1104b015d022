import Rustils.Lib.Program

namespace Rustils.Lib.Program

variable {O : Type} {R : O → Type} {α β : Type}

abbrev Transcript (R : O → Type) := List (Σ o, R o)

inductive Runs : Prog R α → Transcript R → α → Prop
  | ret (a : α) : Runs (.ret a) [] a
  | op {o : O} {k : R o → Prog R α} {tr : Transcript R} {a : α} (r : R o) (h : Runs (k r) tr a) :
    Runs (.op o k) (⟨o, r⟩ :: tr) a

variable {p : Prog R α} {tr : Transcript R} {a b : α}

theorem runs_ret : Runs (.ret a) tr b ↔ tr = [] ∧ b = a := by
  constructor
  · rintro ⟨⟩
    exact ⟨rfl, rfl⟩
  · rintro ⟨rfl, rfl⟩
    exact .ret _

theorem runs_op {o : O} {k : R o → Prog R α} : Runs (.op o k) tr b ↔ ∃ r tr', tr = ⟨o, r⟩ :: tr' ∧ Runs (k r) tr' b := by
  constructor
  · rintro (_ | ⟨r, h⟩)
    exact ⟨r, _, rfl, h⟩
  · rintro ⟨r, tr', rfl, h⟩
    exact .op r h

theorem Runs.bind {f : α → Prog R β} {tr₂ : Transcript R} {c : β} (h : Runs p tr a) (hf : Runs (f a) tr₂ c) :
    Runs (p >>= f) (tr ++ tr₂) c := by
  induction h with
  | ret a => exact hf
  | op r _ ih => exact .op r (ih hf)

theorem runs_bind {f : α → Prog R β} {c : β} :
    Runs (p >>= f) tr c ↔ ∃ tr₁ tr₂ a, tr = tr₁ ++ tr₂ ∧ Runs p tr₁ a ∧ Runs (f a) tr₂ c := by
  constructor
  · intro h
    induction p generalizing tr with
    | ret a => exact ⟨[], tr, a, rfl, .ret a, h⟩
    | op o k ih =>
      rw [op_bind] at h
      obtain ⟨r, tr', rfl, hk⟩ := runs_op.mp h
      obtain ⟨tr₁, tr₂, a, rfl, h₁, h₂⟩ := ih r hk
      exact ⟨_, tr₂, a, rfl, .op r h₁, h₂⟩
  · rintro ⟨tr₁, tr₂, a, rfl, h₁, h₂⟩
    exact h₁.bind h₂

variable {S : Type} {env : Env S R} {s s' : S}

inductive Follows (env : Env S R) : S → Transcript R → S → Prop
  | nil (s : S) : Follows env s [] s
  | cons {s s' s'' : S} {o : O} {r : R o} {tr : Transcript R} (h : env s o r s') (ht : Follows env s' tr s'') :
    Follows env s (⟨o, r⟩ :: tr) s''

theorem follows_nil : Follows env s [] s' ↔ s' = s := by
  constructor
  · rintro ⟨⟩
    rfl
  · rintro rfl
    exact .nil _

theorem follows_cons {o : O} {r : R o} :
    Follows env s (⟨o, r⟩ :: tr) s' ↔ ∃ s₁, env s o r s₁ ∧ Follows env s₁ tr s' := by
  constructor
  · rintro (_ | ⟨h, ht⟩)
    exact ⟨_, h, ht⟩
  · rintro ⟨s₁, h, ht⟩
    exact .cons h ht

theorem follows_append {tr' : Transcript R} :
    Follows env s (tr ++ tr') s' ↔ ∃ s₁, Follows env s tr s₁ ∧ Follows env s₁ tr' s' := by
  induction tr generalizing s with
  | nil => simp [follows_nil]
  | cons x tr ih =>
    obtain ⟨o, r⟩ := x
    rw [List.cons_append, follows_cons]
    constructor
    · rintro ⟨s₁, h, ht⟩
      obtain ⟨s₂, h₁, h₂⟩ := ih.mp ht
      exact ⟨s₂, .cons h h₁, h₂⟩
    · rintro ⟨s₂, h₁, h₂⟩
      obtain ⟨s₁, h, ht⟩ := follows_cons.mp h₁
      exact ⟨s₁, h, ih.mpr ⟨s₂, ht, h₂⟩⟩

theorem reaches_ret_iff : Reaches env (p, s) (.ret a, s') ↔ ∃ tr, Runs p tr a ∧ Follows env s tr s' := by
  induction p generalizing s with
  | ret b =>
    rw [reaches_ret]
    constructor
    · rintro ⟨⟩
      exact ⟨[], .ret _, .nil _⟩
    · rintro ⟨tr, hruns, hfollows⟩
      obtain ⟨rfl, rfl⟩ := runs_ret.mp hruns
      cases hfollows
      rfl
  | op o k ih =>
    rw [reaches_op]
    constructor
    · rintro (h | ⟨r, s₁, he, hr⟩)
      · cases h
      · obtain ⟨tr, hruns, hfollows⟩ := (ih r).mp hr
        exact ⟨_, .op r hruns, .cons he hfollows⟩
    · rintro ⟨tr, hruns, hfollows⟩
      obtain ⟨r, tr', rfl, hk⟩ := runs_op.mp hruns
      obtain ⟨s₁, he, hrest⟩ := follows_cons.mp hfollows
      exact .inr ⟨r, s₁, he, (ih r).mpr ⟨tr', hk, hrest⟩⟩

def Env.amid (env : Env S R) (move : S → S → Prop) : Env S R :=
  fun s o r s' => ∃ s₁, Relation.ReflTransGen move s s₁ ∧ env s₁ o r s'

def Stable (move : S → S → Prop) (I : S → Prop) : Prop := ∀ s s', I s → move s s' → I s'

theorem Stable.later {move : S → S → Prop} {I : S → Prop} (h : Stable move I) (hs : I s)
    (hm : Relation.ReflTransGen move s s') : I s' := by
  induction hm with
  | refl => exact hs
  | tail _ hm ih => exact h _ _ ih hm

theorem Stable.and {move : S → S → Prop} {I J : S → Prop} (hI : Stable move I) (hJ : Stable move J) :
    Stable move fun s => I s ∧ J s := fun s s' h hm => ⟨hI s s' h.1 hm, hJ s s' h.2 hm⟩

theorem Safe.amid {move : S → S → Prop} {I : S → Prop} {Q : α → S → Prop} {o : O} {k : R o → Prog R α}
    (h : Stable move I) (hs : I s)
    (hk : ∀ s₁ r s', I s₁ → env s₁ o r s' → Safe (env.amid move) (fun _ _ => True) Q (k r) s') :
    Safe (env.amid move) (fun _ _ => True) Q (.op o k) s := by
  refine ⟨trivial, ?_⟩
  rintro r s' ⟨s₁, hm, he⟩
  exact hk s₁ r s' (h.later hs hm) he

end Rustils.Lib.Program
