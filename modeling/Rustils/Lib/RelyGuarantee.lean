import Rustils.Lib.Transcript

namespace Rustils.Lib.Program

variable {O : Type} {R : O → Type} {S ι α β : Type}

/-- Whenever the others have moved by `rely`: `G` of every operation in the state it is issued in, `guar` of what
the operation does to the state, and `Q` of what is returned. -/
def Secure (env : Env S R) (rely guar : S → S → Prop) (G : S → O → Prop) (Q : α → S → Prop) : Prog R α → S → Prop
  | .ret a, s => ∀ t, Relation.ReflTransGen rely s t → Q a t
  | .op o k, s => ∀ t, Relation.ReflTransGen rely s t →
      G t o ∧ ∀ r t', env t o r t' → guar t t' ∧ Secure env rely guar G Q (k r) t'

section Secure

variable {env : Env S R} {rely guar : S → S → Prop} {G : S → O → Prop} {Q : α → S → Prop} {I : S → Prop} {s t : S}

theorem Secure.ret {a : α} (hI : Stable rely I) (hs : I s) (h : ∀ t, I t → Q a t) :
    Secure env rely guar G Q (.ret a) s := fun t hm => h t (hI.later hs hm)

theorem Secure.op {o : O} {k : R o → Prog R α} (hI : Stable rely I) (hs : I s) (hG : ∀ t, I t → G t o)
    (h : ∀ t r t', I t → env t o r t' → guar t t' ∧ Secure env rely guar G Q (k r) t') :
    Secure env rely guar G Q (.op o k) s := by
  intro t hm
  have ht : I t := hI.later hs hm
  exact ⟨hG t ht, fun r t' he => h t r t' ht he⟩

theorem Secure.later {p : Prog R α} (h : Secure env rely guar G Q p s) (hm : Relation.ReflTransGen rely s t) :
    Secure env rely guar G Q p t := by
  cases p with
  | ret a => exact fun u hu => h u (hm.trans hu)
  | op o k => exact fun u hu => h u (hm.trans hu)

theorem Secure.bind {P : β → S → Prop} {p : Prog R α} {f : α → Prog R β} (h : Secure env rely guar G Q p s)
    (hf : ∀ a t, Q a t → Secure env rely guar G P (f a) t) : Secure env rely guar G P (p >>= f) s := by
  induction p generalizing s with
  | ret a => exact hf a s (h s .refl)
  | op o k ih =>
    intro t hm
    obtain ⟨hG, hk⟩ := h t hm
    refine ⟨hG, fun r t' he => ?_⟩
    obtain ⟨hguar, hrest⟩ := hk r t' he
    exact ⟨hguar, ih r hrest⟩

end Secure

variable [DecidableEq ι]

section Pool

variable {env : Env S R} {rely guar : ι → S → S → Prop} {G : ι → S → O → Prop} {Q : ι → α → S → Prop}
  {c₀ c : Pool ι R α S}

theorem Pool.Reaches.secure (hothers : ∀ i j, i ≠ j → ∀ s t, guar i s t → rely j s t)
    (h₀ : ∀ i, Secure env (rely i) (guar i) (G i) (Q i) (c₀.progs i) c₀.state) (h : Pool.Reaches env c₀ c) :
    ∀ i, Secure env (rely i) (guar i) (G i) (Q i) (c.progs i) c.state := by
  refine h.invariant (P := fun c => ∀ i, Secure env (rely i) (guar i) (G i) (Q i) (c.progs i) c.state) h₀ ?_
  intro c c' i o r _ ih hstep j
  obtain ⟨p', hs, hprogs⟩ := hstep.program
  have hi := ih i
  generalize hp : c.progs i = p at hs hi
  generalize hst : c.state = s at hs hi
  generalize hst' : c'.state = s' at hs
  obtain ⟨he⟩ := hs
  obtain ⟨-, hk⟩ := hi s .refl
  obtain ⟨hguar, hrest⟩ := hk r s' he
  rw [hprogs]
  by_cases hj : j = i
  · subst hj
    rw [Function.update_self]
    exact hrest
  · rw [Function.update_of_ne hj]
    have hj' := ih j
    rw [hst] at hj'
    exact hj'.later (.single (hothers i j (Ne.symm hj) _ _ hguar))

theorem Pool.Reaches.guarded (hothers : ∀ i j, i ≠ j → ∀ s t, guar i s t → rely j s t)
    (h₀ : ∀ i, Secure env (rely i) (guar i) (G i) (Q i) (c₀.progs i) c₀.state) (h : Pool.Reaches env c₀ c)
    {i : ι} {o : O} {k : R o → Prog R α} (hp : c.progs i = .op o k) : G i c.state o := by
  have hi := h.secure hothers h₀ i
  rw [hp] at hi
  exact (hi c.state .refl).1

theorem Pool.Reaches.moved (hothers : ∀ i j, i ≠ j → ∀ s t, guar i s t → rely j s t)
    (h₀ : ∀ i, Secure env (rely i) (guar i) (G i) (Q i) (c₀.progs i) c₀.state) (h : Pool.Reaches env c₀ c)
    {i : ι} {o : O} {r : R o} {c' : Pool ι R α S} (hs : Pool.Step env i o r c c') : guar i c.state c'.state := by
  obtain ⟨p', hs, -⟩ := hs.program
  have hi := h.secure hothers h₀ i
  generalize c.progs i = p at hs hi
  generalize c.state = s at hs hi
  generalize c'.state = s' at hs
  obtain ⟨he⟩ := hs
  exact ((hi s .refl).2 r s' he).1

theorem Pool.Reaches.returned (hothers : ∀ i j, i ≠ j → ∀ s t, guar i s t → rely j s t)
    (h₀ : ∀ i, Secure env (rely i) (guar i) (G i) (Q i) (c₀.progs i) c₀.state) (h : Pool.Reaches env c₀ c)
    {i : ι} {a : α} (hp : c.progs i = .ret a) : Q i a c.state := by
  have hi := h.secure hothers h₀ i
  rw [hp] at hi
  exact hi c.state .refl

end Pool

end Rustils.Lib.Program
