import Mathlib.Logic.Relation

namespace Rustils.Lib.Graph

open Relation

variable {V L : Type} {edge edge' : V → L → V → Prop}

def Child (edge : V → L → V → Prop) (v u : V) : Prop := ∃ l, edge v l u

structure Forest (edge : V → L → V → Prop) : Prop where
  parent : ∀ v v' l l' u, edge v l u → edge v' l' u → v = v' ∧ l = l'
  acyclic : ∀ v, ¬ TransGen (Child edge) v v

theorem Forest.shrink (h : Forest edge) (hsub : ∀ v l u, edge' v l u → Child edge v u)
    (hlab : ∀ v l l' u, edge' v l u → edge' v l' u → l = l') : Forest edge' := by
  constructor
  · intro v v' l l' u he he'
    obtain ⟨k, hk⟩ := hsub v l u he
    obtain ⟨k', hk'⟩ := hsub v' l' u he'
    obtain ⟨rfl, -⟩ := h.parent v v' k k' u hk hk'
    exact ⟨rfl, hlab v l l' u he he'⟩
  · intro v hv
    apply h.acyclic v
    refine TransGen.mono ?_ v v hv
    rintro a b ⟨l, hl⟩
    exact hsub a l b hl

theorem Forest.mono (h : Forest edge) (hsub : ∀ v l u, edge' v l u → edge v l u) : Forest edge' := by
  apply h.shrink
  · intro v l u he
    exact ⟨l, hsub v l u he⟩
  · intro v l l' u he he'
    exact (h.parent v v l l' u (hsub v l u he) (hsub v l' u he')).2

theorem Forest.graft (h : Forest edge) (v u : V) (l : L) (hne : u ≠ v)
    (hin : ∀ w k, ¬ edge w k u) (hout : ∀ k w, ¬ edge u k w)
    (hedge : ∀ a k b, edge' a k b → edge a k b ∨ a = v ∧ k = l ∧ b = u) : Forest edge' := by
  have hleaf : ∀ b, ¬ Child edge' u b := by
    rintro b ⟨k, hk⟩
    rcases hedge u k b hk with hk | ⟨rfl, -⟩
    · exact hout k b hk
    · exact hne rfl
  constructor
  · intro a a' k k' b he he'
    rcases hedge a k b he with hk | ⟨rfl, rfl, rfl⟩
    · rcases hedge a' k' b he' with hk' | ⟨rfl, rfl, rfl⟩
      · exact h.parent a a' k k' b hk hk'
      · exact absurd hk (hin a k)
    · rcases hedge a' k' b he' with hk' | ⟨rfl, rfl, -⟩
      · exact absurd hk' (hin a' k')
      · exact ⟨rfl, rfl⟩
  · -- a path that takes the new edge ends there
    have hpath : ∀ a b, TransGen (Child edge') a b → TransGen (Child edge) a b ∨ b = u := by
      intro a b hab
      induction hab with
      | single hs =>
        obtain ⟨k, hk⟩ := hs
        rcases hedge _ k _ hk with hk | ⟨-, -, rfl⟩
        · exact .inl (.single ⟨k, hk⟩)
        · exact .inr rfl
      | tail _ hs ih =>
        rcases ih with ih | rfl
        · obtain ⟨k, hk⟩ := hs
          rcases hedge _ k _ hk with hk | ⟨-, -, rfl⟩
          · exact .inl (ih.tail ⟨k, hk⟩)
          · exact .inr rfl
        · exact absurd hs (hleaf _)
    intro a ha
    rcases hpath a a ha with ha' | rfl
    · exact h.acyclic a ha'
    · obtain ⟨b, hb, -⟩ := TransGen.head'_iff.mp ha
      exact hleaf b hb

end Rustils.Lib.Graph
