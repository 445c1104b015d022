import Mathlib.Data.Nat.Notation
import Rustils.Lib.Trace

namespace Rustils.Lib.Progress

open Trace

variable {S L : Type} {step : S → L → S → Prop} {s s' : S} {tr : List L}

def Stuck (step : S → L → S → Prop) (s : S) : Prop := ∀ e s', ¬step s e s'

structure Descends (step : S → L → S → Prop) (I : S → Prop) (μ : S → ℕ) : Prop where
  keeps : ∀ s e s', I s → step s e s' → I s'
  lowers : ∀ s e s', I s → step s e s' → μ s' < μ s

section Descends

variable {I : S → Prop} {μ : S → ℕ}

theorem Descends.kept (hμ : Descends step I μ) (hs : I s) (h : Run step s tr s') : I s' := by
  induction h with
  | refl => exact hs
  | tail _ hs ih => exact hμ.keeps _ _ _ ih hs

theorem Descends.length_le (hμ : Descends step I μ) (hs : I s) (h : Run step s tr s') : tr.length + μ s' ≤ μ s := by
  induction h with
  | refl => simp
  | tail h hstep ih =>
    have hlt := hμ.lowers _ _ _ (hμ.kept hs h) hstep
    rw [List.length_append, List.length_singleton]
    omega

theorem Descends.exists_stuck (hμ : Descends step I μ) (hs : I s) : ∃ tr s', Run step s tr s' ∧ Stuck step s' := by
  induction hn : μ s using Nat.strongRecOn generalizing s with
  | ind n ih =>
    by_cases h : Stuck step s
    · exact ⟨[], s, .refl, h⟩
    · simp only [Stuck, Classical.not_forall, Classical.not_not] at h
      obtain ⟨e, s₁, hstep⟩ := h
      obtain ⟨tr, s', hrun, hstuck⟩ := ih (μ s₁) (hn ▸ hμ.lowers _ _ _ hs hstep) (hμ.keeps _ _ _ hs hstep) rfl
      exact ⟨[e] ++ tr, s', run_append.mpr ⟨s₁, .tail .refl hstep, hrun⟩, hstuck⟩

end Descends

theorem run_restrict {p : L → Prop} (h : Run step s tr s') (htr : ∀ e ∈ tr, p e) :
    Run (fun s e s' => step s e s' ∧ p e) s tr s' := by
  induction h with
  | refl => exact .refl
  | @tail tr s s' e h hs ih => exact .tail (ih fun e he => htr e (by simp [he])) ⟨hs, htr e (by simp)⟩

end Rustils.Lib.Progress
