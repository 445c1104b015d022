import Mathlib.Init

namespace Rustils.Lib.Trace

variable {S L : Type}

inductive Run (step : S → L → S → Prop) (s₀ : S) : List L → S → Prop
  | refl : Run step s₀ [] s₀
  | tail {tr : List L} {s s' : S} {e : L} (h : Run step s₀ tr s) (hs : step s e s') :
    Run step s₀ (tr ++ [e]) s'

variable {step : S → L → S → Prop} {s₀ s s' : S} {tr tr₁ tr₂ : List L} {e : L}

theorem run_nil : Run step s₀ [] s ↔ s = s₀ := by
  constructor
  · intro h
    generalize htr : ([] : List L) = tr at h
    cases h with
    | refl => rfl
    | tail => cases List.append_eq_nil_iff.mp htr.symm |>.2
  · rintro rfl
    exact .refl

theorem run_concat : Run step s₀ (tr ++ [e]) s' ↔ ∃ s, Run step s₀ tr s ∧ step s e s' := by
  constructor
  · intro h
    generalize htr : tr ++ [e] = tr' at h
    cases h with
    | refl => cases List.append_eq_nil_iff.mp htr |>.2
    | tail h hs =>
      obtain ⟨rfl, he⟩ := List.append_inj' htr rfl
      cases he
      exact ⟨_, h, hs⟩
  · rintro ⟨s, h, hs⟩
    exact .tail h hs

theorem run_append :
    Run step s₀ (tr₁ ++ tr₂) s' ↔ ∃ s, Run step s₀ tr₁ s ∧ Run step s tr₂ s' := by
  constructor
  · intro h
    generalize htr : tr₁ ++ tr₂ = tr at h
    induction h generalizing tr₂ with
    | refl =>
      obtain ⟨rfl, rfl⟩ := List.append_eq_nil_iff.mp htr
      exact ⟨_, .refl, .refl⟩
    | @tail tr s s' e h hs ih =>
      rcases List.eq_nil_or_concat tr₂ with rfl | ⟨tr₃, e', rfl⟩
      · rw [List.append_nil] at htr
        rw [htr]
        exact ⟨s', .tail h hs, .refl⟩
      · rw [List.concat_eq_append, ← List.append_assoc] at htr
        obtain ⟨hpre, he⟩ := List.append_inj' htr rfl
        cases he
        obtain ⟨u, h₁, h₂⟩ := ih hpre
        rw [List.concat_eq_append]
        exact ⟨u, h₁, .tail h₂ hs⟩
  · rintro ⟨s, h₁, h₂⟩
    induction h₂ with
    | refl =>
      rw [List.append_nil]
      exact h₁
    | tail _ hs ih =>
      rw [← List.append_assoc]
      exact .tail ih hs

theorem run_mid : Run step s₀ (tr₁ ++ e :: tr₂) s' ↔
    ∃ s₁ s₂, Run step s₀ tr₁ s₁ ∧ step s₁ e s₂ ∧ Run step s₂ tr₂ s' := by
  rw [← List.singleton_append, ← List.append_assoc, run_append]
  constructor
  · rintro ⟨s₂, h, h₂⟩
    obtain ⟨s₁, h₁, hs⟩ := run_concat.mp h
    exact ⟨s₁, s₂, h₁, hs, h₂⟩
  · rintro ⟨s₁, s₂, h₁, hs, h₂⟩
    exact ⟨s₂, .tail h₁ hs, h₂⟩

theorem Run.mono {step' : S → L → S → Prop} (h : Run step s₀ tr s)
    (hstep : ∀ s e s', step s e s' → step' s e s') : Run step' s₀ tr s := by
  induction h with
  | refl => exact .refl
  | tail _ hs ih => exact .tail ih (hstep _ _ _ hs)

end Rustils.Lib.Trace
