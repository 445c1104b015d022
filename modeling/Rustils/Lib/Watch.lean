import Mathlib.Data.Nat.Notation

namespace Rustils.Lib.Watch

variable {W P : Type}

inductive Run (env : W → W → Prop) (step : W → P → P → Prop) (w₀ : W) (p₀ : P) : ℕ → W → P → Prop
  | start : Run env step w₀ p₀ 0 w₀ p₀
  | world {n : ℕ} {w w' : W} {p : P} (h : Run env step w₀ p₀ n w p) (hw : env w w') : Run env step w₀ p₀ n w' p
  | step {n : ℕ} {w : W} {p p' : P} (h : Run env step w₀ p₀ n w p) (hs : step w p p') :
    Run env step w₀ p₀ (n + 1) w p'

variable {env : W → W → Prop} {step : W → P → P → Prop} {w₀ w : W} {p₀ p : P} {n : ℕ}

theorem Run.invariant {I : W → P → Prop} (h : Run env step w₀ p₀ n w p) (h₀ : I w₀ p₀)
    (hworld : ∀ w w' p, I w p → env w w' → I w' p) (hstep : ∀ w p p', I w p → step w p p' → I w p') : I w p := by
  induction h with
  | start => exact h₀
  | world _ hw ih => exact hworld _ _ _ ih hw
  | step _ hs ih => exact hstep _ _ _ ih hs

theorem Run.le {f : W → ℕ} (h : Run env step w₀ p₀ n w p) (hf : ∀ w w', env w w' → f w ≤ f w') : f w₀ ≤ f w := by
  apply h.invariant (I := fun w _ => f w₀ ≤ f w) (Nat.le_refl _)
  · intro w w' p hw henv
    exact Nat.le_trans hw (hf w w' henv)
  · intro w p p' hw hs
    exact hw

theorem Run.arrival (h : Run env step w₀ p₀ n w p) (hp : p ≠ p₀) :
    ∃ m u q, Run env step w₀ p₀ m u q ∧ step u q p ∧ Run env step u p 0 w p := by
  induction h with
  | start => exact absurd rfl hp
  | world _ hw ih =>
    obtain ⟨m, u, q, hrun, hs, hlast⟩ := ih hp
    exact ⟨m, u, q, hrun, hs, .world hlast hw⟩
  | step h hs _ => exact ⟨_, _, _, h, hs, .start⟩

end Rustils.Lib.Watch
