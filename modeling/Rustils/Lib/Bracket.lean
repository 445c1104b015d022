import Rustils.Lib.Trace

namespace Rustils.Lib.Bracket

open Trace

variable {S A Y : Type}

structure Device (S A Y : Type) where
  enter : S → List Y → Option A → S → Prop
  restore : A → S → List Y → Bool → S → Prop

structure Handle (S A : Type) where
  state : S
  saved : Option A

inductive Event (Y : Type)
  | enter (log : List Y) (ok : Bool)
  | leave (log : List Y) (ok : Bool)
  | other

/-- To leave gives up what was saved, whether the device takes it back or not. -/
inductive Device.Step (d : Device S A Y) (move : S → S → Prop) : Handle S A → Event Y → Handle S A → Prop
  | entered {s s' : S} {log : List Y} {a : A} (h : d.enter s log (some a) s') :
    Step d move ⟨s, none⟩ (.enter log true) ⟨s', some a⟩
  | refused {s s' : S} {log : List Y} (h : d.enter s log none s') : Step d move ⟨s, none⟩ (.enter log false) ⟨s', none⟩
  | again (s : S) (a : A) : Step d move ⟨s, some a⟩ (.enter [] true) ⟨s, some a⟩
  | left {s s' : S} {log : List Y} {a : A} {ok : Bool} (h : d.restore a s log ok s') :
    Step d move ⟨s, some a⟩ (.leave log ok) ⟨s', none⟩
  | idle (s : S) : Step d move ⟨s, none⟩ (.leave [] true) ⟨s, none⟩
  | other {s s' : S} (saved : Option A) (h : move s s') : Step d move ⟨s, saved⟩ .other ⟨s', saved⟩

def NoLeave (tr : List (Event Y)) : Prop := ∀ log ok, .leave log ok ∉ tr

def Entered (tr : List (Event Y)) : Prop := ∃ tr₁ log tr₂, tr = tr₁ ++ .enter log true :: tr₂ ∧ NoLeave tr₂

def Opened (tr : List (Event Y)) (log : List Y) : Prop :=
  ∃ tr₁ tr₂, tr = tr₁ ++ .enter log true :: tr₂ ∧ ¬Entered tr₁ ∧ NoLeave tr₂

variable {d : Device S A Y} {move : S → S → Prop} {step : Handle S A → Event Y → Handle S A → Prop}
  {h h' : Handle S A} {s₀ : S} {tr : List (Event Y)} {e : Event Y} {log : List Y} {a : A}

theorem noLeave_concat : NoLeave (tr ++ [e]) ↔ NoLeave tr ∧ ∀ log ok, e ≠ .leave log ok := by
  simp only [NoLeave, List.mem_append, List.mem_singleton, not_or, forall_and, ne_comm, Ne]

theorem entered_concat : Entered (tr ++ [e]) ↔ (∃ log, e = .enter log true) ∨ Entered tr ∧ ∀ log ok, e ≠ .leave log ok := by
  constructor
  · rintro ⟨tr₁, log, tr₂, heq, hleave⟩
    rcases List.eq_nil_or_concat tr₂ with rfl | ⟨tr₂, e', rfl⟩
    · have he := (List.append_inj' heq rfl).2
      exact .inl ⟨log, List.singleton_inj.mp he⟩
    · rw [List.concat_eq_append, ← List.cons_append, ← List.append_assoc] at heq
      obtain ⟨rfl, he⟩ := List.append_inj' heq rfl
      cases he
      rw [List.concat_eq_append, noLeave_concat] at hleave
      exact .inr ⟨⟨tr₁, log, tr₂, rfl, hleave.1⟩, hleave.2⟩
  · rintro (⟨log, rfl⟩ | ⟨⟨tr₁, log, tr₂, rfl, hleave⟩, he⟩)
    · exact ⟨tr, log, [], rfl, by simp [NoLeave]⟩
    · exact ⟨tr₁, log, tr₂ ++ [e], by simp, noLeave_concat.mpr ⟨hleave, he⟩⟩

theorem Opened.concat (h : Opened tr log) (he : ∀ log ok, e ≠ .leave log ok) : Opened (tr ++ [e]) log := by
  obtain ⟨tr₁, tr₂, rfl, hnot, hleave⟩ := h
  exact ⟨tr₁, tr₂ ++ [e], by simp, hnot, noLeave_concat.mpr ⟨hleave, he⟩⟩

section Run

-- `step` is what the calls of a handle do
variable (hstep : ∀ h e h', step h e h' → d.Step move h e h')

include hstep

theorem saved_isSome (hr : Run step ⟨s₀, none⟩ tr h) : h.saved.isSome ↔ Entered tr := by
  induction hr with
  | refl => simp [Entered]
  | @tail tr h h' e hr hs ih =>
    rw [entered_concat]
    cases hstep _ _ _ hs with
    | entered | again => simp
    | refused => simpa using ih
    | left | idle => simp
    | other => simpa using ih

theorem opened_of_run (hr : Run step ⟨s₀, none⟩ tr h) (ha : h.saved = some a) :
    ∃ log s s', Opened tr log ∧ d.enter s log (some a) s' := by
  induction hr with
  | refl => cases ha
  | @tail tr h h' e hr hs ih =>
    have later : h.saved = some a → (∀ log ok, e ≠ .leave log ok) →
        ∃ log s s', Opened (tr ++ [e]) log ∧ d.enter s log (some a) s' := by
      intro ha he
      obtain ⟨log, s, s', hopened, henter⟩ := ih ha
      exact ⟨log, s, s', hopened.concat he, henter⟩
    cases hstep _ _ _ hs with
    | @entered s s' log a henter =>
      cases ha
      have hnot : ¬Entered tr := by
        rw [← saved_isSome hstep hr]
        exact Bool.false_ne_true
      exact ⟨log, s, s', ⟨tr, [], rfl, hnot, by simp [NoLeave]⟩, henter⟩
    | refused | left | idle => cases ha
    | again | other => exact later ha (by simp)

theorem left_of_run {ok : Bool} (hr : Run step ⟨s₀, none⟩ (tr ++ [.leave log ok]) h') :
    ∃ h, Run step ⟨s₀, none⟩ tr h ∧ h'.saved = none ∧
      (¬Entered tr ∧ log = [] ∧ ok = true ∧ h'.state = h.state ∨
        ∃ a log₀ s s', Opened tr log₀ ∧ d.enter s log₀ (some a) s' ∧ d.restore a h.state log ok h'.state) := by
  obtain ⟨h, hrun, hs⟩ := run_concat.mp hr
  refine ⟨h, hrun, ?_⟩
  cases hstep _ _ _ hs with
  | left hrestore =>
    obtain ⟨log₀, s, s', hopened, henter⟩ := opened_of_run hstep hrun rfl
    exact ⟨rfl, .inr ⟨_, log₀, s, s', hopened, henter, hrestore⟩⟩
  | idle => exact ⟨rfl, .inl ⟨fun hopen => (by cases (saved_isSome hstep hrun).mpr hopen), rfl, rfl, rfl⟩⟩

end Run

end Rustils.Lib.Bracket
