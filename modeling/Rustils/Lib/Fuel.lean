import Mathlib.Order.Basic
import Mathlib.Tactic.Push

namespace Rustils.Lib.Fuel

inductive Stop (ε : Type)
  | err (e : ε)
  | panicked
  | unfinished
  deriving DecidableEq

abbrev Exec (ε α : Type) := Except (Stop ε) α

variable {ε α β : Type}

abbrev unfinished : Exec ε α := .error .unfinished
abbrev panicked : Exec ε α := .error .panicked
abbrev fail (e : ε) : Exec ε α := .error (.err e)

@[simp] theorem ok_bind (a : α) (f : α → Exec ε β) : ((Except.ok a : Exec ε α) >>= f) = f a := rfl

@[simp] theorem pure_eq_ok (a : α) : (pure a : Exec ε α) = .ok a := rfl

@[simp] theorem error_bind (e : Stop ε) (f : α → Exec ε β) :
    ((Except.error e : Exec ε α) >>= f) = .error e := rfl

theorem bind_eq_ok {x : Exec ε α} {f : α → Exec ε β} {b : β} :
    (x >>= f) = .ok b ↔ ∃ a, x = .ok a ∧ f a = .ok b := by
  cases x <;> simp

theorem bind_eq_error {x : Exec ε α} {f : α → Exec ε β} {e : Stop ε} :
    (x >>= f) = .error e ↔ x = .error e ∨ ∃ a, x = .ok a ∧ f a = .error e := by
  cases x <;> simp

theorem bind_ne_error {x : Exec ε α} {f : α → Exec ε β} {e : Stop ε} (hx : x ≠ .error e)
    (hf : ∀ a, x = .ok a → f a ≠ .error e) : (x >>= f) ≠ .error e := by
  rw [ne_eq, bind_eq_error, not_or, not_exists]
  exact ⟨hx, fun a h => hf a h.1 h.2⟩

def Returns (x : Exec ε α) : Prop := (∃ a, x = .ok a) ∨ ∃ e, x = fail e

theorem returns_iff {x : Exec ε α} : Returns x ↔ x ≠ panicked ∧ x ≠ unfinished := by
  rcases x with (_ | _ | _) | _ <;> simp [Returns]

def Extends (x y : Exec ε α) : Prop := x = unfinished ∨ x = y

theorem Extends.refl (x : Exec ε α) : Extends x x := .inr rfl

theorem Extends.trans {x y z : Exec ε α} (h : Extends x y) (h' : Extends y z) : Extends x z := by
  rcases h with h | rfl
  · exact .inl h
  · exact h'

theorem Extends.bind {x y : Exec ε α} {f g : α → Exec ε β} (h : Extends x y)
    (h' : ∀ a, Extends (f a) (g a)) : Extends (x >>= f) (y >>= g) := by
  rcases h with rfl | rfl
  · exact .inl rfl
  · cases x with
    | ok a => exact h' a
    | error e => exact .refl _

theorem Extends.map {x y : Exec ε α} (h : Extends x y) (f : α → β) : Extends (f <$> x) (f <$> y) := by
  rcases h with rfl | rfl
  · exact .inl rfl
  · exact .refl _

def Steady (f : ℕ → Exec ε α) : Prop := ∀ n, Extends (f n) (f (n + 1))

theorem Steady.le {f : ℕ → Exec ε α} (hf : Steady f) {m n : ℕ} (h : m ≤ n) :
    Extends (f m) (f n) := by
  induction h with
  | refl => exact .refl _
  | step _ ih => exact ih.trans (hf _)

theorem Steady.eq {f : ℕ → Exec ε α} (hf : Steady f) {m n : ℕ} (hm : f m ≠ unfinished)
    (hn : f n ≠ unfinished) : f m = f n := by
  rcases Nat.le_total m n with h | h
  · exact (hf.le h).resolve_left hm
  · exact ((hf.le h).resolve_left hn).symm

theorem Steady.const (x : Exec ε α) : Steady (fun _ => x) := fun _ => .refl x

theorem Steady.bind {f : ℕ → Exec ε α} {g : ℕ → α → Exec ε β} (hf : Steady f)
    (hg : ∀ a, Steady (fun n => g n a)) : Steady (fun n => f n >>= g n) :=
  fun n => (hf n).bind fun a => hg a n

open scoped Classical in
noncomputable def limit (f : ℕ → Exec ε α) : Exec ε α :=
  if h : ∃ n, f n ≠ unfinished then f h.choose else unfinished

theorem limit_unfinished {f : ℕ → Exec ε α} : limit f = unfinished ↔ ∀ n, f n = unfinished := by
  unfold limit
  split_ifs with h
  · exact ⟨fun hf => absurd hf h.choose_spec, fun hf => absurd (hf _) h.choose_spec⟩
  · push Not at h
    exact ⟨fun _ => h, fun _ => rfl⟩

theorem Steady.limit_eq {f : ℕ → Exec ε α} (hf : Steady f) {n : ℕ} (h : f n ≠ unfinished) :
    limit f = f n := by
  have hex : ∃ n, f n ≠ unfinished := ⟨n, h⟩
  rw [limit, dif_pos hex]
  exact hf.eq hex.choose_spec h

theorem Steady.limit_eq_of {f : ℕ → Exec ε α} (hf : Steady f) {n : ℕ} {r : Exec ε α}
    (h : f n = r) (hr : r ≠ unfinished) : limit f = r := by
  rw [hf.limit_eq (h ▸ hr), h]

theorem exists_limit (f : ℕ → Exec ε α) : ∃ n, f n = limit f := by
  by_cases h : ∃ n, f n ≠ unfinished
  · exact ⟨h.choose, by rw [limit, dif_pos h]⟩
  · push Not at h
    exact ⟨0, by rw [h, limit_unfinished.mpr h]⟩

theorem Steady.extends_limit {f : ℕ → Exec ε α} (hf : Steady f) (n : ℕ) : Extends (f n) (limit f) := by
  by_cases h : f n = unfinished
  · exact .inl h
  · exact .inr (hf.limit_eq h).symm

theorem limit_const (x : Exec ε α) : limit (fun _ => x) = x :=
  (exists_limit fun _ => x).choose_spec.symm

theorem Steady.limit_succ {f : ℕ → Exec ε α} (hf : Steady f) :
    limit (fun n => f (n + 1)) = limit f := by
  obtain ⟨n, hn⟩ := exists_limit f
  by_cases h : limit f = unfinished
  · rw [h, limit_unfinished]
    exact fun n => limit_unfinished.mp h (n + 1)
  · have hs : f (n + 1) = limit f := by
      rw [← hn] at h ⊢
      exact ((hf n).resolve_left h).symm
    exact Steady.limit_eq_of (fun n => hf (n + 1)) hs h

theorem Steady.limit_bind {f : ℕ → Exec ε α} {g : ℕ → α → Exec ε β} (hf : Steady f)
    (hg : ∀ a, Steady (fun n => g n a)) :
    limit (fun n => f n >>= g n) = limit f >>= fun a => limit (fun n => g n a) := by
  obtain ⟨m, hm⟩ := exists_limit f
  cases hl : limit f with
  | error e =>
    rw [error_bind]
    by_cases he : e = .unfinished
    · subst he
      rw [limit_unfinished]
      intro n
      rw [limit_unfinished.mp hl n, error_bind]
    · refine (Steady.bind hf hg).limit_eq_of (n := m) ?_ (by simpa using he)
      rw [hm, hl, error_bind]
  | ok a =>
    rw [ok_bind]
    obtain ⟨k, hk⟩ := exists_limit (fun n => g n a)
    by_cases hu : limit (fun n => g n a) = unfinished
    · rw [hu, limit_unfinished]
      intro n
      rcases hf.le (Nat.le_max_left n m) with h | h
      · rw [h, error_bind]
      · rcases hf.le (Nat.le_max_right n m) with h' | h'
        · rw [hm, hl] at h'; cases h'
        · rw [h, ← h', hm, hl, ok_bind]
          exact limit_unfinished.mp hu n
    · have hmax : f (max m k) = .ok a := by
        rcases hf.le (Nat.le_max_left m k) with h | h
        · rw [hm, hl] at h; cases h
        · rw [← h, hm, hl]
      refine (Steady.bind hf hg).limit_eq_of (n := max m k) ?_ hu
      rw [hmax, ok_bind]
      rcases (hg a).le (Nat.le_max_right m k) with h | h
      · exact absurd (hk.symm.trans h) hu
      · exact h.symm.trans hk

/-- `f` settles on `r`, or never ends and `r` is `unfinished`. -/
structure Tends (f : ℕ → Exec ε α) (r : Exec ε α) : Prop where
  steady : Steady f
  limit_eq : limit f = r

theorem Steady.tends {f : ℕ → Exec ε α} (hf : Steady f) : Tends f (limit f) := ⟨hf, rfl⟩

theorem Tends.const (x : Exec ε α) : Tends (fun _ => x) x := ⟨.const x, limit_const x⟩

theorem Tends.bind {f : ℕ → Exec ε α} {g : ℕ → α → Exec ε β} {r : Exec ε α} {h : α → Exec ε β}
    (hf : Tends f r) (hg : ∀ a, Tends (fun n => g n a) (h a)) :
    Tends (fun n => f n >>= g n) (r >>= h) where
  steady := hf.steady.bind fun a => (hg a).steady
  limit_eq := by
    rw [hf.steady.limit_bind fun a => (hg a).steady, hf.limit_eq]
    simp only [(hg _).limit_eq]

theorem Steady.limit_eq_body {f : ℕ → Exec ε α} {r : Exec ε α} (hf : Steady f)
    (h : Tends (fun n => f (n + 1)) r) : limit f = r :=
  hf.limit_succ.symm.trans h.limit_eq

end Rustils.Lib.Fuel
