import Mathlib.Data.Fin.Basic
import Rustils.Process.Stdio

namespace Rustils.Process.Wiring

open Platform

variable {ω : Type}

section Pipes

variable {limit slot r w : ℕ} {t t' : Table (Obj ω)}

theorem lowestFree_spec {n : ℕ} (h : lowestFree limit t = some n) : t n = none ∧ ∀ m < n, t m ≠ none := by
  obtain ⟨hn, -, hlt⟩ := List.find?_range_eq_some.mp h
  exact ⟨Option.isNone_iff_eq_none.mp hn, by simpa [Option.isSome_iff_ne_none] using hlt⟩

structure Piped (slot : ℕ) (t t' : Table (Obj ω)) (r w : ℕ) : Prop where
  lt : r < w
  read : t r = none
  write : t w = none
  below : ∀ n < w, t n = none → n = r
  table : t' = Function.update (Function.update t r (some ⟨.pipeRead slot, true⟩)) w (some ⟨.pipeWrite slot, true⟩)

theorem makePipe_piped (h : makePipe limit slot t = .ok (r, w, t')) : Piped slot t t' r w := by
  unfold makePipe at h
  split at h
  · cases h
  next read hread =>
    dsimp only at h
    split at h
    · cases h
    next write hwrite =>
      cases h
      obtain ⟨hr, hlow⟩ := lowestFree_spec hread
      obtain ⟨hw, hbelow⟩ := lowestFree_spec hwrite
      have hne : w ≠ r := by
        rintro rfl
        simp at hw
      rw [Function.update_of_ne hne] at hw
      have hlt : r < w := by
        by_contra hle
        exact hlow w (by omega) hw
      refine ⟨hlt, hr, hw, fun n hn hfree => ?_, rfl⟩
      by_contra hnr
      exact hbelow n hn (by rwa [Function.update_of_ne hnr])

namespace Piped

variable (h : Piped slot t t' r w)

include h

theorem count_read : Nat.count (fun n => (t n).isNone) r = 0 := by
  rw [Nat.count_iff_forall_not]
  intro n hn hfree
  have := h.below n (hn.trans h.lt) (Option.isNone_iff_eq_none.mp hfree)
  omega

theorem count_write : Nat.count (fun n => (t n).isNone) w = 1 := by
  obtain ⟨d, rfl⟩ := Nat.exists_eq_add_of_le h.lt
  rw [Nat.count_add, Nat.count_succ, h.count_read, if_pos (by simp [h.read])]
  have hrest : Nat.count (fun k => (t (r.succ + k)).isNone) d = 0 := by
    rw [Nat.count_iff_forall_not]
    intro n hn hfree
    have := h.below (r.succ + n) (by omega) (Option.isNone_iff_eq_none.mp hfree)
    omega
  omega

theorem of_free {n : ℕ} (hn : t' n = none) : t n = none ∧ w < n := by
  rw [h.table] at hn
  have hw : n ≠ w := by
    rintro rfl
    simp at hn
  rw [Function.update_of_ne hw] at hn
  have hr : n ≠ r := by
    rintro rfl
    simp at hn
  rw [Function.update_of_ne hr] at hn
  refine ⟨hn, ?_⟩
  by_contra hle
  exact hr (h.below n (by omega) hn)

theorem of_held {n : ℕ} (hn : t n ≠ none) : t' n = t n := by
  have hw : n ≠ w := by
    rintro rfl
    exact hn h.write
  have hr : n ≠ r := by
    rintro rfl
    exact hn h.read
  rw [h.table, Function.update_of_ne hw, Function.update_of_ne hr]

theorem table_read : t' r = some ⟨.pipeRead slot, true⟩ := by
  rw [h.table, Function.update_of_ne (by have := h.lt; omega), Function.update_self]

theorem table_write : t' w = some ⟨.pipeWrite slot, true⟩ := by
  rw [h.table, Function.update_self]

theorem cloexec {n : ℕ} {e : Entry (Obj ω)} (hn : t n = none) (he : t' n = some e) : e.cloexec = true := by
  by_cases hw : n = w
  · subst hw
    rw [h.table_write] at he
    cases he
    rfl
  · by_cases hr : n = r
    · subst hr
      rw [h.table_read] at he
      cases he
      rfl
    · rw [h.table, Function.update_of_ne hw, Function.update_of_ne hr, hn] at he
      cases he

end Piped

end Pipes

section Plans

variable (p : Parent ω)

structure Drawn (slot : ℕ) (plan : Plan ω) : Prop where
  kept : ∀ n, p.table n ≠ none → plan.table n = held p.table n
  fresh : ∀ n e, p.table n = none → plan.table n = some e → e.cloexec = true
  unpiped : (∀ i : Fin 3, i.val < slot → p.stdio i ≠ .pipe) → plan.table = held p.table
  piped : ∀ i : Fin 3, i.val < slot → p.stdio i = .pipe → ∀ n, plan.table n = none → 1 < n

def Recorded (t : Table (Obj ω)) (slot : Fin 3) (a : Option Action) : Prop :=
  match p.stdio slot with
  | .inherit => a = none
  | .null => a = some (.open slot (slot.val ≠ 0))
  | .pipe => ∃ fd, a = some (.dup2 fd slot) ∧ p.table fd = none ∧ t fd = some ⟨childEnd slot, true⟩ ∧
      ∀ n < 3, fd = n ↔ p.EndsAt slot n
  | .file none => False
  | .file (some fd) => a = some (.dup2 fd slot)

variable {p} {plan plan' : Plan ω} {slot : Fin 3}

theorem Recorded.mono {t t' : Table (Obj ω)} {a : Option Action} (h : Recorded p t slot a)
    (ht : ∀ n, t n ≠ none → t' n = t n) : Recorded p t' slot a := by
  unfold Recorded at h ⊢
  split at h
  case h_3 =>
    obtain ⟨fd, ha, hfree, hfd, hends⟩ := h
    exact ⟨fd, ha, hfree, (ht fd (by simp [hfd])).trans hfd, hends⟩
  all_goals exact h

theorem held_eq_none {t : Table ω} {n : ℕ} : held t n = none ↔ t n = none := Option.map_eq_none_iff

theorem Drawn.free (h : Drawn p slot plan) {n : ℕ} (hn : plan.table n = none) : p.table n = none := by
  by_contra hheld
  rw [h.kept n hheld, held_eq_none] at hn
  exact hheld hn

theorem Drawn.child_end (h : Drawn p slot plan) {r w : ℕ} {t : Table (Obj ω)} (hpiped : Piped slot plan.table t r w)
    (n : ℕ) (hn : n < 3) : (if slot = 0 then r else w) = n ↔ p.EndsAt slot n := by
  by_cases hearlier : ∀ i < slot, p.stdio i ≠ .pipe
  · have htable : plan.table = held p.table := h.unpiped hearlier
    have hcount (m : ℕ) : Nat.count (fun k => (plan.table k).isNone) m = Nat.count (fun k => (p.table k).isNone) m := by
      simp [htable, held]
    have hread := hpiped.count_read
    have hwrite := hpiped.count_write
    rw [hcount] at hread hwrite
    constructor
    · rintro rfl
      refine ⟨hearlier, ?_, ?_⟩
      · split_ifs
        · exact h.free hpiped.read
        · exact h.free hpiped.write
      · split_ifs
        · exact hread
        · exact hwrite
    · rintro ⟨-, hfree, hn⟩
      have hpn : (p.table n).isNone := by rw [hfree]; rfl
      split_ifs at hn ⊢
      · exact Nat.count_injective (by simp [h.free hpiped.read]) hpn (hread.trans hn.symm)
      · exact Nat.count_injective (by simp [h.free hpiped.write]) hpn (hwrite.trans hn.symm)
  · constructor
    · rintro rfl
      push Not at hearlier
      obtain ⟨i, hi, hpipe⟩ := hearlier
      have hread := h.piped i hi hpipe r hpiped.read
      have hlt := hpiped.lt
      rw [if_neg (Fin.ne_zero_of_lt hi)] at hn
      omega
    · rintro ⟨hnone, -⟩
      exact absurd hnone hearlier

theorem Drawn.same_table (h : Drawn p slot plan) (hspec : p.stdio slot ≠ .pipe) (htable : plan'.table = plan.table) :
    Drawn p (slot + 1) plan' := by
  refine ⟨htable ▸ h.kept, htable ▸ h.fresh, fun hnone => ?_, fun i hi hpipe => ?_⟩
  · rw [htable]
    exact h.unpiped fun i hi => hnone i (by omega)
  · rw [htable]
    have hne : i ≠ slot := by
      rintro rfl
      exact hspec hpipe
    exact h.piped i (by have := Fin.val_ne_of_ne hne; omega) hpipe

theorem Drawn.piped_table (h : Drawn p slot plan) (hspec : p.stdio slot = .pipe) {r w : ℕ}
    (hpiped : Piped slot plan.table plan'.table r w) : Drawn p (slot + 1) plan' := by
  refine ⟨fun n hn => ?_, fun n e hn he => ?_, fun hnone => ?_, fun i hi hpipe n hn => ?_⟩
  · have hkept := h.kept n hn
    rw [hpiped.of_held, hkept]
    rwa [hkept, ne_eq, held_eq_none]
  · by_cases hplan : plan.table n = none
    · exact hpiped.cloexec hplan he
    · rw [hpiped.of_held hplan] at he
      exact h.fresh n e hn he
  · exact absurd hspec (hnone slot (by omega))
  · have := hpiped.of_free hn
    have := hpiped.lt
    omega

theorem wire_drawn (h : Drawn p slot plan) (hwire : wire p.limit slot (p.stdio slot) plan = .ok plan') :
    Drawn p (slot + 1) plan' ∧ (∀ n, plan.table n ≠ none → plan'.table n = plan.table n) ∧
      ∃ a, plan'.actions = plan.actions ++ a.toList ∧ Recorded p plan'.table slot a := by
  cases hspec : p.stdio slot with
  | inherit =>
    rw [hspec] at hwire
    cases hwire
    exact ⟨h.same_table (by simp [hspec]) rfl, fun _ _ => rfl, none, by simp, by simp [Recorded, hspec]⟩
  | null =>
    rw [hspec] at hwire
    cases hwire
    refine ⟨h.same_table (by simp [hspec]) rfl, fun _ _ => rfl, some (.open slot (slot.val ≠ 0)), ?_, ?_⟩
    · simp
    · simp [Recorded, hspec]
  | pipe =>
    rw [hspec, wire] at hwire
    split at hwire
    · cases hwire
    next r w t hpipe =>
      rw [Except.ok.injEq] at hwire
      subst hwire
      have hpiped := makePipe_piped hpipe
      refine ⟨h.piped_table hspec hpiped, fun n => hpiped.of_held, some (.dup2 (if slot = 0 then r else w) slot), ?_, ?_⟩
      · by_cases hslot : slot = 0 <;> simp [hslot]
      · rw [Recorded, hspec]
        refine ⟨_, rfl, ?_, ?_, h.child_end hpiped⟩
        · split_ifs
          · exact h.free hpiped.read
          · exact h.free hpiped.write
        · by_cases hslot : slot = 0
          · subst hslot
            exact hpiped.table_read
          · simp only [childEnd, if_neg hslot, Fin.val_eq_zero_iff]
            exact hpiped.table_write
  | file fd =>
    rw [hspec] at hwire
    cases fd with
    | none => cases hwire
    | some fd =>
      cases hwire
      refine ⟨h.same_table (by simp [hspec]) rfl, fun _ _ => rfl, some (.dup2 fd slot), by simp, ?_⟩
      simp [Recorded, hspec]

theorem fileActions_drawn (h : fileActions p = .ok plan) :
    Drawn p 3 plan ∧ ∃ a : Fin 3 → Option Action, plan.actions = (List.finRange 3).filterMap a ∧
      ∀ slot, Recorded p plan.table slot (a slot) := by
  have hstart : Drawn p (0 : Fin 3) ⟨held p.table, [], [], []⟩ :=
    ⟨fun _ _ => rfl, fun n e hn he => by simp [held, hn] at he, fun _ => rfl, fun i hi => by omega⟩
  unfold fileActions at h
  split at h
  · cases h
  next plan₀ h₀ =>
  split at h
  · cases h
  next plan₁ h₁ =>
  obtain ⟨hdrawn₀, -, a₀, hactions₀, hrec₀⟩ := wire_drawn hstart h₀
  have hdrawn₀ : Drawn p (1 : Fin 3) plan₀ := hdrawn₀
  obtain ⟨hdrawn₁, hkept₁, a₁, hactions₁, hrec₁⟩ := wire_drawn hdrawn₀ h₁
  have hdrawn₁ : Drawn p (2 : Fin 3) plan₁ := hdrawn₁
  obtain ⟨hdrawn, hkept, a₂, hactions, hrec₂⟩ := wire_drawn hdrawn₁ h
  have hrec₁ : Recorded p plan.table 1 a₁ := hrec₁.mono hkept
  have hrec₀ : Recorded p plan.table 0 a₀ := (hrec₀.mono hkept₁).mono hkept
  refine ⟨hdrawn, fun | 0 => a₀ | 1 => a₁ | 2 => a₂, ?_, ?_⟩
  · rw [hactions, hactions₁, hactions₀]
    cases a₀ <;> cases a₁ <;> cases a₂ <;> rfl
  · intro slot
    match slot with
    | 0 => exact hrec₀
    | 1 => exact hrec₁
    | 2 => exact hrec₂

end Plans

end Rustils.Process.Wiring
