import Rustils.Process.Plan

namespace Rustils.Process.Wiring

open Platform

variable {ω : Type}

def parentEnd (slot : ℕ) : Obj ω := if slot = 0 then .pipeWrite slot else .pipeRead slot

section Ends

variable {p : Parent ω} {plan plan' : Plan ω} {slot : Fin 3}

structure Ends (p : Parent ω) (plan : Plan ω) : Prop where
  fresh : ∀ n e, p.table n = none → plan.table n = some e →
    (∃ slot : Fin 3, e.obj = parentEnd slot) ∨ n ∈ plan.childEnds.map Prod.snd
  listed : ∀ n ∈ plan.childEnds.map Prod.snd, p.table n = none

theorem Ends.same_table (h : Ends p plan) (htable : plan'.table = plan.table)
    (hends : plan'.childEnds = plan.childEnds) : Ends p plan' :=
  ⟨htable ▸ hends ▸ h.fresh, hends ▸ h.listed⟩

theorem wire_ends (h : Ends p plan) (hdrawn : Drawn p slot plan)
    (hwire : wire p.limit slot (p.stdio slot) plan = .ok plan') : Ends p plan' := by
  cases hspec : p.stdio slot with
  | inherit | null =>
    rw [hspec] at hwire
    cases hwire
    exact h.same_table rfl rfl
  | file fd =>
    rw [hspec] at hwire
    cases fd with
    | none => cases hwire
    | some fd =>
      cases hwire
      exact h.same_table rfl rfl
  | pipe =>
    rw [hspec, wire] at hwire
    split at hwire
    · cases hwire
    next r w t hpipe =>
      rw [Except.ok.injEq] at hwire
      subst hwire
      have hpiped := makePipe_piped hpipe
      refine ⟨fun n e hn he => ?_, fun n hn => ?_⟩
      · change t n = some e at he
        by_cases hold : plan.table n = none
        · have hend : n = w ∨ n = r := by
            by_contra hne
            rw [not_or] at hne
            rw [hpiped.table, Function.update_of_ne hne.1, Function.update_of_ne hne.2, hold] at he
            cases he
          by_cases hslot : slot = 0
          · subst hslot
            rcases hend with rfl | rfl
            · rw [hpiped.table_write] at he
              cases he
              exact .inl ⟨0, rfl⟩
            · exact .inr (by simp)
          · have hval : slot.val ≠ 0 := fun h => hslot (Fin.ext h)
            rcases hend with rfl | rfl
            · exact .inr (by simp [hval])
            · rw [hpiped.table_read] at he
              cases he
              exact .inl ⟨slot, by simp [parentEnd, hval]⟩
        · rw [hpiped.of_held hold] at he
          exact (h.fresh n e hn he).imp id fun hmem => by simp [hmem]
      · simp only [List.map_append, List.mem_append, List.map_cons, List.map_nil, List.mem_singleton] at hn
        rcases hn with hn | rfl
        · exact h.listed n hn
        · split_ifs
          · exact hdrawn.free hpiped.read
          · exact hdrawn.free hpiped.write

theorem fileActions_ends (h : fileActions p = .ok plan) : Ends p plan := by
  have hdrawn : Drawn p (0 : Fin 3) ⟨held p.table, [], [], []⟩ :=
    ⟨fun _ _ => rfl, fun n e hn he => by simp [held, hn] at he, fun _ => rfl, fun i hi => by omega⟩
  have hends : Ends p ⟨held p.table, [], [], []⟩ := ⟨fun n e hn he => by simp [held, hn] at he, by simp⟩
  unfold fileActions at h
  split at h
  · cases h
  next plan₀ h₀ =>
  split at h
  · cases h
  next plan₁ h₁ =>
  have hdrawn₀ : Drawn p (1 : Fin 3) plan₀ := (wire_drawn hdrawn h₀).1
  have hdrawn₁ : Drawn p (2 : Fin 3) plan₁ := (wire_drawn hdrawn₀ h₁).1
  exact wire_ends (wire_ends (wire_ends hends hdrawn h₀) hdrawn₀ h₁) hdrawn₁ h

end Ends

section Child

variable {p : Parent ω} {plan : Plan ω} {clears : Bool} {t t' : Table (Obj ω)} {a : Action} {as : List Action}

def Parent.Given (p : Parent ω) (o : Obj ω) : Prop :=
  (∃ slot write, o = .devNull slot write) ∨ (∃ slot : Fin 3, o = childEnd slot) ∨
    ∃ slot fd e, p.stdio slot = .file (some fd) ∧ p.table fd = some e ∧ o = .held e.obj

def Assigned (p : Parent ω) (plan : Plan ω) (t : Table (Obj ω)) : Prop :=
  ∀ n e, t n = some e → plan.table n = some e ∨ p.Given e.obj

def Action.Named (p : Parent ω) (plan : Plan ω) : Action → Prop
  | .open _ _ => True
  | .dup2 fd _ => ∀ e, plan.table fd = some e → p.Given e.obj

theorem Recorded.named {slot : Fin 3} (h : Recorded p plan.table slot (some a)) (hdrawn : Drawn p 3 plan) :
    a.Named p plan := by
  unfold Recorded at h
  split at h
  case h_3 =>
    obtain ⟨fd, ha, -, hfd, -⟩ := h
    cases ha
    intro e he
    cases hfd.symm.trans he
    exact .inr (.inl ⟨slot, rfl⟩)
  case h_5 fd hspec =>
    cases h
    intro e he
    obtain ⟨e₀, he₀⟩ := Option.isSome_iff_exists.mp (p.files_open slot fd hspec)
    rw [hdrawn.kept fd (by simp [he₀]), held, he₀] at he
    cases he
    exact .inr (.inr ⟨slot, fd, e₀, hspec, he₀, rfl⟩)
  all_goals cases h
  trivial

theorem Assigned.act (h : Assigned p plan t) (ha : a.Named p plan) (hact : act clears t a = some t') : Assigned p plan t' := by
  have put {n : ℕ} {e : Entry (Obj ω)} (he : p.Given e.obj) : Assigned p plan (Function.update t n (some e)) := by
    intro m e' hm
    by_cases hmn : m = n
    · subst hmn
      rw [Function.update_self] at hm
      cases hm
      exact .inr he
    · rw [Function.update_of_ne hmn] at hm
      exact h m e' hm
  cases a with
  | «open» fd write =>
    cases hact
    exact put (.inl ⟨fd, write, rfl⟩)
  | dup2 fd newfd =>
    obtain ⟨e, he, rfl⟩ := Option.map_eq_some_iff.mp hact
    exact put ((h fd e he).elim (ha e) id)

theorem Assigned.actAll (h : Assigned p plan t) (has : ∀ a ∈ as, a.Named p plan) (hact : actAll clears as t = some t') :
    Assigned p plan t' := by
  induction as generalizing t with
  | nil =>
    cases hact
    exact h
  | cons a as ih =>
    obtain ⟨t₁, h₁, hact⟩ := Option.bind_eq_some_iff.mp hact
    exact ih (h.act (has a (.head _)) h₁) (fun b hb => has b (.tail _ hb)) hact

theorem child_seen (h : fileActions p = .ok plan) (hact : actAll clears plan.actions plan.table = some t) {fd : ℕ} {o : Obj ω}
    (hseen : seen t fd = some o) : p.Given o ∨ ∃ e, p.table fd = some e ∧ e.cloexec = false ∧ o = .held e.obj := by
  obtain ⟨hdrawn, as, hactions, hrec⟩ := fileActions_drawn h
  have hnamed : ∀ a ∈ plan.actions, a.Named p plan := by
    intro a ha
    rw [hactions] at ha
    obtain ⟨slot, -, hslot⟩ := List.mem_filterMap.mp ha
    have hr := hrec slot
    rw [hslot] at hr
    exact hr.named hdrawn
  have hassigned : Assigned p plan t := Assigned.actAll (fun _ _ h => .inl h) hnamed hact
  obtain ⟨e, he, hseen⟩ := Option.bind_eq_some_iff.mp hseen
  split_ifs at hseen with hflag
  cases hseen
  rcases hassigned fd e he with hplan | hgiven
  · by_cases hfree : p.table fd = none
    · exact absurd (hdrawn.fresh fd e hfree hplan) hflag
    · obtain ⟨e₀, he₀⟩ := Option.ne_none_iff_exists'.mp hfree
      rw [hdrawn.kept fd hfree, held, he₀] at hplan
      cases hplan
      exact .inr ⟨e₀, he₀, by simpa using hflag, rfl⟩
  · exact .inl hgiven

end Child

end Rustils.Process.Wiring
