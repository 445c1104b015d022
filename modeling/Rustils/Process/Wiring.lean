import Mathlib.Data.List.FinRange
import Rustils.Lib.Moves
import Rustils.Process.Plan

namespace Rustils.Process.Wiring

open Lib

variable {ω : Type}

section Actions

def Action.dst : Action → ℕ
  | .open fd _ => fd
  | .dup2 _ newfd => newfd

def Action.move : Action → Moves.Move ℕ (Option (Obj ω))
  | .open fd write => ⟨fd, .value (some (.devNull fd write))⟩
  | .dup2 fd newfd => ⟨newfd, .place fd⟩

def Action.source : Action → Option ℕ
  | .open _ _ => none
  | .dup2 fd _ => some fd

def objs (t : Table (Obj ω)) (fd : ℕ) : Option (Obj ω) := (t fd).map Entry.obj

/-- Whether the flag is still set where the action has put its object. -/
def Action.flag (clears : Bool) (t : Table (Obj ω)) : Action → Bool
  | .open _ _ => false
  | .dup2 fd newfd => fd = newfd && !clears && ((t fd).any Entry.cloexec)

def Action.Ready (t : Table (Obj ω)) : Action → Prop
  | .open _ _ => True
  | .dup2 fd _ => (t fd).isSome

variable {clears : Bool} {t t' : Table (Obj ω)} {a : Action} {as : List Action}

theorem Action.move_dst (a : Action) : (a.move (ω := ω)).dst = a.dst := by
  cases a <;> rfl

theorem Action.move_src_eq_place {a : Action} {fd : ℕ} : (a.move (ω := ω)).src = .place fd ↔ a.source = some fd := by
  cases a <;> simp [Action.move, Action.source]

theorem Action.ready_update (h : a.Ready t) (fd : ℕ) (e : Entry (Obj ω)) :
    a.Ready (Function.update t fd (some e)) := by
  cases a with
  | «open» _ _ => trivial
  | dup2 source newfd =>
    by_cases hfd : source = fd
    · simp [Action.Ready, hfd]
    · rw [Action.Ready, Function.update_of_ne hfd]
      exact h

theorem Action.flag_update {fd : ℕ} (h : a.dst ≠ fd) (e : Option (Entry (Obj ω))) :
    a.flag clears (Function.update t fd e) = a.flag clears t := by
  cases a with
  | «open» _ _ => rfl
  | dup2 source newfd =>
    by_cases hfd : source = newfd
    · subst hfd
      rw [Action.flag, Action.flag, Function.update_of_ne (show source ≠ fd from h)]
    · simp [Action.flag, hfd]

variable (clears) in
theorem act_spec (h : a.Ready t) :
    ∃ o, act clears t a = some (Function.update t a.dst (some ⟨o, a.flag clears t⟩)) ∧
      some o = a.move.src.eval (objs t) := by
  cases a with
  | «open» fd write => exact ⟨_, rfl, rfl⟩
  | dup2 fd newfd =>
    obtain ⟨e, he⟩ := Option.isSome_iff_exists.mp h
    refine ⟨e.obj, ?_, ?_⟩
    · simp only [act, he, Option.map_some, Action.dst, Action.flag, Option.any_some]
    · simp [Action.move, Moves.Source.eval, objs, he]

variable (clears) in
theorem actAll_spec (h : ∀ a ∈ as, a.Ready t) (hnodup : (as.map Action.dst).Nodup) :
    ∃ t', actAll clears as t = some t' ∧ objs t' = Moves.run (as.map Action.move) (objs t) ∧
      (∀ fd ∉ as.map Action.dst, t' fd = t fd) ∧
      ∀ a ∈ as, ∃ o, t' a.dst = some ⟨o, a.flag clears t⟩ := by
  induction as generalizing t with
  | nil => exact ⟨t, rfl, rfl, fun _ _ => rfl, by simp⟩
  | cons a as ih =>
    rw [List.map_cons, List.nodup_cons] at hnodup
    obtain ⟨o, hact, ho⟩ := act_spec clears (h a List.mem_cons_self)
    obtain ⟨t', hrun, hobjs, hother, hflag⟩ :=
      ih (fun b hb => Action.ready_update (h b (List.mem_cons_of_mem a hb)) a.dst ⟨o, a.flag clears t⟩) hnodup.2
    refine ⟨t', by rw [actAll, hact]; exact hrun, ?_, ?_, ?_⟩
    · rw [hobjs, List.map_cons, Moves.run, Action.move_dst, ← ho]
      congr 1
      funext fd
      by_cases hfd : fd = a.dst
      · simp [objs, hfd]
      · simp [objs, Function.update_of_ne hfd]
    · intro fd hfd
      rw [List.map_cons, List.mem_cons, not_or] at hfd
      rw [hother fd hfd.2, Function.update_of_ne hfd.1]
    · intro b hb
      rcases List.mem_cons.mp hb with rfl | hb
      · exact ⟨o, by rw [hother _ hnodup.1, Function.update_self]⟩
      · have hdst : b.dst ≠ a.dst := by
          intro hab
          exact hnodup.1 (hab ▸ List.mem_map_of_mem hb)
        obtain ⟨o', ho'⟩ := hflag b hb
        rw [Action.flag_update hdst] at ho'
        exact ⟨o', ho'⟩

end Actions

section Wired

variable {p : Parent ω} {plan : Plan ω} {t : Table (Obj ω)} {a : Action} {slot : Fin 3}

theorem Recorded.dst (h : Recorded p t slot (some a)) : a.dst = slot := by
  unfold Recorded at h
  split at h
  case h_3 =>
    obtain ⟨fd, ha, -⟩ := h
    cases ha
    rfl
  all_goals cases h <;> rfl

theorem Recorded.inherit (h : Recorded p t slot none) : p.stdio slot = .inherit := by
  unfold Recorded at h
  split at h
  case h_1 hspec => exact hspec
  case h_3 =>
    obtain ⟨fd, ha, -⟩ := h
    cases ha
  all_goals cases h

theorem Drawn.objs_file (h : Drawn p 3 plan) {fd : ℕ} (hspec : p.stdio slot = .file (some fd)) :
    objs plan.table fd = (held p.table fd).map Entry.obj := by
  rw [objs, h.kept fd (Option.isSome_iff_ne_none.mp (p.files_open slot fd hspec))]

theorem Recorded.source (hdrawn : Drawn p 3 plan) (h : Recorded p plan.table slot (some a)) :
    a.Ready plan.table ∧ (a.move.src.eval (objs plan.table) = p.named slot) ∧ (p.named slot).isSome := by
  unfold Recorded at h
  split at h
  · cases h
  next hspec =>
    cases h
    rw [Parent.named, hspec]
    exact ⟨trivial, rfl, rfl⟩
  next hspec =>
    obtain ⟨fd, ha, -, hfd, -⟩ := h
    cases ha
    rw [Parent.named, hspec]
    exact ⟨by simp [Action.Ready, hfd], by simp [Action.move, Moves.Source.eval, objs, hfd], rfl⟩
  · cases h
  next fd hspec =>
    cases h
    have hopen := p.files_open slot fd hspec
    have hobjs := hdrawn.objs_file hspec
    rw [Parent.named, hspec]
    refine ⟨?_, hobjs, by simpa [held] using hopen⟩
    rw [Action.Ready, hdrawn.kept fd (Option.isSome_iff_ne_none.mp hopen), held, Option.isSome_map]
    exact hopen

theorem Drawn.seen_inherit (h : Drawn p 3 plan) (hspec : p.stdio slot = .inherit) :
    seen plan.table slot = p.named slot := by
  rw [Parent.named, hspec]
  by_cases hfree : p.table slot = none
  · cases hslot : plan.table slot with
    | none => simp [seen, hslot, held, hfree]
    | some e => simp [seen, hslot, held, hfree, h.fresh slot e hfree hslot]
  · rw [seen, h.kept slot hfree, seen]

theorem seen_eq_iff {fd : ℕ} {o : Obj ω} {c : Bool} (h : t fd = some ⟨o, c⟩) {x : Option (Obj ω)} (hx : x.isSome) :
    seen t fd = x ↔ c = false ∧ objs t fd = x := by
  obtain ⟨y, rfl⟩ := Option.isSome_iff_exists.mp hx
  cases c <;> simp [seen, objs, h]

section Assembled

variable (hdrawn : Drawn p 3 plan) {as : Fin 3 → Option Action}
  (hactions : plan.actions = (List.finRange 3).filterMap as) (hrec : ∀ slot, Recorded p plan.table slot (as slot))

include hactions in
theorem mem_actions : a ∈ plan.actions ↔ ∃ slot, as slot = some a := by
  simp [hactions]

include hactions hrec

theorem nodup_dst : (plan.actions.map Action.dst).Nodup := by
  rw [hactions, List.Nodup, List.pairwise_map, List.pairwise_filterMap]
  apply (List.nodup_finRange 3).imp
  intro i j hij b hb c hc hbc
  have hi := hrec i
  have hj := hrec j
  rw [hb] at hi
  rw [hc] at hj
  rw [hi.dst, hj.dst] at hbc
  exact hij (Fin.ext hbc)

include hdrawn

theorem wired_iff (clears : Bool) :
    ∃ child, actAll clears plan.actions plan.table = some child ∧
      ((∀ slot : Fin 3, seen child slot = p.named slot) ↔
        (∀ slot a, as slot = some a → a.flag clears plan.table = false) ∧
          ∀ m ∈ plan.actions.map Action.move,
            Moves.run (plan.actions.map Action.move) (objs plan.table) m.dst = m.src.eval (objs plan.table)) := by
  have hsource (slot : Fin 3) (a : Action) (ha : as slot = some a) := by
    have h := hrec slot
    rw [ha] at h
    exact And.intro h.dst (h.source hdrawn)
  have hready : ∀ a ∈ plan.actions, a.Ready plan.table := by
    intro a ha
    obtain ⟨slot, hslot⟩ := (mem_actions hactions).mp ha
    exact (hsource slot a hslot).2.1
  obtain ⟨child, hchild, hobjs, hother, hflag⟩ := actAll_spec clears hready (nodup_dst hactions hrec)
  have hslot (slot : Fin 3) (a : Action) (ha : as slot = some a) :
      seen child slot = p.named slot ↔ a.flag clears plan.table = false ∧
        Moves.run (plan.actions.map Action.move) (objs plan.table) a.dst = a.move.src.eval (objs plan.table) := by
    obtain ⟨hdst, -, heval, hsome⟩ := hsource slot a ha
    obtain ⟨o, ho⟩ := hflag a ((mem_actions hactions).mpr ⟨slot, ha⟩)
    rw [hdst] at ho
    rw [seen_eq_iff ho hsome, hobjs, hdst, heval]
  have hkept (slot : Fin 3) (hnone : as slot = none) : seen child slot = p.named slot := by
    have hdst : (slot : ℕ) ∉ plan.actions.map Action.dst := by
      rintro hmem
      obtain ⟨a, ha, hdst⟩ := List.mem_map.mp hmem
      obtain ⟨i, hi⟩ := (mem_actions hactions).mp ha
      rw [(hsource i a hi).1] at hdst
      rw [Fin.ext hdst, hnone] at hi
      cases hi
    have hinherit := hrec slot
    rw [hnone] at hinherit
    rw [← hdrawn.seen_inherit hinherit.inherit, seen, hother slot hdst, seen]
  refine ⟨child, hchild, ?_⟩
  simp only [List.forall_mem_map, Action.move_dst]
  constructor
  · intro h
    refine ⟨fun slot a ha => ((hslot slot a ha).mp (h slot)).1, fun a ha => ?_⟩
    obtain ⟨slot, has⟩ := (mem_actions hactions).mp ha
    exact ((hslot slot a has).mp (h slot)).2
  · rintro ⟨hflags, hruns⟩ slot
    cases has : as slot with
    | none => exact hkept slot has
    | some a => exact (hslot slot a has).mpr ⟨hflags slot a has, hruns a ((mem_actions hactions).mpr ⟨slot, has⟩)⟩

theorem pairwise_iff :
    ((plan.actions.map Action.move).Pairwise fun m n =>
        n.src = .place m.dst → m.src.eval (objs plan.table) = objs plan.table m.dst) ↔
      ∀ j, ∀ i < j, ∀ a, as j = some a → a.source = some i.val →
        p.stdio i = .inherit ∨ p.named i = objs plan.table i := by
  have hpair (i j : Fin 3) :
      (∀ b, as i = some b → ∀ a, as j = some a → a.source = some b.dst →
        b.move.src.eval (objs plan.table) = objs plan.table b.dst) ↔
      ∀ a, as j = some a → a.source = some i.val → p.stdio i = .inherit ∨ p.named i = objs plan.table i := by
    have h := hrec i
    cases hi : as i with
    | none =>
      rw [hi] at h
      simp [h.inherit]
    | some b =>
      rw [hi] at h
      obtain ⟨-, heval, -⟩ := h.source hdrawn
      have hne : p.stdio i ≠ .inherit := by
        intro hspec
        rw [Recorded, hspec] at h
        cases h
      simp only [Option.some.injEq, forall_eq', h.dst, heval, hne, false_or]
  simp only [hactions, List.pairwise_map, List.pairwise_filterMap, Action.move_src_eq_place, Action.move_dst]
  rw [← List.ofFn_id, List.pairwise_ofFn]
  constructor
  · intro h j i hij
    exact (hpair i j).mp (h hij)
  · intro h i j hij
    exact (hpair i j).mpr (h j i hij)

end Assembled

theorem seen_held_ne (t : Table ω) (fd slot : ℕ) : seen (held t) fd ≠ some (childEnd slot) := by
  unfold seen held childEnd
  cases t fd with
  | none => simp
  | some e => cases hc : e.cloexec <;> split_ifs <;> simp_all

theorem Parent.named_ne (p : Parent ω) {i j : Fin 3} (hij : i ≠ j) : p.named i ≠ some (childEnd j) := by
  unfold Parent.named
  split
  · exact seen_held_ne p.table i j
  · unfold childEnd
    split_ifs <;> simp
  · have hne : i.val ≠ j.val := Fin.val_ne_of_ne hij
    unfold childEnd
    split_ifs <;> simp [hne]
  · simp
  next fd _ =>
    unfold childEnd held
    cases p.table fd <;> split_ifs <;> simp

theorem Parent.spares_iff (p : Parent ω) (i : Fin 3) {fd : ℕ} (hfd : (p.table fd).isSome) :
    p.Spares i fd ↔ p.stdio i = .inherit ∨ p.named i = (held p.table fd).map Entry.obj := by
  obtain ⟨e, he⟩ := Option.isSome_iff_exists.mp hfd
  unfold Parent.Spares Parent.named
  split
  next hspec => simp [hspec]
  next source hspec =>
    cases hsource : p.table source <;> simp [hspec, held, he, hsource]
  next hinherit hfile =>
    cases hspec : p.stdio i with
    | inherit => exact absurd hspec hinherit
    | null => simp [held, he]
    | pipe =>
      unfold childEnd
      split_ifs <;> simp [held, he]
    | file source =>
      cases source with
      | none => simp [held, he]
      | some source => exact absurd hspec (hfile source)

theorem Recorded.clear_iff {as : Option Action} (hdrawn : Drawn p 3 plan) (h : Recorded p plan.table slot as)
    (clears : Bool) :
    p.Clear clears slot ↔ (∀ a, as = some a → a.flag clears plan.table = false) ∧
      ∀ i < slot, ∀ a, as = some a → a.source = some i.val →
        p.stdio i = .inherit ∨ p.named i = objs plan.table i := by
  unfold Recorded at h
  split at h
  next hspec =>
    subst h
    simp [Parent.Clear, hspec]
  next hspec =>
    subst h
    simp [Parent.Clear, hspec, Action.flag, Action.source]
  next hspec =>
    obtain ⟨fd, rfl, -, hfd, hends⟩ := h
    have hflag : (Action.dup2 fd slot).flag clears plan.table = false ↔ (p.EndsAt slot slot → clears = true) := by
      rw [← hends slot slot.isLt, Action.flag, hfd]
      by_cases hslot : fd = slot <;> simp [hslot]
    have hsource (i : Fin 3) (hi : i < slot) :
        (fd = i → p.stdio i = .inherit ∨ p.named i = objs plan.table i) ↔ (p.EndsAt slot i → p.stdio i = .inherit) := by
      rw [← hends i i.isLt]
      apply forall_congr'
      rintro rfl
      have hne : p.named i ≠ objs plan.table i := by
        rw [objs, hfd]
        exact p.named_ne hi.ne
      simp [hne]
    simp only [Parent.Clear, hspec, Option.some.injEq, forall_eq', hflag, Action.source]
    rw [and_comm]
    exact and_congr_right' (forall₂_congr fun i hi => (hsource i hi).symm)
  · cases h
  next fd hspec =>
    subst h
    have hopen := p.files_open slot fd hspec
    obtain ⟨e, he⟩ := Option.isSome_iff_exists.mp hopen
    have hflag : (Action.dup2 fd slot).flag clears plan.table = false ↔
        (fd = slot → clears = true ∨ ∀ e, p.table fd = some e → e.cloexec = false) := by
      rw [Action.flag, hdrawn.kept fd (by simp [he]), held, he]
      by_cases hslot : fd = slot
      · cases clears <;> simp [hslot]
      · simp [hslot]
    have hsource (i : Fin 3) :
        (fd = i → p.stdio i = .inherit ∨ p.named i = objs plan.table i) ↔ (fd = i → p.Spares i fd) := by
      apply forall_congr'
      rintro rfl
      rw [p.spares_iff i hopen, hdrawn.objs_file hspec]
    simp only [Parent.Clear, hspec, Option.some.injEq, forall_eq', hflag, Action.source]
    rw [and_comm]
    exact and_congr_right' (forall₂_congr fun i hi => (hsource i).symm)

end Wired

theorem stdio_wired_iff (p : Parent ω) (clears : Bool) {plan : Plan ω} (h : fileActions p = .ok plan) :
    ∃ child, actAll clears plan.actions plan.table = some child ∧
      ((∀ slot : Fin 3, seen child slot = p.named slot) ↔ ∀ slot, p.Clear clears slot) := by
  obtain ⟨hdrawn, as, hactions, hrec⟩ := fileActions_drawn h
  obtain ⟨child, hchild, hwired⟩ := wired_iff hdrawn hactions hrec clears
  have hnodup : ((plan.actions.map (Action.move (ω := ω))).map Moves.Move.dst).Nodup := by
    have h := nodup_dst hactions hrec
    simpa only [List.map_map, Function.comp_def, Action.move_dst] using h
  refine ⟨child, hchild, ?_⟩
  rw [hwired, Moves.run_eq_eval_iff hnodup, pairwise_iff hdrawn hactions hrec, ← forall_and]
  exact forall_congr' fun slot => ((hrec slot).clear_iff hdrawn clears).symm

def reusedInput : Parent ℕ where
  table := fun fd => if fd = 0 then some ⟨10, true⟩ else if fd < 3 then some ⟨fd, false⟩ else none
  limit := 64
  stdio := fun | 0 => .null | 1 => .file (some 0) | 2 => .inherit
  files_open := by
    intro slot fd
    match slot with
    | 0 => simp
    | 1 =>
      intro h
      cases h
      rfl
    | 2 => simp

theorem output_goes_to_null :
    ∃ plan child, fileActions reusedInput = .ok plan ∧ actAll true plan.actions plan.table = some child ∧
      seen child 1 = some (.devNull 0 false) ∧ reusedInput.named 1 = some (.held 10) :=
  ⟨_, _, rfl, rfl, rfl, rfl⟩

def pipedInput : Parent ℕ where
  table := fun fd => if fd = 0 then none else if fd < 4 then some ⟨fd, fd = 3⟩ else none
  limit := 64
  stdio := fun | 0 => .pipe | 1 => .file (some 3) | 2 => .file (some 3)
  files_open := by
    intro slot fd
    match slot with
    | 0 => simp
    | 1 | 2 =>
      intro h
      cases h
      rfl

theorem piped_input_wired :
    ∃ plan, fileActions pipedInput = .ok plan ∧ ∃ child, actAll true plan.actions plan.table = some child ∧
      ∀ slot : Fin 3, seen child slot = pipedInput.named slot := by
  refine ⟨_, rfl, ?_⟩
  obtain ⟨child, hchild, hwired⟩ := stdio_wired_iff pipedInput true rfl
  refine ⟨child, hchild, hwired.mpr fun slot => ?_⟩
  match slot with
  | 0 => exact ⟨fun i hi => absurd hi (Fin.not_lt_zero i), fun _ => rfl⟩
  | 1 | 2 =>
    refine ⟨fun i hi h => ?_, fun h => ?_⟩
    · have := i.isLt
      omega
    · cases h

end Rustils.Process.Wiring
