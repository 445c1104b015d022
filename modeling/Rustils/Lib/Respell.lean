import Rustils.Lib.CaseFold

namespace Rustils.Lib.Ere

section Respell

variable (f : Char → Char)

def Expr.respell : Expr → Expr
  | .char c => .char (f c)
  | .oneOf negated cs => .oneOf negated (cs.map f)
  | .group a => .group a.respell
  | .seq a b => .seq a.respell b.respell
  | .alt a b => .alt a.respell b.respell
  | .star a => .star a.respell
  | .plus a => .plus a.respell
  | .opt a => .opt a.respell
  | e => e

def Frame.respell (t : Frame) : Frame := ⟨t.alts.map (Expr.respell f), t.pieces.map (Expr.respell f)⟩

def Mode.respell : Mode → Mode
  | .bracket negated cs => .bracket negated (cs.map f)
  | m => m

def State.respell (s : State) : State := ⟨s.mode.respell f, s.top.respell f, s.around.map (Frame.respell f)⟩

def KeepsSyntax : Prop := ∀ c, c ∈ ']' :: '-' :: specials ∨ f c ∈ ']' :: '-' :: specials → f c = c

variable {f}

theorem inSequence_respell (es : List Expr) :
    inSequence (es.map (Expr.respell f)) = (inSequence es).respell f := by
  induction es with
  | nil => rfl
  | cons e es ih => rw [List.map_cons, inSequence, ih, inSequence, Expr.respell]

theorem alternatives_respell (e : Expr) (es : List Expr) :
    alternatives (e.respell f) (es.map (Expr.respell f)) = (alternatives e es).respell f := by
  induction es generalizing e with
  | nil => rfl
  | cons e' es ih => rw [List.map_cons, alternatives, ih, alternatives, Expr.respell]

theorem repeatable_respell (e : Expr) : (e.respell f).repeatable = e.repeatable := by
  cases e <;> rfl

theorem respell_single (e : Expr) : (e.respell f).single = e.single := by
  cases e <;> rfl

theorem Frame.branch_respell (t : Frame) : (t.respell f).branch = t.branch.map (Expr.respell f) := by
  simp only [branch, respell, List.map_eq_nil_iff]
  split_ifs
  · rfl
  · rw [← List.map_reverse, inSequence_respell, Option.map_some]

theorem Frame.next_respell (t : Frame) : (t.respell f).next = t.next.map (Frame.respell f) := by
  rw [next, branch_respell, next, Option.map_map, Option.map_map]
  rfl

theorem Frame.close_respell (t : Frame) : (t.respell f).close = t.close.map (Expr.respell f) := by
  rw [close, branch_respell, close, Option.map_map, Option.map_map]
  congr 1
  funext e
  exact alternatives_respell e t.alts

theorem Frame.repeated_respell {op : Expr → Expr} (hop : ∀ e, op (e.respell f) = (op e).respell f) (t : Frame) :
    (t.respell f).repeated op = (t.repeated op).map (Frame.respell f) := by
  rcases t with ⟨alts, _ | ⟨e, es⟩⟩
  · rfl
  · simp only [repeated, respell, List.map_cons, repeatable_respell]
    split_ifs
    · rw [hop]
      rfl
    · rfl

theorem State.push_respell (s : State) (e : Expr) : (s.respell f).push (e.respell f) = (s.push e).respell f := rfl

theorem State.withTop_respell (s : State) (top : Option Frame) :
    (s.respell f).withTop (top.map (Frame.respell f)) = (s.withTop top).map (State.respell f) := by
  cases top <;> rfl

theorem State.close_respell (hf : KeepsSyntax f) (s : State) :
    (s.respell f).close = s.close.map (State.respell f) := by
  rcases s with ⟨mode, top, _ | ⟨t, ts⟩⟩
  · have hparen : f ')' = ')' := hf ')' (.inl (by simp [specials]))
    simp [close, respell, push, Expr.respell, Frame.push, Frame.respell, Mode.respell, hparen]
  · simp only [close, respell, List.map_cons, Frame.close_respell, Option.map_map]
    rfl

theorem State.plain_respell (hf : KeepsSyntax f) (s : State) (c : Char) :
    (s.respell f).plain (f c) = (s.plain c).map (State.respell f) := by
  by_cases hc : c ∈ specials ∨ f c ∈ specials
  · have hfc : f c = c := hf c (by simp only [List.mem_cons]; tauto)
    rw [hfc, plain, plain]
    cases hatom : atom c with
    | some e =>
      have he : e.respell f = e := by
        unfold atom at hatom
        split_ifs at hatom <;> rw [← Option.some.inj hatom] <;> rfl
      exact congrArg some ((congrArg _ he.symm).trans (s.push_respell e))
    | none =>
      cases hrep : repetition c with
      | some op =>
        have hop : ∀ e : Expr, op (e.respell f) = (op e).respell f := by
          unfold repetition at hrep
          split_ifs at hrep <;> rw [← Option.some.inj hrep] <;> exact fun _ => rfl
        dsimp only
        rw [← withTop_respell, ← Frame.repeated_respell hop]
        rfl
      | none =>
        dsimp only
        split_ifs
        · rfl
        · rfl
        · rw [← withTop_respell, ← Frame.next_respell]
          rfl
        · rfl
        · exact s.close_respell hf
        · rfl
        · exact congrArg some ((congrArg (fun d => (s.respell f).push (.char d)) hfc.symm).trans (s.push_respell (.char c)))
  · rw [not_or] at hc
    rw [plain_ordinary hc.1, plain_ordinary hc.2]
    rfl

theorem State.bracket_respell (hf : KeepsSyntax f) (s : State) (negated : Bool) (cs : List Char) (c : Char) :
    (s.respell f).bracket negated (cs.map f) (f c) = (s.bracket negated cs c).map (State.respell f) := by
  have hkept {d : Char} (hd : d ∈ ']' :: '-' :: specials) : f c = d ↔ c = d := by
    constructor
    · rintro rfl
      exact (hf c (.inr hd)).symm
    · rintro rfl
      exact hf c (.inl hd)
  simp only [bracket, hkept (d := ']') (by simp), hkept (d := '^') (by simp [specials]),
    hkept (d := '-') (by simp), hkept (d := '[') (by simp [specials]), ne_eq, List.map_eq_nil_iff]
  split_ifs <;> rfl

theorem State.step_respell (hf : KeepsSyntax f) (s : State) (c : Char) :
    (s.respell f).step (f c) = (s.step c).map (State.respell f) := by
  rcases s with ⟨_ | _ | ⟨negated, cs⟩, top, around⟩
  · exact plain_respell hf _ c
  · have hkept : f c ∈ specials ↔ c ∈ specials := by
      constructor <;> intro h
      · rwa [hf c (.inr (by simp [h]))] at h
      · rwa [hf c (.inl (by simp [h]))]
    simp only [step, respell, Mode.respell, hkept]
    split_ifs <;> rfl
  · exact bracket_respell hf _ negated cs c

theorem State.steps_respell (hf : KeepsSyntax f) (s : State) (text : List Char) :
    (s.respell f).steps (text.map f) = (s.steps text).map (State.respell f) := by
  induction text generalizing s with
  | nil => rfl
  | cons c text ih =>
    rw [List.map_cons, steps, steps, step_respell hf]
    cases s.step c with
    | none => rfl
    | some s' => exact ih s'

theorem State.result_respell (s : State) : (s.respell f).result = s.result.map (Expr.respell f) := by
  rcases s with ⟨_ | _ | ⟨negated, cs⟩, top, _ | ⟨t, ts⟩⟩
  · simp [result, respell, Mode.respell, Frame.close_respell]
  all_goals simp [result, respell, Mode.respell]

theorem read_respell (hf : KeepsSyntax f) (text : List Char) : read (text.map f) = (read text).map (Expr.respell f) := by
  have hstart : (⟨.plain, ⟨[], []⟩, []⟩ : State).respell f = ⟨.plain, ⟨[], []⟩, []⟩ := rfl
  rw [read, ← hstart, State.steps_respell hf, read]
  cases State.steps ⟨.plain, ⟨[], []⟩, []⟩ text with
  | none => rfl
  | some s => exact s.result_respell

end Respell

end Rustils.Lib.Ere

namespace Rustils.Lib.CaseFold

open Ere List

variable {L : Letters} {f : Char → Char}

theorem iterated_mono {M N : Placed} (h : ∀ ⦃before w after⦄, M before w after → N before w after) {before w after : List Char}
    (hM : Iterated M before w after) : Iterated N before w after := by
  induction hM with
  | nil => exact .nil _ _
  | cons hu _ ih => exact .cons (h hu) ih

theorem matches_respell (hsame : ∀ c, L.Same (f c) c) (hstays : ∀ c, f (f c) = f c) (e : Expr) ⦃before w after : List Char⦄
    (h : Matches e before w after) : Matches (fold L (e.respell f)) before w after := by
  have hmem : ∀ c, c ∈ L.variants (f c) := fun c => L.mem_variants.mpr (hsame c)
  induction e generalizing before w after with
  | empty => exact h
  | char c =>
    obtain rfl : w = [c] := h
    exact ⟨c, rfl, by simpa [fold] using hmem c⟩
  | any => exact h
  | oneOf negated cs =>
    obtain ⟨c, rfl, hc⟩ := h
    cases negated with
    | false =>
      simp only [iff_true] at hc
      have hfold : c ∈ (cs.map f).flatMap L.variants := mem_flatMap.mpr ⟨f c, mem_map_of_mem hc, hmem c⟩
      exact ⟨c, rfl, by simpa using hfold⟩
    | true =>
      simp only [Bool.true_eq_false, iff_false] at hc
      refine ⟨c, rfl, ?_⟩
      simp only [mem_filter, all_eq_true, decide_eq_true_eq, Bool.true_eq_false, iff_false]
      rintro ⟨hcf, hall⟩
      -- a character of the list that becomes `c` is itself what some character of the list becomes
      obtain ⟨t, ht, rfl⟩ := mem_map.mp hcf
      obtain ⟨t', -, ht'⟩ := mem_map.mp (hall t (L.mem_variants.mpr (hsame t)))
      have htt : f t = t := by rw [← ht', hstays]
      exact hc (by rwa [htt])
  | start => exact h
  | finish => exact h
  | group a ih => exact ih h
  | seq a b iha ihb =>
    obtain ⟨u, v, rfl, hu, hv⟩ := h
    exact ⟨u, v, rfl, iha hu, ihb hv⟩
  | alt a b iha ihb => exact h.imp (@iha _ _ _) (@ihb _ _ _)
  | star a ih => exact iterated_mono ih h
  | plus a ih =>
    obtain ⟨u, v, rfl, hu, hv⟩ := h
    exact ⟨u, v, rfl, ih hu, iterated_mono ih hv⟩
  | opt a ih => exact h.imp_right (@ih _ _ _)

theorem search_respell (hsame : ∀ c, L.Same (f c) c) (hstays : ∀ c, f (f c) = f c) {e : Expr} {text : List Char}
    (h : Search e text) : Search (fold L (e.respell f)) text := by
  obtain ⟨before, w, after, rfl, hm⟩ := h
  exact ⟨before, w, after, rfl, matches_respell hsame hstays e hm⟩

end Rustils.Lib.CaseFold
