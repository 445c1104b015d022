import Rustils.Lib.Ere
import Rustils.Lib.Glob

namespace Rustils.Coreutils.Rfind

open Lib.Ere Lib.Glob Lib.Lossy

def replace (c : Char) (new : List Char) (s : List Char) : List Char := s.flatMap fun d => if d = c then new else [d]

def regexStr (pattern : String) : String :=
  String.ofList ('^' :: (replace '*' ['.', '*'] (replace '.' ['\\', '.'] pattern.toList) ++ ['$']))

def operators : List Char := ['[', '\\', '(', '+', '?', '{', '|', '^', '$']

def Plain (pattern : String) : Prop := ∀ c ∈ pattern.toList, c ∉ operators ∧ c ≠ replacement

def translated (c : Char) : List Char :=
  if c = '.' then ['\\', '.'] else if c = '*' then ['.', '*'] else [c]

theorem toList_regexStr (pattern : String) :
    (regexStr pattern).toList = '^' :: (pattern.toList.flatMap translated ++ ['$']) := by
  have hone : ∀ c, replace '*' ['.', '*'] (if c = '.' then ['\\', '.'] else [c]) = translated c := by
    intro c
    unfold translated
    split_ifs with h₁ h₂
    · rfl
    · rw [h₂]
      rfl
    · simp [replace, h₂]
  have htwice : replace '*' ['.', '*'] (replace '.' ['\\', '.'] pattern.toList) = pattern.toList.flatMap translated := by
    rw [← funext hone]
    exact List.flatMap_assoc
  rw [regexStr, String.toList_ofList, htwice]

section Plain

def piece (c : Char) : Expr := if c = '*' then .star .any else .char c

theorem mem_specials {c : Char} (hc : c ∉ operators) (hdot : c ≠ '.') (hstar : c ≠ '*') (hclose : c ≠ ')') :
    c ∉ specials := by
  have hcover : ∀ d ∈ specials, d ∈ operators ∨ d = '.' ∨ d = '*' ∨ d = ')' := by simp [specials, operators]
  intro h
  obtain h | h | h | h := hcover c h
  · exact hc h
  · exact hdot h
  · exact hstar h
  · exact hclose h

theorem steps_translated {c : Char} (hc : c ∉ operators) (f : Frame) :
    (⟨.plain, f, []⟩ : State).steps (translated c) = some ⟨.plain, f.push (piece c), []⟩ := by
  by_cases hdot : c = '.'
  · rw [hdot]
    rfl
  by_cases hstar : c = '*'
  · rw [hstar]
    rfl
  by_cases hclose : c = ')'
  · rw [hclose]
    rfl
  · rw [translated, if_neg hdot, if_neg hstar, piece, if_neg hstar, steps_cons, State.step,
      plain_ordinary (mem_specials hc hdot hstar hclose)]
    rfl

theorem steps_plain {p : List Char} (hp : ∀ c ∈ p, c ∉ operators) (es : List Expr) :
    (⟨.plain, ⟨[], es⟩, []⟩ : State).steps (p.flatMap translated) =
      some ⟨.plain, ⟨[], (p.map piece).reverse ++ es⟩, []⟩ := by
  induction p generalizing es with
  | nil => rfl
  | cons c p ih =>
    obtain ⟨hc, hp⟩ := List.forall_mem_cons.mp hp
    rw [List.flatMap_cons, steps_append, steps_translated hc, Option.bind_some, Frame.push, ih hp]
    simp

theorem read_plain {pattern : String} (hp : ∀ c ∈ pattern.toList, c ∉ operators) :
    read (regexStr pattern).toList =
      some (.seq .start (inSequence (pattern.toList.map piece ++ [.finish]))) := by
  have hstart : (⟨.plain, ⟨[], []⟩, []⟩ : State).step '^' = some ⟨.plain, ⟨[], [.start]⟩, []⟩ := rfl
  rw [toList_regexStr, Lib.Ere.read, steps_cons, hstart, Option.bind_some, steps_append, steps_plain hp]
  simp [State.step, State.plain, atom, State.push, Frame.push, State.result, Frame.close, Frame.branch,
    alternatives, inSequence]

theorem matches_pieces {p before w after : List Char} :
    Matches (inSequence (p.map piece ++ [.finish])) before w after ↔ glob (fun c => [c]) p w ∧ after = [] := by
  induction p generalizing before w with
  | nil =>
    rw [glob_nil]
    constructor
    · rintro ⟨u, v, rfl, ⟨rfl, hv⟩, rfl⟩
      exact ⟨rfl, (List.append_eq_nil_iff.mp hv).2⟩
    · rintro ⟨rfl, rfl⟩
      exact ⟨[], [], rfl, ⟨rfl, rfl⟩, rfl⟩
  | cons c p ih =>
    rw [List.map_cons, List.cons_append, inSequence, Matches]
    simp only [ih]
    by_cases hstar : c = '*'
    · rw [hstar, glob_star]
      constructor
      · rintro ⟨u, v, rfl, -, hv, hafter⟩
        exact ⟨⟨u, v, rfl, hv⟩, hafter⟩
      · rintro ⟨⟨u, v, rfl, hv⟩, hafter⟩
        exact ⟨u, v, rfl, iterated_any before u _, hv, hafter⟩
    · rw [glob_char hstar, piece, if_neg hstar]
      constructor
      · rintro ⟨u, v, rfl, rfl, hv, hafter⟩
        exact ⟨⟨v, rfl, hv⟩, hafter⟩
      · rintro ⟨⟨v, rfl, hv⟩, hafter⟩
        exact ⟨[c], v, rfl, rfl, hv, hafter⟩

theorem search_plain {p text : List Char} :
    Search (.seq .start (inSequence (p.map piece ++ [.finish]))) text ↔ glob (fun c => [c]) p text := by
  constructor
  · rintro ⟨before, w, after, rfl, u, v, rfl, ⟨rfl, rfl⟩, hv⟩
    obtain ⟨h, rfl⟩ := matches_pieces.mp hv
    simpa using h
  · intro h
    exact ⟨[], text, [], by simp, [], text, rfl, ⟨rfl, rfl⟩, matches_pieces.mpr ⟨h, rfl⟩⟩

end Plain

section Weight

/-- An asterisk asks for nothing, and what opens more than it can ask for itself counts double. -/
def weigh (c : Char) : ℕ := if c = '\\' ∨ c = '[' then 2 else if c ∈ specials ∧ c ≠ '*' then 1 else 0

theorem weigh_le (c : Char) : weigh c ≤ 2 := by
  unfold weigh
  split_ifs <;> omega

theorem weigh_operator {c : Char} (hc : c ∈ operators) : 1 ≤ weigh c := by
  have hall : ∀ d ∈ operators, 1 ≤ weigh d := by simp [operators, weigh, specials]
  exact hall c hc

def pending : Mode → ℕ
  | .plain => 0
  | .escaped => 1
  | .bracket negated cs => if negated then 2 else max 1 (heaviest weigh cs)

structure Accounted (s : State) (spent : ℕ) (seen : Bool) : Prop where
  paid : pending s.mode + s.weight weigh 2 + seen.toNat ≤ spent
  seen : s.mode ≠ .plain → seen = true

variable {s s' : State} {spent : ℕ} {seen : Bool} {c : Char}

theorem translated_ordinary (hdot : c ≠ '.') (hstar : c ≠ '*') : translated c = [c] := by
  rw [translated, if_neg hdot, if_neg hstar]

theorem steps_singleton (s : State) (c : Char) : s.steps [c] = s.step c := Option.bind_fun_some _

theorem Accounted.push {e : Expr} (h : s.weight weigh 2 + e.weight weigh 2 + seen.toNat ≤ spent) :
    Accounted (s.push e) spent seen := by
  constructor
  · rw [push_weight]
    exact (Nat.zero_add _).symm ▸ h
  · exact fun hmode => absurd rfl hmode

theorem Accounted.plain {f : Frame} {fs : List Frame} (h : Accounted ⟨.plain, f, fs⟩ spent seen)
    (hs : (⟨.plain, f, fs⟩ : State).steps (translated c) = some s') :
    Accounted s' (spent + weigh c) (seen || decide (c ∈ operators)) := by
  have hpaid : (⟨.plain, f, fs⟩ : State).weight weigh 2 + seen.toNat ≤ spent := by
    have hle := h.paid
    rwa [pending, Nat.zero_add] at hle
  have hseen : seen.toNat ≤ 1 := Bool.toNat_le seen
  by_cases hdot : c = '.'
  · subst hdot
    obtain rfl : State.push ⟨.plain, f, fs⟩ (.char '.') = s' := Option.some.inj hs
    apply Accounted.push
    have hone : weigh '.' = 1 := by decide
    have hload : (Expr.char '.').weight weigh 2 = weigh '.' := rfl
    have hnot : decide ('.' ∈ operators) = false := by decide
    rw [hnot, Bool.or_false]
    omega
  by_cases hstar : c = '*'
  · subst hstar
    obtain rfl : State.push ⟨.plain, f, fs⟩ (.star .any) = s' := Option.some.inj hs
    apply Accounted.push
    have hload : (Expr.star .any).weight weigh 2 = 0 := rfl
    have hnot : decide ('*' ∈ operators) = false := by decide
    rw [hnot, Bool.or_false]
    omega
  rw [translated_ordinary hdot hstar, steps_singleton] at hs
  obtain ⟨rfl, rfl⟩ | ⟨rfl, rfl⟩ | ⟨hmode, hweight⟩ := @plain_weight weigh 2 _ s' c hs
  · have htwo : weigh '\\' = 2 := by decide
    have hop : decide ('\\' ∈ operators) = true := by decide
    rw [hop, Bool.or_true, htwo]
    refine ⟨?_, fun _ => rfl⟩
    change 1 + (⟨.plain, f, fs⟩ : State).weight weigh 2 + 1 ≤ spent + 2
    omega
  · have htwo : weigh '[' = 2 := by decide
    have hop : decide ('[' ∈ operators) = true := by decide
    rw [hop, Bool.or_true, htwo]
    refine ⟨?_, fun _ => rfl⟩
    change 1 + (⟨.plain, f, fs⟩ : State).weight weigh 2 + 1 ≤ spent + 2
    omega
  · refine ⟨?_, fun hne => absurd hmode hne⟩
    rw [hmode, pending, Nat.zero_add]
    by_cases hop : c ∈ operators
    · have hspecial : c ∈ specials ∧ c ≠ ')' := by
        have hall : ∀ d ∈ operators, d ∈ specials ∧ d ≠ ')' := by simp [operators, specials]
        exact hall c hop
      have hone := weigh_operator hop
      rw [if_pos hspecial] at hweight
      rw [decide_eq_true hop, Bool.or_true]
      change _ + 1 ≤ _
      omega
    · rw [decide_eq_false hop, Bool.or_false]
      split_ifs at hweight <;> omega

theorem Accounted.escaped {f : Frame} {fs : List Frame} (h : Accounted ⟨.escaped, f, fs⟩ spent seen)
    (hs : (⟨.escaped, f, fs⟩ : State).steps (translated c) = some s') : Accounted s' (spent + weigh c) true := by
  have hpaid : 1 + (⟨.plain, f, fs⟩ : State).weight weigh 2 + 1 ≤ spent := by
    have hle := h.paid
    rwa [h.seen nofun] at hle
  by_cases hdot : c = '.'
  · subst hdot
    obtain rfl : ((⟨.plain, f, fs⟩ : State).push (.char '\\')).push .any = s' := Option.some.inj hs
    apply Accounted.push
    rw [push_weight]
    have hone : weigh '.' = 1 := by decide
    have hload : (Expr.char '\\').weight weigh 2 = 2 := rfl
    have hnone : Expr.any.weight weigh 2 = 0 := rfl
    rw [Bool.toNat_true]
    omega
  by_cases hstar : c = '*'
  · subst hstar
    obtain rfl : State.push ⟨.plain, f, fs⟩ (.star (.char '.')) = s' := Option.some.inj hs
    apply Accounted.push
    have hload : (Expr.star (.char '.')).weight weigh 2 = 1 := rfl
    rw [Bool.toNat_true]
    omega
  rw [translated_ordinary hdot hstar, steps_singleton, State.step] at hs
  dsimp only at hs
  split_ifs at hs
  obtain rfl := Option.some.inj hs
  apply Accounted.push
  change (⟨.plain, f, fs⟩ : State).weight weigh 2 + weigh c + 1 ≤ spent + weigh c
  omega

theorem Accounted.bracket_step {negated : Bool} {cs : List Char} {f : Frame} {fs : List Frame} {cost : ℕ}
    (h : Accounted ⟨.bracket negated cs, f, fs⟩ spent seen)
    (hcost : max 1 (max (weigh c) (heaviest weigh cs)) ≤ max 1 (heaviest weigh cs) + cost)
    (hnot : c = '^' → 1 ≤ cost) (hs : (⟨.bracket negated cs, f, fs⟩ : State).bracket negated cs c = some s') :
    Accounted s' (spent + cost) true := by
  have hpaid : (if negated then 2 else max 1 (heaviest weigh cs)) +
      (⟨.plain, f, fs⟩ : State).weight weigh 2 + 1 ≤ spent := by
    have hle := h.paid
    rwa [h.seen nofun] at hle
  obtain ⟨-, rfl⟩ | ⟨hc, rfl, rfl, rfl⟩ | rfl := bracket_cases hs
  · apply Accounted.push
    change (⟨.plain, f, fs⟩ : State).weight weigh 2 + (if negated then 2 else heaviest weigh cs) + 1 ≤ _
    split_ifs at hpaid ⊢ <;> omega
  · have hone := hnot hc
    refine ⟨?_, fun _ => rfl⟩
    change 2 + (⟨.plain, f, fs⟩ : State).weight weigh 2 + 1 ≤ spent + cost
    change 1 + _ + 1 ≤ spent at hpaid
    omega
  · refine ⟨?_, fun _ => rfl⟩
    change (if negated then 2 else max 1 (max (weigh c) (heaviest weigh cs))) +
      (⟨.plain, f, fs⟩ : State).weight weigh 2 + 1 ≤ spent + cost
    split_ifs at hpaid ⊢ <;> omega

theorem Accounted.bracket {negated : Bool} {cs : List Char} {f : Frame} {fs : List Frame}
    (h : Accounted ⟨.bracket negated cs, f, fs⟩ spent seen)
    (hs : (⟨.bracket negated cs, f, fs⟩ : State).steps (translated c) = some s') :
    Accounted s' (spent + weigh c) true := by
  by_cases hdot : c = '.'
  · subst hdot
    have hs₁ : (⟨.bracket negated cs, f, fs⟩ : State).bracket negated cs '\\' =
        some ⟨.bracket negated ('\\' :: cs), f, fs⟩ := rfl
    have hs₂ : (⟨.bracket negated ('\\' :: cs), f, fs⟩ : State).bracket negated ('\\' :: cs) '.' = some s' := hs
    have h₁ : Accounted ⟨.bracket negated ('\\' :: cs), f, fs⟩ (spent + 1) true := by
      apply h.bracket_step _ _ hs₁
      · change max 1 (max 2 _) ≤ _
        omega
      · exact fun _ => Nat.le_refl 1
    have hone : weigh '.' = 1 + 0 := by decide
    rw [hone, ← Nat.add_assoc]
    apply h₁.bracket_step _ _ hs₂
    · change max 1 (max 1 (max 2 _)) ≤ max 1 (max 2 _) + 0
      omega
    · exact fun h => absurd h (by decide)
  by_cases hstar : c = '*'
  · subst hstar
    have hs₁ : (⟨.bracket negated cs, f, fs⟩ : State).bracket negated cs '.' =
        some ⟨.bracket negated ('.' :: cs), f, fs⟩ := rfl
    have hs₂ : (⟨.bracket negated ('.' :: cs), f, fs⟩ : State).bracket negated ('.' :: cs) '*' = some s' := hs
    have h₁ : Accounted ⟨.bracket negated ('.' :: cs), f, fs⟩ (spent + 0) true := by
      apply h.bracket_step _ _ hs₁
      · change max 1 (max 1 _) ≤ _ + 0
        omega
      · exact fun h => absurd h (by decide)
    have hnone : weigh '*' = 0 + 0 := by decide
    rw [hnone, ← Nat.add_assoc]
    apply h₁.bracket_step _ _ hs₂
    · change max 1 (max 0 (max 1 _)) ≤ max 1 (max 1 _) + 0
      omega
    · exact fun h => absurd h (by decide)
  rw [translated_ordinary hdot hstar, steps_singleton] at hs
  refine h.bracket_step (by omega) ?_ hs
  rintro rfl
  decide

theorem Accounted.step (h : Accounted s spent seen) (hs : s.steps (translated c) = some s') :
    Accounted s' (spent + weigh c) (seen || decide (c ∈ operators)) := by
  obtain ⟨mode, f, fs⟩ := s
  cases mode with
  | plain => exact h.plain hs
  | escaped =>
    rw [h.seen nofun]
    exact h.escaped hs
  | bracket negated cs =>
    rw [h.seen nofun]
    exact h.bracket hs

theorem Accounted.steps {p : List Char} (h : Accounted s spent seen)
    (hs : s.steps (p.flatMap translated) = some s') :
    Accounted s' (spent + (p.map weigh).sum) (seen || p.any fun c => decide (c ∈ operators)) := by
  induction p generalizing s spent seen with
  | nil =>
    obtain rfl := Option.some.inj hs
    simpa using h
  | cons c p ih =>
    rw [List.flatMap_cons, steps_append] at hs
    obtain ⟨s₁, hs₁, hs₂⟩ := Option.bind_eq_some_iff.mp hs
    have hrest := ih (h.step hs₁) hs₂
    rwa [Nat.add_assoc, Bool.or_assoc, ← List.sum_cons, ← List.map_cons] at hrest

theorem Accounted.finish {e : Expr} (h : Accounted s spent seen) (hs : (s.step '$').bind State.result = some e) :
    e.weight weigh 2 + seen.toNat ≤ spent := by
  obtain ⟨hpaid, hseen⟩ := h
  have hresult : ∀ {s : State} {e : Expr}, s.result = some e → s.mode = .plain ∧ e.weight weigh 2 = s.weight weigh 2 := by
    intro s e h
    unfold State.result at h
    split_ifs at h with hend
    refine ⟨hend.1, ?_⟩
    rw [frame_close_weight h, State.weight, hend.2]
    rfl
  obtain ⟨mode, f, fs⟩ := s
  obtain ⟨s', hstep, he⟩ := Option.bind_eq_some_iff.mp hs
  obtain ⟨hmode, hweight⟩ := hresult he
  cases mode with
  | plain =>
    obtain rfl : State.push ⟨.plain, f, fs⟩ .finish = s' := Option.some.inj hstep
    rw [hweight, push_weight]
    change 0 + _ + _ ≤ _ at hpaid
    change _ + 0 + _ ≤ _
    omega
  | escaped =>
    obtain rfl : State.push ⟨.plain, f, fs⟩ (.char '$') = s' := Option.some.inj hstep
    rw [hweight, push_weight]
    change 1 + State.weight weigh 2 ⟨.plain, f, fs⟩ + _ ≤ _ at hpaid
    change _ + 1 + _ ≤ _
    omega
  | bracket negated cs =>
    obtain rfl : (⟨.bracket negated ('$' :: cs), f, fs⟩ : State) = s' := Option.some.inj hstep
    cases hmode

theorem read_weight {pattern : String} {e : Expr} (he : read (regexStr pattern).toList = some e)
    (hop : ∃ c ∈ pattern.toList, c ∈ operators) : e.weight weigh 2 < (pattern.toList.map weigh).sum := by
  have hfirst : Accounted ⟨.plain, ⟨[], [.start]⟩, []⟩ 0 false := ⟨Nat.le_refl 0, fun hmode => absurd rfl hmode⟩
  have hstart : (⟨.plain, ⟨[], []⟩, []⟩ : State).step '^' = some ⟨.plain, ⟨[], [.start]⟩, []⟩ := rfl
  rw [toList_regexStr, Lib.Ere.read, steps_cons, hstart, Option.bind_some, steps_append] at he
  obtain ⟨s, hs, he⟩ := Option.bind_eq_some_iff.mp he
  obtain ⟨s₁, hs₁, hs₂⟩ := Option.bind_eq_some_iff.mp hs
  have hany : (pattern.toList.any fun c => decide (c ∈ operators)) = true := by simpa using hop
  have hall := hfirst.steps hs₁
  rw [Nat.zero_add, Bool.false_or, hany] at hall
  rw [steps_singleton] at hs₂
  exact hall.finish (by rw [hs₂, Option.bind_some, he])

end Weight

end Rustils.Coreutils.Rfind
