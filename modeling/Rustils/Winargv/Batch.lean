import Mathlib.Algebra.Group.Nat.Even
import Rustils.Winargv.Quote

namespace Rustils.Winargv

open Platform

def isMeta (u : UInt16) : Bool := [0x26, 0x7C, 0x3C, 0x3E, 0x5E, 0x28, 0x29].contains u

def toggle (inside : Bool) (u : UInt16) : Bool := if u = QUOTE then !inside else inside

def quoteState (inside : Bool) (us : Wide) : Bool := us.foldl toggle inside

def MetaQuoted : Bool → Wide → Prop
  | _, [] => True
  | inside, u :: us => (isMeta u = true → inside = true) ∧ MetaQuoted (toggle inside u) us

/-- A unit `cmd` cannot be given safely, quoted or not. -/
def isUnsafe (u : UInt16) : Bool := u == NUL || u == CR || u == LF || u == PERCENT

def BatchSafe (line : Wide) : Prop := (∀ u ∈ line, isUnsafe u = false) ∧ MetaQuoted false line

instance decidableMetaQuoted (inside : Bool) (us : Wide) : Decidable (MetaQuoted inside us) :=
  match us with
  | [] => .isTrue trivial
  | u :: us =>
    have := decidableMetaQuoted (toggle inside u) us
    inferInstanceAs (Decidable ((isMeta u = true → inside = true) ∧ MetaQuoted (toggle inside u) us))

instance (line : Wide) : Decidable (BatchSafe line) :=
  have : Decidable (∀ u ∈ line, isUnsafe u = false) := List.decidableBAll _ line
  inferInstanceAs (Decidable ((∀ u ∈ line, isUnsafe u = false) ∧ MetaQuoted false line))

theorem metaQuoted_append (inside : Bool) (us vs : Wide) :
    MetaQuoted inside (us ++ vs) ↔ MetaQuoted inside us ∧ MetaQuoted (quoteState inside us) vs := by
  induction us generalizing inside with
  | nil => simp [MetaQuoted, quoteState]
  | cons u us ih => simp [MetaQuoted, quoteState, ih, and_assoc]

theorem quoteState_append (inside : Bool) (us vs : Wide) :
    quoteState inside (us ++ vs) = quoteState (quoteState inside us) vs :=
  List.foldl_append

theorem quoteState_not (inside : Bool) (us : Wide) :
    quoteState (!inside) us = !quoteState inside us := by
  induction us generalizing inside with
  | nil => rfl
  | cons u us ih =>
    simp only [quoteState, List.foldl_cons] at ih ⊢
    by_cases hu : u = QUOTE <;> simp [toggle, hu, ih]

theorem quoteState_even (us : Wide) : quoteState false us = false ↔ Even (us.count QUOTE) := by
  induction us with
  | nil => simp [quoteState]
  | cons u us ih =>
    by_cases hu : u = QUOTE
    · have h := quoteState_not false us
      simp only [Bool.not_false] at h
      simp only [quoteState, List.foldl_cons, toggle, hu, ↓reduceIte, Bool.not_false] at h ih ⊢
      rw [h, List.count_cons_self, Nat.even_add_one, ← ih]
      simp
    · simpa [quoteState, toggle, hu] using ih

theorem metaQuoted_replicate (inside : Bool) (n : ℕ) :
    MetaQuoted inside (List.replicate n BACKSLASH) ∧
      quoteState inside (List.replicate n BACKSLASH) = inside := by
  induction n with
  | zero => exact ⟨trivial, rfl⟩
  | succ n ih => exact ⟨⟨fun h => absurd h (by decide), ih.1⟩, ih.2⟩

theorem metaQuoted_escaped (inside : Bool) (us : Wide) (n : ℕ) :
    (MetaQuoted inside (escaped us n) ↔ MetaQuoted inside us) ∧
      quoteState inside (escaped us n) = quoteState inside us := by
  induction us generalizing inside n with
  | nil => exact ⟨Iff.rfl, rfl⟩
  | cons u us ih =>
    have hcons (m : ℕ) : (MetaQuoted inside (u :: escaped us m) ↔ MetaQuoted inside (u :: us)) ∧
        quoteState inside (u :: escaped us m) = quoteState inside (u :: us) :=
      ⟨and_congr_right fun _ => (ih _ m).1, (ih _ m).2⟩
    unfold escaped
    split_ifs
    · exact hcons _
    · obtain ⟨hr, hs⟩ := metaQuoted_replicate inside (n + 1)
      rw [metaQuoted_append, quoteState_append, hs]
      exact ⟨(and_iff_right hr).trans (hcons 0).1, (hcons 0).2⟩
    · exact hcons _

theorem toggle_quote (inside : Bool) : toggle inside QUOTE = !inside := if_pos rfl

theorem metaQuoted_wrapped (inside : Bool) (us : Wide) :
    (MetaQuoted inside (QUOTE :: (us ++ [QUOTE])) ↔ MetaQuoted (!inside) us) ∧
      quoteState inside (QUOTE :: (us ++ [QUOTE])) = !quoteState (!inside) us := by
  have hm : isMeta QUOTE = false := by decide
  refine ⟨by simp [MetaQuoted, metaQuoted_append, toggle_quote, hm], ?_⟩
  rw [quoteState, List.foldl_cons, List.foldl_append, toggle_quote, List.foldl_cons, List.foldl_nil,
    toggle_quote, ← quoteState]

theorem token_state (program : Wide) :
    (MetaQuoted false (token program) ↔ MetaQuoted (needsQuote program) program) ∧
      quoteState false (token program) = quoteState false program := by
  unfold token
  cases h : needsQuote program with
  | true =>
    obtain ⟨he, hs⟩ := metaQuoted_escaped true program 0
    obtain ⟨hr, hrs⟩ := metaQuoted_replicate (quoteState true program) (trailing program 0)
    obtain ⟨hw, hws⟩ := metaQuoted_wrapped false
      (escaped program 0 ++ List.replicate (trailing program 0) BACKSLASH)
    rw [if_pos rfl, hw, hws, metaQuoted_append, quoteState_append]
    simp only [Bool.not_false, he, hs, hrs, hr, and_true, true_and]
    rw [← Bool.not_false, quoteState_not, Bool.not_not]
  | false => exact metaQuoted_escaped false program 0

def doubled (arg : Wide) : Wide := arg.flatMap (fun u => if u = QUOTE then [QUOTE, QUOTE] else [u])

theorem metaQuoted_doubled (inside : Bool) (arg : Wide) :
    (MetaQuoted inside (doubled arg) ↔ inside = true ∨ ∀ u ∈ arg, isMeta u = false) ∧
      quoteState inside (doubled arg) = inside := by
  induction arg with
  | nil => simp [doubled, MetaQuoted, quoteState]
  | cons u us ih =>
    have hsplit : doubled (u :: us) = (if u = QUOTE then [QUOTE, QUOTE] else [u]) ++ doubled us := by
      simp [doubled]
    rw [hsplit, metaQuoted_append, quoteState_append]
    by_cases hu : u = QUOTE
    · have hm : isMeta QUOTE = false := by decide
      have ht : toggle (toggle inside QUOTE) QUOTE = inside := by simp [toggle]
      simp only [hu, ↓reduceIte, MetaQuoted, quoteState, List.foldl_cons, List.foldl_nil, ht, hm,
        List.mem_cons, forall_eq_or_imp] at ih ⊢
      simpa using ih
    · simp only [hu, ↓reduceIte, MetaQuoted, quoteState, List.foldl_cons, List.foldl_nil, toggle,
        List.mem_cons, forall_eq_or_imp] at ih ⊢
      refine ⟨?_, ih.2⟩
      rw [ih.1]
      cases inside <;> simp

def batchToken (arg : Wide) : Wide := SPACE :: QUOTE :: (doubled arg ++ [QUOTE])

theorem quoteBatchArgInto_eq (arg out : Wide) :
    quoteBatchArgInto arg out =
      if arg.any isUnsafe then .error (refuse "winargv: unrepresentable batch argument")
      else .ok (out ++ QUOTE :: (doubled arg ++ [QUOTE])) := by
  simp only [quoteBatchArgInto, doubleQuotes_eq, doubled, List.append_assoc, List.cons_append,
    List.nil_append]
  rfl

theorem appendArgs_batch (args : List Wide) (out line : Wide) :
    appendArgs .batch args out = .ok line ↔
      (∀ a ∈ args, ∀ u ∈ a, isUnsafe u = false) ∧ line = out ++ args.flatMap batchToken := by
  induction args generalizing out with
  | nil => simpa [appendArgs] using eq_comm
  | cons a args ih =>
    rw [appendArgs, quoteBatchArgInto_eq]
    by_cases h : a.any isUnsafe = true
    · obtain ⟨u, hu, hbad⟩ := List.any_eq_true.mp h
      rw [if_pos h]
      constructor
      · intro h; cases h
      · rintro ⟨hclean, -⟩
        exact absurd (hclean a (by simp) u hu) (by simp [hbad])
    · have hclean : ∀ u ∈ a, isUnsafe u = false := by simpa using h
      rw [if_neg h]
      change appendArgs .batch args _ = _ ↔ _
      rw [ih]
      simp only [List.mem_cons, forall_eq_or_imp, List.flatMap_cons, batchToken,
        List.append_assoc, List.cons_append, List.nil_append]
      exact ⟨fun h => ⟨⟨hclean, h.1⟩, h.2⟩, fun h => ⟨h.1.2, h.2⟩⟩

theorem metaQuoted_batchTokens (inside : Bool) (args : List Wide) :
    MetaQuoted inside (args.flatMap batchToken) ↔
      inside = false ∨ ∀ a ∈ args, ∀ u ∈ a, isMeta u = false := by
  induction args with
  | nil => simp [MetaQuoted]
  | cons a args ih =>
    obtain ⟨hm, hs⟩ := metaQuoted_doubled (!inside) a
    obtain ⟨hw, hws⟩ := metaQuoted_wrapped inside (doubled a)
    have hsp : toggle inside SPACE = inside := if_neg (by decide)
    have hhead : MetaQuoted inside (batchToken a) ↔ inside = false ∨ ∀ u ∈ a, isMeta u = false := by
      rw [batchToken, MetaQuoted, hsp, hw, hm]
      simp [show isMeta SPACE = false by decide]
    have hstate : quoteState inside (batchToken a) = inside := by
      change quoteState (toggle inside SPACE) (QUOTE :: (doubled a ++ [QUOTE])) = inside
      rw [hsp, hws, hs, Bool.not_not]
    rw [List.flatMap_cons, metaQuoted_append, hstate, ih, hhead]
    cases inside <;> simp

theorem mem_escaped (us : Wide) (n : ℕ) (P : UInt16 → Prop) (hb : P BACKSLASH) :
    (∀ u ∈ escaped us n, P u) ↔ ∀ u ∈ us, P u := by
  induction us generalizing n with
  | nil => simp [escaped]
  | cons u us ih =>
    unfold escaped
    split_ifs
    · simp [ih]
    · simp only [List.forall_mem_append, List.forall_mem_cons, ih, and_iff_right_iff_imp]
      intro _ v hv
      rwa [List.eq_of_mem_replicate hv]
    · simp [ih]

theorem mem_token (us : Wide) (P : UInt16 → Prop) (hb : P BACKSLASH) (hq : P QUOTE) :
    (∀ u ∈ token us, P u) ↔ ∀ u ∈ us, P u := by
  unfold token
  split_ifs
  · simp only [List.forall_mem_cons, List.forall_mem_append, mem_escaped us 0 P hb]
    refine ⟨fun h => h.2.1.1, fun h => ⟨hq, ⟨h, ?_⟩, hq, by simp⟩⟩
    intro v hv
    rwa [List.eq_of_mem_replicate hv]
  · exact mem_escaped us 0 P hb

theorem mem_doubled (arg : Wide) (u : UInt16) : u ∈ doubled arg ↔ u ∈ arg := by
  simp only [doubled, List.mem_flatMap]
  constructor
  · rintro ⟨v, hv, hu⟩
    split_ifs at hu with h <;> simp_all
  · intro hu
    refine ⟨u, hu, ?_⟩
    split_ifs with h <;> simp [h]

theorem batchTokens_clean (args : List Wide) (h : ∀ a ∈ args, ∀ u ∈ a, isUnsafe u = false) :
    ∀ u ∈ args.flatMap batchToken, isUnsafe u = false := by
  intro u hu
  obtain ⟨a, ha, hu⟩ := List.mem_flatMap.mp hu
  simp only [batchToken, List.mem_cons, List.mem_append, mem_doubled, List.not_mem_nil,
    or_false] at hu
  rcases hu with rfl | rfl | hu | rfl
  · decide
  · decide
  · exact h a ha u hu
  · decide

theorem batchSafe_iff (program : Wide) (args : List Wide) (line : Wide)
    (hc : classify program = .batch) (hline : buildCommandLineWide program args = .ok line) :
    BatchSafe line ↔
      (∀ u ∈ program, u ≠ CR ∧ u ≠ LF ∧ u ≠ PERCENT) ∧
      MetaQuoted (needsQuote program) program ∧
      (Even (program.count QUOTE) ∨ ∀ a ∈ args, ∀ u ∈ a, isMeta u = false) := by
  unfold buildCommandLineWide at hline
  split_ifs at hline with _ hnul
  rw [hc, quoteArgInto_eq, List.nil_append, appendArgs_batch] at hline
  obtain ⟨hargs, rfl⟩ := hline
  obtain ⟨hm, hs⟩ := token_state program
  have hprogram : NUL ∉ program := by
    simp only [Bool.or_eq_true, List.contains_iff_mem, not_or] at hnul
    exact hnul.1
  rw [BatchSafe, metaQuoted_append, hm, hs, metaQuoted_batchTokens, quoteState_even]
  refine and_congr_left fun _ => ?_
  rw [List.forall_mem_append, mem_token _ _ (by decide) (by decide)]
  refine (and_iff_left (batchTokens_clean args hargs)).trans (forall₂_congr fun u hu => ?_)
  have hu0 : u ≠ NUL := fun h => hprogram (h ▸ hu)
  simp [isUnsafe, hu0, and_assoc]

theorem batchSafe_quoted_argument :
    BatchSafe [0x73, 0x2E, 0x62, 0x61, 0x74, 0x20, 0x22, 0x61, 0x26, 0x62, 0x22] := by
  refine (batchSafe_iff [0x73, 0x2E, 0x62, 0x61, 0x74] [[0x61, 0x26, 0x62]] _ (by decide) rfl).mpr ⟨?_, ?_, .inl ?_⟩
  · simp [CR, LF, PERCENT]
  · decide
  · decide

theorem batch_program_metacharacter_bare :
    ¬ ∀ (program : Wide) (args : List Wide) (line : Wide), classify program = .batch →
      buildCommandLineWide program args = .ok line → BatchSafe line := by
  intro h
  exact absurd (h [0x61, 0x26, 0x62, 0x2E, 0x62, 0x61, 0x74] [] _ (by decide) rfl) (by decide)

end Rustils.Winargv
