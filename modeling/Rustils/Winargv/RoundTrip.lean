import Mathlib.Data.List.TakeWhile
import Rustils.Winargv.Split

namespace Rustils.Winargv

open Platform

theorem escaped_run (k n : ℕ) (us : Wide) :
    escaped (List.replicate k BACKSLASH ++ us) n =
      List.replicate k BACKSLASH ++ escaped us (n + k) := by
  induction k generalizing n with
  | zero => simp
  | succ k ih =>
    rw [List.replicate_succ, List.cons_append, escaped, if_pos rfl, ih, List.cons_append]
    congr 3
    omega

theorem trailing_run (k n : ℕ) (us : Wide) :
    trailing (List.replicate k BACKSLASH ++ us) n = trailing us (n + k) := by
  induction k generalizing n with
  | zero => simp
  | succ k ih =>
    rw [List.replicate_succ, List.cons_append, trailing, if_pos rfl, ih]
    congr 1
    omega

theorem escaped_unit (n : ℕ) (u : UInt16) (us : Wide) (hb : u ≠ BACKSLASH) (hq : u ≠ QUOTE) :
    escaped (u :: us) n = u :: escaped us 0 := by
  rw [escaped, if_neg hb, if_neg hq]

theorem escaped_quote (n : ℕ) (us : Wide) :
    escaped (QUOTE :: us) n = List.replicate (n + 1) BACKSLASH ++ QUOTE :: escaped us 0 := by
  rw [escaped, if_neg (by decide), if_pos rfl]

theorem trailing_unit (n : ℕ) (u : UInt16) (us : Wide) (hb : u ≠ BACKSLASH) :
    trailing (u :: us) n = trailing us 0 := by
  rw [trailing, if_neg hb]

theorem splitArgs_escaped (us rest current : Wide) (out : List Wide) :
    splitArgs (escaped us 0 ++ List.replicate (trailing us 0) BACKSLASH ++ QUOTE :: rest)
      true true current out = splitArgs rest false true (current ++ us) out := by
  induction us using backslash_induction generalizing current with
  | run n =>
    -- the run stands before the closing quote, so it was doubled
    have he := escaped_run n 0 []
    have ht := trailing_run n 0 []
    simp only [List.append_nil, escaped, trailing, Nat.zero_add] at he ht
    rw [he, ht, ← List.replicate_add, splitArgs_run_quote, if_neg (by omega),
      show (n + n) / 2 = n by omega]
    rfl
  | unit n u us hu ih =>
    rw [escaped_run, trailing_run, trailing_unit _ _ _ hu]
    by_cases hq : u = QUOTE
    · subst hq
      rw [escaped_quote, ← List.append_assoc, ← List.replicate_add]
      simp only [List.append_assoc, List.cons_append]
      rw [splitArgs_run_quote, if_pos (by omega), show (n + (0 + n + 1)) / 2 = n by omega,
        ← List.append_assoc (escaped us 0), ih]
      simp
    · rw [escaped_unit _ _ _ hu hq]
      simp only [List.append_assoc, List.cons_append]
      rw [splitArgs_run _ _ _ _ _ _ (by simp [hu]) (by simp [hq]),
        splitArgs_unit _ _ _ _ _ _ hu hq (fun _ => rfl), ← List.append_assoc (escaped us 0), ih]
      simp

theorem escaped_of_not_mem (us : Wide) (n : ℕ) (hq : QUOTE ∉ us) : escaped us n = us := by
  induction us generalizing n with
  | nil => rfl
  | cons u us ih =>
    simp only [List.mem_cons, not_or] at hq
    unfold escaped
    split_ifs with hb h
    · rw [ih _ hq.2]
    · exact absurd h.symm hq.1
    · rw [ih _ hq.2]

theorem splitArgs_plain (us rest current : Wide) (a : Bool) (out : List Wide)
    (hus : ∀ u ∈ us, u ≠ QUOTE ∧ isBlank u = false)
    (hrest : rest.head? ≠ some BACKSLASH ∧ rest.head? ≠ some QUOTE) :
    splitArgs (us ++ rest) false a current out =
      splitArgs rest false (a || decide (us ≠ [])) (current ++ us) out := by
  induction us using backslash_induction generalizing current a with
  | run n =>
    rw [splitArgs_run _ _ _ _ _ _ hrest.1 hrest.2]
    cases n <;> simp [List.replicate_succ]
  | unit n u us hu ih =>
    have hqb := hus u (by simp)
    rw [List.append_assoc, List.cons_append,
      splitArgs_run _ _ _ _ _ _ (by simp [hu]) (by simp [hqb.1]),
      splitArgs_unit _ _ _ _ _ _ hu hqb.1 (by simp [hqb.2]), ih _ _ (fun v hv => hus v (by simp [hv]))]
    simp

theorem not_needsQuote {arg : Wide} (h : needsQuote arg = false) :
    arg ≠ [] ∧ ∀ u ∈ arg, u ≠ QUOTE ∧ isBlank u = false := by
  simp only [needsQuote, Bool.or_eq_false_iff, List.isEmpty_eq_false_iff, List.any_eq_false,
    beq_iff_eq, isBlank, Bool.or_eq_true, not_or, beq_eq_false_iff_ne] at h ⊢
  exact ⟨h.1, fun u hu => ⟨(h.2 u hu).2, (h.2 u hu).1.1, (h.2 u hu).1.2⟩⟩

theorem splitArgs_token (arg rest : Wide) (out : List Wide)
    (hrest : rest.head? ≠ some BACKSLASH ∧ rest.head? ≠ some QUOTE) :
    splitArgs (token arg ++ rest) false false [] out = splitArgs rest false true arg out := by
  unfold token
  cases h : needsQuote arg with
  | true =>
    simp only [↓reduceIte, List.cons_append, List.append_assoc, List.nil_append]
    have hopen := splitArgs_run_quote 0 false false [] out
      (escaped arg 0 ++ (List.replicate (trailing arg 0) BACKSLASH ++ QUOTE :: rest))
    simp only [List.replicate_zero, List.nil_append, Nat.zero_mod, Nat.zero_ne_one, ↓reduceIte,
      Bool.not_false, Nat.zero_div] at hopen
    rw [hopen, ← List.append_assoc, splitArgs_escaped, List.nil_append]
  | false =>
    obtain ⟨hne, hus⟩ := not_needsQuote h
    have hq : QUOTE ∉ arg := fun hq => (hus QUOTE hq).1 rfl
    rw [if_neg (by simp), escaped_of_not_mem arg 0 hq, splitArgs_plain arg rest [] false out hus hrest]
    simp [hne]

theorem splitArgs_tokens (args : List Wide) (current : Wide) (out : List Wide) :
    splitArgs (args.flatMap (fun a => SPACE :: token a)) false true current out =
      out ++ current :: args := by
  induction args generalizing current out with
  | nil => simp [splitArgs]
  | cons arg args ih =>
    rw [List.flatMap_cons, List.cons_append, splitArgs_blank, if_pos rfl, splitArgs_token, ih]
    · simp
    · cases args <;> simp [show SPACE ≠ BACKSLASH by decide, show SPACE ≠ QUOTE by decide]

theorem splitArgs_line (args : List Wide) (out : List Wide) :
    splitArgs (args.flatMap (fun a => SPACE :: token a)) false false [] out = out ++ args := by
  cases args with
  | nil => simp [splitArgs]
  | cons arg args =>
    rw [List.flatMap_cons, List.cons_append, splitArgs_blank, if_neg (by simp), splitArgs_token,
      splitArgs_tokens]
    cases args <;> simp [show SPACE ≠ BACKSLASH by decide, show SPACE ≠ QUOTE by decide]

/-- Token 0 takes every backslash as it stands, the doubled ones too. -/
def programToken (program : Wide) : Wide :=
  if needsQuote program then program ++ List.replicate (trailing program 0) BACKSLASH else program

theorem splitProgram_token (program rest : Wide) (hne : program ≠ []) (hq : QUOTE ∉ program)
    (hrest : ∀ u, rest.head? = some u → isBlank u = true) :
    splitProgram (token program ++ rest) = (programToken program, rest) := by
  unfold token programToken
  rw [escaped_of_not_mem program 0 hq]
  cases h : needsQuote program with
  | true =>
    let inner := program ++ List.replicate (trailing program 0) BACKSLASH
    have hinner : ∀ u ∈ inner, (u != QUOTE) = true := by
      intro u hu
      rcases List.mem_append.mp hu with hu | hu
      · exact bne_iff_ne.mpr fun h => hq (h ▸ hu)
      · rw [List.eq_of_mem_replicate hu]
        decide
    have hl : (QUOTE :: (program ++ List.replicate (trailing program 0) BACKSLASH ++ [QUOTE])) ++
        rest = QUOTE :: (inner ++ QUOTE :: rest) := by simp [inner]
    simp only [↓reduceIte, hl, splitProgram]
    rw [List.takeWhile_append_of_pos hinner, List.dropWhile_append_of_pos hinner]
    simp [inner]
  | false =>
    obtain ⟨-, hus⟩ := not_needsQuote h
    have hblank : ∀ u ∈ program, (!isBlank u) = true := fun u hu => by simp [(hus u hu).2]
    rw [if_neg (by simp), if_neg (by simp)]
    obtain ⟨u, us, rfl⟩ := List.exists_cons_of_ne_nil hne
    rw [List.cons_append, splitProgram, if_neg (hus u (by simp)).1, ← List.cons_append,
      List.takeWhile_append_of_pos hblank, List.dropWhile_append_of_pos hblank]
    cases rest with
    | nil => simp
    | cons v vs => simp [hrest v rfl]

theorem head_tokens {args : List Wide} {u : UInt16}
    (hu : (args.flatMap (fun a => SPACE :: token a)).head? = some u) : isBlank u = true := by
  cases args with
  | nil => cases hu
  | cons a args =>
    cases hu
    rfl

theorem modelSplit_line (program : Wide) (args : List Wide) (hne : program ≠ [])
    (hq : QUOTE ∉ program) :
    modelSplit (token program ++ args.flatMap (fun a => SPACE :: token a)) =
      programToken program :: args := by
  simp only [modelSplit, splitProgram_token program _ hne hq fun _ => head_tokens, splitArgs_line,
    List.cons_append, List.nil_append]

theorem buildCommandLineWide_executable (program : Wide) (args : List Wide)
    (hne : program ≠ []) (hp : NUL ∉ program) (ha : ∀ a ∈ args, NUL ∉ a)
    (hc : classify program = .executable) :
    buildCommandLineWide program args =
      .ok (token program ++ args.flatMap (fun a => SPACE :: token a)) := by
  unfold buildCommandLineWide
  have hnul : ¬(program.contains NUL || args.any (fun a => a.contains NUL)) = true := by
    simpa using ⟨hp, ha⟩
  rw [if_neg (by simpa using hne), if_neg hnul, hc, quoteArgInto_eq, appendArgs_executable,
    List.nil_append]

theorem buildCommandLineWide_error_iff (program : Wide) (args : List Wide)
    (hc : classify program = .executable) :
    (∃ e, buildCommandLineWide program args = .error e) ↔
      program = [] ∨ NUL ∈ program ∨ ∃ a ∈ args, NUL ∈ a := by
  constructor
  · rintro ⟨e, he⟩
    by_contra hcon
    push Not at hcon
    rw [buildCommandLineWide_executable program args hcon.1 hcon.2.1 hcon.2.2 hc] at he
    cases he
  · intro h
    unfold buildCommandLineWide
    split_ifs with hempty hnul
    · exact ⟨_, rfl⟩
    · exact ⟨_, rfl⟩
    · simp only [Bool.or_eq_true, List.contains_iff_mem, List.any_eq_true, not_or, not_exists,
        not_and, List.isEmpty_iff] at hempty hnul
      rcases h with h | h | ⟨a, ha, h⟩
      · exact absurd h hempty
      · exact absurd h hnul.1
      · exact absurd h (hnul.2 a ha)

theorem modelSplit_buildCommandLineWide (program : Wide) (args : List Wide)
    (hc : classify program = .executable) :
    (program ≠ [] → NUL ∉ program → QUOTE ∉ program → (∀ a ∈ args, NUL ∉ a) →
      ∃ line, buildCommandLineWide program args = .ok line ∧
        (modelSplit line).length = args.length + 1 ∧ (modelSplit line).drop 1 = args) ∧
    ((∃ e, buildCommandLineWide program args = .error e) ↔
      program = [] ∨ NUL ∈ program ∨ ∃ a ∈ args, NUL ∈ a) := by
  constructor
  · intro hne hp hq ha
    refine ⟨_, buildCommandLineWide_executable program args hne hp ha hc, ?_⟩
    rw [modelSplit_line program args hne hq]
    exact ⟨rfl, rfl⟩
  · exact buildCommandLineWide_error_iff program args hc

theorem modelSplit_quoted_arguments :
    ∃ line, buildCommandLineWide [0x61, 0x20, 0x62] [[0x5C, 0x5C, 0x22, 0x62], [], [0x09, 0x5C]] =
        .ok line ∧
      (modelSplit line).length = 4 ∧
      (modelSplit line).drop 1 = [[0x5C, 0x5C, 0x22, 0x62], [], [0x09, 0x5C]] :=
  (modelSplit_buildCommandLineWide [0x61, 0x20, 0x62] [[0x5C, 0x5C, 0x22, 0x62], [], [0x09, 0x5C]]
    (by decide)).1 (by decide) (by decide) (by decide) (by decide)

theorem trailing_eq_zero {us : Wide} (hne : us ≠ []) (n : ℕ) :
    trailing us n = 0 ↔ us.getLast? ≠ some BACKSLASH := by
  induction us generalizing n with
  | nil => exact absurd rfl hne
  | cons u us ih =>
    cases us with
    | nil => by_cases hu : u = BACKSLASH <;> simp [trailing, hu]
    | cons v vs =>
      rw [List.getLast?_cons_cons, trailing]
      split_ifs
      · exact ih (List.cons_ne_nil v vs) _
      · exact ih (List.cons_ne_nil v vs) _

theorem splitArgs_prefix (rest : Wide) (q a : Bool) (current : Wide) (out : List Wide) :
    out <+: splitArgs rest q a current out := by
  fun_induction splitArgs rest q a current out with
  | case1 => exact List.prefix_append _ _
  | case2 => exact List.prefix_refl _
  | case7 _ _ _ _ _ _ _ _ ih => exact (List.prefix_append _ _).trans ih
  | _ => assumption

theorem needsQuote_iff {program : Wide} (hne : program ≠ []) (hq : QUOTE ∉ program) :
    needsQuote program = true ↔ ∃ u ∈ program, isBlank u = true := by
  simp only [needsQuote, Bool.or_eq_true, List.isEmpty_iff, hne, false_or, List.any_eq_true,
    beq_iff_eq, isBlank]
  constructor
  · rintro ⟨u, hu, h | rfl⟩
    · exact ⟨u, hu, h⟩
    · exact absurd hu hq
  · rintro ⟨u, hu, h⟩
    exact ⟨u, hu, .inl h⟩

theorem programToken_eq_self {program : Wide} (hne : program ≠ []) (hq : QUOTE ∉ program) :
    programToken program = program ↔
      ¬ ((∃ u ∈ program, isBlank u = true) ∧ program.getLast? = some BACKSLASH) := by
  rw [← needsQuote_iff hne hq, not_and, programToken]
  by_cases h : needsQuote program = true
  · rw [if_pos h, List.append_right_eq_self, List.replicate_eq_nil_iff, trailing_eq_zero hne]
    exact ⟨fun hl _ => hl, fun hl => hl h⟩
  · rw [if_neg h]
    exact iff_of_true rfl fun hn => absurd hn h

theorem head_modelSplit (line : Wide) : (modelSplit line).head? = some (splitProgram line).1 := by
  obtain ⟨more, hmore⟩ := splitArgs_prefix (splitProgram line).2 false false [] [(splitProgram line).1]
  change (splitArgs (splitProgram line).2 false false [] [(splitProgram line).1]).head? = _
  rw [← hmore, List.singleton_append, List.head?_cons]

theorem quote_not_mem_program {program : Wide} (rest : Wide) (hq : QUOTE ∈ program) :
    QUOTE ∉ (splitProgram (token program ++ rest)).1 := by
  have hn : needsQuote program = true := by
    simp only [needsQuote, Bool.or_eq_true, List.any_eq_true]
    exact .inr ⟨QUOTE, hq, .inr rfl⟩
  rw [token, if_pos hn, List.cons_append, splitProgram, if_pos rfl]
  intro hmem
  have hne : (QUOTE != QUOTE) = true := List.mem_takeWhile_imp (p := (· != QUOTE)) hmem
  exact bne_iff_ne.mp hne rfl

theorem program_survives_iff (program : Wide) (args : List Wide) (line : Wide)
    (hc : classify program = .executable) (h : buildCommandLineWide program args = .ok line) :
    ((modelSplit line).head? = some program ∧ (modelSplit line).length = args.length + 1) ↔
      QUOTE ∉ program ∧
        ¬ ((∃ u ∈ program, isBlank u = true) ∧ program.getLast? = some BACKSLASH) := by
  have hok : ¬ ∃ e, buildCommandLineWide program args = .error e := by
    rintro ⟨e, he⟩
    cases he.symm.trans h
  rw [buildCommandLineWide_error_iff _ _ hc] at hok
  push Not at hok
  obtain ⟨hne, hp, ha⟩ := hok
  cases (buildCommandLineWide_executable program args hne hp ha hc).symm.trans h
  by_cases hq : QUOTE ∈ program
  · apply iff_of_false
    · rintro ⟨hhead, -⟩
      rw [head_modelSplit, Option.some.injEq] at hhead
      apply quote_not_mem_program _ hq
      rw [hhead]
      exact hq
    · intro hcond
      exact hcond.1 hq
  · rw [modelSplit_line program args hne hq, List.head?_cons, Option.some.injEq,
      programToken_eq_self hne hq]
    simp only [List.length_cons, and_true, hq, not_false_eq_true, true_and]

theorem program_survives_blank :
    ∃ line, buildCommandLineWide [0x61, 0x20, 0x62] [[0x63]] = .ok line ∧
      (modelSplit line).head? = some [0x61, 0x20, 0x62] ∧ (modelSplit line).length = 2 := by
  have h : buildCommandLineWide [0x61, 0x20, 0x62] [[0x63]] =
      .ok [0x22, 0x61, 0x20, 0x62, 0x22, 0x20, 0x63] := by decide
  exact ⟨_, h, (program_survives_iff _ _ _ (by decide) h).mpr (by decide)⟩

theorem program_mangled :
    (∃ line, classify [0x61, 0x22, 0x62] = .executable ∧
      buildCommandLineWide [0x61, 0x22, 0x62] [] = .ok line ∧
      (modelSplit line).head? = some [0x61, 0x5C] ∧ (modelSplit line).length = 2) ∧
    ∃ line, classify [0x61, 0x20, 0x62, 0x5C] = .executable ∧
      buildCommandLineWide [0x61, 0x20, 0x62, 0x5C] [] = .ok line ∧
      (modelSplit line).head? = some [0x61, 0x20, 0x62, 0x5C, 0x5C] := by
  refine ⟨⟨[0x22, 0x61, 0x5C, 0x22, 0x62, 0x22], by decide, by decide, ?_, ?_⟩,
    ⟨[0x22, 0x61, 0x20, 0x62, 0x5C, 0x5C, 0x22], by decide, by decide, ?_⟩⟩
  · rw [head_modelSplit]
    decide
  · simp [modelSplit, splitProgram, splitArgs, QUOTE, BACKSLASH, isBlank, SPACE, TAB]
  · rw [head_modelSplit]
    decide

end Rustils.Winargv
