import Rustils.Winargv.Quote

namespace Rustils.Winargv

def isBlank (u : UInt16) : Bool := u == SPACE || u == TAB

def splitProgram : Wide → Wide × Wide
  | [] => ([], [])
  | u :: us =>
    if u = QUOTE then (us.takeWhile (· != QUOTE), (us.dropWhile (· != QUOTE)).drop 1)
    else ((u :: us).takeWhile (!isBlank ·), (u :: us).dropWhile (!isBlank ·))

def splitArgs (rest : Wide) (inQuotes inArg : Bool) (current : Wide) (out : List Wide) :
    List Wide :=
  match rest with
  | [] => if inArg then out ++ [current] else out
  | u :: us =>
    if u = BACKSLASH then
      -- the inner loop reads the whole run; `n` is its length
      let n := (us.takeWhile (· == BACKSLASH)).length + 1
      let after := us.dropWhile (· == BACKSLASH)
      if after.head? = some QUOTE then
        if n % 2 = 1 then
          splitArgs (after.drop 1) inQuotes true
            (current ++ List.replicate (n / 2) BACKSLASH ++ [QUOTE]) out
        else
          splitArgs (after.drop 1) (!inQuotes) true (current ++ List.replicate (n / 2) BACKSLASH) out
      else splitArgs after inQuotes true (current ++ List.replicate n BACKSLASH) out
    else if u = QUOTE then splitArgs us (!inQuotes) true current out
    else if isBlank u && !inQuotes then
      if inArg then splitArgs us inQuotes false [] (out ++ [current])
      else splitArgs us inQuotes inArg current out
    else splitArgs us inQuotes true (current ++ [u]) out
termination_by rest.length
decreasing_by
  all_goals
    have := (us.dropWhile_sublist (· == BACKSLASH)).length_le
    simp only [List.length_cons, List.length_drop]
    omega

def modelSplit (line : Wide) : List Wide :=
  let (program, rest) := splitProgram line
  splitArgs rest false false [] [program]

theorem backslash_induction {P : Wide → Prop}
    (run : ∀ n, P (List.replicate n BACKSLASH))
    (unit : ∀ n u us, u ≠ BACKSLASH → P us → P (List.replicate n BACKSLASH ++ u :: us))
    (us : Wide) : P us := by
  suffices h : ∀ n, P (List.replicate n BACKSLASH ++ us) from h 0
  induction us with
  | nil => intro n; simpa using run n
  | cons u us ih =>
    intro n
    by_cases hu : u = BACKSLASH
    · subst hu
      have h := ih (n + 1)
      rwa [List.replicate_succ', List.append_assoc, List.singleton_append] at h
    · exact unit n u us hu (ih 0)

section Run

variable (n : ℕ) (q a : Bool) (current : Wide) (out : List Wide)

theorem takeWhile_run (rest : Wide) (h : rest.head? ≠ some BACKSLASH) :
    (List.replicate n BACKSLASH ++ rest).takeWhile (· == BACKSLASH) = List.replicate n BACKSLASH := by
  rw [List.takeWhile_append_of_pos (by simp)]
  cases rest with
  | nil => simp
  | cons u us => simp_all

theorem dropWhile_run (rest : Wide) (h : rest.head? ≠ some BACKSLASH) :
    (List.replicate n BACKSLASH ++ rest).dropWhile (· == BACKSLASH) = rest := by
  rw [List.dropWhile_append_of_pos (by simp)]
  cases rest with
  | nil => simp
  | cons u us => simp_all

theorem splitArgs_run_quote (rest : Wide) :
    splitArgs (List.replicate n BACKSLASH ++ QUOTE :: rest) q a current out =
      if n % 2 = 1 then
        splitArgs rest q true (current ++ List.replicate (n / 2) BACKSLASH ++ [QUOTE]) out
      else splitArgs rest (!q) true (current ++ List.replicate (n / 2) BACKSLASH) out := by
  cases n with
  | zero =>
    rw [List.replicate_zero, List.nil_append, splitArgs]
    simp [show QUOTE ≠ BACKSLASH by decide]
  | succ n =>
    have hq : (QUOTE :: rest).head? ≠ some BACKSLASH := by simp [show QUOTE ≠ BACKSLASH by decide]
    rw [List.replicate_succ, List.cons_append, splitArgs]
    simp only [takeWhile_run n _ hq, dropWhile_run n _ hq, List.length_replicate, ↓reduceIte,
      List.head?_cons, List.drop_succ_cons, List.drop_zero]

theorem splitArgs_run (rest : Wide) (h : rest.head? ≠ some BACKSLASH)
    (hq : rest.head? ≠ some QUOTE) :
    splitArgs (List.replicate n BACKSLASH ++ rest) q a current out =
      splitArgs rest q (a || decide (0 < n)) (current ++ List.replicate n BACKSLASH) out := by
  cases n with
  | zero => simp
  | succ n =>
    rw [List.replicate_succ, List.cons_append, splitArgs]
    simp only [takeWhile_run n _ h, dropWhile_run n _ h, List.length_replicate, ↓reduceIte, hq,
      Nat.zero_lt_succ, decide_true, Bool.or_true, List.replicate_succ]

theorem splitArgs_blank (rest : Wide) :
    splitArgs (SPACE :: rest) false a current out =
      if a then splitArgs rest false false [] (out ++ [current])
      else splitArgs rest false false current out := by
  rw [splitArgs]
  cases a <;> simp [isBlank, show SPACE ≠ BACKSLASH by decide, show SPACE ≠ QUOTE by decide]

theorem splitArgs_unit (u : UInt16) (rest : Wide) (hb : u ≠ BACKSLASH) (hq : u ≠ QUOTE)
    (hs : isBlank u = true → q = true) :
    splitArgs (u :: rest) q a current out = splitArgs rest q true (current ++ [u]) out := by
  rw [splitArgs]
  cases hu : isBlank u <;> cases q <;> simp_all

end Run

end Rustils.Winargv
