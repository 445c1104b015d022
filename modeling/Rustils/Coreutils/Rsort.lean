import Mathlib.Algebra.Order.Group.Int
import Mathlib.Algebra.Ring.Int.Defs
import Mathlib.Data.List.DropRight
import Mathlib.Order.Defs.LinearOrder
import Rustils.Coreutils.Rtail
import Rustils.Lib.Sorting

namespace Rustils.Coreutils.Rsort

open Lib.Sorting Lib.Utf8
open Rtail (pieces)

/-- An `f64`: the numbers, infinite ones too, in their order, and apart from them `NaN`. -/
inductive Number (N : Type)
  | nan
  | num (x : N)
  deriving DecidableEq

def trim (s : String) : String := String.ofList ((s.toList.dropWhile isWhitespace).rdropWhile isWhitespace)

section Compare

variable {N : Type} [LinearOrder N]

def Number.partialCmp : Number N → Number N → Option Ordering
  | .num x, .num y => some (compare x y)
  | _, _ => none

variable [Zero N] (parse : String → Option (Number N))

def number (line : String) : Number N := (parse (trim line)).getD (.num 0)

def compareNumeric (a b : String) : Ordering := ((number parse a).partialCmp (number parse b)).getD .eq

end Compare

def compareText (a b : String) : Ordering := compare (asBytes a) (asBytes b)

def chomp (line : List Char) : List Char :=
  match line.reverse with
  | '\n' :: '\r' :: r => r.reverse
  | '\n' :: r => r.reverse
  | _ => line

def readLines (input : List UInt8) : Except String (List String) :=
  (pieces input).mapM fun p =>
    match fromUtf8 p with
    | some s => .ok (String.ofList (chomp s.toList))
    | none => .error "stream did not contain valid UTF-8"

structure Host (N : Type) where
  posixToWin32 : String → String
  openFile : String → Except String (List UInt8)
  stdin : List UInt8
  parse : String → Option (Number N)
  sort : SortBy String

inductive Outcome
  | printed (lines : List String)
  | failed (e : String)
  | panicked
  deriving DecidableEq

def filesOf (args : List String) : List String := args.tail.filter fun a => ¬ a.toList.head? = some '-'

section Main

variable {N : Type} [LinearOrder N] [Zero N] (host : Host N) (args : List String)

def lines : Except String (List String) :=
  let files := filesOf args
  if files = [] then readLines host.stdin
  else do
    let parts ← files.mapM fun f => do
      let file ← host.openFile (host.posixToWin32 f)
      readLines file
    pure parts.flatten

def main : Outcome :=
  match lines host args with
  | .error e => .failed e
  | .ok lines =>
    match host.sort.sortBy (if "-n" ∈ args then compareNumeric host.parse else compareText) lines with
    | none => .panicked
    | some sorted => .printed (if "-r" ∈ args then sorted.reverse else sorted)

end Main

section Compare

variable {N : Type} [LinearOrder N]

theorem compare_swap (x y : N) : compare x y = (compare y x).swap := by
  rcases lt_trichotomy x y with h | h | h
  · rw [compare_lt_iff_lt.mpr h, compare_gt_iff_gt.mpr h]
    rfl
  · rw [compare_eq_iff_eq.mpr h, compare_eq_iff_eq.mpr h.symm]
    rfl
  · rw [compare_gt_iff_gt.mpr h, compare_lt_iff_lt.mpr h]
    rfl

theorem compare_trans {x y z : N} (h : compare x y = compare y z) : compare x z = compare x y := by
  cases hxy : compare x y with
  | lt =>
    rw [hxy] at h
    exact compare_lt_iff_lt.mpr ((compare_lt_iff_lt.mp hxy).trans (compare_lt_iff_lt.mp h.symm))
  | eq =>
    rw [hxy] at h
    exact compare_eq_iff_eq.mpr ((compare_eq_iff_eq.mp hxy).trans (compare_eq_iff_eq.mp h.symm))
  | gt =>
    rw [hxy] at h
    exact compare_gt_iff_gt.mpr ((compare_gt_iff_gt.mp h.symm).trans (compare_gt_iff_gt.mp hxy))

end Compare

section Order

variable {N : Type} [LinearOrder N] [Zero N] (parse : String → Option (Number N))

structure NumericallySorted (l out : List String) : Prop where
  perm : out.Perm l
  sorted : out.Pairwise fun a b => ∀ x y, number parse a = .num x → number parse b = .num y → x ≤ y
  stable : ∀ v, out.filter (fun a => number parse a = v) = l.filter fun a => number parse a = v

structure SortsLawfully (l : List String) : Prop where
  total : TotalOn (compareNumeric parse) l
  sorted : ∀ host args, host.parse = parse → "-n" ∈ args → lines host args = .ok l →
    ∃ out, NumericallySorted parse l out ∧ main host args = .printed (if "-r" ∈ args then out.reverse else out)

def Comparable (l : List String) : Prop :=
  (∀ a ∈ l, number parse a ≠ .nan) ∨
  ∀ a ∈ l, ∀ b ∈ l, ∀ x y, number parse a = .num x → number parse b = .num y → x = y

variable {parse} {l : List String}

theorem compareNumeric_num {a b : String} {x y : N} (ha : number parse a = .num x) (hb : number parse b = .num y) :
    compareNumeric parse a b = compare x y := by
  rw [compareNumeric, ha, hb]
  rfl

theorem compareNumeric_nan {a b : String} (h : number parse a = .nan ∨ number parse b = .nan) :
    compareNumeric parse a b = .eq := by
  rw [compareNumeric]
  rcases h with h | h <;> rw [h]
  · rfl
  · cases number parse a <;> rfl

omit [LinearOrder N] in
theorem exists_num {a : String} (h : number parse a ≠ .nan) : ∃ x, number parse a = .num x := by
  cases ha : number parse a with
  | nan => exact absurd ha h
  | num x => exact ⟨x, rfl⟩

theorem compareNumeric_same
    (h : ∀ a ∈ l, ∀ b ∈ l, ∀ x y, number parse a = .num x → number parse b = .num y → x = y) :
    ∀ a ∈ l, ∀ b ∈ l, compareNumeric parse a b = .eq := by
  intro a ha b hb
  cases hx : number parse a with
  | nan => exact compareNumeric_nan (.inl hx)
  | num x =>
    cases hy : number parse b with
    | nan => exact compareNumeric_nan (.inr hy)
    | num y => rw [compareNumeric_num hx hy, compare_eq_iff_eq, h a ha b hb x y hx hy]

theorem totalOn_iff_comparable : TotalOn (compareNumeric parse) l ↔ Comparable parse l := by
  constructor
  · intro h
    by_cases hnan : ∃ a ∈ l, number parse a = .nan
    · obtain ⟨n, hn, hnan⟩ := hnan
      refine .inr fun a ha b hb x y hx hy => ?_
      have han : compareNumeric parse a n = .eq := compareNumeric_nan (.inr hnan)
      have hnb : compareNumeric parse n b = .eq := compareNumeric_nan (.inl hnan)
      have hab := h.trans a ha n hn b hb (han.trans hnb.symm)
      rwa [han, compareNumeric_num hx hy, compare_eq_iff_eq] at hab
    · push Not at hnan
      exact .inl hnan
  · rintro (h | h)
    · refine ⟨fun a ha => ?_, fun a ha b hb => ?_, fun a ha b hb c hc hbc => ?_⟩
      · obtain ⟨x, hx⟩ := exists_num (h a ha)
        rw [compareNumeric_num hx hx, compare_eq_iff_eq]
      · obtain ⟨x, hx⟩ := exists_num (h a ha)
        obtain ⟨y, hy⟩ := exists_num (h b hb)
        rw [compareNumeric_num hx hy, compareNumeric_num hy hx, compare_swap]
      · obtain ⟨x, hx⟩ := exists_num (h a ha)
        obtain ⟨y, hy⟩ := exists_num (h b hb)
        obtain ⟨z, hz⟩ := exists_num (h c hc)
        rw [compareNumeric_num hx hy, compareNumeric_num hy hz] at hbc
        rw [compareNumeric_num hx hz, compareNumeric_num hx hy, compare_trans hbc]
    · have hsame := compareNumeric_same h
      refine ⟨fun a ha => hsame a ha a ha, fun a ha b hb => ?_, fun a ha b hb c hc _ => ?_⟩
      · rw [hsame a ha b hb, hsame b hb a ha]
        rfl
      · rw [hsame a ha c hc, hsame a ha b hb]

theorem numericallySorted_of_stableSort (hl : Comparable parse l) {out : List String}
    (h : StableSort (compareNumeric parse) l out) : NumericallySorted parse l out := by
  refine ⟨h.perm, ?_, fun v => ?_⟩
  · apply h.sorted.imp
    intro a b hab x y hx hy
    rwa [compareNumeric_num hx hy, compare_le_iff_le] at hab
  · rcases hl with hnum | hsame
    · -- without `NaN` the lines of one number are those that compare equal to one of them
      by_cases hv : ∃ a ∈ l, number parse a = v
      · obtain ⟨a, ha, rfl⟩ := hv
        obtain ⟨x, hx⟩ := exists_num (hnum a ha)
        have hclass : ∀ b ∈ l, decide (number parse b = number parse a) = decide (compareNumeric parse a b = .eq) := by
          intro b hb
          obtain ⟨y, hy⟩ := exists_num (hnum b hb)
          rw [decide_eq_decide, compareNumeric_num hx hy, compare_eq_iff_eq, hx, hy, Number.num.injEq]
          exact eq_comm
        rw [List.filter_congr hclass, ← h.stable a ha]
        exact List.filter_congr fun b hb => hclass b (h.perm.mem_iff.mp hb)
      · push Not at hv
        have hnone : ∀ k : List String, (∀ b ∈ k, b ∈ l) → k.filter (fun a => number parse a = v) = [] := by
          intro k hk
          apply List.filter_eq_nil_iff.mpr
          intro b hb
          simpa using hv b (hk b hb)
        rw [hnone out fun b hb => h.perm.mem_iff.mp hb, hnone l fun b hb => hb]
    · have hout := h.eq_of_same (compareNumeric_same hsame)
      rw [hout]

theorem numeric_sort_lawful_iff (parse : String → Option (Number N)) (l : List String) :
    SortsLawfully parse l ↔ Comparable parse l := by
  constructor
  · intro h
    exact totalOn_iff_comparable.mp h.total
  · intro h
    have htotal : TotalOn (compareNumeric parse) l := totalOn_iff_comparable.mpr h
    refine ⟨htotal, fun host args hparse hn hlines => ?_⟩
    obtain ⟨out, hout, hsorted⟩ := host.sort.total _ _ htotal
    refine ⟨out, numericallySorted_of_stableSort h hsorted, ?_⟩
    simp only [main, hlines, if_pos hn, hparse, hout]

end Order

def parseSample (s : String) : Option (Number ℤ) :=
  if s = "nan" then some .nan else if s = "1" then some (.num 1) else if s = "0" then some (.num 0) else none

theorem nan_among_numbers_unlawful :
    ¬ SortsLawfully parseSample ["1", "nan", "0"] ∧
      main ⟨id, .error, asBytes "1\nnan\n0\n", parseSample, .strict⟩ ["rsort", "-n"] = .panicked := by
  have hnot : ¬ TotalOn (compareNumeric parseSample) ["1", "nan", "0"] := by decide
  exact ⟨fun h => hnot h.total, rfl⟩

end Rustils.Coreutils.Rsort
