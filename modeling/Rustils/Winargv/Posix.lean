import Rustils.Lib.Shell

namespace Rustils.Winargv

open Lib.Shell

def posixMeta (c : Char) : Bool :=
  [' ', '\t', '\n', '\'', '"', '\\', '$', '\x60', '&', '|', ';', '<', '>', '(', ')', '{', '}', '*', '?',
    '[', ']', '!', '~', '#'].contains c

def posixQuoteLoop : List Char → String → String
  | [], out => out
  | c :: cs, out => posixQuoteLoop cs (if c = '\'' then out ++ "'\\''" else out.push c)

def posixQuoteArg (arg : String) : String :=
  if arg.isEmpty then "''"
  else if !arg.toList.any posixMeta then arg
  else (posixQuoteLoop arg.toList (String.push "" '\'')).push '\''

def reopened (c : Char) : List Char := if c = '\'' then ['\'', '\\', '\'', '\''] else [c]

theorem toList_posixQuoteLoop (cs : List Char) (out : String) :
    (posixQuoteLoop cs out).toList = out.toList ++ cs.flatMap reopened := by
  induction cs generalizing out with
  | nil => simp [posixQuoteLoop]
  | cons c cs ih =>
    rw [posixQuoteLoop, ih, List.flatMap_cons, reopened]
    split_ifs <;> simp

theorem isOrdinary_of_not_posixMeta {c : Char} (h : posixMeta c = false) : isOrdinary c = true := by
  simp only [posixMeta, List.contains_eq_mem, decide_eq_false_iff_not, List.mem_cons, List.not_mem_nil, or_false, not_or] at h
  simp [isOrdinary, isBlank, isOperator, isActive, h]

theorem read_reopened_chars (cs : List Char) (w : List Piece) (rest : List Char) :
    read .single (some w) (cs.flatMap reopened ++ rest) = read .single (some (w ++ cs.map .lit)) rest := by
  induction cs generalizing w with
  | nil => simp
  | cons c cs ih =>
    rw [List.flatMap_cons, List.append_assoc, reopened]
    split_ifs with hc
    · subst hc
      have h := read_reopened w (cs.flatMap reopened ++ rest)
      simp only [List.cons_append, List.nil_append]
      rw [h, ih]
      simp
    · rw [List.singleton_append, read_single w hc, ih]
      simp

theorem read_posixQuoteArg (arg : String) (rest : List Char) :
    read .plain none ((posixQuoteArg arg).toList ++ rest) = read .plain (some (arg.toList.map .lit)) rest := by
  unfold posixQuoteArg
  split_ifs with hempty hmeta
  · obtain rfl : arg = "" := String.isEmpty_iff.mp hempty
    rfl
  · have hord : ∀ c ∈ arg.toList, isOrdinary c = true := by
      intro c hc
      apply isOrdinary_of_not_posixMeta
      simpa using List.any_eq_false.mp (by simpa using hmeta) c hc
    have hne : arg.toList ≠ [] := by
      intro hnil
      exact hempty (String.isEmpty_iff.mpr (String.toList_eq_nil_iff.mp hnil))
    rw [read_ordinary hord hne]
    rfl
  · have hopen : ((posixQuoteLoop arg.toList (String.push "" '\'')).push '\'').toList ++ rest =
        '\'' :: (arg.toList.flatMap reopened ++ '\'' :: rest) := by
      simp [toList_posixQuoteLoop]
    have hstart (cs : List Char) :
        Lib.Shell.read .plain none ('\'' :: cs) = Lib.Shell.read .single (some []) cs := by
      simp [Lib.Shell.read, add]
    rw [hopen, hstart, read_reopened_chars, List.nil_append, Lib.Shell.read, if_pos rfl]

theorem posix_quoting_inert (args : List String) :
    readLine (" ".intercalate (args.map posixQuoteArg)).toList =
      some (args.map fun arg => literal arg.toList) := by
  induction args with
  | nil => rfl
  | cons arg args ih =>
    cases args with
    | nil =>
      have h := read_posixQuoteArg arg []
      rw [List.append_nil] at h
      rw [List.map_singleton, String.intercalate_singleton, readLine, h]
      rfl
    | cons next args =>
      rw [List.map_cons] at ih
      rw [List.map_cons, List.map_cons, String.intercalate_cons_cons, String.toList_append, String.toList_append,
        List.append_assoc, readLine, read_posixQuoteArg]
      exact (read_blank _ _).trans (congrArg _ ih)

end Rustils.Winargv
