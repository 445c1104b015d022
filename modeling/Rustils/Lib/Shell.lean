import Mathlib.Data.List.Basic

namespace Rustils.Lib.Shell

inductive Piece
  | lit (c : Char)
  | active (c : Char)
  deriving DecidableEq

inductive Token
  | word (ps : List Piece)
  | op (c : Char)
  | comment
  deriving DecidableEq

def isBlank (c : Char) : Bool := c == ' ' || c == '\t'

def isOperator (c : Char) : Bool := ['&', '|', ';', '<', '>', '(', ')', '\n'].contains c

/-- Parameters and commands, patterns, tildes, and what shells have beyond POSIX: braces and the
history. -/
def isActive (c : Char) : Bool := ['$', '\x60', '*', '?', '[', ']', '~', '{', '}', '!'].contains c

def piece (c : Char) : Piece := if isActive c then .active c else .lit c

def quotedPiece (c : Char) : Piece := if c = '$' ∨ c = '\x60' then .active c else .lit c

inductive Mode
  | plain
  | escaped
  | single
  | double
  | doubleEscaped
  | comment

def flush : Option (List Piece) → List Token
  | none => []
  | some ps => [.word ps]

def add (cur : Option (List Piece)) (ps : List Piece) : Option (List Piece) := some (cur.getD [] ++ ps)

def read : Mode → Option (List Piece) → List Char → Option (List Token)
  | .plain, cur, [] => some (flush cur)
  | .plain, cur, c :: cs =>
    if c = '\\' then read .escaped cur cs
    else if c = '\'' then read .single (add cur []) cs
    else if c = '"' then read .double (add cur []) cs
    else if isBlank c then (read .plain none cs).map (flush cur ++ ·)
    else if isOperator c then (read .plain none cs).map (flush cur ++ .op c :: ·)
    else if c = '#' ∧ cur = none then (read .comment none cs).map (.comment :: ·)
    else read .plain (add cur [piece c]) cs
  | .escaped, cur, [] => some (flush (add cur [.lit '\\']))
  | .escaped, cur, c :: cs => read .plain (if c = '\n' then cur else add cur [.lit c]) cs
  | .single, _, [] => none
  | .single, cur, c :: cs =>
    if c = '\'' then read .plain cur cs else read .single (add cur [.lit c]) cs
  | .double, _, [] => none
  | .double, cur, c :: cs =>
    if c = '\\' then read .doubleEscaped cur cs
    else if c = '"' then read .plain cur cs
    else read .double (add cur [quotedPiece c]) cs
  | .doubleEscaped, _, [] => none
  | .doubleEscaped, cur, c :: cs =>
    if c = '\n' then read .double cur cs
    else if ['$', '\x60', '"', '\\'].contains c then read .double (add cur [.lit c]) cs
    else read .double (add cur [.lit '\\', .lit c]) cs
  | .comment, _, [] => some []
  | .comment, cur, c :: cs =>
    if c = '\n' then (read .plain none cs).map (.op c :: ·) else read .comment cur cs

def readLine (line : List Char) : Option (List Token) := read .plain none line

def isOrdinary (c : Char) : Bool :=
  !(c == '\\' || c == '\'' || c == '"' || c == '#' || isBlank c || isOperator c || isActive c)

def literal (s : List Char) : Token := .word (s.map .lit)

variable {cur : Option (List Piece)} {s rest : List Char}

theorem add_add (cur : Option (List Piece)) (ps qs : List Piece) : add (add cur ps) qs = add cur (ps ++ qs) := by
  simp [add]

theorem read_ordinary (h : ∀ c ∈ s, isOrdinary c) (hne : s ≠ []) :
    read .plain cur (s ++ rest) = read .plain (add cur (s.map .lit)) rest := by
  induction s generalizing cur with
  | nil => exact absurd rfl hne
  | cons c s ih =>
    have hc := h c List.mem_cons_self
    simp only [isOrdinary, Bool.not_eq_true', Bool.or_eq_false_iff, beq_eq_false_iff_ne] at hc
    obtain ⟨⟨⟨⟨⟨⟨h₁, h₂⟩, h₃⟩, h₄⟩, h₅⟩, h₆⟩, h₇⟩ := hc
    have hstep : read .plain cur (c :: (s ++ rest)) = read .plain (add cur [.lit c]) (s ++ rest) := by
      rw [read, if_neg h₁, if_neg h₂, if_neg h₃, if_neg (by simp [h₅]), if_neg (by simp [h₆]),
        if_neg (fun h => h₄ h.1), piece, if_neg (by simp [h₇])]
    rw [List.cons_append, hstep]
    cases s with
    | nil => rfl
    | cons d s =>
      rw [ih (fun e he => h e (List.mem_cons_of_mem c he)) (List.cons_ne_nil _ _), add_add]
      rfl

theorem read_single (w : List Piece) {c : Char} (hc : c ≠ '\'') (rest : List Char) :
    read .single (some w) (c :: rest) = read .single (some (w ++ [.lit c])) rest := if_neg hc

theorem read_reopened (w : List Piece) (rest : List Char) :
    read .single (some w) ('\'' :: '\\' :: '\'' :: '\'' :: rest) =
      read .single (some (w ++ [.lit '\''])) rest := by
  simp [read, add]

theorem read_blank (w : List Piece) (rest : List Char) :
    read .plain (some w) (' ' :: rest) = (readLine rest).map (.word w :: ·) := by
  simp [read, isBlank, flush, readLine]

end Rustils.Lib.Shell
