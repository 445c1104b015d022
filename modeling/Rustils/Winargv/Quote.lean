import Mathlib.Data.List.Basic
import Rustils.Platform.Error

namespace Rustils.Winargv

open Platform

abbrev Wide := List UInt16

def QUOTE : UInt16 := 0x22
def BACKSLASH : UInt16 := 0x5C
def SPACE : UInt16 := 0x20
def TAB : UInt16 := 0x09
def NUL : UInt16 := 0
def CR : UInt16 := 0x0D
def LF : UInt16 := 0x0A
def PERCENT : UInt16 := 0x25

inductive Target
  | executable
  | batch
  deriving DecidableEq, Repr

def BAT : Wide := [0x2E, 0x62, 0x61, 0x74]

def CMD : Wide := [0x2E, 0x63, 0x6D, 0x64]

def lower (u : UInt16) : UInt16 := if 0x41 ≤ u ∧ u ≤ 0x5A then u + 32 else u

def classify (program : Wide) : Target :=
  if program.length < 4 then .executable
  else
    let tail := program.drop (program.length - 4)
    if tail.map lower = BAT ∨ tail.map lower = CMD then .batch else .executable

def refuse (what : String) : PlatformError := .new .invalidInput .none what

def needsQuote (arg : Wide) : Bool :=
  arg.isEmpty || arg.any (fun u => u == SPACE || u == TAB || u == QUOTE)

def quoteLoop : Wide → ℕ → Wide → Wide × ℕ
  | [], backslashes, out => (out, backslashes)
  | u :: us, backslashes, out =>
    if u = BACKSLASH then quoteLoop us (backslashes + 1) (out ++ [u])
    else if u = QUOTE then
      quoteLoop us 0 (out ++ List.replicate (backslashes + 1) BACKSLASH ++ [u])
    else quoteLoop us 0 (out ++ [u])

def quoteArgInto (arg out : Wide) : Wide :=
  if needsQuote arg then
    let (out, backslashes) := quoteLoop arg 0 (out ++ [QUOTE])
    out ++ List.replicate backslashes BACKSLASH ++ [QUOTE]
  else (quoteLoop arg 0 out).1

/-- The loop of `quote_batch_arg_into`: `cmd` escapes a quote by doubling it. -/
def doubleQuotes : Wide → Wide → Wide
  | [], out => out
  | u :: us, out => doubleQuotes us ((if u = QUOTE then out ++ [QUOTE] else out) ++ [u])

def quoteBatchArgInto (arg out : Wide) : Result Wide :=
  if arg.any (fun u => u == NUL || u == CR || u == LF || u == PERCENT) then
    .error (refuse "winargv: unrepresentable batch argument")
  else .ok (doubleQuotes arg (out ++ [QUOTE]) ++ [QUOTE])

def appendArgs (target : Target) : List Wide → Wide → Result Wide
  | [], out => .ok out
  | arg :: args, out =>
    match target with
    | .executable => appendArgs target args (quoteArgInto arg (out ++ [SPACE]))
    | .batch => do
      let out ← quoteBatchArgInto arg (out ++ [SPACE])
      appendArgs target args out

def buildCommandLineWide (program : Wide) (args : List Wide) : Result Wide :=
  if program.isEmpty then .error (refuse "winargv: empty program")
  else if program.contains NUL || args.any (fun a => a.contains NUL) then
    .error (refuse "winargv: embedded NUL")
  else appendArgs (classify program) args (quoteArgInto program [])

def escaped : Wide → ℕ → Wide
  | [], _ => []
  | u :: us, backslashes =>
    if u = BACKSLASH then u :: escaped us (backslashes + 1)
    else if u = QUOTE then List.replicate (backslashes + 1) BACKSLASH ++ u :: escaped us 0
    else u :: escaped us 0

/-- The length of the backslash run at the end, a run of `backslashes` standing before. -/
def trailing : Wide → ℕ → ℕ
  | [], backslashes => backslashes
  | u :: us, backslashes => if u = BACKSLASH then trailing us (backslashes + 1) else trailing us 0

theorem quoteLoop_eq (arg out : Wide) (n : ℕ) :
    quoteLoop arg n out = (out ++ escaped arg n, trailing arg n) := by
  induction arg generalizing n out with
  | nil => simp [quoteLoop, escaped, trailing]
  | cons u us ih =>
    unfold quoteLoop escaped trailing
    split_ifs <;> simp [ih]

theorem doubleQuotes_eq (arg out : Wide) :
    doubleQuotes arg out = out ++ arg.flatMap (fun u => if u = QUOTE then [QUOTE, QUOTE] else [u]) := by
  induction arg generalizing out with
  | nil => simp [doubleQuotes]
  | cons u us ih =>
    rw [doubleQuotes, ih]
    by_cases hu : u = QUOTE <;> simp [hu]

def token (arg : Wide) : Wide :=
  if needsQuote arg then
    QUOTE :: (escaped arg 0 ++ List.replicate (trailing arg 0) BACKSLASH ++ [QUOTE])
  else escaped arg 0

theorem quoteArgInto_eq (arg out : Wide) : quoteArgInto arg out = out ++ token arg := by
  unfold quoteArgInto token
  split_ifs <;> simp [quoteLoop_eq]

theorem appendArgs_executable (args : List Wide) (out : Wide) :
    appendArgs .executable args out = .ok (out ++ args.flatMap (fun a => SPACE :: token a)) := by
  induction args generalizing out with
  | nil => simp [appendArgs]
  | cons a args ih => simp [appendArgs, ih, quoteArgInto_eq]

end Rustils.Winargv
