import Mathlib.Data.List.TakeWhile
import Mathlib.Tactic.SplitIfs

namespace Rustils.Lib.LineWriter

inductive Put
  | flush (bytes : List UInt8)
  | direct (bytes : List UInt8)
  deriving DecidableEq

def Put.bytes : Put → List UInt8
  | .flush bytes | .direct bytes => bytes

def Put.shrink : Put → List UInt8 → Put
  | .flush _, rest => .flush rest
  | .direct _, rest => .direct rest

def Put.kept : Put → List UInt8
  | .flush bytes => bytes
  | .direct _ => []

@[simp] theorem Put.bytes_shrink (p : Put) (rest : List UInt8) : (p.shrink rest).bytes = rest := by
  cases p <;> rfl

def newline : UInt8 := 10

/-- `BufWriter::write_all`: what is written, and what the buffer holds when that has gone well. -/
def bufWriteAll (cap : ℕ) (held buf : List UInt8) : List Put × List UInt8 :=
  if held.length + buf.length < cap then ([], held ++ buf)
  else
    let (puts, held) := if cap < held.length + buf.length then ([Put.flush held], []) else ([], held)
    if cap ≤ buf.length then (puts ++ [.direct buf], held) else (puts, held ++ buf)

def linesOf (buf : List UInt8) : List UInt8 := (buf.reverse.dropWhile (· ≠ newline)).reverse

def tailOf (buf : List UInt8) : List UInt8 := (buf.reverse.takeWhile (· ≠ newline)).reverse

/-- `LineWriter::write_all`: up to the last newline everything is written. -/
def writeAll (cap : ℕ) (held buf : List UInt8) : List Put × List UInt8 :=
  if newline ∈ buf then
    if held = [] then
      let (puts, held) := bufWriteAll cap [] (tailOf buf)
      (.direct (linesOf buf) :: puts, held)
    else
      let (lines, held) := bufWriteAll cap held (linesOf buf)
      let (puts, held') := bufWriteAll cap [] (tailOf buf)
      (lines ++ .flush held :: puts, held')
  else
    let (line, held) := if held.getLast? = some newline then ([Put.flush held], []) else ([], held)
    let (puts, held) := bufWriteAll cap held buf
    (line ++ puts, held)

def putBytes (puts : List Put) : List UInt8 := puts.flatMap Put.bytes

@[simp] theorem putBytes_nil : putBytes [] = [] := rfl

@[simp] theorem putBytes_cons (p : Put) (puts : List Put) : putBytes (p :: puts) = p.bytes ++ putBytes puts := rfl

@[simp] theorem putBytes_append (puts puts' : List Put) : putBytes (puts ++ puts') = putBytes puts ++ putBytes puts' :=
  List.flatMap_append

variable {cap : ℕ} {held buf : List UInt8}

theorem lines_tail (buf : List UInt8) : linesOf buf ++ tailOf buf = buf := by
  rw [linesOf, tailOf, ← List.reverse_append, List.takeWhile_append_dropWhile, List.reverse_reverse]

theorem newline_not_mem_tail (buf : List UInt8) : newline ∉ tailOf buf := by
  intro h
  rw [tailOf, List.mem_reverse] at h
  simpa using List.mem_takeWhile_imp h

theorem bufWriteAll_bytes : putBytes (bufWriteAll cap held buf).1 ++ (bufWriteAll cap held buf).2 = held ++ buf := by
  unfold bufWriteAll
  split_ifs with hroom hfull hlarge hlarge
  · rfl
  · simp [Put.bytes]
  · simp [Put.bytes]
  · -- a chunk as large as the buffer that just fits finds it empty
    obtain rfl : held = [] := List.length_eq_zero_iff.mp (by omega)
    simp [Put.bytes]
  · simp

theorem writeAll_bytes : putBytes (writeAll cap held buf).1 ++ (writeAll cap held buf).2 = held ++ buf := by
  unfold writeAll
  split_ifs with hline hnil hlast
  · have htail : putBytes (bufWriteAll cap [] (tailOf buf)).1 ++ (bufWriteAll cap [] (tailOf buf)).2 = tailOf buf :=
      bufWriteAll_bytes
    simp only [putBytes_cons, List.append_assoc, htail, Put.bytes, hnil, lines_tail, List.nil_append]
  · have hlines : putBytes (bufWriteAll cap held (linesOf buf)).1 ++ (bufWriteAll cap held (linesOf buf)).2 =
        held ++ linesOf buf := bufWriteAll_bytes
    have htail : putBytes (bufWriteAll cap [] (tailOf buf)).1 ++ (bufWriteAll cap [] (tailOf buf)).2 = tailOf buf :=
      bufWriteAll_bytes
    simp only [putBytes_append, putBytes_cons, List.append_assoc, htail, Put.bytes]
    rw [← List.append_assoc, hlines, List.append_assoc, lines_tail]
  · have hbuf : putBytes (bufWriteAll cap [] buf).1 ++ (bufWriteAll cap [] buf).2 = buf := bufWriteAll_bytes
    simp only [putBytes_append, putBytes_cons, putBytes_nil, List.append_assoc, List.nil_append, hbuf, Put.bytes]
  · exact bufWriteAll_bytes

theorem bufWriteAll_length : (bufWriteAll cap held buf).1.length ≤ 2 := by
  unfold bufWriteAll
  split_ifs <;> simp

theorem writeAll_length : (writeAll cap held buf).1.length ≤ 5 := by
  have hlines := @bufWriteAll_length cap held (linesOf buf)
  have htail := @bufWriteAll_length cap [] (tailOf buf)
  have hbuf := @bufWriteAll_length cap held buf
  have hempty := @bufWriteAll_length cap [] buf
  unfold writeAll
  split_ifs <;> simp only [List.length_append, List.length_cons, List.length_nil] <;> omega

structure Pending (cap : ℕ) (held : List UInt8) : Prop where
  unended : newline ∉ held
  fits : held.length ≤ cap

theorem pending_nil : Pending cap [] := ⟨nofun, Nat.zero_le _⟩

theorem Pending.bufWriteAll (h : Pending cap held) (hbuf : newline ∉ buf) : Pending cap (bufWriteAll cap held buf).2 := by
  have hboth : newline ∉ held ++ buf := by simp [h.unended, hbuf]
  unfold LineWriter.bufWriteAll
  split_ifs with hroom hfull hlarge hlarge
  · exact ⟨hboth, by rw [List.length_append]; omega⟩
  · exact pending_nil
  · exact ⟨hbuf, by simp only [List.nil_append]; omega⟩
  · exact h
  · exact ⟨hboth, by simp only [List.length_append]; omega⟩

theorem Pending.writeAll (h : Pending cap held) : Pending cap (writeAll cap held buf).2 := by
  have htail : Pending cap (LineWriter.bufWriteAll cap [] (tailOf buf)).2 :=
    pending_nil.bufWriteAll (newline_not_mem_tail buf)
  unfold LineWriter.writeAll
  split_ifs with hline hnil hlast
  · exact htail
  · exact htail
  · exact pending_nil.bufWriteAll hline
  · exact h.bufWriteAll hline

end Rustils.Lib.LineWriter
