import Mathlib.Algebra.GroupWithZero.Nat
import Mathlib.Data.List.DropRight
import Rustils.Lib.Lines
import Rustils.Lib.Lossy
import Rustils.Lib.Machine

namespace Rustils.Coreutils.Rwc

open Lib.Fuel Lib.Lines Lib.Lossy Lib.Machine Lib.Utf8

structure Counts where
  lines : ℕ
  words : ℕ
  bytes : ℕ
  deriving DecidableEq

/-- The items of `str::lines` are counted, not read: what is stripped off them does not matter. -/
def countReader (buf : List UInt8) : Counts :=
  let text := lossy buf
  ⟨(splitInclusive '\n' text).length, ((text.splitOnP isWhitespace).filter (· ≠ [])).length, buf.length⟩

def column (n : ℕ) : String := "".pushn ' ' (8 - (toString n).length) ++ toString n

def trimEnd (s : String) : String := String.ofList (s.toList.rdropWhile isWhitespace)

structure Flags where
  l : Bool
  w : Bool
  c : Bool
  deriving DecidableEq

def printCounts (counts : Counts) (flags : Flags) (name : String) : String :=
  trimEnd ((if flags.l then column counts.lines ++ " " else "") ++
    ((if flags.w then column counts.words ++ " " else "") ++
    ((if flags.c then column counts.bytes ++ " " else "") ++ name)))

abbrev Reader := Except String Slice

structure Host where
  posixToWin32 : String → String
  openFile : String → Except String Reader
  stdin : Reader

inductive Ending
  | finished
  | failed (e : String)
  | panicked
  deriving DecidableEq

structure Outcome where
  ending : Ending
  stdout : List String
  stderr : List String
  deriving DecidableEq

def flagsOf (args : List String) : Flags :=
  let countLines := "-l" ∈ args
  let countWords := "-w" ∈ args
  let countBytes := "-c" ∈ args ∨ "-m" ∈ args
  if ¬ countLines ∧ ¬ countWords ∧ ¬ countBytes then ⟨true, true, true⟩
  else ⟨countLines, countWords, countBytes⟩

def filesOf (args : List String) : List String := args.tail.filter fun a => ¬ a.toList.head? = some '-'

def Counts.add (total counts : Counts) : Exec Empty Counts := do
  let lines ← addUsize total.lines counts.lines
  let words ← addUsize total.words counts.words
  let bytes ← addUsize total.bytes counts.bytes
  pure ⟨lines, words, bytes⟩

section Main

variable (host : Host) (flags : Flags)

def countFiles (many : Bool) : Counts → List String → List String → List String → Outcome
  | total, [], out, err => ⟨.finished, if many then out ++ [printCounts total flags "total"] else out, err⟩
  | total, f :: files, out, err =>
    match host.openFile (host.posixToWin32 f) with
    | .ok (.ok file) =>
      let counts := countReader file.bytes
      match total.add counts with
      | .ok total => countFiles many total files (out ++ [printCounts counts flags f]) err
      | .error _ => ⟨.panicked, out, err⟩
    | .ok (.error e) => ⟨.failed e, out, err⟩
    | .error e => countFiles many total files out (err ++ [s!"rwc: {f}: {e}"])

def main (args : List String) : Outcome :=
  let flags := flagsOf args
  let files := filesOf args
  if files = [] then
    match host.stdin with
    | .ok file => ⟨.finished, [printCounts (countReader file.bytes) flags ""], []⟩
    | .error e => ⟨.failed e, [], []⟩
  else countFiles host flags (1 < files.length) ⟨0, 0, 0⟩ files [] []

end Main

def contentsOf (host : Host) (files : List String) : List (List UInt8) :=
  files.filterMap fun f =>
    match host.openFile (host.posixToWin32 f) with
    | .ok (.ok file) => some file.bytes
    | _ => none

def Readable (host : Host) (files : List String) : Prop :=
  ∀ f ∈ files, ∀ e, host.openFile (host.posixToWin32 f) ≠ .ok (.error e)

structure Cut where
  parts : List (List UInt8)
  fits : parts.flatten.length < 2 ^ 63

def Cut.whole (c : Cut) : List UInt8 := c.parts.flatten

def Cut.total (c : Cut) : Counts :=
  ⟨(countReader c.whole).lines, (c.parts.map fun p => (countReader p).words).sum, (countReader c.whole).bytes⟩

structure Additive (c : Cut) : Prop where
  counted : ∀ x ∈ c.whole :: c.parts, (countReader x).lines = x.count 0x0A ∧ (countReader x).bytes = x.length
  lines_add : (c.parts.map fun p => (countReader p).lines).sum = (countReader c.whole).lines
  bytes_add : (c.parts.map fun p => (countReader p).bytes).sum = (countReader c.whole).bytes
  total : ∀ host args, Readable host (filesOf args) → contentsOf host (filesOf args) = c.parts →
    1 < (filesOf args).length → (main host args).ending = .finished ∧
      (main host args).stdout.getLast? = some (printCounts c.total (flagsOf args) "total")

theorem encode_newline : String.utf8EncodeChar '\n' = [0x0A] := by decide

theorem terminated_lossy (buf : List UInt8) : Terminated '\n' (lossy buf) ↔ Terminated 0x0A buf := by
  constructor
  · intro h
    rcases List.eq_nil_or_concat (lossy buf) with hnil | ⟨u, a, ha⟩
    · rw [lossy_eq_nil.mp hnil]
      exact terminated_nil
    · rw [List.concat_eq_append] at ha
      rw [ha, terminated_concat] at h
      obtain ⟨x, y, rfl, hy⟩ := lossy_eq_append_cons encode_newline (h ▸ ha)
      rw [lossy_eq_nil.mp hy, terminated_concat]
  · intro h
    rcases List.eq_nil_or_concat buf with rfl | ⟨x, a, rfl⟩
    · rw [lossy_eq_nil.mpr rfl]
      exact terminated_nil
    · rw [List.concat_eq_append] at h ⊢
      rw [terminated_concat.mp h, lossy_byte encode_newline, lossy, terminated_concat]

theorem countReader_lines (buf : List UInt8) :
    (countReader buf).lines = buf.count 0x0A + if Terminated 0x0A buf then 0 else 1 := by
  simp only [countReader, length_splitInclusive, terminated_lossy, count_lossy encode_newline]

theorem countReader_lines_iff (buf : List UInt8) :
    (countReader buf).lines = buf.count 0x0A ↔ Terminated 0x0A buf := by
  rw [countReader_lines]
  split_ifs with h <;> simp [h]

theorem length_words_le (p : Char → Bool) (text : List Char) :
    ((text.splitOnP p).filter (· ≠ [])).length ≤ text.length := by
  induction text with
  | nil => simp
  | cons c text ih =>
    rw [List.splitOnP_cons_eq_if_modifyHead, List.length_cons]
    split_ifs
    · simpa using Nat.le_succ_of_le ih
    · obtain ⟨w, ws, hws⟩ := List.exists_cons_of_ne_nil (List.splitOnP_ne_nil p text)
      rw [hws] at ih ⊢
      rw [List.modifyHead_cons, List.filter_cons_of_pos (by simp), List.length_cons]
      have hle := (List.sublist_cons_self w ws).filter (· ≠ []) |>.length_le
      omega

theorem countReader_le (buf : List UInt8) :
    (countReader buf).lines ≤ buf.length ∧ (countReader buf).words ≤ buf.length :=
  ⟨(length_splitInclusive_le _).trans (length_lossy_le buf), (length_words_le _ _).trans (length_lossy_le buf)⟩

def totalOf (total : Counts) (parts : List (List UInt8)) : Counts :=
  ⟨total.lines + (parts.map fun p => (countReader p).lines).sum,
    total.words + (parts.map fun p => (countReader p).words).sum,
    total.bytes + (parts.map fun p => (countReader p).bytes).sum⟩

theorem totalOf_cons (total : Counts) (p : List UInt8) (parts : List (List UInt8)) :
    totalOf total (p :: parts) = totalOf (totalOf total [p]) parts := by
  simp [totalOf, Nat.add_assoc]

def Counts.Within (counts : Counts) (n : ℕ) : Prop := counts.lines ≤ n ∧ counts.words ≤ n ∧ counts.bytes ≤ n

theorem add_countReader {total : Counts} {n : ℕ} (h : total.Within n) {p : List UInt8} (hn : n + p.length < 2 ^ 64) :
    total.add (countReader p) = .ok (totalOf total [p]) ∧ (totalOf total [p]).Within (n + p.length) := by
  obtain ⟨hlines, hwords⟩ := countReader_le p
  have hbytes : (countReader p).bytes = p.length := rfl
  obtain ⟨h1, h2, h3⟩ := h
  simp only [Counts.Within, totalOf, List.map_cons, List.map_nil, List.sum_cons, List.sum_nil, Nat.add_zero]
  refine ⟨?_, by omega, by omega, by omega⟩
  rw [Counts.add, addUsize_eq rfl (by omega), addUsize_eq rfl (by omega), addUsize_eq rfl (by omega)]
  rfl

theorem countFiles_total {host : Host} {flags : Flags} {files : List String} (hread : Readable host files)
    {total : Counts} {n : ℕ} (htotal : total.Within n) (hn : n + (contentsOf host files).flatten.length < 2 ^ 64)
    (out err : List String) :
    (countFiles host flags true total files out err).ending = .finished ∧
      (countFiles host flags true total files out err).stdout.getLast? =
        some (printCounts (totalOf total (contentsOf host files)) flags "total") := by
  induction files generalizing total n out err with
  | nil => simp [countFiles, contentsOf, totalOf]
  | cons f files ih =>
    have hrest : Readable host files := fun g hg => hread g (List.mem_cons_of_mem f hg)
    have hf := hread f List.mem_cons_self
    rw [countFiles]
    cases hopen : host.openFile (host.posixToWin32 f) with
    | error e =>
      have hskip : contentsOf host (f :: files) = contentsOf host files := by simp [contentsOf, hopen]
      rw [hskip] at hn ⊢
      exact ih hrest htotal hn _ _
    | ok reader =>
      cases reader with
      | error e => exact absurd hopen (hf e)
      | ok file =>
        have hcons : contentsOf host (f :: files) = file.bytes :: contentsOf host files := by simp [contentsOf, hopen]
        rw [hcons, List.flatten_cons, List.length_append] at hn
        obtain ⟨hadd, hwithin⟩ := add_countReader htotal (p := file.bytes) (by omega)
        rw [hcons, totalOf_cons]
        simp only [hadd]
        exact ih hrest hwithin (by omega) _ _

theorem whole_lines {parts : List (List UInt8)} (h : ∀ p ∈ parts, Terminated 0x0A p) :
    (parts.map fun p => (countReader p).lines).sum = (countReader parts.flatten).lines := by
  have hlines : parts.map (fun p => (countReader p).lines) = parts.map fun p => p.count 0x0A := by
    apply List.map_congr_left
    intro p hp
    exact (countReader_lines_iff p).mpr (h p hp)
  rw [hlines, (countReader_lines_iff _).mpr (terminated_flatten h), List.count_flatten]

theorem whole_bytes (parts : List (List UInt8)) :
    (parts.map fun p => (countReader p).bytes).sum = (countReader parts.flatten).bytes := by
  simp only [countReader, List.length_flatten]

theorem counts_additive_iff (c : Cut) : Additive c ↔ ∀ p ∈ c.parts, Terminated 0x0A p := by
  constructor
  · intro h p hp
    exact (countReader_lines_iff p).mp (h.counted p (List.mem_cons_of_mem _ hp)).1
  · intro h
    refine ⟨fun x hx => ⟨?_, rfl⟩, whole_lines h, whole_bytes c.parts, fun host args hread hparts hmany => ?_⟩
    · apply (countReader_lines_iff x).mpr
      rcases List.mem_cons.mp hx with rfl | hx
      · exact terminated_flatten h
      · exact h x hx
    · have hfits := c.fits
      have hzero : (Counts.mk 0 0 0).Within 0 := by simp [Counts.Within]
      have htotal : totalOf ⟨0, 0, 0⟩ c.parts = c.total := by
        simp only [totalOf, Nat.zero_add, whole_lines h, whole_bytes]
        rfl
      have hne : filesOf args ≠ [] := by
        intro hnil
        rw [hnil] at hmany
        cases hmany
      rw [main, if_neg hne, decide_eq_true hmany, ← htotal, ← hparts]
      exact countFiles_total hread hzero (by rw [hparts]; omega) [] []

theorem cut_line_counted_twice : ¬ Additive ⟨[[0x61], [0x62, 0x0A]], by decide⟩ := by
  intro h
  have hlines := h.lines_add
  simp [countReader_lines, Cut.whole] at hlines

end Rustils.Coreutils.Rwc
