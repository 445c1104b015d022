import Mathlib.Algebra.Group.Nat.Defs
import Mathlib.Data.List.DropRight
import Rustils.Lib.Utf8

namespace Rustils.Coreutils.Rtail

open Lib.Utf8

abbrev Line := List UInt8

def pieces : List UInt8 → List (List UInt8)
  | [] => []
  | b :: rest =>
    if b = 0x0A then [b] :: pieces rest
    else
      match pieces rest with
      | [] => [[b]]
      | p :: ps => (b :: p) :: ps

def chomp (piece : List UInt8) : Line :=
  match piece.reverse with
  | 0x0A :: 0x0D :: r => r.reverse
  | 0x0A :: r => r.reverse
  | _ => piece

/-- An item of `BufRead::lines`; `none` where the piece is not UTF-8. -/
def line (piece : List UInt8) : Option Line := (fromUtf8 piece).map fun _ => chomp piece

def isizeMax : ℕ := 2 ^ 63 - 1

def sizeOfString : ℕ := 24

structure Host where
  posixToWin32 : String → String
  openFile : String → Except String (List UInt8)
  /-- Whether a request for so many bytes is granted. -/
  alloc : ℕ → Bool

inductive Ending
  | finished
  | failed
  | panicked
  | aborted
  deriving DecidableEq

structure Outcome where
  ending : Ending
  stdout : List Line
  stderr : List String
  deriving DecidableEq

def fill (push : List Line → Line → List Line) : List Line → List (List UInt8) → Option (List Line)
  | ring, [] => some ring
  | ring, p :: ps =>
    match line p with
    | some l => fill push (push ring l) ps
    | none => none

def stdinPush (numLines : ℕ) (ring : List Line) (l : Line) : List Line :=
  (if ring.length = numLines then ring.tail else ring) ++ [l]

def filePush (numLines : ℕ) (ring : List Line) (l : Line) : List Line :=
  let ring := if ring.length = numLines ∧ 0 < numLines then ring.tail else ring
  if 0 < numLines then ring ++ [l] else ring

section Main

variable (host : Host)

def withCapacity (n : ℕ) : Except Ending Unit :=
  if isizeMax < sizeOfString * n then .error .panicked
  else if 0 < n ∧ host.alloc (sizeOfString * n) = false then .error .aborted
  else .ok ()

def ringOf (push : List Line → Line → List Line) (numLines : ℕ) (input : List UInt8) :
    Except Ending (List Line) := do
  withCapacity host numLines
  match fill push [] (pieces input) with
  | some ring => .ok ring
  | none => .error .failed

def fromStdin (numLines : ℕ) (stdin : List UInt8) : Outcome :=
  match ringOf host (stdinPush numLines) numLines stdin with
  | .ok ring => ⟨.finished, ring, []⟩
  | .error ending => ⟨ending, [], []⟩

def heading (many : Bool) (idx : ℕ) (f : String) : List Line :=
  if many then (if 0 < idx then [[]] else []) ++ [asBytes s!"==> {f} <=="] else []

def fromFiles (many : Bool) (numLines : ℕ) : ℕ → List String → List Line → List String → Outcome
  | _, [], out, err => ⟨.finished, out, err⟩
  | idx, f :: files, out, err =>
    match host.openFile (host.posixToWin32 f) with
    | .ok file =>
      let out := out ++ heading many idx f
      match ringOf host (filePush numLines) numLines file with
      | .ok ring => fromFiles many numLines (idx + 1) files (out ++ ring) err
      | .error ending => ⟨ending, out, err⟩
    | .error e => fromFiles many numLines (idx + 1) files out (err ++ [s!"rtail: {f}: {e}"])

structure Args where
  numLines : ℕ
  files : List String
  deriving DecidableEq

def parseUsize (s : List Char) : Option ℕ :=
  let digits := match s with
    | '+' :: r => r
    | s => s
  if digits = [] ∨ ¬ digits.all (·.isDigit) then none
  else
    let n := digits.foldl (fun n c => 10 * n + (c.toNat - '0'.toNat)) 0
    if n < 2 ^ 64 then some n else none

def parseArgs : List String → Args → Args
  | [], a => a
  | "-n" :: v :: rest, a => parseArgs rest { a with numLines := (parseUsize v.toList).getD 10 }
  | arg :: rest, a =>
    match arg.toList with
    | '-' :: 'n' :: v => parseArgs rest { a with numLines := (parseUsize v).getD 10 }
    | '-' :: _ => parseArgs rest a
    | _ => parseArgs rest { a with files := a.files ++ [arg] }

def args (argv : List String) : Args := parseArgs argv.tail ⟨10, []⟩

def main (argv : List String) (stdin : List UInt8) : Outcome :=
  let a := args argv
  if a.files = [] then fromStdin host a.numLines stdin
  else fromFiles host (1 < a.files.length) a.numLines 0 a.files [] []

end Main

def lines (input : List UInt8) : List Line := (pieces input).map chomp

def lastLines (n : ℕ) (input : List UInt8) : List Line := (lines input).rtake n

/-- What should be printed of files: of each that opens its last lines, under a heading where there
are several. -/
def shown (host : Host) (many : Bool) (n : ℕ) : ℕ → List String → List Line
  | _, [] => []
  | idx, f :: files =>
    (match host.openFile (host.posixToWin32 f) with
      | .ok file => heading many idx f ++ lastLines n file
      | .error _ => []) ++ shown host many n (idx + 1) files

structure Prints (o : Outcome) (out : List Line) : Prop where
  finished : o.ending = .finished
  stdout : o.stdout = out

def Fits (host : Host) (n : ℕ) : Prop :=
  sizeOfString * n ≤ isizeMax ∧ (0 < n → host.alloc (sizeOfString * n) = true)

def Text (input : List UInt8) : Prop := ∀ p ∈ pieces input, ∃ s, asBytes s = p

theorem pieces_flatten (input : List UInt8) : (pieces input).flatten = input := by
  induction input with
  | nil => rfl
  | cons b rest ih =>
    unfold pieces
    split_ifs
    · rw [List.flatten_cons, ih, List.singleton_append]
    · cases h : pieces rest with
      | nil => rw [← ih, h, List.flatten_nil, List.flatten_singleton]
      | cons p ps => rw [← ih, h, List.flatten_cons, List.flatten_cons, List.cons_append]

theorem pieces_eq_nil {input : List UInt8} : pieces input = [] ↔ input = [] := by
  constructor
  · intro h
    rw [← pieces_flatten input, h, List.flatten_nil]
  · intro h
    rw [h, pieces]

@[simp] theorem lines_eq_nil {input : List UInt8} : lines input = [] ↔ input = [] := by
  rw [lines, List.map_eq_nil_iff, pieces_eq_nil]

theorem tail_rtake {n : ℕ} (hn : 0 < n) (seen : List Line) :
    (if (seen.rtake n).length = n then (seen.rtake n).tail else seen.rtake n) = seen.rtake (n - 1) := by
  unfold List.rtake
  rw [List.length_drop, List.tail_drop]
  split_ifs
  · congr 1
    omega
  · congr 1
    omega

theorem stdinPush_rtake {n : ℕ} (hn : 0 < n) (seen : List Line) (l : Line) :
    stdinPush n (seen.rtake n) l = (seen ++ [l]).rtake n := by
  obtain ⟨m, rfl⟩ := Nat.exists_eq_add_one_of_ne_zero hn.ne'
  rw [stdinPush, tail_rtake hn, List.rtake_concat_succ, Nat.add_sub_cancel]

theorem stdinPush_zero (ring : List Line) (l : Line) : stdinPush 0 ring l = ring ++ [l] := by
  cases ring <;> rfl

theorem filePush_rtake (n : ℕ) (seen : List Line) (l : Line) :
    filePush n (seen.rtake n) l = (seen ++ [l]).rtake n := by
  by_cases hn : 0 < n
  · rw [← stdinPush_rtake hn]
    simp only [filePush, stdinPush, hn, and_true, if_true]
  · obtain rfl : n = 0 := by omega
    rw [List.rtake_zero, List.rtake_zero]
    rfl

theorem line_eq {p : List UInt8} {l : Line} : line p = some l ↔ (∃ s, asBytes s = p) ∧ chomp p = l := by
  simp [line, Option.map_eq_some_iff, fromUtf8_eq_some]

theorem fill_eq {push : List Line → Line → List Line} {held : List Line → List Line}
    (hpush : ∀ seen l, push (held seen) l = held (seen ++ [l])) (ps : List (List UInt8))
    (seen ring : List Line) :
    fill push (held seen) ps = some ring ↔
      (∀ p ∈ ps, ∃ s, asBytes s = p) ∧ held (seen ++ ps.map chomp) = ring := by
  induction ps generalizing seen with
  | nil => simp [fill]
  | cons p ps ih =>
    unfold fill
    cases h : line p with
    | none =>
      have hp : ¬ ∃ s, asBytes s = p := by
        intro hs
        rw [line_eq.mpr ⟨hs, rfl⟩] at h
        cases h
      simp [hp]
    | some l =>
      obtain ⟨hp, hl⟩ := line_eq.mp h
      dsimp only
      rw [hpush, ih, List.forall_mem_cons, List.map_cons, hl, and_iff_right hp, List.append_assoc,
        List.singleton_append]

section Main

variable {host : Host}

theorem withCapacity_eq_ok {n : ℕ} : withCapacity host n = .ok () ↔ Fits host n := by
  unfold withCapacity Fits
  rw [← Nat.not_lt]
  split_ifs with h h'
  · simp [h]
  · simp [h']
  · simpa [h] using h'

theorem ringOf_eq {push : List Line → Line → List Line} {held : List Line → List Line}
    (hpush : ∀ seen l, push (held seen) l = held (seen ++ [l])) (hnil : held [] = [])
    {n : ℕ} {input : List UInt8} {ring : List Line} :
    ringOf host push n input = .ok ring ↔ Fits host n ∧ Text input ∧ held (lines input) = ring := by
  have hfill := fill_eq hpush (pieces input) [] ring
  rw [hnil, List.nil_append] at hfill
  rw [← withCapacity_eq_ok, Text, lines, ← hfill, ringOf]
  cases withCapacity host n with
  | error e => simp [bind, Except.bind]
  | ok u => cases fill push [] (pieces input) <;> simp [bind, Except.bind]

theorem ringOf_file {n : ℕ} {input : List UInt8} {ring : List Line} :
    ringOf host (filePush n) n input = .ok ring ↔ Fits host n ∧ Text input ∧ lastLines n input = ring :=
  ringOf_eq (filePush_rtake n) (by simp [List.rtake])

theorem ringOf_stdin {n : ℕ} (hn : 0 < n) {input : List UInt8} {ring : List Line} :
    ringOf host (stdinPush n) n input = .ok ring ↔ Fits host n ∧ Text input ∧ lastLines n input = ring :=
  ringOf_eq (stdinPush_rtake hn) (by simp [List.rtake])

theorem ringOf_stdin_zero {input : List UInt8} {ring : List Line} :
    ringOf host (stdinPush 0) 0 input = .ok ring ↔ Fits host 0 ∧ Text input ∧ lines input = ring :=
  ringOf_eq (show ∀ seen l, stdinPush 0 (id seen) l = id (seen ++ [l]) from stdinPush_zero) rfl

theorem ringOf_ne_finished {push : List Line → Line → List Line} {n : ℕ} {input : List UInt8} :
    ringOf host push n input ≠ .error .finished := by
  unfold ringOf withCapacity
  split_ifs
  · nofun
  · nofun
  · cases fill push [] (pieces input) <;> nofun

theorem fromStdin_prints {n : ℕ} {input : List UInt8} {out : List Line} :
    Prints (fromStdin host n input) out ↔ ringOf host (stdinPush n) n input = .ok out := by
  unfold fromStdin
  cases h : ringOf host (stdinPush n) n input with
  | ok ring =>
    constructor
    · rintro ⟨-, rfl⟩
      rfl
    · intro h
      exact ⟨rfl, Except.ok.inj h⟩
  | error ending =>
    constructor
    · rintro ⟨rfl, -⟩
      exact absurd h ringOf_ne_finished
    · nofun

theorem stdin_prints_iff {n : ℕ} {input : List UInt8} :
    Prints (fromStdin host n input) (lastLines n input) ↔
      Fits host n ∧ Text input ∧ (n = 0 → input = []) := by
  rw [fromStdin_prints]
  obtain rfl | hn := Nat.eq_zero_or_pos n
  · rw [ringOf_stdin_zero, lastLines, List.rtake_zero, lines_eq_nil]
    simp only [true_imp_iff]
  · rw [ringOf_stdin hn]
    simp only [hn.ne', false_imp_iff, and_true]

def Readable (host : Host) (n : ℕ) (files : List String) : Prop :=
  ∀ f ∈ files, ∀ file, host.openFile (host.posixToWin32 f) = .ok file → Fits host n ∧ Text file

theorem fromFiles_prints_iff (many : Bool) (n idx : ℕ) (files : List String) (out : List Line)
    (err : List String) :
    Prints (fromFiles host many n idx files out err) (out ++ shown host many n idx files) ↔
      Readable host n files := by
  induction files generalizing idx out err with
  | nil => simp [fromFiles, shown, Readable, Prints.mk]
  | cons f files ih =>
    unfold fromFiles shown
    rw [Readable, List.forall_mem_cons]
    cases hopen : host.openFile (host.posixToWin32 f) with
    | error e =>
      dsimp only
      rw [List.nil_append, ih]
      simp [Readable]
    | ok file =>
      dsimp only
      cases hring : ringOf host (filePush n) n file with
      | ok ring =>
        obtain ⟨hfits, htext, rfl⟩ := ringOf_file.mp hring
        have hthis : ∀ file', (.ok file : Except String (List UInt8)) = .ok file' → Fits host n ∧ Text file' := by
          rintro _ ⟨⟩
          exact ⟨hfits, htext⟩
        dsimp only
        rw [and_iff_right hthis, ← List.append_assoc, ← List.append_assoc, ih]
        rfl
      | error ending =>
        constructor
        · rintro ⟨rfl, -⟩
          exact absurd hring ringOf_ne_finished
        · intro ⟨hthis, _⟩
          obtain ⟨hfits, htext⟩ := hthis file rfl
          rw [ringOf_file.mpr ⟨hfits, htext, rfl⟩] at hring
          cases hring

end Main

theorem prints_last_lines_iff (host : Host) (argv argv' : List String) (input input' : List UInt8)
    (n : ℕ) (files : List String) (hstdin : args argv = ⟨n, []⟩) (hfiles : args argv' = ⟨n, files⟩)
    (hne : files ≠ []) :
    Prints (main host argv input) (lastLines n input) ∧
        Prints (main host argv' input') (shown host (1 < files.length) n 0 files) ↔
      (Fits host n ∧ Text input ∧ (n = 0 → input = [])) ∧ Readable host n files := by
  have hfirst : main host argv input = fromStdin host n input := by simp [main, hstdin]
  have hsecond : main host argv' input' = fromFiles host (1 < files.length) n 0 files [] [] := by
    simp [main, hfiles, hne]
  rw [hfirst, hsecond, stdin_prints_iff, ← fromFiles_prints_iff (1 < files.length) n 0 files [] [],
    List.nil_append]

def twoLines : Host := ⟨id, fun _ => .ok [0x61, 0x0A, 0x62, 0x0A], fun _ => true⟩

theorem two_lines_printed :
    Prints (main twoLines ["rtail", "-n1"] [0x61, 0x0A, 0x62]) [[0x62]] ∧
      Prints (main twoLines ["rtail", "-n", "1", "f"] []) [[0x62]] := by
  have hfits : Fits twoLines 1 := ⟨by decide, fun _ => rfl⟩
  refine (prints_last_lines_iff twoLines ["rtail", "-n1"] ["rtail", "-n", "1", "f"] [0x61, 0x0A, 0x62]
    [] 1 ["f"] rfl rfl (by simp)).mpr ⟨⟨hfits, ?_, nofun⟩, ?_⟩
  · intro p hp
    change p ∈ [[0x61, 0x0A], [0x62]] at hp
    simp only [List.mem_cons, List.not_mem_nil, or_false] at hp
    obtain rfl | rfl := hp
    · exact ⟨"a\n", rfl⟩
    · exact ⟨"b", rfl⟩
  · rintro f - file ⟨⟩
    refine ⟨hfits, fun p hp => ?_⟩
    change p ∈ [[0x61, 0x0A], [0x62, 0x0A]] at hp
    simp only [List.mem_cons, List.not_mem_nil, or_false] at hp
    obtain rfl | rfl := hp
    · exact ⟨"a\n", rfl⟩
    · exact ⟨"b\n", rfl⟩

theorem none_asked_all_printed :
    args ["rtail", "-n", "0"] = ⟨0, []⟩ ∧ args ["rtail", "-n", "0", "f"] = ⟨0, ["f"]⟩ ∧
      main twoLines ["rtail", "-n", "0"] [0x61, 0x0A, 0x62, 0x0A] = ⟨.finished, [[0x61], [0x62]], []⟩ ∧
      main twoLines ["rtail", "-n", "0", "f"] [] = ⟨.finished, [], []⟩ ∧
      lastLines 0 [0x61, 0x0A, 0x62, 0x0A] = [] := by
  refine ⟨rfl, rfl, ?_, ?_, rfl⟩
  · rfl
  · rfl

end Rustils.Coreutils.Rtail
