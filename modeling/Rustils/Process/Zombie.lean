import Rustils.Lib.Utf8
import Rustils.Process.Status

namespace Rustils.Process.Zombie

open Platform Lib.Utf8

/-- A failed read of a file; an error that no system call gave has no number. -/
inductive IoError
  | notFound
  | other (rawOsError : Option Int32)

abbrev Procfs := String → Except IoError (List UInt8)

def statPath (pid : Int32) : String := s!"/proc/{pid}/stat"

def readToString (procfs : Procfs) (path : String) : Except IoError String :=
  match procfs path with
  | .error e => .error e
  | .ok bytes =>
    match fromUtf8 bytes with
    | some s => .ok s
    | none => .error (.other none)

def rsplitOnce (c : Char) : List Char → Option (List Char × List Char)
  | [] => none
  | x :: xs =>
    match rsplitOnce c xs with
    | some (before, after) => some (x :: before, after)
    | none => if x = c then some ([], xs) else none

def firstWord (s : List Char) : Option (List Char) :=
  match (s.dropWhile isWhitespace).takeWhile (! isWhitespace ·) with
  | [] => none
  | word => some word

def readError (path : String) (code : Int32) : PlatformError :=
  (errnoErr "read /proc/<pid>/stat" code).withPath (asBytes path)

def parseError (path : String) : PlatformError :=
  (PlatformError.new .other .none "parse /proc/<pid>/stat").withPath (asBytes path)

def isZombieAt (procfs : Procfs) (pid : Int32) : Result Bool :=
  let path := statPath pid
  match readToString procfs path with
  | .error .notFound => .ok false
  | .error (.other code) => .error (readError path (code.getD 0))
  | .ok contents =>
    match rsplitOnce ')' contents.toList with
    | none => .error (parseError path)
    | some (_, afterComm) =>
      match firstWord afterComm with
      | none => .error (parseError path)
      | some state => .ok (state == ['Z'])

def isZombie (procfs : Procfs) (pid : UInt32) : Result Bool := isZombieAt procfs pid.toInt32

/-- What the kernel prints: only the name is out of its hands. -/
structure Stat where
  pid : ℕ
  comm : List UInt8
  state : Char
  rest : String
  state_plain : isWhitespace state = false ∧ state ≠ ')'
  rest_blank : ∀ c ∈ rest.toList.head?, isWhitespace c = true
  rest_plain : ')' ∉ rest.toList

def Stat.after (st : Stat) : String := " " ++ st.state.toString ++ st.rest

def Stat.line (st : Stat) : List UInt8 :=
  asBytes s!"{st.pid} " ++ 0x28 :: (st.comm ++ 0x29 :: asBytes st.after)

section Parse

variable {c : Char} {xs ys : List Char} {st : Stat} {name : String}

theorem rsplitOnce_eq_none (h : c ∉ ys) : rsplitOnce c ys = none := by
  induction ys with
  | nil => rfl
  | cons y ys ih =>
    rw [List.mem_cons, not_or] at h
    rw [rsplitOnce, ih h.2]
    exact if_neg (Ne.symm h.1)

theorem rsplitOnce_append (h : c ∉ ys) : rsplitOnce c (xs ++ c :: ys) = some (xs, ys) := by
  induction xs with
  | nil =>
    rw [List.nil_append, rsplitOnce, rsplitOnce_eq_none h]
    exact if_pos rfl
  | cons x xs ih => rw [List.cons_append, rsplitOnce, ih]

theorem Stat.after_plain (st : Stat) : ')' ∉ st.after.toList := by
  simp only [Stat.after, String.toList_append, List.mem_append, not_or]
  refine ⟨⟨by decide, ?_⟩, st.rest_plain⟩
  simpa [Char.toString] using Ne.symm st.state_plain.2

theorem Stat.firstWord_after (st : Stat) : firstWord st.after.toList = some [st.state] := by
  have hstop : st.rest.toList.takeWhile (! isWhitespace ·) = [] := by
    cases hrest : st.rest.toList with
    | nil => rfl
    | cons c cs =>
      have hc := st.rest_blank c (by rw [hrest]; rfl)
      exact List.takeWhile_cons_of_neg (by simp [hc])
  have hafter : st.after.toList = ' ' :: st.state :: st.rest.toList := by
    simp [Stat.after, Char.toString]
  have hblank : isWhitespace ' ' = true := by decide
  simp only [firstWord, hafter, List.dropWhile_cons, hblank, if_true, st.state_plain.1, Bool.false_eq_true, if_false,
    List.takeWhile_cons, Bool.not_false, hstop]

theorem Stat.line_valid (h : fromUtf8 st.line = some name) : ∃ comm, asBytes comm = st.comm := by
  obtain ⟨-, -, rest, -, -, -, hrest⟩ := split_ascii (by decide) (fromUtf8_eq_some.mp h)
  obtain ⟨comm, -, -, -, hcomm, -, -⟩ := split_ascii (by decide) hrest
  exact ⟨comm, hcomm⟩

theorem Stat.line_text (h : asBytes name = st.comm) :
    fromUtf8 st.line = some (s!"{st.pid} " ++ "(" ++ name ++ ")" ++ st.after) := by
  have hopen : asBytes "(" = [0x28] := by decide
  have hclose : asBytes ")" = [0x29] := by decide
  rw [fromUtf8_eq_some]
  simp only [asBytes_append, hopen, hclose, h, Stat.line, List.append_assoc, List.cons_append, List.nil_append]

end Parse

variable {procfs : Procfs} {pid : UInt32}

theorem is_zombie_iff (procfs : Procfs) (pid : UInt32) (st : Stat) (h : procfs (statPath pid.toInt32) = .ok st.line) :
    isZombie procfs pid = .ok (st.state == 'Z') ↔ ∃ name, asBytes name = st.comm := by
  constructor
  · intro hz
    cases htext : fromUtf8 st.line with
    | none =>
      simp only [isZombie, isZombieAt, readToString, h, htext] at hz
      cases hz
    | some s => exact st.line_valid htext
  · rintro ⟨name, hname⟩
    have hsplit : rsplitOnce ')' (s!"{st.pid} " ++ "(" ++ name ++ ")" ++ st.after).toList =
        some ((s!"{st.pid} " ++ "(" ++ name).toList, st.after.toList) := by
      rw [String.toList_append, String.toList_append, List.append_assoc]
      exact rsplitOnce_append st.after_plain
    have hstate : ([st.state] == ['Z']) = (st.state == 'Z') := by simp
    simp only [isZombie, isZombieAt, readToString, h, Stat.line_text hname, hsplit, st.firstWord_after, hstate]

def sleeper : Stat where
  pid := 7
  comm := asBytes ") Z"
  state := 'S'
  rest := " 1 7\n"
  state_plain := by decide
  rest_blank := by
    rintro c ⟨⟩
    rfl
  rest_plain := by decide

theorem sleeper_no_zombie :
    (∃ name, asBytes name = sleeper.comm) ∧ isZombie (fun _ => .ok sleeper.line) 7 = .ok false :=
  have hname : ∃ name, asBytes name = sleeper.comm := ⟨") Z", rfl⟩
  ⟨hname, (is_zombie_iff (fun _ => .ok sleeper.line) 7 sleeper rfl).mpr hname⟩

def unnamed : Stat where
  pid := 7
  comm := [0xFF]
  state := 'Z'
  rest := " 1 7\n"
  state_plain := by decide
  rest_blank := by
    rintro c ⟨⟩
    rfl
  rest_plain := by decide

theorem zombie_hidden_by_name :
    isZombie (fun _ => .ok unnamed.line) 7 = .error (readError "/proc/7/stat" 0) ∧
      isZombie (fun _ => .ok unnamed.line) 7 ≠ .ok (unnamed.state == 'Z') := by
  have herr : isZombie (fun _ => .ok unnamed.line) 7 = .error (readError "/proc/7/stat" 0) := by decide +kernel
  refine ⟨herr, ?_⟩
  rw [herr]
  rintro ⟨⟩

end Rustils.Process.Zombie
