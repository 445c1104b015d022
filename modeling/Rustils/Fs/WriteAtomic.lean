import Rustils.Fs.Dir
import Rustils.Lib.Ticket

namespace Rustils.Fs

open Platform Lib.Program Lib.Ticket

def ascii (s : String) : List UInt8 := s.toList.map fun c => UInt8.ofNat c.toNat

def tmpName (pid : UInt32) (rel : Name) (n : UInt64) : Name :=
  rel ++ (ascii ".rustils-tmp-" ++ ascii (toString pid.toNat) ++ ascii "-" ++ hex n.toNat)

def tmpOptions : OpenOptions := { write := true, createNew := true }

def wroteNothing (tmp : Name) : PlatformError :=
  (PlatformError.new .other .none "write_atomic").withPath tmp

def perform (o : Op) : Prog Answer (Answer o) := .call o

def writeLoop (tmp : Name) (f : Handle) (contents : List UInt8) (off : ℕ) :
    Prog Answer (Result Unit) :=
  if off < contents.length then
    .op (.write f (contents.drop off)) fun
      | .error e => .ret (.error e)
      | .ok 0 => .ret (.error (wroteNothing tmp))
      | .ok (n + 1) => writeLoop tmp f contents (off + (n + 1))
  else .ret (.ok ())
termination_by contents.length - off

def syncWritten (f : Handle) : Result Unit → Prog Answer (Result Unit)
  | .error e => return .error e
  | .ok _ => perform (.syncAll f)

def dropFile (f : Handle) (r : Result Unit) : Prog Answer (Result Unit) := do
  let _ ← perform (.close f)
  return r

def writeAndSync (tmp : Name) (contents : List UInt8) : Prog Answer (Result Unit) := do
  match ← perform (.open tmp tmpOptions) with
  | .error e => return .error e
  | .ok f => writeLoop tmp f contents 0 >>= syncWritten f >>= dropFile f

def publish (tmp rel : Name) : Result Unit → Prog Answer (Result Unit)
  | .error e => do
    let _ ← perform (.removeFile tmp)
    return .error e
  | .ok _ => do
    match ← perform (.rename tmp rel) with
    | .error e => return .error e
    | .ok _ => perform .syncDir

def writeAtomic (pid : UInt32) (rel : Name) (contents : List UInt8) : Prog Answer (Result Unit) := do
  let n ← perform .fetchAdd
  let tmp := tmpName pid rel n
  writeAndSync tmp contents >>= publish tmp rel

theorem tmpName_inj {pid : UInt32} {rel : Name} {m n : UInt64}
    (h : tmpName pid rel m = tmpName pid rel n) : m = n := by
  unfold tmpName at h
  rw [List.append_cancel_left_eq, List.append_cancel_left_eq] at h
  exact UInt64.toNat_inj.mp (hex_inj h)

theorem tmpName_ne_rel (pid : UInt32) (rel : Name) (n : UInt64) : tmpName pid rel n ≠ rel := by
  intro h
  have hnil := List.append_cancel_left (h.trans (List.append_nil rel).symm)
  exact hex_ne_nil _ (List.append_eq_nil_iff.mp hnil).2

inductive Phase
  | start
  | opening (n : UInt64)
  | writing (n : UInt64) (f : Handle) (off : ℕ)
  | syncing (n : UInt64) (f : Handle)
  | closing (n : UInt64) (f : Handle) (r : Result Unit)
  | removing (n : UInt64) (e : PlatformError)
  | publishing (n : UInt64)
  | syncingDir (n : UInt64)
  | done (n : UInt64) (r : Result Unit)

def Phase.num : Phase → Option UInt64
  | .start => none
  | .opening n | .writing n _ _ | .syncing n _ | .closing n _ _ | .removing n _ | .publishing n
  | .syncingDir n | .done n _ => some n

section Call

variable (pid : UInt32) (rel : Name) (contents : List UInt8)

def resume : Phase → Prog Answer (Result Unit)
  | .start => writeAtomic pid rel contents
  | .opening n => writeAndSync (tmpName pid rel n) contents >>= publish (tmpName pid rel n) rel
  | .writing n f off =>
    writeLoop (tmpName pid rel n) f contents off >>= syncWritten f >>= dropFile f >>=
      publish (tmpName pid rel n) rel
  | .syncing n f => perform (.syncAll f) >>= dropFile f >>= publish (tmpName pid rel n) rel
  | .closing n f r => dropFile f r >>= publish (tmpName pid rel n) rel
  | .removing n e => publish (tmpName pid rel n) rel (.error e)
  | .publishing n => publish (tmpName pid rel n) rel (.ok ())
  | .syncingDir _ => perform .syncDir
  | .done _ r => .ret r

def wrote (n : UInt64) (f : Handle) (off : ℕ) : Phase :=
  if off < contents.length then .writing n f off else .syncing n f

inductive Advance : Phase → (o : Op) → Answer o → Phase → Prop
  | fetchAdd (n : UInt64) : Advance .start .fetchAdd n (.opening n)
  | openError (n : UInt64) (e : PlatformError) :
    Advance (.opening n) (.open (tmpName pid rel n) tmpOptions) (.error e) (.removing n e)
  | open (n : UInt64) (f : Handle) :
    Advance (.opening n) (.open (tmpName pid rel n) tmpOptions) (.ok f) (wrote contents n f 0)
  | writeError (n : UInt64) (f : Handle) (off : ℕ) (e : PlatformError) :
    Advance (.writing n f off) (.write f (contents.drop off)) (.error e) (.closing n f (.error e))
  | writeZero (n : UInt64) (f : Handle) (off : ℕ) :
    Advance (.writing n f off) (.write f (contents.drop off)) (.ok 0)
      (.closing n f (.error (wroteNothing (tmpName pid rel n))))
  | write (n : UInt64) (f : Handle) (off m : ℕ) :
    Advance (.writing n f off) (.write f (contents.drop off)) (.ok (m + 1))
      (wrote contents n f (off + (m + 1)))
  | syncAll (n : UInt64) (f : Handle) (r : Result Unit) :
    Advance (.syncing n f) (.syncAll f) r (.closing n f r)
  | closeError (n : UInt64) (f : Handle) (e : PlatformError) :
    Advance (.closing n f (.error e)) (.close f) () (.removing n e)
  | close (n : UInt64) (f : Handle) : Advance (.closing n f (.ok ())) (.close f) () (.publishing n)
  | removeFile (n : UInt64) (e : PlatformError) (r : Result Unit) :
    Advance (.removing n e) (.removeFile (tmpName pid rel n)) r (.done n (.error e))
  | renameError (n : UInt64) (e : PlatformError) :
    Advance (.publishing n) (.rename (tmpName pid rel n) rel) (.error e) (.done n (.error e))
  | rename (n : UInt64) :
    Advance (.publishing n) (.rename (tmpName pid rel n) rel) (.ok ()) (.syncingDir n)
  | syncDir (n : UInt64) (r : Result Unit) : Advance (.syncingDir n) .syncDir r (.done n r)

variable {pid rel contents} {n : UInt64} {f : Handle} {off : ℕ}

theorem resume_writing (h : off < contents.length) :
    resume pid rel contents (.writing n f off) = .op (.write f (contents.drop off)) fun
      | .error e => resume pid rel contents (.closing n f (.error e))
      | .ok 0 => resume pid rel contents (.closing n f (.error (wroteNothing (tmpName pid rel n))))
      | .ok (m + 1) => resume pid rel contents (.writing n f (off + (m + 1))) := by
  rw [resume, writeLoop, if_pos h]
  simp only [op_bind, Prog.op.injEq, heq_eq_eq, true_and]
  funext r
  rcases r with e | _ | m <;> rfl

theorem resume_wrote (n : UInt64) (f : Handle) (off : ℕ) :
    resume pid rel contents (wrote contents n f off) =
      resume pid rel contents (.writing n f off) := by
  unfold wrote
  split_ifs with h
  · rfl
  · rw [resume, resume, writeLoop, if_neg h]
    rfl

theorem eq_done_of_resume {ph : Phase} {r : Result Unit}
    (hoff : ∀ n f off, ph = .writing n f off → off < contents.length)
    (h : resume pid rel contents ph = .ret r) : ∃ n, ph = .done n r := by
  cases ph with
  | writing n f off =>
    rw [resume_writing (hoff n f off rfl)] at h
    cases h
  | done n r' =>
    cases h
    exact ⟨n, rfl⟩
  | _ => cases h

theorem advance_of_step {env : Env World Answer} {ph : Phase} {o : Op} {r : Answer o} {w w' : World}
    {p' : Prog Answer (Result Unit)} (hoff : ∀ n f off, ph = .writing n f off → off < contents.length)
    (h : Step env o r (resume pid rel contents ph, w) (p', w')) :
    env w o r w' ∧ ∃ ph', Advance pid rel contents ph o r ph' ∧ p' = resume pid rel contents ph' := by
  cases ph with
  | start =>
    obtain ⟨h⟩ := h
    exact ⟨h, _, .fetchAdd r, rfl⟩
  | opening n =>
    obtain ⟨h⟩ := h
    rcases r with e | f
    · exact ⟨h, _, .openError n e, rfl⟩
    · exact ⟨h, _, .open n f, (resume_wrote n f 0).symm⟩
  | writing n f off =>
    rw [resume_writing (hoff n f off rfl)] at h
    obtain ⟨h⟩ := h
    rcases r with e | _ | m
    · exact ⟨h, _, .writeError n f off e, rfl⟩
    · exact ⟨h, _, .writeZero n f off, rfl⟩
    · exact ⟨h, _, .write n f off m, (resume_wrote n f _).symm⟩
  | syncing n f =>
    obtain ⟨h⟩ := h
    exact ⟨h, _, .syncAll n f r, rfl⟩
  | closing n f res =>
    obtain ⟨h⟩ := h
    rcases res with e | ⟨⟩
    · exact ⟨h, _, .closeError n f e, rfl⟩
    · exact ⟨h, _, .close n f, rfl⟩
  | removing n e =>
    obtain ⟨h⟩ := h
    exact ⟨h, _, .removeFile n e r, rfl⟩
  | publishing n =>
    obtain ⟨h⟩ := h
    rcases r with e | ⟨⟩
    · exact ⟨h, _, .renameError n e, rfl⟩
    · exact ⟨h, _, .rename n, rfl⟩
  | syncingDir n =>
    obtain ⟨h⟩ := h
    exact ⟨h, _, .syncDir n r, rfl⟩
  | done n r => cases h

theorem step_of_advance {env : Env World Answer} {ph ph' : Phase} {o : Op} {r : Answer o}
    {w w' : World} (hoff : ∀ n f off, ph = .writing n f off → off < contents.length)
    (ha : Advance pid rel contents ph o r ph') (hw : env w o r w') :
    Step env o r (resume pid rel contents ph, w) (resume pid rel contents ph', w') := by
  cases ha with
  | «open» n f =>
    rw [resume_wrote]
    exact .intro hw
  | writeError n f off e =>
    rw [resume_writing (hoff n f off rfl)]
    exact .intro hw
  | writeZero n f off =>
    rw [resume_writing (hoff n f off rfl)]
    exact .intro hw
  | write n f off m =>
    rw [resume_wrote, resume_writing (hoff n f off rfl)]
    exact .intro hw
  | _ => exact .intro hw

end Call

end Rustils.Fs
