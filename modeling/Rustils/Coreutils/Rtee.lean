import Mathlib.Tactic.SplitIfs
import Rustils.Lib.LineWriter
import Rustils.Lib.Progress
import Rustils.Process.Status

namespace Rustils.Coreutils.Rtee

open Process
open Lib.LineWriter Lib.Trace Lib.Progress

/-- The writes of a child to its standard output, each of which goes into a pipe of `room` bytes as a whole. -/
structure Script (room : ℕ) where
  writes : List (List UInt8)
  fits : ∀ c ∈ writes, c ≠ [] ∧ c.length ≤ room

/-- Where `rtee` is: `writingFile` is the loop of `write_all`, and `leaving` the end of the process behind `main`, which
writes what standard output still holds. -/
inductive Point
  | spawning
  | reading
  | writingOut (chunk : List UInt8) (puts : List Put)
  | writingFile (buf : List UInt8)
  | waiting
  | leaving (code : Option UInt8)
  | exited (code : Option UInt8)

inductive Life
  | unborn
  | running
  | gone
  deriving DecidableEq

/-- `held` is what standard output holds once it has written all it is writing. -/
structure Sys where
  point : Point
  unwritten : List (List UInt8)
  child : Life
  pipe : List UInt8
  held : List UInt8
  out : List UInt8
  file : List UInt8

def EXIT_FAILURE : UInt8 := 1

def BUF_LEN : ℕ := 8192

def STDOUT_CAPACITY : ℕ := 1024

def exitCode : ExitStatus → Option UInt8
  | .code code => some (UInt8.ofNat (code &&& 0xff))
  | .signaled sig => some (UInt8.ofNat (128 + (sig &&& 0x7f)))
  | .stopped _ | .continued => none

/-- `idle` is a write to the file that takes nothing, `refused` one that standard output fails, and `lost` the same at the
end of the process, where nobody looks. -/
inductive Event
  | child
  | tee
  | idle
  | refused
  | lost
  | failed
  deriving DecidableEq

inductive Step (room : ℕ) (status : ExitStatus) (s : Sys) : Event → Sys → Prop
  | spawned (h : s.point = .spawning) : Step room status s .tee { s with point := .reading, child := .running }
  | spawnFailed (h : s.point = .spawning) : Step room status s .failed { s with point := .leaving (some 127) }
  | childWrites {c : List UInt8} {cs : List (List UInt8)} (h : s.unwritten = c :: cs) (hrun : s.child = .running)
    (hroom : s.pipe.length + c.length ≤ room) : Step room status s .child { s with unwritten := cs, pipe := s.pipe ++ c }
  | childExits (h : s.unwritten = []) (hrun : s.child = .running) : Step room status s .child { s with child := .gone }
  | read {c rest : List UInt8} (h : s.point = .reading) (hpipe : s.pipe = c ++ rest) (hc : c ≠ [])
    (hlen : c.length ≤ BUF_LEN) :
    Step room status s .tee { s with
      point := .writingOut c (writeAll STDOUT_CAPACITY s.held c).1
      held := (writeAll STDOUT_CAPACITY s.held c).2
      pipe := rest }
  | readEnd (h : s.point = .reading) (hpipe : s.pipe = []) (hgone : s.child = .gone) :
    Step room status s .tee { s with point := .waiting }
  | readFailed (h : s.point = .reading) : Step room status s .failed { s with point := .leaving (some EXIT_FAILURE) }
  | wroteOut {c p q : List UInt8} {put : Put} {puts : List Put} (h : s.point = .writingOut c (put :: puts))
    (hput : put.bytes = p ++ q) (hp : p ≠ []) :
    Step room status s .tee { s with point := .writingOut c (put.shrink q :: puts), out := s.out ++ p }
  | wrotePut {c : List UInt8} {put : Put} {puts : List Put} (h : s.point = .writingOut c (put :: puts))
    (hput : put.bytes = []) : Step room status s .tee { s with point := .writingOut c puts }
  | refused {c : List UInt8} {put : Put} {puts : List Put} (h : s.point = .writingOut c (put :: puts))
    (hput : put.bytes ≠ []) : Step room status s .refused { s with point := .waiting, held := put.kept }
  | wroteChunk {c : List UInt8} (h : s.point = .writingOut c []) : Step room status s .tee { s with point := .writingFile c }
  | wroteFile {p q : List UInt8} (h : s.point = .writingFile (p ++ q)) (hp : p ≠ []) :
    Step room status s .tee { s with point := .writingFile q, file := s.file ++ p }
  | wroteNone {buf : List UInt8} (h : s.point = .writingFile buf) (hbuf : buf ≠ []) : Step room status s .idle s
  | writeFailed {buf : List UInt8} (h : s.point = .writingFile buf) (hbuf : buf ≠ []) :
    Step room status s .failed { s with point := .leaving (some EXIT_FAILURE) }
  | wroteAll (h : s.point = .writingFile []) : Step room status s .tee { s with point := .reading }
  | waited (h : s.point = .waiting) (hgone : s.child = .gone) :
    Step room status s .tee { s with point := .leaving (exitCode status) }
  | waitFailed (h : s.point = .waiting) (hgone : s.child = .gone) :
    Step room status s .failed { s with point := .leaving (some EXIT_FAILURE) }
  | flushed {code : Option UInt8} {p q : List UInt8} (h : s.point = .leaving code) (hheld : s.held = p ++ q) (hp : p ≠ []) :
    Step room status s .tee { s with held := q, out := s.out ++ p }
  | lost {code : Option UInt8} (h : s.point = .leaving code) (hheld : s.held ≠ []) :
    Step room status s .lost { s with point := .exited code }
  | left {code : Option UInt8} (h : s.point = .leaving code) (hheld : s.held = []) :
    Step room status s .tee { s with point := .exited code }

def start {room : ℕ} (script : Script room) : Sys := ⟨.spawning, script.writes, .unborn, [], [], [], []⟩

variable {room : ℕ} {script : Script room} {status : ExitStatus} {s s' : Sys} {e : Event} {tr : List Event}

def Copied (s : Sys) (taken : List UInt8) : Point → Prop
  | .spawning => taken = [] ∧ s.out = [] ∧ s.held = [] ∧ s.file = [] ∧ s.child = .unborn
  | .reading => s.out ++ s.held = taken ∧ s.file = taken ∧ Pending STDOUT_CAPACITY s.held
  | .writingOut c puts => s.out ++ (putBytes puts ++ s.held) = taken ∧ s.file ++ c = taken ∧ c.length ≤ BUF_LEN ∧
    Pending STDOUT_CAPACITY s.held
  | .writingFile buf => s.out ++ s.held = taken ∧ s.file ++ buf = taken ∧ buf.length ≤ BUF_LEN ∧
    Pending STDOUT_CAPACITY s.held
  | .waiting | .leaving _ | .exited _ => s.file <+: taken ∧ s.out ++ s.held <+: taken ∧
    (s.out ++ s.held).length ≤ s.file.length + BUF_LEN

structure Consistent (script : Script room) (s : Sys) : Prop where
  born : s.child = .unborn → s.point = .spawning ∨ (∃ code, s.point = .leaving code) ∨ ∃ code, s.point = .exited code
  said : s.child = .gone → s.unwritten = []
  room_le : s.pipe.length ≤ room
  writes : ∀ c ∈ s.unwritten, c ≠ [] ∧ c.length ≤ room
  behind : s.file.length ≤ s.out.length + STDOUT_CAPACITY
  copied : ∃ taken, script.writes.flatten = taken ++ s.pipe ++ s.unwritten.flatten ∧ Copied s taken s.point

theorem consistent_start : Consistent script (start script) where
  born _ := .inl rfl
  said h := nomatch h
  room_le := Nat.zero_le _
  writes := script.fits
  behind := Nat.zero_le _
  copied := ⟨[], by simp [start], rfl, rfl, rfl, rfl, rfl⟩

theorem Copied.child {taken : List UInt8} {p : Point} (h : Copied s taken p) (hrun : s.child = .running)
    (cs : List (List UInt8)) (life : Life) (pipe : List UInt8) :
    Copied { s with unwritten := cs, child := life, pipe := pipe } taken p := by
  cases p with
  | spawning => cases hrun.symm.trans h.2.2.2.2
  | _ => exact h

theorem Copied.prefixes {taken : List UInt8} {p : Point} (h : Copied s taken p) : s.file <+: taken ∧ s.out <+: taken ∧
    s.out.length ≤ s.file.length + BUF_LEN := by
  cases p with
  | spawning =>
    obtain ⟨rfl, hout, _, hfile, _⟩ := h
    simp [hout, hfile]
  | reading =>
    obtain ⟨rfl, hfile, _⟩ := h
    refine ⟨hfile ▸ List.prefix_rfl, List.prefix_append .., ?_⟩
    rw [hfile, List.length_append]
    omega
  | writingOut c puts =>
    obtain ⟨rfl, hfile, hc, _⟩ := h
    refine ⟨⟨c, hfile⟩, List.prefix_append .., ?_⟩
    have hlen := congrArg List.length hfile
    simp only [List.length_append] at hlen
    omega
  | writingFile buf =>
    obtain ⟨rfl, hfile, hbuf, _⟩ := h
    refine ⟨⟨buf, hfile⟩, List.prefix_append .., ?_⟩
    have hlen := congrArg List.length hfile
    simp only [List.length_append] at hlen
    omega
  | waiting | leaving _ | exited _ =>
    obtain ⟨hfile, hout, hlen⟩ := h
    refine ⟨hfile, (List.prefix_append _ _).trans hout, ?_⟩
    rw [List.length_append] at hlen
    omega

theorem Copied.leave {taken : List UInt8} {p : Point} (h : Copied s taken p) (hp : p = .reading ∨ ∃ buf, p = .writingFile buf) :
    s.file <+: taken ∧ s.out ++ s.held <+: taken ∧ (s.out ++ s.held).length ≤ s.file.length + BUF_LEN := by
  refine ⟨h.prefixes.1, ?_⟩
  obtain rfl | ⟨buf, rfl⟩ := hp
  · obtain ⟨hout, hfile, _⟩ := h
    rw [hout, hfile]
    exact ⟨List.prefix_rfl, Nat.le_add_right ..⟩
  · obtain ⟨hout, hfile, hbuf, _⟩ := h
    refine ⟨hout ▸ List.prefix_rfl, ?_⟩
    rw [hout, ← hfile, List.length_append]
    omega

theorem Consistent.born_of (h : Consistent script s) {p : Point} (hp : s.point = p) (h₁ : p ≠ .spawning)
    (h₂ : ∀ code, p ≠ .leaving code) (h₃ : ∀ code, p ≠ .exited code) : s.child ≠ .unborn := by
  intro hchild
  obtain hp' | ⟨code, hp'⟩ | ⟨code, hp'⟩ := h.born hchild
  · exact h₁ (hp.symm.trans hp')
  · exact h₂ code (hp.symm.trans hp')
  · exact h₃ code (hp.symm.trans hp')

theorem Consistent.moved (h : Consistent script s) {p : Point} {held out file : List UInt8}
    (hborn : s.child = .unborn → (∃ code, p = .leaving code) ∨ ∃ code, p = .exited code)
    (hbehind : file.length ≤ out.length + STDOUT_CAPACITY)
    (hcopied : ∀ taken, Copied s taken s.point → Copied { s with held := held, out := out, file := file } taken p) :
    Consistent script { s with point := p, held := held, out := out, file := file } := by
  obtain ⟨taken, hwhole, h'⟩ := h.copied
  exact ⟨fun hchild => .inr (hborn hchild), h.said, h.room_le, h.writes, hbehind, taken, hwhole, hcopied taken h'⟩

theorem Consistent.spawned (h : Consistent script s) (hp : s.point = .spawning) :
    Consistent script { s with point := .reading, child := .running } := by
  obtain ⟨taken, hwhole, hcopied⟩ := h.copied
  rw [hp] at hcopied
  obtain ⟨rfl, hout, hheld, hfile, -⟩ := hcopied
  refine ⟨nofun, nofun, h.room_le, h.writes, h.behind, [], hwhole, ?_⟩
  change s.out ++ s.held = [] ∧ s.file = [] ∧ Pending _ s.held
  rw [hout, hheld]
  exact ⟨rfl, hfile, pending_nil⟩

theorem Consistent.spawnFailed (h : Consistent script s) {code : Option UInt8} (hp : s.point = .spawning) :
    Consistent script { s with point := .leaving code } := by
  refine h.moved (fun _ => .inl ⟨_, rfl⟩) h.behind fun taken hcopied => ?_
  rw [hp] at hcopied
  obtain ⟨rfl, hout, hheld, hfile, -⟩ := hcopied
  change s.file <+: [] ∧ s.out ++ s.held <+: [] ∧ (s.out ++ s.held).length ≤ _
  simp [hout, hheld, hfile]

theorem Consistent.childWrites (h : Consistent script s) {c : List UInt8} {cs : List (List UInt8)}
    (hc : s.unwritten = c :: cs) (hrun : s.child = .running) (hroom : s.pipe.length + c.length ≤ room) :
    Consistent script { s with unwritten := cs, pipe := s.pipe ++ c } := by
  obtain ⟨taken, hwhole, hcopied⟩ := h.copied
  have hwrites := h.writes
  rw [hc] at hwrites hwhole
  refine ⟨h.born, fun hgone => ?_, by simpa using hroom, fun c' hc' => hwrites c' (.tail _ hc'), h.behind, taken,
    by simpa using hwhole, hcopied.child hrun ..⟩
  cases hrun.symm.trans hgone

theorem Consistent.behind_out (h : Consistent script s) (p : List UInt8) :
    s.file.length ≤ (s.out ++ p).length + STDOUT_CAPACITY := by
  rw [List.length_append]
  exact h.behind.trans (Nat.add_le_add_right (Nat.le_add_right ..) _)

theorem Consistent.wroteOut (h : Consistent script s) {c p q : List UInt8} {put : Put} {puts : List Put}
    (hp : s.point = .writingOut c (put :: puts)) (hput : put.bytes = p ++ q) :
    Consistent script { s with point := .writingOut c (put.shrink q :: puts), out := s.out ++ p } := by
  refine h.moved (fun hchild => absurd hchild (h.born_of hp (by simp) (by simp) (by simp))) (h.behind_out p)
    fun taken hcopied => ?_
  rw [hp] at hcopied
  obtain ⟨hout, hrest⟩ := hcopied
  refine ⟨?_, hrest⟩
  rw [← hout]
  simp [hput]

theorem Consistent.flushed (h : Consistent script s) {code : Option UInt8} {p q : List UInt8}
    (hp : s.point = .leaving code) (hheld : s.held = p ++ q) :
    Consistent script { s with held := q, out := s.out ++ p } := by
  refine h.moved (fun _ => .inl ⟨_, hp⟩) (h.behind_out p) fun taken hcopied => ?_
  rw [hp] at hcopied ⊢
  obtain ⟨hfile, hout, hlen⟩ := hcopied
  rw [hheld] at hout hlen
  exact ⟨hfile, by simpa using hout, by simpa using hlen⟩

theorem Consistent.wroteFile (h : Consistent script s) {p q : List UInt8} (hp : s.point = .writingFile (p ++ q)) :
    Consistent script { s with point := .writingFile q, file := s.file ++ p } := by
  obtain ⟨taken, hwhole, hcopied⟩ := h.copied
  rw [hp] at hcopied
  obtain ⟨hout, hfile, hbuf, hheld⟩ := hcopied
  rw [List.length_append] at hbuf
  refine ⟨fun hchild => absurd hchild (h.born_of hp (by simp) (by simp) (by simp)), h.said, h.room_le, h.writes, ?_,
    taken, hwhole, hout, by simpa using hfile, by omega, hheld⟩
  have hlen := congrArg List.length (hfile.trans hout.symm)
  have hcap := hheld.fits
  simp only [List.length_append] at hlen ⊢
  omega

theorem Consistent.read (h : Consistent script s) {c rest : List UInt8} (hp : s.point = .reading)
    (hpipe : s.pipe = c ++ rest) (hlen : c.length ≤ BUF_LEN) : Consistent script { s with
      point := .writingOut c (writeAll STDOUT_CAPACITY s.held c).1
      held := (writeAll STDOUT_CAPACITY s.held c).2
      pipe := rest } := by
  obtain ⟨taken, hwhole, hcopied⟩ := h.copied
  rw [hp] at hcopied
  obtain ⟨rfl, hfile, hheld⟩ := hcopied
  have hroom := h.room_le
  rw [hpipe] at hwhole hroom
  rw [List.length_append] at hroom
  refine ⟨fun hchild => absurd hchild (h.born_of hp (by simp) (by simp) (by simp)), h.said, ?_, h.writes, h.behind,
    s.out ++ s.held ++ c, by simpa using hwhole, ?_, by rw [hfile], hlen, hheld.writeAll⟩
  · change rest.length ≤ room
    omega
  · change s.out ++ (putBytes _ ++ _) = _
    rw [writeAll_bytes, List.append_assoc]

theorem Consistent.refused (h : Consistent script s) {c : List UInt8} {put : Put} {puts : List Put}
    (hp : s.point = .writingOut c (put :: puts)) : Consistent script { s with point := .waiting, held := put.kept } := by
  refine h.moved (fun hchild => absurd hchild (h.born_of hp (by simp) (by simp) (by simp))) h.behind fun taken hcopied => ?_
  rw [hp] at hcopied
  obtain ⟨hfile, -, -⟩ := hcopied.prefixes
  obtain ⟨hout, hchunk, hc, -⟩ := hcopied
  have hkept : s.out ++ put.kept <+: taken := by
    rw [← hout]
    cases put with
    | flush bytes => exact ⟨putBytes puts ++ s.held, by simp [Put.kept, Put.bytes]⟩
    | direct bytes => exact ⟨bytes ++ putBytes puts ++ s.held, by simp [Put.kept, Put.bytes]⟩
  refine ⟨hfile, hkept, ?_⟩
  have hlen := hkept.length_le
  rw [← hchunk] at hlen
  refine hlen.trans ?_
  rw [List.length_append]
  exact Nat.add_le_add_left hc _

theorem Consistent.step (h : Consistent script s) (hs : Step room status s e s') : Consistent script s' := by
  have unborn {p : Point} (hp : s.point = p) (h₁ : p ≠ .spawning) (h₂ : ∀ code, p ≠ .leaving code)
      (h₃ : ∀ code, p ≠ .exited code) {P : Prop} (hchild : s.child = .unborn) : P :=
    absurd hchild (h.born_of hp h₁ h₂ h₃)
  cases hs with
  | spawned hp => exact h.spawned hp
  | spawnFailed hp => exact h.spawnFailed hp
  | childWrites hc hrun hroom => exact h.childWrites hc hrun hroom
  | childExits hall hrun =>
    obtain ⟨taken, hwhole, hcopied⟩ := h.copied
    exact ⟨nofun, fun _ => hall, h.room_le, h.writes, h.behind, taken, hwhole, hcopied.child hrun ..⟩
  | read hp hpipe hne hlen => exact h.read hp hpipe hlen
  | readEnd hp hpipe hgone =>
    exact h.moved (unborn hp (by simp) (by simp) (by simp)) h.behind fun taken hcopied => hcopied.leave (.inl hp)
  | readFailed hp => exact h.moved (fun _ => .inl ⟨_, rfl⟩) h.behind fun taken hcopied => hcopied.leave (.inl hp)
  | wroteOut hp hput hne => exact h.wroteOut hp hput
  | @wrotePut c put puts hp hput =>
    refine h.moved (unborn hp (by simp) (by simp) (by simp)) h.behind fun taken hcopied => ?_
    rw [hp] at hcopied
    obtain ⟨hout, hrest⟩ := hcopied
    rw [putBytes_cons, hput] at hout
    exact ⟨hout, hrest⟩
  | refused hp hput => exact h.refused hp
  | @wroteChunk c hp =>
    refine h.moved (unborn hp (by simp) (by simp) (by simp)) h.behind fun taken hcopied => ?_
    rw [hp] at hcopied
    exact hcopied
  | wroteFile hp hne => exact h.wroteFile hp
  | wroteNone => exact h
  | @writeFailed buf hp hne =>
    exact h.moved (fun _ => .inl ⟨_, rfl⟩) h.behind fun taken hcopied => hcopied.leave (.inr ⟨buf, hp⟩)
  | wroteAll hp =>
    refine h.moved (unborn hp (by simp) (by simp) (by simp)) h.behind fun taken hcopied => ?_
    rw [hp] at hcopied
    obtain ⟨hout, hfile, -, hheld⟩ := hcopied
    rw [List.append_nil] at hfile
    exact ⟨hout, hfile, hheld⟩
  | waited hp hgone | waitFailed hp hgone =>
    refine h.moved (fun _ => .inl ⟨_, rfl⟩) h.behind fun taken hcopied => ?_
    rw [hp] at hcopied
    exact hcopied
  | flushed hp hheld hne => exact h.flushed hp hheld
  | lost hp hheld | left hp hheld =>
    refine h.moved (fun _ => .inr ⟨_, rfl⟩) h.behind fun taken hcopied => ?_
    rw [hp] at hcopied
    exact hcopied

theorem consistent_of_run (h : Run (Step room status) (start script) tr s) : Consistent script s := by
  induction h with
  | refl => exact consistent_start
  | tail _ hs ih => exact ih.step hs

def putsWeight (puts : List Put) : ℕ := (putBytes puts).length + puts.length

@[simp] theorem putsWeight_cons (put : Put) (puts : List Put) :
    putsWeight (put :: puts) = put.bytes.length + 1 + putsWeight puts := by
  simp only [putsWeight, putBytes_cons, List.length_append, List.length_cons]
  omega

theorem writeAll_weight (held c : List UInt8) : putsWeight (writeAll STDOUT_CAPACITY held c).1 +
    (writeAll STDOUT_CAPACITY held c).2.length ≤ held.length + c.length + 5 := by
  have hbytes := congrArg List.length (@writeAll_bytes STDOUT_CAPACITY held c)
  have hlen := @writeAll_length STDOUT_CAPACITY held c
  simp only [List.length_append] at hbytes
  unfold putsWeight
  omega

/-- Every byte is written to the pipe, read, and written to both copies, with a few steps around each chunk. -/
def Point.weight : Point → ℕ
  | .spawning => 5
  | .reading => 3
  | .writingOut c puts => putsWeight puts + c.length + 5
  | .writingFile buf => buf.length + 4
  | .waiting => 2
  | .leaving _ => 1
  | .exited _ => 0

def Life.weight : Life → ℕ
  | .running => 1
  | _ => 0

def weight (s : Sys) : ℕ :=
  s.point.weight + s.child.weight + s.held.length + 11 * s.unwritten.flatten.length + 10 * s.pipe.length

def Moves (room : ℕ) (status : ExitStatus) (s : Sys) (e : Event) (s' : Sys) : Prop := Step room status s e s' ∧ e ≠ .idle

theorem Consistent.lowers (hc : Consistent script s) (h : Step room status s e s') (hidle : e ≠ .idle) :
    weight s' < weight s := by
  cases h with
  | wroteNone => exact absurd rfl hidle
  | @childWrites c cs hcs hrun hroom =>
    have hpos := List.length_pos_iff.mpr (hc.writes c (hcs ▸ .head _)).1
    simp only [weight, hcs, List.flatten_cons, List.length_append]
    omega
  | @read c rest hp hpipe hne hlen =>
    have hpos := List.length_pos_iff.mpr hne
    have hputs := writeAll_weight s.held c
    simp only [weight, hp, hpipe, Point.weight, List.length_append]
    omega
  | @wroteOut c p q put puts hp hput hne =>
    have hpos := List.length_pos_iff.mpr hne
    simp only [weight, hp, Point.weight, putsWeight_cons, hput, Put.bytes_shrink, List.length_append]
    omega
  | @wrotePut c put puts hp hput =>
    simp only [weight, hp, Point.weight, putsWeight_cons]
    omega
  | @refused c put puts hp hput =>
    have hkept : put.kept.length ≤ put.bytes.length := by cases put <;> simp [Put.kept, Put.bytes]
    simp only [weight, hp, Point.weight, putsWeight_cons]
    omega
  | @wroteFile p q hp hne =>
    have hpos := List.length_pos_iff.mpr hne
    simp only [weight, hp, Point.weight, List.length_append]
    omega
  | @flushed code p q hp hheld hne =>
    have hpos := List.length_pos_iff.mpr hne
    simp only [weight, hheld, List.length_append]
    omega
  | spawned hp =>
    simp only [weight, hp, Point.weight, Life.weight]
    omega
  | childExits hall hrun =>
    simp only [weight, hrun, Life.weight]
    omega
  | spawnFailed hp | readEnd hp | readFailed hp | wroteChunk hp | writeFailed hp | wroteAll hp | waited hp | waitFailed hp
  | lost hp | left hp =>
    simp only [weight, hp, Point.weight]
    omega

def Deadlocked (room : ℕ) (s : Sys) : Prop :=
  s.point = .waiting ∧ s.child = .running ∧ ∃ c cs, s.unwritten = c :: cs ∧ room < s.pipe.length + c.length

def Blocked (room : ℕ) (status : ExitStatus) (s : Sys) : Prop := ∀ e s', Moves room status s e s' → e ≠ .child ∧ e ≠ .tee

theorem blocked_of_exited {code : Option UInt8} (hp : s.point = .exited code) (hgone : s.child = .gone) :
    Blocked room status s := by
  rintro e s' ⟨hs, -⟩
  cases hs with
  | childWrites _ hrun | childExits _ hrun => cases hrun.symm.trans hgone
  | spawned h | spawnFailed h | read h | readEnd h | readFailed h | wroteOut h | wrotePut h | refused h
  | wroteChunk h | wroteFile h | wroteNone h | writeFailed h | wroteAll h | waited h | waitFailed h | flushed h
  | lost h | left h => cases h.symm.trans hp

theorem Consistent.blocked (h : Consistent script s) (hblocked : Blocked room status s) :
    (∃ code, s.point = .exited code) ∨ Deadlocked room s := by
  have no {s' : Sys} : ¬Step room status s .tee s' := fun hs => (hblocked _ _ ⟨hs, by simp⟩).2 rfl
  have quiet {s' : Sys} : ¬Step room status s .child s' := fun hs => (hblocked _ _ ⟨hs, by simp⟩).1 rfl
  have gone_or : s.child = .running → ∃ c cs, s.unwritten = c :: cs ∧ room < s.pipe.length + c.length := by
    intro hrun
    rcases hall : s.unwritten with _ | ⟨c, cs⟩
    · exact absurd (.childExits hall hrun) quiet
    · exact ⟨c, cs, rfl, Nat.lt_of_not_le fun hroom => quiet (.childWrites hall hrun hroom)⟩
  cases hp : s.point with
  | spawning => exact absurd (.spawned hp) no
  | reading =>
    rcases hpipe : s.pipe with _ | ⟨b, rest⟩
    · cases hlife : s.child with
      | unborn => simpa [hp] using h.born hlife
      | gone => exact absurd (.readEnd hp hpipe hlife) no
      | running =>
        obtain ⟨c, cs, hcs, hroom⟩ := gone_or hlife
        have hfits := (h.writes c (hcs ▸ .head _)).2
        rw [hpipe, List.length_nil] at hroom
        omega
    · exact absurd (.read (c := [b]) hp hpipe (by simp) (by simp [BUF_LEN])) no
  | writingOut c puts =>
    rcases puts with _ | ⟨put, puts⟩
    · exact absurd (.wroteChunk hp) no
    · rcases hput : put.bytes with _ | ⟨b, q⟩
      · exact absurd (.wrotePut hp hput) no
      · exact absurd (.wroteOut (p := [b]) hp hput (by simp)) no
  | writingFile buf =>
    rcases buf with _ | ⟨b, q⟩
    · exact absurd (.wroteAll hp) no
    · exact absurd (.wroteFile (p := [b]) hp (by simp)) no
  | waiting =>
    cases hlife : s.child with
    | unborn => simpa [hp] using h.born hlife
    | gone => exact absurd (.waited hp hlife) no
    | running => exact .inr ⟨hp, hlife, gone_or hlife⟩
  | leaving code =>
    rcases hheld : s.held with _ | ⟨b, q⟩
    · exact absurd (.left hp hheld) no
    · exact absurd (.flushed (p := [b]) hp hheld (by simp)) no
  | exited code => exact .inl ⟨code, rfl⟩

def Done (script : Script room) (s : Sys) : Prop :=
  s.child = .gone ∧ s.out ++ s.held = script.writes.flatten ∧ s.file = script.writes.flatten

structure Settled (script : Script room) (status : ExitStatus) (s : Sys) : Prop where
  waiting : s.point = .waiting → Done script s
  leaving : ∀ code, s.point = .leaving code → code = exitCode status ∧ Done script s
  exited : ∀ code, s.point = .exited code → code = exitCode status ∧ Done script s ∧ s.held = []

theorem Settled.of_point (h₁ : s.point ≠ .waiting) (h₂ : ∀ code, s.point ≠ .leaving code)
    (h₃ : ∀ code, s.point ≠ .exited code) : Settled script status s :=
  ⟨fun h => absurd h h₁, fun code h => absurd h (h₂ code), fun code h => absurd h (h₃ code)⟩

theorem Settled.of_running (h : Settled script status s) (hrun : s.child = .running)
    {cs : List (List UInt8)} {life : Life} {pipe : List UInt8} :
    Settled script status { s with unwritten := cs, child := life, pipe := pipe } where
  waiting hp := nomatch hrun.symm.trans (h.waiting hp).1
  leaving _ hp := nomatch hrun.symm.trans (h.leaving _ hp).2.1
  exited _ hp := nomatch hrun.symm.trans (h.exited _ hp).2.1.1

def Smooth (tr : List Event) : Prop := .refused ∉ tr ∧ .lost ∉ tr ∧ .failed ∉ tr

theorem Settled.step (h : Settled script status s) (hc : Consistent script s) (hs : Step room status s e s')
    (he : e ≠ .refused ∧ e ≠ .lost ∧ e ≠ .failed) : Settled script status s' := by
  cases hs with
  | spawned | read | wroteOut | wrotePut | wroteChunk | wroteFile | wroteAll =>
    exact .of_point (by simp) (by simp) (by simp)
  | childWrites _ hrun | childExits _ hrun => exact h.of_running hrun
  | readEnd hp hpipe hgone =>
    obtain ⟨taken, hwhole, hcopied⟩ := hc.copied
    rw [hp] at hcopied
    have htaken : script.writes.flatten = taken := by simpa [hpipe, hc.said hgone] using hwhole
    exact ⟨fun _ => ⟨hgone, hcopied.1.trans htaken.symm, hcopied.2.1.trans htaken.symm⟩, nofun, nofun⟩
  | wroteNone => exact h
  | waited hp hgone =>
    refine ⟨nofun, fun code hcode => ?_, nofun⟩
    cases hcode
    exact ⟨rfl, h.waiting hp⟩
  | @flushed code p q hp hheld hne =>
    obtain ⟨hcode, hgone, hout, hfile⟩ := h.leaving code hp
    rw [hheld, ← List.append_assoc] at hout
    refine ⟨fun hp' => ?_, fun code' hp' => ?_, fun code' hp' => ?_⟩
    · cases hp.symm.trans hp'
    · cases hp.symm.trans hp'
      exact ⟨hcode, hgone, hout, hfile⟩
    · cases hp.symm.trans hp'
  | @left code hp hheld =>
    obtain ⟨hcode, hdone⟩ := h.leaving code hp
    refine ⟨nofun, nofun, fun code' hcode' => ?_⟩
    cases hcode'
    exact ⟨hcode, hdone, hheld⟩
  | refused => exact absurd rfl he.1
  | lost => exact absurd rfl he.2.1
  | spawnFailed | readFailed | writeFailed | waitFailed => exact absurd rfl he.2.2

theorem settled_of_run (h : Run (Step room status) (start script) tr s) (htr : Smooth tr) : Settled script status s := by
  induction h with
  | refl => exact .of_point (by simp [start]) (by simp [start]) (by simp [start])
  | @tail tr s s' e h hs ih =>
    simp only [Smooth, List.mem_append, List.mem_singleton, not_or] at htr
    obtain ⟨⟨hrefused, hr⟩, ⟨hlost, hl⟩, hfailed, hf⟩ := htr
    exact (ih ⟨hrefused, hlost, hfailed⟩).step (consistent_of_run h) hs ⟨Ne.symm hr, Ne.symm hl, Ne.symm hf⟩

theorem weight_start : weight (start script) = 5 + 11 * script.writes.flatten.length := by
  simp [weight, start, Point.weight, Life.weight]

theorem descends : Descends (Moves room status) (Consistent script) weight where
  keeps _ _ _ hc h := hc.step h.1
  lowers _ _ _ hc h := hc.lowers h.1 h.2

theorem tee_completes (h : Run (Step room status) (start script) tr s) :
    s.file <+: script.writes.flatten ∧ s.out <+: script.writes.flatten ∧
      s.out.length ≤ s.file.length + BUF_LEN ∧ s.file.length ≤ s.out.length + STDOUT_CAPACITY ∧
      (s.point = .reading → s.file = s.out ++ s.held ∧ Pending STDOUT_CAPACITY s.held) ∧
      (.idle ∉ tr → tr.length ≤ 5 + 11 * script.writes.flatten.length) ∧
      (Smooth tr → Blocked room status s → s.point = .exited (exitCode status) ∧
        s.out = script.writes.flatten ∧ s.file = script.writes.flatten) := by
  have hc := consistent_of_run h
  obtain ⟨taken, hwhole, hcopied⟩ := hc.copied
  obtain ⟨hfile, hout, hlen⟩ := hcopied.prefixes
  have htaken : taken <+: script.writes.flatten := ⟨s.pipe ++ s.unwritten.flatten, by rw [hwhole, List.append_assoc]⟩
  refine ⟨hfile.trans htaken, hout.trans htaken, hlen, hc.behind, fun hp => ?_, fun htr => ?_, fun htr hblocked => ?_⟩
  · rw [hp] at hcopied
    exact ⟨hcopied.2.1.trans hcopied.1.symm, hcopied.2.2⟩
  · have hmoves := run_restrict h (p := fun e => e ≠ .idle) fun e he => ne_of_mem_of_not_mem he htr
    have hle := descends.length_le consistent_start hmoves
    rw [weight_start] at hle
    omega
  · have hsettled := settled_of_run h htr
    rcases hc.blocked hblocked with ⟨code, hp⟩ | ⟨hp, hrun, _⟩
    · obtain ⟨rfl, ⟨_, hboth, hdone⟩, hheld⟩ := hsettled.exited code hp
      rw [hheld, List.append_nil] at hboth
      exact ⟨hp, hboth, hdone⟩
    · cases hrun.symm.trans (hsettled.waiting hp).1

theorem reads_hi {cs : List (List UInt8)} {life : Life} {out file : List UInt8}
    (h : Run (Step room status) (start script) tr ⟨.reading, cs, life, [104], [], out, file⟩) :
    ∃ tr', Run (Step room status) (start script) tr' ⟨.reading, cs, life, [], [104], out, file ++ [104]⟩ ∧
      (Smooth tr → Smooth tr') := by
  have hheld : writeAll STDOUT_CAPACITY [] [104] = ([], [104]) := by decide
  have hread := h.tail (.read (c := [104]) rfl rfl (by simp) (by simp [BUF_LEN]))
  rw [hheld] at hread
  have hrun := ((hread.tail (.wroteChunk rfl)).tail (.wroteFile (p := [104]) rfl (by simp))).tail (.wroteAll rfl)
  exact ⟨_, hrun, by simp [Smooth]⟩

def hi : Script 1 := ⟨[[104], [10]], by decide⟩

theorem tee_completes_hi : ∃ tr s, Run (Step 1 (.code 7)) (start hi) tr s ∧ s.point = .exited (some 7) ∧
    s.out = [104, 10] ∧ s.file = [104, 10] := by
  have hwrote : Run (Step 1 (.code 7)) (start hi) _ _ :=
    (Run.refl.tail (.spawned rfl)).tail (.childWrites rfl rfl (by decide))
  obtain ⟨tr, hfirst, hsmooth⟩ := reads_hi hwrote
  have hline : writeAll STDOUT_CAPACITY [104] [10] = ([.flush [104, 10]], []) := by decide
  have hread := (hfirst.tail (.childWrites rfl rfl (by decide))).tail
    (.read (c := [10]) rfl rfl (by simp) (by simp [BUF_LEN]))
  rw [hline] at hread
  have hwritten := (((hread.tail (.wroteOut (p := [104]) (q := [10]) rfl rfl (by simp))).tail
    (.wroteOut (p := [10]) (q := []) rfl rfl (by simp))).tail (.wrotePut rfl rfl)).tail (.wroteChunk rfl)
  have hboth := (hwritten.tail (.wroteFile (p := [10]) rfl (by simp))).tail (.wroteAll rfl)
  have hrun := (((hboth.tail (.childExits rfl rfl)).tail (.readEnd rfl rfl rfl)).tail (.waited rfl rfl)).tail (.left rfl rfl)
  refine ⟨_, _, hrun, (tee_completes hrun).2.2.2.2.2.2 ?_ (blocked_of_exited rfl rfl)⟩
  simpa [Smooth] using hsmooth (by simp [Smooth])

structure Left (n : ℕ) (s : Sys) : Prop where
  length : s.pipe.length + s.unwritten.flatten.length = n
  point : s.point = .waiting ∨ s.child = .gone ∧ ((∃ code, s.point = .leaving code) ∨ ∃ code, s.point = .exited code)

theorem Left.step {n : ℕ} (h : Left n s) (hs : Step room status s e s') : Left n s' := by
  obtain ⟨hlen, hpoint⟩ := h
  cases hs with
  | @childWrites c cs hc hrun hroom =>
    refine ⟨?_, hpoint.imp id fun h => absurd (hrun.symm.trans h.1) (by simp)⟩
    rw [hc, List.flatten_cons, List.length_append] at hlen
    change (s.pipe ++ c).length + cs.flatten.length = n
    rw [List.length_append]
    omega
  | childExits hall hrun => exact ⟨hlen, hpoint.imp id fun h => absurd (hrun.symm.trans h.1) (by simp)⟩
  | waited hp hgone | waitFailed hp hgone => exact ⟨hlen, .inr ⟨hgone, .inl ⟨_, rfl⟩⟩⟩
  | flushed hp => exact ⟨hlen, hpoint⟩
  | lost hp | left hp =>
    refine ⟨hlen, .inr ⟨?_, .inr ⟨_, rfl⟩⟩⟩
    obtain hw | ⟨hgone, -⟩ := hpoint
    · cases hp.symm.trans hw
    · exact hgone
  | spawned hp | spawnFailed hp | read hp | readEnd hp | readFailed hp | wroteOut hp | wrotePut hp | refused hp
  | wroteChunk hp | wroteFile hp | wroteNone hp | writeFailed hp | wroteAll hp => simp [hp] at hpoint

theorem Left.not_idle {n : ℕ} (h : Left n s) : ¬Step room status s .idle s' := by
  rintro (_ | _)
  rename_i hp _
  simpa [hp] using h.point

theorem left_descends (n : ℕ) : Descends (Step room status) (fun s => Consistent script s ∧ Left n s) weight where
  keeps _ _ _ h hs := ⟨h.1.step hs, h.2.step hs⟩
  lowers _ e _ h hs := h.1.lowers hs (by rintro rfl; exact h.2.not_idle hs)

theorem Left.exited {n : ℕ} (h : Left n s) (hc : Consistent script s) {code : Option UInt8} (hp : s.point = .exited code) :
    n ≤ room := by
  obtain ⟨hgone, _⟩ := h.point.resolve_left (by simp [hp])
  have hlen := h.length
  rw [hc.said hgone, List.flatten_nil, List.length_nil, Nat.add_zero] at hlen
  exact hlen ▸ hc.room_le

theorem Left.deadlocked {n : ℕ} (h : Left n s) (hd : Deadlocked room s) : room < n := by
  obtain ⟨_, _, c, cs, hcs, hroom⟩ := hd
  have hlen := h.length
  rw [hcs, List.flatten_cons, List.length_append] at hlen
  omega

theorem tee_hangs {s₁ s₂ : Sys} {tr₁ : List Event} (h : Run (Step room status) (start script) tr s)
    (hs : Step room status s .refused s₁) (h₁ : Run (Step room status) s₁ tr₁ s₂) :
    tr₁.length ≤ 3 + s₁.held.length + 11 * s₁.unwritten.flatten.length + 10 * s₁.pipe.length ∧
      (∃ tr s', Run (Step room status) s₂ tr s' ∧ Stuck (Step room status) s') ∧
      (Stuck (Step room status) s₂ →
        ((∃ code, s₂.point = .exited code) ↔ s₁.pipe.length + s₁.unwritten.flatten.length ≤ room) ∧
        (Deadlocked room s₂ ↔ room < s₁.pipe.length + s₁.unwritten.flatten.length)) := by
  have hc := consistent_of_run (h.tail hs)
  have hpoint : s₁.point = .waiting := by
    cases hs with
    | refused => rfl
  have hleft : Left (s₁.pipe.length + s₁.unwritten.flatten.length) s₁ := ⟨rfl, .inl hpoint⟩
  have hlater := (left_descends _).kept ⟨hc, hleft⟩ h₁
  refine ⟨?_, (left_descends _).exists_stuck hlater, fun hstuck => ?_⟩
  · have hle := (left_descends _).length_le ⟨hc, hleft⟩ h₁
    have hlife : s₁.child.weight ≤ 1 := by cases s₁.child <;> decide
    rw [weight.eq_def s₁, hpoint, Point.weight] at hle
    omega
  have hblocked : Blocked room status s₂ := fun e s' hmove => absurd hmove.1 (hstuck e s')
  rcases hlater.1.blocked hblocked with ⟨code, hp⟩ | hd
  · have hle := hlater.2.exited hlater.1 hp
    exact ⟨⟨fun _ => hle, fun _ => ⟨code, hp⟩⟩, fun hd => hlater.2.deadlocked hd, fun hlt => absurd hlt (Nat.not_lt.mpr hle)⟩
  · have hlt := hlater.2.deadlocked hd
    refine ⟨⟨fun ⟨code, hp⟩ => ?_, fun hle => absurd hlt (Nat.not_lt.mpr hle)⟩, fun _ => hlt, fun _ => hd⟩
    exact Point.noConfusion (hd.1.symm.trans hp)

def hush : Script 1 := ⟨[[10], [104], [105]], by decide⟩

theorem tee_hangs_hush : ∃ tr s, Run (Step 1 (.code 0)) (start hush) tr s ∧ Deadlocked 1 s := by
  have hline : writeAll STDOUT_CAPACITY [] [10] = ([.direct [10]], []) := by decide
  have hwritten : Run (Step 1 (.code 0)) (start hush) _ ⟨.reading, [[104], [105]], .running, [10], [], [], []⟩ :=
    (Run.refl.tail (.spawned rfl)).tail (.childWrites rfl rfl (by decide))
  have hread := hwritten.tail (.read (c := [10]) rfl rfl (by simp) (by simp [BUF_LEN]))
  rw [hline] at hread
  have hput : (Put.direct [10]).bytes ≠ [] := by decide
  have hrefused : Step 1 (.code 0) ⟨.writingOut [10] [.direct [10]], [[104], [105]], .running, [], [], [], []⟩ .refused
      ⟨.waiting, [[104], [105]], .running, [], [], [], []⟩ := .refused rfl hput
  obtain ⟨-, ⟨tr, s, hrun, hstuck⟩, -⟩ := tee_hangs hread hrefused .refl
  exact ⟨_, s, run_append.mpr ⟨_, hread.tail hrefused, hrun⟩,
    ((tee_hangs hread hrefused hrun).2.2 hstuck).2.mpr (by decide)⟩

end Rustils.Coreutils.Rtee
