import Rustils.Lib.Trace
import Rustils.Mock.Pty
import Rustils.Term.LinuxRaw

namespace Rustils.Term

open Platform
open Mock.Pty (WinSize)

structure MockTerminal where
  stdinTty : Bool
  stdoutTty : Bool
  stderrTty : Bool
  size : Option WinSize
  raw : Bool
  rawTransitions : UInt32
  echo : Bool
  pending : List UInt8

def notATty (op : String) : PlatformError := .new .other .none op

namespace MockTerminal

def interactive (rows cols : UInt16) : MockTerminal := ⟨true, true, true, some ⟨rows, cols⟩, false, 0, true, []⟩

def enterRaw (self : MockTerminal) : Result Unit × MockTerminal :=
  if !self.stdinTty then (.error (notATty "enter_raw"), self)
  else if !self.raw then (.ok (), { self with raw := true, rawTransitions := self.rawTransitions + 1 })
  else (.ok (), self)

def leaveRaw (self : MockTerminal) : Result Unit × MockTerminal := (.ok (), { self with raw := false })

def setEcho (self : MockTerminal) (on : Bool) : Result Bool × MockTerminal :=
  if !self.stdinTty then (.error (notATty "set_echo"), self)
  else (.ok self.echo, { self with echo := on })

end MockTerminal

inductive TermCall
  | enterRaw
  | leaveRaw
  | isRaw
  | setEcho (on : Bool)

abbrev Reply := Option Bool

def MockTerminal.call (self : MockTerminal) : TermCall → Result Reply × MockTerminal
  | .enterRaw => (self.enterRaw.1.map fun _ => none, self.enterRaw.2)
  | .leaveRaw => (self.leaveRaw.1.map fun _ => none, self.leaveRaw.2)
  | .isRaw => (.ok (some self.raw), self)
  | .setEcho on => ((self.setEcho on).1.map some, (self.setEcho on).2)

namespace MockTerminal

def after (self : MockTerminal) (cs : List TermCall) : MockTerminal := cs.foldl (fun m c => (m.call c).2) self

def replies (self : MockTerminal) : List TermCall → List (Result Reply)
  | [] => []
  | c :: cs => (self.call c).1 :: (self.call c).2.replies cs

@[simp] theorem after_concat (self : MockTerminal) (cs : List TermCall) (c : TermCall) :
    self.after (cs ++ [c]) = ((self.after cs).call c).2 := List.foldl_concat ..

@[simp] theorem replies_concat (self : MockTerminal) (cs : List TermCall) (c : TermCall) :
    self.replies (cs ++ [c]) = self.replies cs ++ [((self.after cs).call c).1] := by
  induction cs generalizing self with
  | nil => rfl
  | cons c' cs ih => exact congrArg _ (ih _)

def EchoCooked (self : MockTerminal) (cs : List TermCall) : Prop :=
  ∀ cs₁ cs₂ on, cs = cs₁ ++ .setEcho on :: cs₂ → (self.after cs₁).raw = false

theorem EchoCooked.of_concat {self : MockTerminal} {cs : List TermCall} {c : TermCall}
    (h : self.EchoCooked (cs ++ [c])) : self.EchoCooked cs ∧ ∀ on, c = .setEcho on → (self.after cs).raw = false := by
  constructor
  · rintro cs₁ cs₂ on rfl
    exact h cs₁ (cs₂ ++ [c]) on (by simp)
  · rintro on rfl
    exact h cs [] on rfl

end MockTerminal

namespace Linux

open Lib.Program Lib.Trace

theorem and_not_and (x : UInt32) {m n : UInt32} (h : ~~~m &&& n = 0) : x &&& ~~~m &&& n = 0 := by
  rw [UInt32.and_assoc, h, UInt32.and_zero]

theorem and_not_and_of_eq (x : UInt32) {m n : UInt32} (h : ~~~m &&& n = n) : x &&& ~~~m &&& n = x &&& n := by
  rw [UInt32.and_assoc, h]

theorem or_and (x m n : UInt32) : (x ||| m) &&& n = (x &&& n) ||| (m &&& n) :=
  UInt32.toBitVec_inj.mp (by ext i; simp [Bool.and_or_distrib_right])

theorem or_ne_zero (x : UInt32) {m : UInt32} (h : m ≠ 0) : x ||| m ≠ 0 := by
  rw [Ne, UInt32.or_eq_zero_iff, not_and]
  exact fun _ => h

@[simp] theorem cfmakeraw_isRaw (t : Termios) : (cfmakeraw t).isRaw = true := by
  rw [Termios.isRaw, decide_eq_true_eq]
  exact and_not_and t.lflag (by decide)

@[simp] theorem cfmakeraw_echo (t : Termios) : (cfmakeraw t).echo = false := by
  rw [Termios.echo, decide_eq_false_iff_not, not_not]
  exact and_not_and t.lflag (by decide)

@[simp] theorem setEcho_echo (t : Termios) (on : Bool) : (t.setEcho on).echo = on := by
  cases on with
  | false =>
    rw [Termios.echo, decide_eq_false_iff_not, not_not]
    exact and_not_and t.lflag (by decide)
  | true =>
    rw [Termios.echo, decide_eq_true_eq]
    exact (or_and t.lflag ECHO ECHO).trans_ne (or_ne_zero _ (by decide))

def Termios.Cooked (t : Termios) : Prop := t.lflag &&& ICANON ≠ 0

theorem Termios.Cooked.setEcho {t : Termios} (h : t.Cooked) (on : Bool) : (t.setEcho on).Cooked := by
  have hsame : (t.setEcho on).lflag &&& ICANON = t.lflag &&& ICANON := by
    cases on with
    | false => exact and_not_and_of_eq t.lflag (by decide)
    | true => exact (or_and t.lflag ECHO ICANON).trans (UInt32.or_zero)
  rwa [Termios.Cooked, hsame]

theorem Termios.Cooked.not_raw {t : Termios} (h : t.Cooked) : t.isRaw = false := by
  rw [Termios.isRaw, decide_eq_false_iff_not]
  intro hraw
  apply h
  calc t.lflag &&& ICANON = t.lflag &&& ((ICANON ||| ECHO) &&& ICANON) := congrArg _ (by decide)
    _ = t.lflag &&& (ICANON ||| ECHO) &&& ICANON := (UInt32.and_assoc ..).symm
    _ = 0 := by rw [hraw, UInt32.zero_and]

def call (saved : Option Termios) : TermCall → Prog Answer (Result Reply × Option Termios)
  | .enterRaw => do
    let (r, saved) ← LinuxTerminal.enterRaw saved
    return (r.map fun _ => none, saved)
  | .leaveRaw => do
    let (r, saved) ← LinuxTerminal.leaveRaw saved
    return (r.map fun _ => none, saved)
  | .isRaw => do
    let raw ← isRaw .stdin
    return (.ok (some raw), saved)
  | .setEcho on => do
    let r ← setEcho .stdin on
    return (r.map some, saved)

def Works : (o : Call) → Answer o → Prop
  | .tcgetattr _, r => r.isOk
  | .tcsetattr _ _, r => r.isOk

def working : Env Tty Answer := fun σ o r σ' => tty σ o r σ' ∧ Works o r

inductive CallStep : Tty × Option Termios → TermCall × Result Reply → Tty × Option Termios → Prop
  | intro {σ σ' : Tty} {saved saved' : Option Termios} {c : TermCall} {r : Result Reply}
    (h : Reaches working (call saved c, σ) (.ret (r, saved'), σ')) : CallStep (σ, saved) (c, r) (σ', saved')

/-- What the mock stands for. -/
structure Like (m : MockTerminal) (σ : Tty) (saved : Option Termios) : Prop where
  tty : m.stdinTty = true
  attrs : m.raw = false ∧ saved = none ∧ (∃ t, σ.attrs .stdin = some t ∧ t.Cooked ∧ t.echo = m.echo) ∨
    m.raw = true ∧ ∃ t, saved = some t ∧ σ.attrs .stdin = some (cfmakeraw t) ∧ t.Cooked ∧ t.echo = m.echo

section Specs

variable {σ : Tty} {t : Termios} {α : Type} {Q : α → Tty → Prop}

abbrev Yields (Q : α → Tty → Prop) (p : Prog Answer α) (σ : Tty) : Prop := Safe working (fun _ _ => True) Q p σ

theorem yields_get {rest : Except Int32 Termios → Prog Answer α} (h : σ.attrs .stdin = some t)
    (hrest : Yields Q (rest (.ok t)) σ) : Yields Q (.op (.tcgetattr .stdin) rest) σ := by
  refine ⟨trivial, ?_⟩
  rintro (code | cur) σ' ⟨he, hworks⟩
  · cases hworks
  · obtain ⟨hcur, rfl⟩ := he
    cases h.symm.trans hcur
    exact hrest

theorem yields_set {rest : Except Int32 Unit → Prog Answer α} {t : Termios}
    (hrest : Yields Q (rest (.ok ())) (σ.set .stdin t)) : Yields Q (.op (.tcsetattr .stdin t) rest) σ := by
  refine ⟨trivial, ?_⟩
  rintro (code | ⟨⟩) σ' ⟨he, hworks⟩
  · cases hworks
  · obtain ⟨_, rfl⟩ := he
    exact hrest

end Specs

theorem Like.call {m : MockTerminal} {σ : Tty} {saved : Option Termios} (h : Like m σ saved) (c : TermCall)
    (hc : ∀ on, c = .setEcho on → m.raw = false) :
    Yields (fun r σ' => r.1 = (m.call c).1 ∧ Like (m.call c).2 σ' r.2) (call saved c) σ := by
  obtain ⟨htty, ⟨hraw, rfl, t, hσ, hcooked, hecho⟩ | ⟨hraw, t, rfl, hσ, hcooked, hecho⟩⟩ := h
  · cases c with
    | enterRaw =>
      refine yields_get hσ (yields_set ⟨by simp [MockTerminal.call, MockTerminal.enterRaw, htty, hraw, Except.map], ?_⟩)
      refine ⟨by simp [MockTerminal.call, MockTerminal.enterRaw, htty, hraw], .inr ⟨?_, t, rfl, by simp, hcooked, ?_⟩⟩
      · simp [MockTerminal.call, MockTerminal.enterRaw, htty, hraw]
      · simp [MockTerminal.call, MockTerminal.enterRaw, htty, hraw, hecho]
    | leaveRaw => exact ⟨rfl, htty, .inl ⟨rfl, rfl, t, hσ, hcooked, hecho⟩⟩
    | isRaw =>
      refine yields_get hσ ⟨by simp [MockTerminal.call, hraw, hcooked.not_raw], htty, ?_⟩
      exact .inl ⟨hraw, rfl, t, hσ, hcooked, hecho⟩
    | setEcho on =>
      refine yields_get hσ (yields_set ⟨by simp [MockTerminal.call, MockTerminal.setEcho, htty, hecho, Except.map], ?_⟩)
      refine ⟨by simp [MockTerminal.call, MockTerminal.setEcho, htty], .inl ⟨?_, rfl, _, Tty.set_self .., hcooked.setEcho on, ?_⟩⟩
      · simp [MockTerminal.call, MockTerminal.setEcho, htty, hraw]
      · simp [MockTerminal.call, MockTerminal.setEcho, htty]
  · cases c with
    | enterRaw =>
      refine ⟨by simp [MockTerminal.call, MockTerminal.enterRaw, htty, hraw, Except.map], ?_⟩
      refine ⟨by simp [MockTerminal.call, MockTerminal.enterRaw, htty, hraw], .inr ⟨?_, t, rfl, hσ, hcooked, ?_⟩⟩
      · simp [MockTerminal.call, MockTerminal.enterRaw, htty, hraw]
      · simp [MockTerminal.call, MockTerminal.enterRaw, htty, hraw, hecho]
    | leaveRaw =>
      exact yields_set ⟨rfl, htty, .inl ⟨rfl, rfl, t, by simp, hcooked, hecho⟩⟩
    | isRaw =>
      exact yields_get hσ ⟨by simp [MockTerminal.call, hraw], htty, .inr ⟨hraw, t, rfl, hσ, hcooked, hecho⟩⟩
    | setEcho on => exact absurd (hc on rfl) (by simp [hraw])

theorem like_of_run {m : MockTerminal} {σ σ' : Tty} {saved saved' : Option Termios}
    {tr : List (TermCall × Result Reply)} (hm : Like m σ saved) (h : Run CallStep (σ, saved) tr (σ', saved'))
    (htr : m.EchoCooked (tr.map Prod.fst)) :
    tr.map Prod.snd = m.replies (tr.map Prod.fst) ∧ Like (m.after (tr.map Prod.fst)) σ' saved' := by
  generalize hs : (σ', saved') = s at h
  induction h generalizing σ' saved' with
  | refl =>
    cases hs
    exact ⟨rfl, hm⟩
  | @tail tr s s' e _ hstep ih =>
    obtain ⟨σ₁, saved₁⟩ := s
    rw [List.map_append] at htr
    obtain ⟨htr, hlast⟩ := htr.of_concat
    obtain ⟨hreplies, hlike⟩ := ih htr rfl
    cases hs
    obtain ⟨hcall⟩ := hstep
    obtain ⟨hr, hlike'⟩ := (hlike.call _ hlast).reaches hcall
    simp only [List.map_append, List.map_cons, List.map_nil, MockTerminal.replies_concat, MockTerminal.after_concat]
    exact ⟨by rw [hreplies, ← hr], hlike'⟩

theorem mock_answers_alike {m : MockTerminal} {σ : Tty} {tr : List (TermCall × Result Reply)} {s : Tty × Option Termios}
    (hm : Like m σ none) (h : Run CallStep (σ, none) tr s) (htr : m.EchoCooked (tr.map Prod.fst)) :
    tr.map Prod.snd = m.replies (tr.map Prod.fst) ∧
      ((m.after (tr.map Prod.fst)).raw = true → ∀ on r s', CallStep s (.setEcho on, r) s' →
        (r = ((m.after (tr.map Prod.fst)).call (.setEcho on)).1 ↔ (m.after (tr.map Prod.fst)).echo = false)) := by
  obtain ⟨σ', saved'⟩ := s
  obtain ⟨hreplies, hlike⟩ := like_of_run hm h htr
  refine ⟨hreplies, fun hraw on r s' hstep => ?_⟩
  obtain ⟨htty, ⟨hnot, _⟩ | ⟨_, t, rfl, hσ, _, _⟩⟩ := hlike
  · cases hnot.symm.trans hraw
  · obtain ⟨hcall⟩ := hstep
    have hoff : Yields (fun r _ => r.1 = .ok (some false)) (call (some t) (.setEcho on)) σ' :=
      yields_get hσ (yields_set (congrArg (fun b => Except.ok (some b)) (cfmakeraw_echo t)))
    have hr : r = .ok (some false) := hoff.reaches hcall
    have hmock : ((m.after (tr.map Prod.fst)).call (.setEcho on)).1 = .ok (some (m.after (tr.map Prod.fst)).echo) := by
      simp [MockTerminal.call, MockTerminal.setEcho, htty, Except.map]
    rw [hr, hmock, Except.ok.injEq, Option.some.injEq]
    exact eq_comm

theorem reaches_working {α : Type} {o : Call} {rest : Answer o → Prog Answer α} {σ σ' : Tty} {d : Prog Answer α × Tty}
    (r : Answer o) (he : tty σ o r σ') (hr : Works o r) (h : Reaches working (rest r, σ') d) :
    Reaches working (.op o rest, σ) d :=
  .head (.op rest ⟨he, hr⟩) h

theorem mock_answers_alike_typing : ∃ tr s, Run CallStep (console, none) tr s ∧
    tr.map Prod.fst = [.setEcho false, .enterRaw] ∧
    tr.map Prod.snd = (MockTerminal.interactive 24 80).replies (tr.map Prod.fst) := by
  let quiet := cooked.setEcho false
  let σ := console.set .stdin quiet
  have hecho : CallStep (console, none) (.setEcho false, .ok (some true)) (σ, none) :=
    ⟨reaches_working (.ok cooked) ⟨rfl, rfl⟩ rfl (reaches_working (.ok ()) ⟨rfl, rfl⟩ rfl .refl)⟩
  have henter : CallStep (σ, none) (.enterRaw, .ok none) (σ.set .stdin (cfmakeraw quiet), some quiet) :=
    ⟨reaches_working (.ok quiet) ⟨rfl, rfl⟩ rfl (reaches_working (.ok ()) ⟨rfl, rfl⟩ rfl .refl)⟩
  have hrun := Run.tail (.tail .refl hecho) henter
  refine ⟨_, _, hrun, rfl, (mock_answers_alike ?_ hrun ?_).1⟩
  · exact ⟨rfl, .inl ⟨rfl, rfl, cooked, rfl, by unfold Termios.Cooked; decide, rfl⟩⟩
  · rintro cs₁ cs₂ on h
    cases cs₁ with
    | nil => rfl
    | cons c cs₁ =>
      obtain ⟨-, h⟩ := List.cons.inj h
      cases cs₁ with
      | nil => cases h
      | cons c cs₁ => cases cs₁ <;> cases h

end Linux

end Rustils.Term
