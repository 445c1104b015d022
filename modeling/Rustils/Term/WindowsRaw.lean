import Rustils.Term.Windows

namespace Rustils.Term.Windows

open Platform Lib.Program
open Lib (Bracket.Event Bracket.Handle Bracket.Entered Bracket.Opened Trace.Run)

abbrev Ensures {α : Type} (Q : α → Kernel → Prop) (p : Prog Answer α) (k : Kernel) : Prop :=
  Safe windows (fun _ _ => True) Q p k

section Rules

variable {α β : Type} {Q : α → Kernel → Prop} {P : β → Kernel → Prop} {k : Kernel}

theorem ensures_attempt {p : Prog Answer (Result α)} {f : α → Prog Answer (Result β)} {P : Result β → Kernel → Prop}
    {Q : Result α → Kernel → Prop} (h : Ensures Q p k) (herr : ∀ e k', Q (.error e) k' → P (.error e) k')
    (hok : ∀ a k', Q (.ok a) k' → Ensures P (f a) k') : Ensures P (attempt p f) k := by
  refine Safe.bind h ?_
  rintro (e | a) k' hq
  · exact herr e k' hq
  · exact hok a k' hq

theorem ensures_getMode (h : Option Handle) (k : Kernel) : Ensures (fun r k' => k' = k ∧
    ∀ mode, r = .ok mode → ∃ b, k.buffer h = some b ∧ mode = k.modes b) (getMode h) k := by
  refine ⟨trivial, ?_⟩
  rintro (code | mode) k' he
  · exact ⟨he, fun _ hmode => nomatch hmode⟩
  · obtain ⟨hmode, rfl⟩ := he
    refine ⟨rfl, ?_⟩
    rintro _ ⟨⟩
    exact hmode

theorem ensures_setMode (h : Option Handle) (mode : UInt32) (k : Kernel) : Ensures (fun r k' =>
    (∃ e, r = .error e ∧ k' = k) ∨ r = .ok () ∧ ∃ b, k.buffer h = some b ∧ k' = k.setMode b mode) (setMode h mode) k := by
  refine ⟨trivial, ?_⟩
  rintro (code | ⟨⟩) k' he
  · exact .inl ⟨_, rfl, he⟩
  · exact .inr ⟨rfl, he⟩

end Rules

section Runs

variable {h : Option Handle} {mode : UInt32} {tr : Transcript Answer}

theorem runs_getMode {r : Result UInt32} (hr : Runs (getMode h) tr r) :
    ∃ w : Except UInt32 UInt32, tr = [⟨.getConsoleMode h, w⟩] ∧ r.toOption = w.toOption := by
  obtain ⟨w, tr₁, rfl, hw⟩ := runs_op.mp hr
  refine ⟨w, ?_⟩
  cases w with
  | error code =>
    obtain ⟨rfl, rfl⟩ := runs_ret.mp hw
    exact ⟨rfl, rfl⟩
  | ok mode =>
    obtain ⟨rfl, rfl⟩ := runs_ret.mp hw
    exact ⟨rfl, rfl⟩

theorem runs_setMode {r : Result Unit} (hr : Runs (setMode h mode) tr r) :
    ∃ w : Except UInt32 Unit, tr = [⟨.setConsoleMode h mode, w⟩] ∧ r.toOption = w.toOption := by
  obtain ⟨w, tr₁, rfl, hw⟩ := runs_op.mp hr
  refine ⟨w, ?_⟩
  cases w with
  | error code =>
    obtain ⟨rfl, rfl⟩ := runs_ret.mp hw
    exact ⟨rfl, rfl⟩
  | ok u =>
    obtain ⟨rfl, rfl⟩ := runs_ret.mp hw
    exact ⟨rfl, rfl⟩

theorem runs_attempt {α β : Type} {p : Prog Answer (Result α)} {f : α → Prog Answer (Result β)} {r : Result β}
    (hr : Runs (attempt p f) tr r) : (∃ e, Runs p tr (.error e) ∧ r = .error e) ∨
      ∃ a tr₁ tr₂, tr = tr₁ ++ tr₂ ∧ Runs p tr₁ (.ok a) ∧ Runs (f a) tr₂ r := by
  obtain ⟨tr₁, tr₂, a, rfl, hp, hf⟩ := runs_bind.mp hr
  cases a with
  | error e =>
    obtain ⟨rfl, rfl⟩ := runs_ret.mp hf
    exact .inl ⟨e, by rwa [List.append_nil], rfl⟩
  | ok a => exact .inr ⟨a, tr₁, tr₂, rfl, hp, hf⟩

theorem runs_isTty {s : TermStream} {b : Bool} (hr : Runs (isTty s) tr b) : ∀ h mode w, ⟨.setConsoleMode h mode, w⟩ ∉ tr := by
  obtain ⟨slot, tr₁, rfl, hs⟩ := runs_op.mp hr
  cases slot with
  | none =>
    obtain ⟨rfl, -⟩ := runs_ret.mp hs
    simp
  | some h =>
    obtain ⟨tr₂, tr₃, r, rfl, hget, hret⟩ := runs_bind.mp hs
    obtain ⟨w, rfl, -⟩ := runs_getMode hget
    obtain ⟨rfl, -⟩ := runs_ret.mp hret
    simp

end Runs

def ReadsScreen (log : Transcript Answer) : Option UInt32 → Prop
  | none => ∀ h mode, ⟨.setConsoleMode h mode, .ok ()⟩ ∉ log
  | some mode => ∃ probe hout, (∀ h mode w, ⟨.setConsoleMode h mode, w⟩ ∉ probe) ∧ log = probe ++
    [⟨.getStdHandle .stdout, hout⟩, ⟨.getConsoleMode hout, .ok mode⟩, ⟨.setConsoleMode hout (vtOutput mode), .ok ()⟩]

theorem runs_enterOutput {log : Transcript Answer} {output : Option UInt32} (h : Runs enterOutput log output) :
    ReadsScreen log output := by
  obtain ⟨probe, rest, tty, rfl, hprobe, htty⟩ := runs_bind.mp h
  have hnone := runs_isTty hprobe
  cases tty with
  | false =>
    obtain ⟨rfl, rfl⟩ := runs_ret.mp htty
    intro hout mode
    rw [List.append_nil]
    exact hnone hout mode _
  | true =>
    obtain ⟨hout, rest₁, rfl, hslot⟩ := runs_op.mp htty
    obtain ⟨get, rest₂, r, rfl, hget, hmode⟩ := runs_bind.mp hslot
    obtain ⟨w, rfl, hw⟩ := runs_getMode hget
    cases r with
    | error e =>
      obtain ⟨rfl, rfl⟩ := runs_ret.mp hmode
      intro hout' mode
      simp [hnone]
    | ok mode =>
      cases w with
      | error code => cases hw
      | ok mode' =>
        cases hw
        obtain ⟨set, rest₃, r, rfl, hset, hret⟩ := runs_bind.mp hmode
        obtain ⟨w', rfl, hw'⟩ := runs_setMode hset
        cases r with
        | error e =>
          obtain ⟨rfl, rfl⟩ := runs_ret.mp hret
          intro hout' mode'
          cases w' with
          | error code => simp [hnone]
          | ok u => cases hw'
        | ok u =>
          cases w' with
          | error code => cases hw'
          | ok u =>
            obtain ⟨rfl, rfl⟩ := runs_ret.mp hret
            exact ⟨probe, hout, hnone, rfl⟩

def Reads (log : Transcript Answer) (saved : SavedModes) : Prop :=
  ∃ hin screen, log = ⟨.getStdHandle .stdin, hin⟩ :: ⟨.getConsoleMode hin, .ok saved.input⟩ ::
    ⟨.setConsoleMode hin (rawInput saved.input), .ok ()⟩ :: screen ∧ ReadsScreen screen saved.output

theorem runs_enterRaw_ok {log : Transcript Answer} {saved : SavedModes} (h : Runs enterRaw log (.ok saved)) :
    Reads log saved := by
  obtain ⟨hin, rest, rfl, hslot⟩ := runs_op.mp h
  obtain ⟨e, -, he⟩ | ⟨mode, get, rest₁, rfl, hget, hmode⟩ := runs_attempt hslot
  · cases he
  obtain ⟨w, rfl, hw⟩ := runs_getMode hget
  obtain ⟨e, -, he⟩ | ⟨u, set, rest₂, rfl, hset, hraw⟩ := runs_attempt hmode
  · cases he
  obtain ⟨w', rfl, hw'⟩ := runs_setMode hset
  obtain ⟨screen, rest₃, output, rfl, hscreen, hret⟩ := runs_bind.mp hraw
  obtain ⟨rfl, heq⟩ := runs_ret.mp hret
  cases heq
  cases w with
  | error code => cases hw
  | ok mode' =>
    cases hw
    cases w' with
    | error code => cases hw'
    | ok u =>
      refine ⟨hin, screen, ?_, runs_enterOutput hscreen⟩
      rw [List.append_nil]
      rfl

/-- How the modes go back to the console that the standard handles stand for now: the input's first, and then the
screen's, whose refusal nobody hears of. -/
inductive Writes (saved : SavedModes) (k : Kernel) : Transcript Answer → Bool → Kernel → Prop
  | refused (code : UInt32) :
    Writes saved k [⟨.getStdHandle .stdin, k.slots .stdin⟩, ⟨.setConsoleMode (k.slots .stdin) saved.input, .error code⟩] false k
  | input {b : Buffer} (hin : k.buffer (k.slots .stdin) = some b) (hout : saved.output = none) :
    Writes saved k [⟨.getStdHandle .stdin, k.slots .stdin⟩, ⟨.setConsoleMode (k.slots .stdin) saved.input, .ok ()⟩] true
      (k.setMode b saved.input)
  | screen {b b' : Buffer} {mode : UInt32} (hin : k.buffer (k.slots .stdin) = some b) (hmode : saved.output = some mode)
    (hout : k.buffer (k.slots .stdout) = some b') :
    Writes saved k [⟨.getStdHandle .stdin, k.slots .stdin⟩, ⟨.setConsoleMode (k.slots .stdin) saved.input, .ok ()⟩,
      ⟨.getStdHandle .stdout, k.slots .stdout⟩, ⟨.setConsoleMode (k.slots .stdout) mode, .ok ()⟩] true
      ((k.setMode b saved.input).setMode b' mode)
  | unheard {b : Buffer} {mode : UInt32} (hin : k.buffer (k.slots .stdin) = some b) (hmode : saved.output = some mode)
    (code : UInt32) :
    Writes saved k [⟨.getStdHandle .stdin, k.slots .stdin⟩, ⟨.setConsoleMode (k.slots .stdin) saved.input, .ok ()⟩,
      ⟨.getStdHandle .stdout, k.slots .stdout⟩, ⟨.setConsoleMode (k.slots .stdout) mode, .error code⟩] true
      (k.setMode b saved.input)

theorem writes_restore {saved : SavedModes} {k k' : Kernel} {log : Transcript Answer} {r : Result Unit}
    (h : Runs (restore saved) log r) (hk : Follows windows k log k') : Writes saved k log r.isOk k' := by
  obtain ⟨hin, rest, rfl, hslot⟩ := runs_op.mp h
  obtain ⟨k₁, ⟨rfl, rfl⟩, hk₁⟩ := follows_cons.mp hk
  obtain ⟨e, hset, rfl⟩ | ⟨u, set, rest₁, rfl, hset, hinput⟩ := runs_attempt hslot
  · obtain ⟨w, rfl, hw⟩ := runs_setMode hset
    cases w with
    | ok u => cases hw
    | error code =>
      obtain ⟨k₂, rfl, hk₂⟩ := follows_cons.mp hk₁
      obtain rfl := follows_nil.mp hk₂
      exact .refused code
  obtain ⟨w, rfl, hw⟩ := runs_setMode hset
  cases w with
  | error code => cases hw
  | ok u =>
    obtain ⟨k₂, ⟨b, hb, rfl⟩, hk₂⟩ := follows_cons.mp hk₁
    split at hinput
    · next hmode =>
      obtain ⟨rfl, rfl⟩ := runs_ret.mp hinput
      obtain rfl := follows_nil.mp hk₂
      exact .input hb hmode
    · next mode hmode =>
      obtain ⟨hout, rest₂, rfl, hscreen⟩ := runs_op.mp hinput
      obtain ⟨k₃, ⟨rfl, rfl⟩, hk₃⟩ := follows_cons.mp hk₂
      obtain ⟨set', rest₃, r', rfl, hset', hret⟩ := runs_bind.mp hscreen
      obtain ⟨w, rfl, -⟩ := runs_setMode hset'
      obtain ⟨rfl, rfl⟩ := runs_ret.mp hret
      obtain ⟨k₄, he, hk₄⟩ := follows_cons.mp hk₃
      obtain rfl := follows_nil.mp hk₄
      cases w with
      | error code =>
        obtain rfl := he
        exact .unheard hb hmode code
      | ok u =>
        obtain ⟨b', hb', rfl⟩ := he
        exact .screen hb hmode hb'

abbrev RawStep (move : Kernel → Kernel → Prop) :
    Bracket.Handle Kernel SavedModes → Bracket.Event (Σ o, Answer o) → Bracket.Handle Kernel SavedModes → Prop :=
  Term.Step windows enterRaw restore move

def Leaves (tr : List (Bracket.Event (Σ o, Answer o))) (log : Transcript Answer) (ok : Bool)
    (before t : Bracket.Handle Kernel SavedModes) : Prop :=
  t.saved = none ∧ (¬Bracket.Entered tr ∧ log = [] ∧ ok = true ∧ t.state = before.state ∨
    ∃ entry saved, Bracket.Opened tr entry ∧ Reads entry saved ∧ Writes saved before.state log ok t.state)

theorem leave_raw_writes_back (move : Kernel → Kernel → Prop) (k₀ : Kernel) (tr : List (Bracket.Event (Σ o, Answer o)))
    (log : Transcript Answer) (ok : Bool) (t : Bracket.Handle Kernel SavedModes)
    (h : Trace.Run (RawStep move) ⟨k₀, none⟩ (tr ++ [.leave log ok]) t) :
    ∃ before, Trace.Run (RawStep move) ⟨k₀, none⟩ tr before ∧ Leaves tr log ok before t := by
  obtain ⟨before, hrun, hsaved, hleft⟩ := Lib.Bracket.left_of_run (fun _ _ _ => step_device) h
  refine ⟨before, hrun, hsaved, hleft.imp id ?_⟩
  rintro ⟨saved, entry, k, k', hopened, ⟨r, henter, -, hr⟩, r', hrestore, hfollows, rfl⟩
  cases r with
  | error e => cases hr
  | ok _ =>
    cases hr
    exact ⟨entry, saved, hopened, runs_enterRaw_ok henter, writes_restore hrestore hfollows⟩

theorem reaches_step {α : Type} {o : Call} {rest : Answer o → Prog Answer α} {k k' : Kernel} {d : Prog Answer α × Kernel}
    (r : Answer o) (he : windows k o r k') (h : Reaches windows (rest r, k') d) : Reaches windows (.op o rest, k) d :=
  .head (.op rest he) h

def conhost : Kernel where
  console := some ⟨0, .inherited⟩
  slots
    | .stdin => some 0
    | .stdout => some 1
    | .stderr => none
  opened h := if h = 0 then some (0, true) else if h = 1 then some (0, false) else none
  modes _ := 7

theorem leave_raw_writes_back_conhost : ∃ entry log before t, entry.length = 8 ∧ log.length = 4 ∧
    Leaves [.enter entry true] log true before t := by
  let k₁ := conhost.setMode (0, true) (rawInput 7)
  let k₂ := k₁.setMode (0, false) (vtOutput 7)
  let entry : Transcript Answer :=
    [⟨.getStdHandle .stdin, some 0⟩, ⟨.getConsoleMode (some 0), .ok 7⟩, ⟨.setConsoleMode (some 0) (rawInput 7), .ok ()⟩,
      ⟨.getStdHandle .stdout, some 1⟩, ⟨.getConsoleMode (some 1), .ok 7⟩, ⟨.getStdHandle .stdout, some 1⟩,
      ⟨.getConsoleMode (some 1), .ok 7⟩, ⟨.setConsoleMode (some 1) (vtOutput 7), .ok ()⟩]
  let log : Transcript Answer :=
    [⟨.getStdHandle .stdin, some 0⟩, ⟨.setConsoleMode (some 0) 7, .ok ()⟩, ⟨.getStdHandle .stdout, some 1⟩,
      ⟨.setConsoleMode (some 1) 7, .error 6⟩]
  have henter : RawStep Eq ⟨conhost, none⟩ (.enter entry true) ⟨k₂, some ⟨7, some 7⟩⟩ :=
    .enterRaw (r := .ok ())
      (runs_op.mpr ⟨some 0, _, rfl, runs_op.mpr ⟨.ok 7, _, rfl, runs_op.mpr ⟨.ok (), _, rfl, runs_op.mpr ⟨some 1, _, rfl,
        runs_op.mpr ⟨.ok 7, _, rfl, runs_op.mpr ⟨some 1, _, rfl, runs_op.mpr ⟨.ok 7, _, rfl, runs_op.mpr ⟨.ok (), _, rfl,
          .ret _⟩⟩⟩⟩⟩⟩⟩⟩)
      (.cons ⟨rfl, rfl⟩ (.cons ⟨⟨(0, true), rfl, rfl⟩, rfl⟩ (.cons ⟨(0, true), rfl, rfl⟩ (.cons ⟨rfl, rfl⟩
        (.cons ⟨⟨(0, false), rfl, rfl⟩, rfl⟩ (.cons ⟨rfl, rfl⟩ (.cons ⟨⟨(0, false), rfl, rfl⟩, rfl⟩
          (.cons ⟨(0, false), rfl, rfl⟩ (.nil _)))))))))
  have hleave : RawStep Eq ⟨k₂, some ⟨7, some 7⟩⟩ (.leave log true) ⟨k₂.setMode (0, true) 7, none⟩ :=
    .leaveRaw (r := .ok ())
      (runs_op.mpr ⟨some 0, _, rfl, runs_op.mpr ⟨.ok (), _, rfl, runs_op.mpr ⟨some 1, _, rfl, runs_op.mpr ⟨.error 6, _, rfl,
        .ret _⟩⟩⟩⟩)
      (.cons ⟨rfl, rfl⟩ (.cons ⟨(0, true), rfl, rfl⟩ (.cons ⟨rfl, rfl⟩ (.cons rfl (.nil _)))))
  obtain ⟨before, _, hleaves⟩ := leave_raw_writes_back Eq conhost [.enter entry true] log true _
    (.tail (.tail .refl henter) hleave)
  exact ⟨entry, log, before, _, rfl, rfl, hleaves⟩

end Rustils.Term.Windows
