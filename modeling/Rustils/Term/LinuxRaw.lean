import Rustils.Term.Linux

namespace Rustils.Term.Linux

open Platform Lib.Program
open Lib (Bracket.Event Bracket.Handle Bracket.Entered Bracket.Opened Trace.Run)

abbrev Drifted : Tty → Tty → Prop := Relation.ReflTransGen Drift

def reading (a : Termios) : Transcript Answer :=
  [⟨.tcgetattr .stdin, .ok a⟩, ⟨.tcsetattr .stdin (cfmakeraw a), .ok ()⟩]

section Specs

variable {σ σ' : Tty} {a : Termios} {tr : Transcript Answer}

theorem runs_enterRaw_ok (h : Runs (enterRaw .stdin) tr (.ok a)) : tr = reading a := by
  obtain ⟨cur, tr₁, rfl, hcur⟩ := runs_op.mp h
  cases cur with
  | error code => cases (runs_ret.mp hcur).2
  | ok cur =>
    obtain ⟨w, tr₂, rfl, hw⟩ := runs_op.mp hcur
    cases w with
    | error code => cases (runs_ret.mp hw).2
    | ok u =>
      obtain ⟨rfl, ha⟩ := runs_ret.mp hw
      cases ha
      rfl

theorem runs_restore {r : Result Unit} (h : Runs (restore .stdin a) tr r) :
    ∃ w : Except Int32 Unit, tr = [⟨.tcsetattr .stdin a, w⟩] ∧ r.isOk = w.isOk := by
  obtain ⟨w, tr₁, rfl, hw⟩ := runs_op.mp h
  refine ⟨w, ?_⟩
  cases w with
  | error code =>
    obtain ⟨rfl, rfl⟩ := runs_ret.mp hw
    exact ⟨rfl, rfl⟩
  | ok u =>
    obtain ⟨rfl, rfl⟩ := runs_ret.mp hw
    exact ⟨rfl, rfl⟩

theorem follows_set {w : Except Int32 Unit} (h : Follows system σ [⟨.tcsetattr .stdin a, w⟩] σ') :
    w.isOk = true ∧ σ'.attrs .stdin = some a ∨ w.isOk = false ∧ Drifted σ σ' := by
  obtain ⟨σ₁, ⟨u, hu, he⟩, h⟩ := follows_cons.mp h
  obtain rfl := follows_nil.mp h
  cases w with
  | error code =>
    cases he
    exact .inr ⟨rfl, hu⟩
  | ok v =>
    obtain ⟨-, rfl⟩ := he
    exact .inl ⟨rfl, u.set_self ..⟩

end Specs

abbrev RawStep : Bracket.Handle Tty Termios → Bracket.Event (Σ o, Answer o) → Bracket.Handle Tty Termios → Prop :=
  Term.Step system (enterRaw .stdin) (restore .stdin) Drifted

/-- What a `leave_raw` does: it writes back what was read, where an `enter_raw` is open, and forgets it either way. -/
def Leaves (tr : List (Bracket.Event (Σ o, Answer o))) (log : Transcript Answer) (ok : Bool)
    (before t : Bracket.Handle Tty Termios) : Prop :=
  t.saved = none ∧ (¬Bracket.Entered tr ∧ log = [] ∧ ok = true ∧ t.state = before.state ∨
    ∃ (a : Termios) (w : Except Int32 Unit), Bracket.Opened tr (reading a) ∧ log = [⟨.tcsetattr .stdin a, w⟩] ∧ ok = w.isOk ∧
      (ok = true ∧ t.state.attrs .stdin = some a ∨ ok = false ∧ Drifted before.state t.state))

theorem leave_raw_restores (σ₀ : Tty) (tr : List (Bracket.Event (Σ o, Answer o))) (log : Transcript Answer) (ok : Bool)
    (t : Bracket.Handle Tty Termios) (h : Trace.Run RawStep ⟨σ₀, none⟩ (tr ++ [.leave log ok]) t) :
    ∃ before, Trace.Run RawStep ⟨σ₀, none⟩ tr before ∧ Leaves tr log ok before t := by
  obtain ⟨before, hrun, hsaved, hleft⟩ := Lib.Bracket.left_of_run (fun _ _ _ => step_device) h
  refine ⟨before, hrun, hsaved, hleft.imp id ?_⟩
  rintro ⟨a, log₀, σ, σ', hopened, ⟨r, henter, -, hr⟩, r', hrestore, hfollows, rfl⟩
  cases r with
  | error e => cases hr
  | ok a' =>
    cases hr
    obtain rfl := runs_enterRaw_ok henter
    obtain ⟨w, rfl, hok⟩ := runs_restore hrestore
    rw [hok]
    exact ⟨a, w, hopened, rfl, rfl, follows_set hfollows⟩

def cooked : Termios := ⟨ICRNL, OPOST, CS8, ICANON ||| ECHO, 1, 0⟩

def console : Tty := ⟨fun _ => some cooked⟩

theorem leave_raw_restores_cooked : ∃ before t,
    Leaves [.enter (reading cooked) true, .other] [⟨.tcsetattr .stdin cooked, .ok ()⟩] true before t := by
  let σ₁ := console.set .stdin (cfmakeraw cooked)
  let σ₂ := σ₁.set .stdin (cooked.setEcho false)
  have henter : RawStep ⟨console, none⟩ (.enter (reading cooked) true) ⟨σ₁, some cooked⟩ :=
    .enterRaw (r := .ok ()) (runs_op.mpr ⟨.ok cooked, _, rfl, runs_op.mpr ⟨.ok (), _, rfl, .ret _⟩⟩)
      (.cons ⟨_, .refl, rfl, rfl⟩ (.cons ⟨_, .refl, rfl, rfl⟩ (.nil _)))
  have hdrift : RawStep ⟨σ₁, some cooked⟩ .other ⟨σ₂, some cooked⟩ := .other (.single (.intro rfl _))
  have hleave : RawStep ⟨σ₂, some cooked⟩ (.leave [⟨.tcsetattr .stdin cooked, .ok ()⟩] true)
      ⟨σ₂.set .stdin cooked, none⟩ :=
    .leaveRaw (r := .ok ()) (runs_op.mpr ⟨.ok (), _, rfl, .ret _⟩) (.cons ⟨_, .refl, rfl, rfl⟩ (.nil _))
  obtain ⟨before, _, hleaves⟩ := leave_raw_restores console _ _ _ _ (.tail (.tail (.tail .refl henter) hdrift) hleave)
  exact ⟨before, _, hleaves⟩

theorem with_raw_restores {T : Type} (body : Option Termios → Prog Answer (Result T × Option Termios))
    (hbody : ∀ a tr r, Runs (body (some a)) tr r → r.2 = some a) (σ σ' : Tty) (tr : Transcript Answer)
    (r : Result T × Option Termios) (h : Runs (withRaw (enterRaw .stdin) (restore .stdin) body none) tr r)
    (hfollows : Follows system σ tr σ') :
    r.2 = none ∧ ((∃ e, Runs (enterRaw .stdin) tr (.error e) ∧ r.1 = .error e) ∨
      ∃ a inner out w, tr = reading a ++ (inner ++ [⟨.tcsetattr .stdin a, w⟩]) ∧ Runs (body (some a)) inner (out, some a) ∧
        (w.isOk = true → σ'.attrs .stdin = some a) ∧ ∀ v, r.1 = .ok v → out = .ok v ∧ w.isOk = true) := by
  obtain ⟨hsaved, he | ⟨a, entry, inner, exit, out, r', rfl, hentry, hinner, hexit, hr⟩⟩ := runs_withRaw hbody h
  · exact ⟨hsaved, .inl he⟩
  · obtain rfl := runs_enterRaw_ok hentry
    obtain ⟨w, rfl, hok⟩ := runs_restore hexit
    obtain ⟨_, -, hrest⟩ := follows_append.mp hfollows
    obtain ⟨_, -, hset⟩ := follows_append.mp hrest
    refine ⟨hsaved, .inr ⟨a, inner, out, w, rfl, hinner, fun hw => ?_, fun v hv => ?_⟩⟩
    · rcases follows_set hset with ⟨-, ha⟩ | ⟨hnot, -⟩
      · exact ha
      · cases hw.symm.trans hnot
    · obtain ⟨hout, rfl⟩ := hr v hv
      exact ⟨hout, hok.symm⟩

def probing (saved : Option Termios) : Prog Answer (Result Bool × Option Termios) := do
  let raw ← isRaw .stdin
  return (.ok raw, saved)

theorem probing_saved (a : Termios) (tr : Transcript Answer) (r : Result Bool × Option Termios)
    (h : Runs (probing (some a)) tr r) : r.2 = some a := by
  obtain ⟨_, _, raw, _, _, hr⟩ := runs_bind.mp h
  rw [(runs_ret.mp hr).2]

theorem with_raw_restores_probing : ∃ σ' tr v, Runs (withRaw (enterRaw .stdin) (restore .stdin) probing none) tr (.ok v, none) ∧
    Follows system console tr σ' ∧ ∃ a inner w, tr = reading a ++ (inner ++ [⟨.tcsetattr .stdin a, w⟩]) ∧
      σ'.attrs .stdin = some a := by
  let raw := cfmakeraw cooked
  let σ₁ := console.set .stdin raw
  let σ₂ := σ₁.set .stdin (raw.setEcho true)
  let tr : Transcript Answer :=
    [⟨.tcgetattr .stdin, .ok cooked⟩, ⟨.tcsetattr .stdin raw, .ok ()⟩, ⟨.tcgetattr .stdin, .ok raw⟩,
      ⟨.tcsetattr .stdin cooked, .ok ()⟩]
  have hruns : Runs (withRaw (enterRaw .stdin) (restore .stdin) probing none) tr (.ok raw.isRaw, none) :=
    runs_op.mpr ⟨.ok cooked, _, rfl, runs_op.mpr ⟨.ok (), _, rfl, runs_op.mpr ⟨.ok raw, _, rfl,
      runs_op.mpr ⟨.ok (), _, rfl, .ret _⟩⟩⟩⟩
  have hfollows : Follows system console tr (σ₂.set .stdin cooked) :=
    .cons ⟨_, .refl, rfl, rfl⟩ (.cons ⟨_, .refl, rfl, rfl⟩ (.cons ⟨σ₁, .refl, rfl, rfl⟩
      (.cons ⟨σ₂, .single (.intro rfl _), rfl, rfl⟩ (.nil _))))
  refine ⟨_, tr, _, hruns, hfollows, ?_⟩
  obtain ⟨-, ⟨e, -, he⟩ | ⟨a, inner, out, w, htr, -, hback, hr⟩⟩ :=
    with_raw_restores probing probing_saved console _ tr _ hruns hfollows
  · cases he
  · exact ⟨a, inner, w, htr, hback (hr _ rfl).2⟩

end Rustils.Term.Linux
