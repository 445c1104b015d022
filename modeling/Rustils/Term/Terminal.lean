import Rustils.Lib.Bracket
import Rustils.Lib.Transcript
import Rustils.Platform.Error

namespace Rustils.Term

open Platform Lib.Program
open Lib (Bracket.Device Bracket.Event Bracket.Handle Trace.Run)

inductive TermStream
  | stdin
  | stdout
  | stderr
  deriving DecidableEq

section Handle

variable {O : Type} {R : O → Type} {S A T : Type}

/-- `enter` is the recipe of the backend. -/
def enterRaw (enter : Prog R (Result A)) : Option A → Prog R (Result Unit × Option A)
  | some saved => .ret (.ok (), some saved)
  | none => do
    match ← enter with
    | .error e => return (.error e, none)
    | .ok saved => return (.ok (), some saved)

def leaveRaw (restore : A → Prog R (Result Unit)) : Option A → Prog R (Result Unit × Option A)
  | none => .ret (.ok (), none)
  | some saved => do
    let r ← restore saved
    return (r, none)

/-- The terminal is restored before the result of the body is looked at. -/
def withRaw (enter : Prog R (Result A)) (restore : A → Prog R (Result Unit))
    (body : Option A → Prog R (Result T × Option A)) (saved : Option A) : Prog R (Result T × Option A) := do
  match ← enterRaw enter saved with
  | (.error e, saved) => return (.error e, saved)
  | (.ok _, saved) =>
    let (out, saved) ← body saved
    let (restored, saved) ← leaveRaw restore saved
    match out, restored with
    | .error e, _ => return (.error e, saved)
    | .ok _, .error e => return (.error e, saved)
    | .ok val, .ok _ => return (.ok val, saved)

def device (env : Env S R) (enter : Prog R (Result A)) (restore : A → Prog R (Result Unit)) :
    Bracket.Device S A (Σ o, R o) where
  enter s log a s' := ∃ r, Runs enter log r ∧ Follows env s log s' ∧ r.toOption = a
  restore a s log ok s' := ∃ r, Runs (restore a) log r ∧ Follows env s log s' ∧ r.isOk = ok

inductive Step (env : Env S R) (enter : Prog R (Result A)) (restore : A → Prog R (Result Unit)) (move : S → S → Prop)
    (t : Bracket.Handle S A) : Bracket.Event (Σ o, R o) → Bracket.Handle S A → Prop
  | enterRaw {log : Transcript R} {r : Result Unit} {saved : Option A} {s : S}
    (h : Runs (Term.enterRaw enter t.saved) log (r, saved)) (hs : Follows env t.state log s) :
    Step env enter restore move t (.enter log r.isOk) ⟨s, saved⟩
  | leaveRaw {log : Transcript R} {r : Result Unit} {saved : Option A} {s : S}
    (h : Runs (Term.leaveRaw restore t.saved) log (r, saved)) (hs : Follows env t.state log s) :
    Step env enter restore move t (.leave log r.isOk) ⟨s, saved⟩
  | other {s : S} (h : move t.state s) : Step env enter restore move t .other ⟨s, t.saved⟩

variable {env : Env S R} {enter : Prog R (Result A)} {restore : A → Prog R (Result Unit)} {move : S → S → Prop}
  {t t' : Bracket.Handle S A} {e : Bracket.Event (Σ o, R o)} {log : Transcript R}

theorem runs_enterRaw {r : Result Unit} {saved : Option A} (h : Runs (enterRaw enter none) log (r, saved)) :
    ∃ r', Runs enter log r' ∧ r'.toOption = saved ∧ r.isOk = r'.isOk ∧ ∀ e, r = .error e → r' = .error e := by
  obtain ⟨tr, tr', r', rfl, henter, h⟩ := runs_bind.mp h
  cases r' with
  | error e =>
    obtain ⟨rfl, h⟩ := runs_ret.mp h
    cases h
    refine ⟨.error e, by rwa [List.append_nil], rfl, rfl, ?_⟩
    rintro _ ⟨⟩
    rfl
  | ok a =>
    obtain ⟨rfl, h⟩ := runs_ret.mp h
    cases h
    exact ⟨.ok a, by rwa [List.append_nil], rfl, rfl, nofun⟩

theorem runs_leaveRaw {r : Result Unit} {a : A} {saved : Option A} (h : Runs (leaveRaw restore (some a)) log (r, saved)) :
    saved = none ∧ Runs (restore a) log r := by
  obtain ⟨tr, tr', r', rfl, hrestore, h⟩ := runs_bind.mp h
  obtain ⟨rfl, h⟩ := runs_ret.mp h
  cases h
  exact ⟨rfl, by rwa [List.append_nil]⟩

theorem step_device (h : Step env enter restore move t e t') : (device env enter restore).Step move t e t' := by
  obtain ⟨s, saved⟩ := t
  cases h with
  | @enterRaw log r saved' s' h hs =>
    cases saved with
    | some a =>
      obtain ⟨rfl, h⟩ := runs_ret.mp h
      cases h
      obtain rfl := follows_nil.mp hs
      exact .again s' a
    | none =>
      obtain ⟨r', henter, rfl, hok, -⟩ := runs_enterRaw h
      rw [hok]
      cases r' with
      | error e => exact .refused ⟨_, henter, hs, rfl⟩
      | ok a => exact .entered ⟨_, henter, hs, rfl⟩
  | @leaveRaw log r saved' s' h hs =>
    cases saved with
    | none =>
      obtain ⟨rfl, h⟩ := runs_ret.mp h
      cases h
      obtain rfl := follows_nil.mp hs
      exact .idle s'
    | some a =>
      obtain ⟨rfl, hrestore⟩ := runs_leaveRaw h
      exact .left ⟨_, hrestore, hs, rfl⟩
  | other h => exact .other saved h

theorem runs_withRaw {body : Option A → Prog R (Result T × Option A)}
    (hbody : ∀ a log r, Runs (body (some a)) log r → r.2 = some a) {r : Result T × Option A}
    (h : Runs (withRaw enter restore body none) log r) :
    r.2 = none ∧ ((∃ e, Runs enter log (.error e) ∧ r.1 = .error e) ∨
      ∃ a entry inner exit out w, log = entry ++ (inner ++ exit) ∧ Runs enter entry (.ok a) ∧
        Runs (body (some a)) inner (out, some a) ∧ Runs (restore a) exit w ∧ ∀ v, r.1 = .ok v → out = .ok v ∧ w = .ok ()) := by
  obtain ⟨entry, rest, ⟨r₁, saved⟩, rfl, hentered, h⟩ := runs_bind.mp h
  obtain ⟨r', henter, rfl, hok, herr⟩ := runs_enterRaw hentered
  cases r₁ with
  | error e =>
    obtain rfl := herr e rfl
    obtain ⟨rfl, rfl⟩ := runs_ret.mp h
    exact ⟨rfl, .inl ⟨e, by rwa [List.append_nil], rfl⟩⟩
  | ok u =>
    cases r' with
    | error e => cases hok
    | ok a =>
      obtain ⟨inner, rest, ⟨out, saved⟩, rfl, hinner, h⟩ := runs_bind.mp h
      obtain rfl : saved = some a := hbody a _ _ hinner
      obtain ⟨exit, rest, ⟨w, saved⟩, rfl, hleft, h⟩ := runs_bind.mp h
      obtain ⟨rfl, hexit⟩ := runs_leaveRaw hleft
      rcases out with e | val
      · obtain ⟨rfl, rfl⟩ := runs_ret.mp h
        exact ⟨rfl, .inr ⟨a, entry, inner, exit, _, w, by rw [List.append_nil], henter, hinner, hexit, nofun⟩⟩
      · rcases w with e | ⟨⟩
        · obtain ⟨rfl, rfl⟩ := runs_ret.mp h
          exact ⟨rfl, .inr ⟨a, entry, inner, exit, _, _, by rw [List.append_nil], henter, hinner, hexit, nofun⟩⟩
        · obtain ⟨rfl, rfl⟩ := runs_ret.mp h
          refine ⟨rfl, .inr ⟨a, entry, inner, exit, _, _, by rw [List.append_nil], henter, hinner, hexit, ?_⟩⟩
          rintro v ⟨⟩
          exact ⟨rfl, rfl⟩

end Handle

end Rustils.Term
