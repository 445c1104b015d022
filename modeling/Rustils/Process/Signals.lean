import Mathlib.Data.Nat.Notation
import Mathlib.Logic.Function.Basic
import Mathlib.Tactic.SplitIfs
import Rustils.Lib.Trace

namespace Rustils.Process.Signals

open Lib.Trace

inductive SignalEvent
  | interrupt
  | terminate
  | hangup
  deriving DecidableEq

/-- A backend: the slots there are and the one each source takes from, what the system delivers, what the handler stores
of it, what `take` makes of the slot it has emptied, and the registrations that `install` asks for one after the other. -/
structure Backend where
  Slot : Type
  slotOf : ℕ → Slot
  Raw : Type
  Hook : Type
  store : Raw → Option UInt32
  load : UInt32 → Option SignalEvent
  calls : List SignalEvent → List Hook
  hooks : Hook → Raw → Bool
  preset : Raw → Bool

namespace Linux

def SIGHUP : Int32 := 1
def SIGINT : Int32 := 2
def SIGTERM : Int32 := 15

def signumOf : SignalEvent → Int32
  | .interrupt => SIGINT
  | .terminate => SIGTERM
  | .hangup => SIGHUP

def eventOf (signum : Int32) : Option SignalEvent :=
  if signum = SIGINT then some .interrupt
  else if signum = SIGTERM then some .terminate
  else if signum = SIGHUP then some .hangup
  else none

def take (pending : UInt32) : Option Int32 := if pending = 0 then none else some pending.toInt32

abbrev source : Backend where
  Slot := Unit
  slotOf _ := ()
  Raw := Int32
  Hook := Int32
  store signum := some signum.toUInt32
  load pending := (take pending).bind eventOf
  calls events := events.map signumOf
  hooks signum signum' := signum = signum'
  preset _ := false

end Linux

namespace Windows

def CTRL_C_EVENT : UInt32 := 0
def CTRL_BREAK_EVENT : UInt32 := 1
def CTRL_CLOSE_EVENT : UInt32 := 2

def eventOf (ctrl : UInt32) : Option SignalEvent :=
  if ctrl = CTRL_C_EVENT then some .interrupt
  else if ctrl = CTRL_BREAK_EVENT then some .terminate
  else if ctrl = CTRL_CLOSE_EVENT then some .hangup
  else none

def NONE : UInt32 := 0

def record (ctrl : UInt32) : Option UInt32 :=
  if ctrl = CTRL_C_EVENT ∨ ctrl = CTRL_BREAK_EVENT ∨ ctrl = CTRL_CLOSE_EVENT then some (ctrl + 1) else none

def take (stored : UInt32) : Option UInt32 := if stored = NONE then none else some (stored - 1)

abbrev source : Backend where
  Slot := Unit
  slotOf _ := ()
  Raw := UInt32
  Hook := Unit
  store := record
  load stored := (take stored).bind eventOf
  calls _ := [()]
  hooks _ _ := true
  preset _ := false

end Windows

namespace Mock

def codeOf : SignalEvent → UInt32
  | .interrupt => 1
  | .terminate => 2
  | .hangup => 3

def eventOf (code : UInt32) : Option SignalEvent :=
  if code = 1 then some .interrupt
  else if code = 2 then some .terminate
  else if code = 3 then some .hangup
  else none

/-- Each source has a slot of its own. -/
abbrev source : Backend where
  Slot := ℕ
  slotOf i := i
  Raw := SignalEvent
  Hook := Empty
  store event := some (codeOf event)
  load := eventOf
  calls _ := []
  hooks _ _ := true
  preset _ := true

end Mock

section Runs

variable (B : Backend)

structure Receiver where
  hooked : B.Raw → Bool
  slots : B.Slot → UInt32

def Receiver.new : Receiver B := ⟨B.preset, fun _ => 0⟩

inductive Event
  | hook (h : B.Hook) (ok : Bool)
  | recorded (k : B.Slot) (raw : B.Raw)
  | unhandled (raw : B.Raw)
  | take (i : ℕ) (r : Option SignalEvent)

/-- What is not recorded is left to the system, which may end the process. -/
inductive Step [DecidableEq B.Slot] (p : Receiver B) : Event B → Receiver B → Prop
  | hooked (h : B.Hook) : Step p (.hook h true) { p with hooked := fun raw => p.hooked raw || B.hooks h raw }
  | refused (h : B.Hook) : Step p (.hook h false) p
  | recorded {k : B.Slot} {raw : B.Raw} {v : UInt32} (hhooked : p.hooked raw = true) (hv : B.store raw = some v) :
    Step p (.recorded k raw) { p with slots := Function.update p.slots k v }
  | unhandled {raw : B.Raw} (h : p.hooked raw = true → B.store raw = none) : Step p (.unhandled raw) p
  | take (i : ℕ) : Step p (.take i (B.load (p.slots (B.slotOf i)))) { p with slots := Function.update p.slots (B.slotOf i) 0 }

variable {B}

def Backend.event (B : Backend) (raw : B.Raw) : Option SignalEvent := (B.store raw).bind B.load

def Event.Quiet (k : B.Slot) : Event B → Prop
  | .recorded k' _ => k' ≠ k
  | .take i _ => B.slotOf i ≠ k
  | _ => True

def Latest (tr : List (Event B)) (k : B.Slot) (e : SignalEvent) : Prop :=
  ∃ tr₁ raw tr₂, tr = tr₁ ++ .recorded k raw :: tr₂ ∧ B.event raw = some e ∧ ∀ x ∈ tr₂, x.Quiet k

theorem latest_concat {tr : List (Event B)} {x : Event B} {k : B.Slot} {e : SignalEvent} :
    Latest (tr ++ [x]) k e ↔ (∃ raw, x = .recorded k raw ∧ B.event raw = some e) ∨ x.Quiet k ∧ Latest tr k e := by
  constructor
  · rintro ⟨tr₁, raw, tr₂, heq, hraw, hquiet⟩
    rcases List.eq_nil_or_concat tr₂ with rfl | ⟨tr₂, y, rfl⟩
    · exact .inl ⟨raw, List.singleton_inj.mp (List.append_inj' heq rfl).2, hraw⟩
    · rw [List.concat_eq_append, ← List.cons_append, ← List.append_assoc] at heq
      obtain ⟨rfl, hx⟩ := List.append_inj' heq rfl
      cases hx
      exact .inr ⟨hquiet x (by simp), tr₁, raw, tr₂, rfl, hraw, fun y hy => hquiet y (by simp [hy])⟩
  · rintro (⟨raw, rfl, hraw⟩ | ⟨hx, tr₁, raw, tr₂, rfl, hraw, hquiet⟩)
    · exact ⟨tr, raw, [], rfl, hraw, by simp⟩
    · refine ⟨tr₁, raw, tr₂ ++ [x], by simp, hraw, fun y hy => ?_⟩
      rcases List.mem_append.mp hy with hy | hy
      · exact hquiet y hy
      · rwa [List.mem_singleton.mp hy]

/-- An empty slot says nothing, and what `install` has asked for is stored as the event it is. -/
structure Backend.Lawful (B : Backend) : Prop where
  empty : B.load 0 = none
  hooked : ∀ events e raw, e ∈ events → B.event raw = some e →
    B.preset raw = true ∨ ∃ h ∈ B.calls events, B.hooks h raw = true

def Installed (events : List SignalEvent) (tr : List (Event B)) : Prop := ∀ h ∈ B.calls events, .hook h true ∈ tr

variable {p p' : Receiver B} {tr : List (Event B)}

theorem load_slot [DecidableEq B.Slot] (hB : B.Lawful) (h : Run (Step B) (.new B) tr p) (k : B.Slot) (e : SignalEvent) :
    B.load (p.slots k) = some e ↔ Latest tr k e := by
  induction h with
  | refl =>
    have hempty : B.load ((Receiver.new B).slots k) = none := hB.empty
    rw [hempty]
    constructor
    · rintro ⟨⟩
    · rintro ⟨tr₁, raw, tr₂, heq, _⟩
      simp at heq
  | tail _ hs ih =>
    rw [latest_concat]
    cases hs with
    | hooked | refused | unhandled => simpa [Event.Quiet] using ih
    | @recorded k' raw v _ hv =>
      by_cases hk : k' = k
      · simp [hk, Event.Quiet, Backend.event, hv]
      · simpa [hk, Ne.symm hk, Event.Quiet, Function.update] using ih
    | take i =>
      by_cases hk : B.slotOf i = k
      · simp [hk, Event.Quiet, hB.empty]
      · simpa [hk, Ne.symm hk, Event.Quiet, Function.update] using ih

theorem hooked_of_run [DecidableEq B.Slot] (h : Run (Step B) (.new B) tr p) (raw : B.Raw)
    (hraw : B.preset raw = true ∨ ∃ h, .hook h true ∈ tr ∧ B.hooks h raw = true) : p.hooked raw = true := by
  induction h with
  | refl => exact hraw.resolve_right (by simp)
  | @tail tr p p' x _ hs ih =>
    simp only [List.mem_append, List.mem_singleton] at hraw
    cases hs with
    | hooked h =>
      have hold : p.hooked raw = true ∨ B.hooks h raw = true := by
        rcases hraw with hraw | ⟨h', hmem | heq, hraw⟩
        · exact .inl (ih (.inl hraw))
        · exact .inl (ih (.inr ⟨h', hmem, hraw⟩))
        · cases heq
          exact .inr hraw
      simpa using hold
    | refused | recorded | unhandled | take => exact ih (by simpa using hraw)

theorem linux_lawful : Linux.source.Lawful where
  empty := rfl
  hooked events e raw he hraw := by
    refine .inr ⟨Linux.signumOf e, List.mem_map_of_mem he, ?_⟩
    obtain ⟨v, hv, hload⟩ := Option.bind_eq_some_iff.mp hraw
    cases hv
    obtain ⟨signum, hsignum, hevent⟩ := Option.bind_eq_some_iff.mp hload
    unfold Linux.take at hsignum
    split_ifs at hsignum
    cases hsignum
    rw [Int32.toInt32_toUInt32] at hevent
    have hsame : Linux.signumOf e = raw := by
      unfold Linux.eventOf at hevent
      split_ifs at hevent with h h h <;> cases hevent <;> exact h.symm
    simp [hsame]

theorem windows_lawful : Windows.source.Lawful where
  empty := rfl
  hooked _ _ _ _ _ := .inr ⟨(), .head _, rfl⟩

theorem mock_lawful : Mock.source.Lawful where
  empty := rfl
  hooked _ _ _ _ _ := .inl rfl

theorem takes_latest {B : Backend} [DecidableEq B.Slot]
    (hB : B = Linux.source ∨ B = Windows.source ∨ B = Mock.source) {tr : List (Event B)} {p : Receiver B}
    (h : Run (Step B) (.new B) tr p) :
    (∀ tr₁ i r tr₂, tr = tr₁ ++ .take i r :: tr₂ → ∀ e, r = some e ↔ Latest tr₁ (B.slotOf i) e) ∧
      ∀ tr₁ raw tr₂ e events, tr = tr₁ ++ .unhandled raw :: tr₂ → B.event raw = some e → e ∈ events →
        ¬Installed events tr₁ := by
  have hlawful : B.Lawful := by
    rcases hB with rfl | rfl | rfl
    · exact linux_lawful
    · exact windows_lawful
    · exact mock_lawful
  constructor
  · rintro tr₁ i r tr₂ rfl e
    obtain ⟨p₁, p₂, h₁, hs, _⟩ := run_mid.mp h
    cases hs
    exact load_slot hlawful h₁ _ e
  · rintro tr₁ raw tr₂ e events rfl hraw he hinstalled
    obtain ⟨p₁, p₂, h₁, hs, _⟩ := run_mid.mp h
    cases hs with
    | unhandled hunhandled =>
      have hhooked : p₁.hooked raw = true := hooked_of_run h₁ raw <|
        (hlawful.hooked events e raw he hraw).imp id fun ⟨hook, hmem, hooks⟩ => ⟨hook, hinstalled hook hmem, hooks⟩
      rw [Backend.event, hunhandled hhooked] at hraw
      cases hraw

theorem takes_latest_burst :
    (∃ p, Run (Step Linux.source) (.new Linux.source)
      [.hook 2 true, .hook 15 true, .recorded () 2, .recorded () 15, .take 0 (some .terminate), .take 1 none] p ∧
        Latest (B := Linux.source) [.hook 2 true, .hook 15 true, .recorded () 2, .recorded () 15] () .terminate) ∧
      ∃ p, Run (Step Mock.source) (.new Mock.source)
        [.recorded (1 : ℕ) .interrupt, .take 2 none, .take 1 (some .interrupt)] p ∧
          ¬Latest (B := Mock.source) [.recorded (1 : ℕ) .interrupt] (2 : ℕ) .interrupt := by
  constructor
  · have hhooked : Run (Step Linux.source) (.new Linux.source) [.hook 2 true, .hook 15 true] _ :=
      (Run.refl.tail (.hooked (B := Linux.source) 2)).tail (.hooked (B := Linux.source) 15)
    have hrecorded : Run (Step Linux.source) (.new Linux.source)
        [.hook 2 true, .hook 15 true, .recorded () 2, .recorded () 15] _ :=
      (hhooked.tail (.recorded rfl rfl)).tail (.recorded rfl rfl)
    have hrun := (hrecorded.tail (.take 0)).tail (.take 1)
    exact ⟨_, hrun, ((takes_latest (.inl rfl) hrun).1 _ 0 _ [.take 1 none] rfl .terminate).mp rfl⟩
  · have hraised : Run (Step Mock.source) (.new Mock.source) [.recorded (1 : ℕ) .interrupt] _ :=
      .tail .refl (.recorded rfl rfl)
    have hrun := (hraised.tail (.take 2)).tail (.take 1)
    refine ⟨_, hrun, fun hlatest => ?_⟩
    cases ((takes_latest (.inr (.inr rfl)) hrun).1 _ 2 _ [.take 1 _] rfl .interrupt).mpr hlatest

end Runs

end Rustils.Process.Signals
