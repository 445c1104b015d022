import Rustils.Lib.Trace
import Rustils.Platform.Error
import Rustils.Process.Target

namespace Rustils.Mock.Pty

open Platform Lib.Trace
open Process (GroupSpec)

structure WinSize where
  rows : UInt16
  cols : UInt16
  deriving DecidableEq

structure MockPtyMaster where
  inbound : List (List UInt8)
  written : List (List UInt8)
  size : WinSize

namespace MockPtyMaster

def new (size : WinSize) : MockPtyMaster := ⟨[], [], size⟩

def queueInbound (self : MockPtyMaster) (bytes : List UInt8) : MockPtyMaster :=
  { self with inbound := self.inbound ++ [bytes] }

def read (self : MockPtyMaster) (buf : List UInt8) : Result ℕ × List UInt8 × MockPtyMaster :=
  match self.inbound with
  | bytes :: inbound =>
    let n := min bytes.length buf.length
    (.ok n, bytes.take n ++ buf.drop n, { self with inbound })
  | [] => (.ok 0, buf, self)

def write (self : MockPtyMaster) (buf : List UInt8) : Result ℕ × MockPtyMaster :=
  (.ok buf.length, { self with written := self.written ++ [buf] })

def resize (self : MockPtyMaster) (size : WinSize) : MockPtyMaster := { self with size }

end MockPtyMaster

inductive Event
  | queueInbound (bytes : List UInt8)
  | read (buf : List UInt8) (r : Result ℕ) (out : List UInt8)
  | write (buf : List UInt8)
  | resize (size : WinSize)

inductive Step (s : MockPtyMaster) : Event → MockPtyMaster → Prop
  | queueInbound (bytes : List UInt8) : Step s (.queueInbound bytes) (s.queueInbound bytes)
  | read (buf : List UInt8) : Step s (.read buf (s.read buf).1 (s.read buf).2.1) (s.read buf).2.2
  | write (buf : List UInt8) : Step s (.write buf) (s.write buf).2
  | resize (size : WinSize) : Step s (.resize size) (s.resize size)

def Event.queued : Event → List UInt8
  | .queueInbound bytes => bytes
  | _ => []

def Event.returned : Event → List UInt8
  | .read _ (.ok n) out => out.take n
  | _ => []

def queued (tr : List Event) : List UInt8 := tr.flatMap Event.queued

def returned (tr : List Event) : List UInt8 := tr.flatMap Event.returned

structure Kept (tr : List Event) (s : MockPtyMaster) : Prop where
  ordered : returned tr <+: queued tr
  drained : s.inbound = [] → returned tr = queued tr
  zero : ∀ before buf out after, tr = before ++ .read buf (.ok 0) out :: after → buf ≠ [] →
    returned before = queued before

def Fits (s : MockPtyMaster) : Event → Prop
  | .read buf _ _ => ∀ chunk rest, s.inbound = chunk :: rest →
      chunk.length ≤ buf.length ∧ (chunk = [] → buf = [] ∨ rest.flatten = [])
  | _ => True

def FitStep (s : MockPtyMaster) (e : Event) (s' : MockPtyMaster) : Prop := Step s e s' ∧ Fits s e

section Runs

variable {s₀ s s' : MockPtyMaster} {e : Event} {tr tr' : List Event} {size : WinSize} {chunk buf : List UInt8}
  {rest : List (List UInt8)}

theorem returned_append (tr tr' : List Event) : returned (tr ++ tr') = returned tr ++ returned tr' :=
  List.flatMap_append

theorem queued_append (tr tr' : List Event) : queued (tr ++ tr') = queued tr ++ queued tr' := List.flatMap_append

theorem returned_cons (e : Event) (tr : List Event) : returned (e :: tr) = e.returned ++ returned tr :=
  List.flatMap_cons

theorem queued_cons (e : Event) (tr : List Event) : queued (e :: tr) = e.queued ++ queued tr := List.flatMap_cons

theorem read_chunk (h : s.inbound = chunk :: rest) (buf : List UInt8) :
    (Event.read buf (s.read buf).1 (s.read buf).2.1).returned = chunk.take buf.length ∧
      (s.read buf).2.2.inbound = rest := by
  unfold MockPtyMaster.read
  rw [h]
  refine ⟨?_, rfl⟩
  have hlen : (chunk.take (min chunk.length buf.length)).length = min chunk.length buf.length :=
    List.length_take_of_le (Nat.min_le_left _ _)
  rw [Event.returned, List.take_left' hlen, Nat.min_comm]
  exact List.take_eq_take_min.symm

theorem read_empty (h : s.inbound = []) (buf : List UInt8) :
    (Event.read buf (s.read buf).1 (s.read buf).2.1).returned = [] ∧ (s.read buf).2.2 = s := by
  unfold MockPtyMaster.read
  rw [h]
  exact ⟨rfl, rfl⟩

theorem FitStep.balance (h : FitStep s e s') :
    e.returned ++ s'.inbound.flatten = s.inbound.flatten ++ e.queued := by
  obtain ⟨hs, hfits⟩ := h
  cases hs with
  | queueInbound bytes => simp [MockPtyMaster.queueInbound, Event.returned, Event.queued]
  | read buf =>
    cases hin : s.inbound with
    | nil =>
      obtain ⟨hret, hs'⟩ := read_empty hin buf
      rw [hret, hs', hin]
      rfl
    | cons chunk rest =>
      obtain ⟨hret, hrest⟩ := read_chunk hin buf
      obtain ⟨hlen, -⟩ := hfits chunk rest hin
      rw [hret, hrest, List.take_of_length_le hlen]
      exact (List.append_nil _).symm
  | write buf => simp [MockPtyMaster.write, Event.returned, Event.queued]
  | resize size => simp [MockPtyMaster.resize, Event.returned, Event.queued]

theorem balance_of_run (h : Run FitStep s₀ tr s) :
    returned tr ++ s.inbound.flatten = s₀.inbound.flatten ++ queued tr := by
  induction h with
  | refl => simp [returned, queued]
  | @tail tr s s' e _ hs ih =>
    calc returned (tr ++ [e]) ++ s'.inbound.flatten
        = returned tr ++ (e.returned ++ s'.inbound.flatten) := by simp [returned]
      _ = (returned tr ++ s.inbound.flatten) ++ e.queued := by rw [hs.balance, List.append_assoc]
      _ = s₀.inbound.flatten ++ queued (tr ++ [e]) := by rw [ih]; simp [queued]

theorem FitStep.zero {out : List UInt8} (h : FitStep s (.read buf (.ok 0) out) s') (hbuf : buf ≠ []) :
    s.inbound.flatten = [] := by
  obtain ⟨hs, hfits⟩ := h
  cases hin : s.inbound with
  | nil => rfl
  | cons chunk rest =>
    have hn : (s.read buf).1 = .ok 0 := by
      generalize hr : Event.read buf (.ok 0) out = e at hs
      cases hs with
      | read buf' =>
        obtain ⟨rfl, hn, -⟩ := Event.read.inj hr
        exact hn.symm
      | _ => cases hr
    obtain ⟨-, hempty⟩ := hfits chunk rest hin
    have hchunk : chunk = [] := by
      rw [MockPtyMaster.read, hin] at hn
      have hmin : min chunk.length buf.length = 0 := Except.ok.inj hn
      have hpos := List.length_pos_of_ne_nil hbuf
      exact List.eq_nil_of_length_eq_zero (by omega)
    rw [hchunk, List.flatten_cons, List.nil_append]
    exact (hempty hchunk).resolve_left hbuf

theorem kept_of_run (h : Run FitStep (.new size) tr s) : Kept tr s := by
  have hbalance : returned tr ++ s.inbound.flatten = queued tr := balance_of_run h
  constructor
  · exact ⟨_, hbalance⟩
  · intro hdrained
    simpa [hdrained] using hbalance
  · intro before buf out after htr hbuf
    rw [htr] at h
    obtain ⟨s₁, s₂, h₁, hs, -⟩ := run_mid.mp h
    have hbefore : returned before ++ s₁.inbound.flatten = queued before := balance_of_run h₁
    rwa [hs.zero hbuf, List.append_nil] at hbefore

theorem drains (s : MockPtyMaster) :
    ∃ tr s', Run FitStep s tr s' ∧ s'.inbound = [] ∧ returned tr = s.inbound.flatten ∧ queued tr = [] := by
  generalize hin : s.inbound = inbound
  induction inbound generalizing s with
  | nil => exact ⟨[], s, .refl, hin, rfl, rfl⟩
  | cons chunk rest ih =>
    obtain ⟨hret, hrest⟩ := read_chunk hin chunk
    obtain ⟨tr, s', hrun, hempty, hall, hquiet⟩ := ih _ hrest
    have hfits : Fits s (.read chunk (s.read chunk).1 (s.read chunk).2.1) := by
      intro chunk' rest' h
      cases hin.symm.trans h
      exact ⟨Nat.le_refl _, .inl⟩
    refine ⟨.read chunk (s.read chunk).1 (s.read chunk).2.1 :: tr, s', ?_, hempty, ?_, ?_⟩
    · rw [← List.nil_append (_ :: tr), run_mid]
      exact ⟨_, _, .refl, ⟨.read chunk, hfits⟩, hrun⟩
    · rw [returned_cons, hret, hall, List.take_length, List.flatten_cons]
    · rw [queued_cons, hquiet]
      rfl

theorem broken_of_unfit (h : Run FitStep (.new size) tr s) (hs : Step s e s') (hunfit : ¬ Fits s e) :
    ∃ tr' s'', Run FitStep s' tr' s'' ∧ ¬ Kept (tr ++ e :: tr') s'' := by
  have hbalance : returned tr ++ s.inbound.flatten = queued tr := balance_of_run h
  cases hs with
  | queueInbound bytes => exact absurd trivial hunfit
  | write buf => exact absurd trivial hunfit
  | resize size => exact absurd trivial hunfit
  | read buf =>
    simp only [Fits, not_forall] at hunfit
    obtain ⟨chunk, rest, hin, hnot⟩ := hunfit
    obtain ⟨hret, hrest⟩ := read_chunk hin buf
    rw [hin, List.flatten_cons] at hbalance
    by_cases hlen : chunk.length ≤ buf.length
    · simp only [hlen, true_and, Classical.not_imp, not_or] at hnot
      obtain ⟨rfl, hbuf, hbytes⟩ := hnot
      refine ⟨[], _, .refl, fun hkept => hbytes ?_⟩
      have hread : (s.read buf).1 = .ok 0 := by
        rw [MockPtyMaster.read, hin]
        rfl
      have hzero := hkept.zero tr buf _ [] (by rw [hread]) hbuf
      rw [hzero, List.nil_append] at hbalance
      exact List.append_right_eq_self.mp hbalance
    · obtain ⟨tr', s'', hrun, hempty, hall, hquiet⟩ := drains (s.read buf).2.2
      refine ⟨tr', s'', hrun, fun hkept => hlen ?_⟩
      have hreturned : returned (tr ++ .read buf (s.read buf).1 (s.read buf).2.1 :: tr') =
          returned tr ++ (chunk.take buf.length ++ rest.flatten) := by
        rw [returned_append, returned_cons, hret, hall, hrest]
      have hqueued : queued (tr ++ .read buf (s.read buf).1 (s.read buf).2.1 :: tr') = queued tr := by
        rw [queued_append, queued_cons, hquiet]
        simp [Event.queued]
      have hlost := congrArg List.length (hkept.drained hempty)
      rw [hreturned, hqueued, ← hbalance] at hlost
      simp only [List.length_append, List.length_take] at hlost
      omega

theorem pty_reads_lose_nothing (size : WinSize) (tr : List Event) (s : MockPtyMaster)
    (h : Run FitStep (.new size) tr s) :
    Kept tr s ∧ ∀ e s', Step s e s' → ¬ Fits s e → ∃ tr' s'', Run FitStep s' tr' s'' ∧ ¬ Kept (tr ++ e :: tr') s'' :=
  ⟨kept_of_run h, fun _ _ hs hunfit => broken_of_unfit h hs hunfit⟩

end Runs

def oneChunk : List Event := [.queueInbound [1, 2], .read [0, 0] (.ok 2) [1, 2]]

theorem oneChunk_kept : ∃ s, Run FitStep (.new ⟨24, 80⟩) oneChunk s ∧ Kept oneChunk s := by
  let s₁ := (MockPtyMaster.new ⟨24, 80⟩).queueInbound [1, 2]
  have h₁ : FitStep (.new ⟨24, 80⟩) (.queueInbound [1, 2]) s₁ := ⟨.queueInbound _, trivial⟩
  have h₂ : FitStep s₁ (.read [0, 0] (.ok 2) [1, 2]) (s₁.read [0, 0]).2.2 := by
    refine ⟨.read [0, 0], ?_⟩
    intro chunk rest hin
    cases hin
    decide
  have hrun : Run FitStep (.new ⟨24, 80⟩) oneChunk _ := .tail (.tail .refl h₁) h₂
  exact ⟨_, hrun, (pty_reads_lose_nothing ⟨24, 80⟩ oneChunk _ hrun).1⟩

theorem short_read_loses_byte :
    ∃ tr s, Run Step (.new ⟨24, 80⟩) tr s ∧
      tr = [.queueInbound [1, 2], .read [0] (.ok 1) [1], .read [0] (.ok 0) [0]] ∧
      s.inbound = [] ∧ returned tr = [1] ∧ queued tr = [1, 2] ∧ ¬ Kept tr s := by
  let s₁ := (MockPtyMaster.new ⟨24, 80⟩).queueInbound [1, 2]
  let s₂ := (s₁.read [0]).2.2
  have h₁ : Step (.new ⟨24, 80⟩) (.queueInbound [1, 2]) s₁ := .queueInbound _
  have h₂ : Step s₁ (.read [0] (.ok 1) [1]) s₂ := .read [0]
  have h₃ : Step s₂ (.read [0] (.ok 0) [0]) (s₂.read [0]).2.2 := .read [0]
  refine ⟨_, _, .tail (.tail (.tail .refl h₁) h₂) h₃, rfl, rfl, rfl, rfl, fun h => ?_⟩
  cases h.drained rfl

end Rustils.Mock.Pty
