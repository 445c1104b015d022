import Rustils.Lib.Trace
import Rustils.Term.WindowsRaw

namespace Rustils.Term.Windows

open Platform Lib.Program Lib.Trace
open WinFs (Wide)
open Platform.Errmap (lastWin32Err)

def Reopening (e : PlatformError) : Prop := e.op = "CreateFileW" ∨ e.op = "SetStdHandle"

@[simp] theorem lastWin32Err_op (op : String) (path : Wide) (code : UInt32) : (lastWin32Err op path code).op = op := by
  unfold lastWin32Err Platform.Errmap.about
  split <;> rfl

def Keeps {α : Type} (P : PlatformError → Prop) (k : Kernel) (r : Result α) (k' : Kernel) : Prop :=
  k'.console = k.console ∧ ∀ e, r = .error e → P e

theorem ensures_keeps {α β : Type} {P : PlatformError → Prop} {k₀ k : Kernel} {p : Prog Answer (Result α)}
    {f : α → Prog Answer (Result β)} (hk : k.console = k₀.console) (hp : Ensures (Keeps P k) p k)
    (hf : ∀ a k, k.console = k₀.console → Ensures (Keeps P k₀) (f a) k) : Ensures (Keeps P k₀) (attempt p f) k := by
  refine ensures_attempt hp ?_ ?_
  · rintro e k' ⟨hk', he⟩
    exact ⟨hk'.trans hk, fun _ h => by
      cases h
      exact he e rfl⟩
  · rintro a k' ⟨hk', _⟩
    exact hf a k' (hk'.trans hk)

theorem ensures_reopen (dev : ConsoleDevice) (k : Kernel) : Ensures (Keeps Reopening k) (reopen dev) k := by
  refine ⟨trivial, ?_⟩
  rintro (code | h) k' he
  · cases he
    refine ⟨rfl, ?_⟩
    rintro e ⟨⟩
    exact .inl (lastWin32Err_op ..)
  · obtain ⟨c, hc, _, rfl⟩ := he
    exact ⟨rfl, fun _ h => nomatch h⟩

theorem ensures_setStd (s : TermStream) (h : Handle) (k : Kernel) : Ensures (Keeps Reopening k) (setStd s h) k := by
  refine ⟨trivial, ?_⟩
  rintro (code | ⟨⟩) k' he
  · cases he
    refine ⟨rfl, ?_⟩
    rintro e ⟨⟩
    exact .inr (lastWin32Err_op ..)
  · cases he
    exact ⟨rfl, fun _ h => nomatch h⟩

theorem ensures_reopenStdHandles (k : Kernel) : Ensures (Keeps Reopening k) reopenStdHandles k := by
  refine ensures_keeps rfl (ensures_reopen _ k) fun hin k₁ h₁ => ?_
  refine ensures_keeps h₁ (ensures_reopen _ k₁) fun hout k₂ h₂ => ?_
  refine ensures_keeps h₂ (ensures_reopen _ k₂) fun herr k₃ h₃ => ?_
  refine ensures_keeps h₃ (ensures_setStd _ _ k₃) fun _ k₄ h₄ => ?_
  refine ensures_keeps h₄ (ensures_setStd _ _ k₄) fun _ k₅ h₅ => ?_
  refine ensures_keeps h₅ (ensures_setStd _ _ k₅) fun _ k₆ h₆ => ?_
  refine Safe.bind (ensures_getMode (some hout) k₆) ?_
  rintro (e | mode) k₇ ⟨rfl, _⟩
  · exact ⟨h₆, fun _ h => nomatch h⟩
  · refine Safe.bind (ensures_setMode _ _ k₇) ?_
    rintro _ k₈ (⟨e, rfl, rfl⟩ | ⟨rfl, b, _, rfl⟩) <;> exact ⟨h₆, fun _ h => nomatch h⟩

theorem state_eq_none {k : Kernel} : k.state = .none ↔ k.console = none := by
  unfold Kernel.state
  split <;> simp_all

theorem state_congr {k k' : Kernel} (h : k'.console = k.console) : k'.state = k.state := by
  rw [Kernel.state, h, Kernel.state]

/-- The process has no console before it acquires one; where the handles are not reopened, it keeps what it has acquired. -/
def Acquired (op : String) (next self : ConsoleState) (k : Kernel) (r : Result Unit × ConsoleState) (k' : Kernel) : Prop :=
  match r.1 with
  | .ok _ => r.2 = next ∧ k.console = none ∧ k'.state = next
  | .error e => r.2 = self ∧ (e.op = op ∧ k'.console = k.console ∨ Reopening e ∧ k.console = none ∧ k'.state = next)

theorem ensures_acquire {acquisition : Prog Answer (Result Unit)} {op : String} (next self : ConsoleState) (k : Kernel)
    (h : Ensures (fun r k' => match r with
      | .ok _ => k.console = none ∧ k'.state = next
      | .error e => e.op = op ∧ k'.console = k.console) acquisition k) :
    Ensures (Acquired op next self k) (WindowsTerminal.acquire acquisition next self) k := by
  have hboth : Ensures (fun r k' => match r with
      | .ok _ => k.console = none ∧ k'.state = next
      | .error e => e.op = op ∧ k'.console = k.console ∨ Reopening e ∧ k.console = none ∧ k'.state = next)
      (attempt acquisition fun _ => reopenStdHandles) k := by
    refine ensures_attempt h (fun e k' => .inl) ?_
    rintro ⟨⟩ k' ⟨hnone, hnext⟩
    refine (ensures_reopenStdHandles k').mono ?_
    rintro (e | ⟨⟩) k'' ⟨hkeeps, herr⟩
    · exact .inr ⟨herr e rfl, hnone, (state_congr hkeeps).trans hnext⟩
    · exact ⟨hnone, (state_congr hkeeps).trans hnext⟩
  refine Safe.bind hboth ?_
  rintro (e | ⟨⟩) k' hr
  · exact ⟨rfl, hr⟩
  · exact ⟨rfl, hr⟩

theorem ensures_allocConsole (self : ConsoleState) (k : Kernel) :
    Ensures (Acquired "AllocConsole" .allocated self k) (WindowsTerminal.allocConsole self) k := by
  refine ensures_acquire .allocated self k ⟨trivial, ?_⟩
  rintro (code | ⟨⟩) k' he
  · cases he
    exact ⟨lastWin32Err_op .., rfl⟩
  · obtain ⟨hnone, c, slots, opened, rfl⟩ := he
    exact ⟨hnone, rfl⟩

theorem ensures_attachConsole (pid : Option UInt32) (self : ConsoleState) (k : Kernel) :
    Ensures (Acquired "AttachConsole" .attached self k) (WindowsTerminal.attachConsole pid self) k := by
  refine ensures_acquire .attached self k ⟨trivial, ?_⟩
  rintro (code | ⟨⟩) k' he
  · cases he
    exact ⟨lastWin32Err_op .., rfl⟩
  · obtain ⟨hnone, c, slots, opened, rfl⟩ := he
    exact ⟨hnone, rfl⟩

theorem ensures_freeConsole (self : ConsoleState) (k : Kernel) : Ensures (fun r k' =>
    k'.console = k.console ∧ r.2 = self ∧ (r.1 = .ok () → self = .none) ∨
      self ≠ .none ∧ k.console ≠ none ∧ k'.console = none ∧ r.2 = .none) (WindowsTerminal.freeConsole self) k := by
  unfold WindowsTerminal.freeConsole
  split
  · rename_i hself
    exact .inl ⟨rfl, rfl, fun _ => hself⟩
  · rename_i hself
    refine ⟨trivial, ?_⟩
    rintro (code | ⟨⟩) k' he
    · cases he
      exact .inl ⟨rfl, rfl, fun h => nomatch h⟩
    · obtain ⟨hsome, opened, rfl⟩ := he
      exact .inr ⟨hself, hsome, rfl, rfl⟩

theorem ensures_initialState (k : Kernel) : Ensures (fun st k' => k'.console = k.console ∧
    (st = .none ∨ st = .inherited ∧ k.console ≠ none)) initialState k := by
  have hprobe : Ensures (fun b k' => k'.console = k.console ∧ (b = true → k.console ≠ none)) hasConsole k := by
    refine ⟨trivial, ?_⟩
    rintro (code | h) k' he
    · cases he
      exact ⟨rfl, fun h => nomatch h⟩
    · obtain ⟨c, hc, _, rfl⟩ := he
      refine ⟨trivial, ?_⟩
      rintro r k' rfl
      exact ⟨rfl, fun _ => by simp [hc]⟩
  refine Safe.bind hprobe ?_
  rintro (_ | _) k' ⟨hk, hb⟩
  · exact ⟨hk, .inl rfl⟩
  · exact ⟨hk, .inr ⟨rfl, hb rfl⟩⟩

inductive ConsoleEvent
  | alloc (r : Result Unit)
  | attach (r : Result Unit)
  | free (r : Result Unit)
  | other

inductive ConsoleStep : Kernel × ConsoleState → ConsoleEvent → Kernel × ConsoleState → Prop
  | allocConsole {k k' : Kernel} {self st : ConsoleState} {r : Result Unit}
    (h : Reaches windows (WindowsTerminal.allocConsole self, k) (.ret (r, st), k')) :
    ConsoleStep (k, self) (.alloc r) (k', st)
  | attachConsole {k k' : Kernel} {self st : ConsoleState} {r : Result Unit} (pid : Option UInt32)
    (h : Reaches windows (WindowsTerminal.attachConsole pid self, k) (.ret (r, st), k')) :
    ConsoleStep (k, self) (.attach r) (k', st)
  | freeConsole {k k' : Kernel} {self st : ConsoleState} {r : Result Unit}
    (h : Reaches windows (WindowsTerminal.freeConsole self, k) (.ret (r, st), k')) :
    ConsoleStep (k, self) (.free r) (k', st)
  | other {k k' : Kernel} (self : ConsoleState) (h : k'.console = k.console) : ConsoleStep (k, self) .other (k', self)

def Leaks (ev : ConsoleEvent) : Prop := ∃ e, Reopening e ∧ (ev = .alloc (.error e) ∨ ev = .attach (.error e))

/-- The state of the handle is that of the system, or it has parted from it and is `None`. -/
structure Tracks (parted : Prop) (c : Kernel × ConsoleState) : Prop where
  same : c.2 = c.1.state ∨ c.2 = .none
  parted_iff : c.2 ≠ c.1.state ↔ parted

theorem Tracks.congr {parted : Prop} {k k' : Kernel} {st : ConsoleState} (h : Tracks parted (k, st))
    (hk : k'.console = k.console) : Tracks parted (k', st) := by
  obtain ⟨hsame, hparted⟩ := h
  constructor
  · rwa [state_congr hk]
  · rwa [state_congr hk]

theorem Tracks.acquired {parted : Prop} {k k' : Kernel} {self st next : ConsoleState} {op : String} {r : Result Unit}
    (h : Tracks parted (k, self)) (hr : Acquired op next self k (r, st) k') (hnext : next ≠ .none)
    (hop : ∀ e, Reopening e → e.op ≠ op) : Tracks (parted ∨ ∃ e, Reopening e ∧ r = .error e) (k', st) := by
  rcases r with e | ⟨⟩
  · obtain ⟨rfl, ⟨he, hk⟩ | ⟨he, hnone, hstate⟩⟩ := hr
    · have hne : ¬Reopening e := fun he' => hop e he' he
      simpa [hne] using h.congr hk
    · have hst : st = .none := h.same.elim (fun h => h.trans (state_eq_none.mpr hnone)) id
      refine ⟨.inr hst, iff_of_true ?_ (.inr ⟨e, he, rfl⟩)⟩
      rw [hst, hstate]
      exact hnext.symm
  · obtain ⟨rfl, hnone, hstate⟩ := hr
    have hself : self = k.state := h.same.elim id fun h => h.trans (state_eq_none.mpr hnone).symm
    have hnot : ¬parted := fun hp => h.parted_iff.mpr hp hself
    exact ⟨.inl hstate.symm, by simp [hstate, hnot]⟩

theorem Tracks.step {parted : Prop} {c c' : Kernel × ConsoleState} {ev : ConsoleEvent} (h : Tracks parted c)
    (hs : ConsoleStep c ev c') : Tracks (parted ∨ Leaks ev) c' := by
  cases hs with
  | allocConsole hr =>
    have hacq := h.acquired ((ensures_allocConsole _ _).reaches hr) (by simp) (by rintro e (he | he) <;> simp [he])
    simpa [Leaks] using hacq
  | attachConsole pid hr =>
    have hacq := h.acquired ((ensures_attachConsole pid _ _).reaches hr) (by simp) (by rintro e (he | he) <;> simp [he])
    simpa [Leaks] using hacq
  | @freeConsole k k' self st r hr =>
    rcases (ensures_freeConsole _ _).reaches hr with ⟨hk, rfl, _⟩ | ⟨hself, hsome, hnone, rfl⟩
    · simpa [Leaks] using h.congr hk
    · have hnot : ¬parted := fun hp => h.parted_iff.mpr hp (h.same.resolve_right hself)
      have hstate : k'.state = .none := state_eq_none.mpr hnone
      exact ⟨.inr rfl, by simp [hstate, hnot, Leaks]⟩
  | other self hk => simpa [Leaks] using h.congr hk

theorem console_state_tracks {k₀ k₁ k : Kernel} {st st' : ConsoleState} {tr : List ConsoleEvent}
    (hstart : k₀.state = .none ∨ k₀.state = .inherited) (hnew : Reaches windows (initialState, k₀) (.ret st, k₁))
    (h : Run ConsoleStep (k₁, st) tr (k, st')) :
    (st' = k.state ∨ st' = .none ∧ k.state ≠ .none) ∧
      (st' ≠ k.state ↔ (st = .none ∧ k₀.state ≠ .none) ∨ ∃ ev ∈ tr, Leaks ev) := by
  obtain ⟨hk, hst⟩ := (ensures_initialState k₀).reaches hnew
  suffices htracks : Tracks ((st = .none ∧ k₀.state ≠ .none) ∨ ∃ ev ∈ tr, Leaks ev) (k, st') by
    refine ⟨?_, htracks.parted_iff⟩
    by_cases hsame : st' = k.state
    · exact .inl hsame
    · have hnone : st' = .none := htracks.same.resolve_left hsame
      exact .inr ⟨hnone, fun hk => hsame (hnone.trans hk.symm)⟩
  have hstart₁ : Tracks (st = .none ∧ k₀.state ≠ .none) (k₁, st) := by
    suffices h₀ : Tracks (st = .none ∧ k₀.state ≠ .none) (k₀, st) from h₀.congr hk
    rcases hst with rfl | ⟨rfl, hsome⟩
    · refine ⟨.inr rfl, ?_⟩
      simp [eq_comm]
    · have hinherited : k₀.state = .inherited := hstart.resolve_left fun hnone => hsome (state_eq_none.mp hnone)
      exact ⟨.inl hinherited.symm, by simp [hinherited]⟩
  generalize hc : (k, st') = c at h
  clear hc
  induction h with
  | refl => simpa using hstart₁
  | tail _ hs ih =>
    have hstep := ih.step hs
    rw [or_assoc] at hstep
    simpa [or_and_right, exists_or] using hstep

def detached : Kernel := ⟨none, fun _ => none, fun _ => none, fun _ => 0⟩

theorem console_state_tracks_leak : ∃ k tr, tr.length = 3 ∧ Run ConsoleStep (detached, .none) tr (k, .none) ∧
    k.state = .allocated ∧
    (ConsoleState.none ≠ k.state ↔ (ConsoleState.none = .none ∧ detached.state ≠ .none) ∨ ∃ ev ∈ tr, Leaks ev) := by
  let e := lastWin32Err "CreateFileW" ConsoleDevice.CONIN.name 2
  have hnew : Reaches windows (initialState, detached) (.ret .none, detached) := reaches_step (.error 2) rfl .refl
  let k₁ : Kernel := { detached with console := some ⟨0, .allocated⟩ }
  let handles : Handle → Option Buffer := Function.update (Function.update (Function.update k₁.opened 1 (some (0, true))) 2
    (some (0, false))) 3 (some (0, false))
  let k₂ : Kernel := { k₁ with
    opened := handles
    slots := Function.update (Function.update (Function.update k₁.slots .stdin (some 1)) .stdout (some 2)) .stderr (some 3) }
  have hfirst : ConsoleStep (detached, .none) (.alloc (.ok ())) (k₂, .allocated) :=
    .allocConsole (reaches_step (.ok ()) ⟨rfl, 0, _, _, rfl⟩ (reaches_step (.ok 1) ⟨_, rfl, rfl, rfl⟩
      (reaches_step (.ok 2) ⟨_, rfl, rfl, rfl⟩ (reaches_step (.ok 3) ⟨_, rfl, rfl, rfl⟩ (reaches_step (.ok ()) rfl
        (reaches_step (.ok ()) rfl (reaches_step (.ok ()) rfl (reaches_step (.error 6) rfl .refl))))))))
  have hfree : ConsoleStep (k₂, .allocated) (.free (.ok ())) ({ k₂ with console := none }, .none) :=
    .freeConsole (reaches_step (.ok ()) ⟨nofun, _, rfl⟩ .refl)
  have hsecond : ConsoleStep ({ k₂ with console := none }, .none) (.alloc (.error e))
      ({ k₂ with console := some ⟨1, .allocated⟩ }, .none) :=
    .allocConsole (reaches_step (.ok ()) ⟨rfl, 1, _, _, rfl⟩ (reaches_step (.error 2) rfl .refl))
  have hrun := Run.tail (.tail (.tail .refl hfirst) hfree) hsecond
  exact ⟨_, _, rfl, hrun, rfl, (console_state_tracks (.inl rfl) hnew hrun).2⟩

end Rustils.Term.Windows
