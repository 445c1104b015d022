import Rustils.Pty.ConPty

namespace Rustils.Pty.ConPty

def Unshared (i : Session) (k : Kernel) : Prop := ∀ h, k.handles h ≠ some (.watcher i)

/-- What a thread does in one operation. A console is closed by who set the flag, or before there is a watcher. -/
inductive Move : Thread → Kernel → Kernel → Prop
  | idle (t : Thread) (k : Kernel) : Move t k k
  | openAll {i : Session} {k : Kernel} {hs : List Handle} (hfree : ∀ h ∈ hs, k.handles h = none) :
    Move (.caller i) k (k.openAll (.caller i) hs)
  | closeHandle {t : Thread} {k : Kernel} {h : Handle} (hown : k.handles h = some t) : Move t k (k.closeHandle h)
  | createConsole {i : Session} {k : Kernel} {c : Hpcon} (hfree : k.consoles c = none) (hnone : k.closures i = none) :
    Move (.caller i) k (k.createConsole i c)
  | closeConsole {t : Thread} {k : Kernel} {c : Hpcon} (hown : k.consoles c = some t.session)
    (hwon : k.closed t.session = some t ∨ t = .caller t.session ∧ k.closures t.session = none) :
    Move t k (k.closeConsole c)
  | claim {t : Thread} {k : Kernel} (hnone : k.closed t.session = none)
    (hstarted : t = .watcher t.session → k.closures t.session ≠ none) : Move t k (k.claim t)
  | launch {i : Session} {k : Kernel} {c : Closure} (hown : k.handles c.dup = some (.caller i))
    (hnone : k.closures i = none) (hclosed : k.closed i = none) (hdup : Unshared i k)
    (hconsole : ∀ c', k.consoles c' = some i ↔ c' = c.hpc) : Move (.caller i) k (k.launch i c)

def Rely (t : Thread) (k k' : Kernel) : Prop := ∃ u, u ≠ t ∧ Move u k k'

def Thread.other : Thread → Thread
  | .caller i => .watcher i
  | .watcher i => .caller i

section Facts

variable (t : Thread) (i : Session) (hs : List Handle) (c : Hpcon) (cl : Closure) (k : Kernel)

def Holds : Prop := hs.Nodup ∧ ∀ h, k.handles h = some t ↔ h ∈ hs

def Alone : Prop := k.closures i = none ∧ k.closed i = none ∧ Unshared i k

def Bare : Prop := ∀ c, k.consoles c ≠ some i

def Console : Prop :=
  (∀ c', k.consoles c' = some t.session → c' = c) ∧ (k.closed t.session ≠ some t.other → k.consoles c = some t.session)

def Unclaimed : Prop := k.closed i = none ∨ k.closed i = some (.watcher i)

def Started : Prop :=
  (k.closed i = some (.watcher i) → k.closures i ≠ none) ∧ (k.closures i = none → Unshared i k)

def Watched : Prop := k.closures i = some cl ∧ Holds (.watcher i) [cl.dup] k ∧ Console (.watcher i) cl.hpc k

def Waiting : Prop :=
  (∀ cl, k.closures i = some cl → Watched i cl k) ∧ (k.closures i = none → Unshared i k)

end Facts

section Stability

variable {i : Session} {hs : List Handle} {c : Hpcon} {cl : Closure} {k k' : Kernel} {t u : Thread}

theorem Thread.eq_other (h : u.session = t.session) (hu : u ≠ t) : u = t.other := by
  cases u <;> cases t <;> cases h <;> first | rfl | exact absurd rfl hu

theorem Move.closures (hm : Move u k k') (hu : u ≠ .caller i) : k'.closures i = k.closures i := by
  cases hm with
  | idle | openAll | closeHandle | createConsole | closeConsole | claim => rfl
  | @launch j =>
    have hj : i ≠ j := by
      rintro rfl
      exact hu rfl
    exact Function.update_of_ne hj ..

theorem Move.closures_some (hm : Move u k k') (hcl : k.closures i = some cl) : k'.closures i = some cl := by
  cases hm with
  | idle | openAll | closeHandle | createConsole | closeConsole | claim => exact hcl
  | @launch j _ _ _ hnone =>
    have hj : i ≠ j := by
      rintro rfl
      rw [hnone] at hcl
      cases hcl
    exact (Function.update_of_ne hj ..).trans hcl

theorem Move.handles (hm : Move u k k') (hu : u ≠ t)
    (ht : ∀ i, t = .watcher i → k.closures i ≠ none ∨ k'.closures i = none) (a : Handle) :
    k'.handles a = some t ↔ k.handles a = some t := by
  cases hm with
  | idle | createConsole | closeConsole | claim => rfl
  | @openAll _ _ hs' hfree =>
    simp only [Kernel.openAll]
    split
    · rename_i ha
      rw [hfree a ha]
      simp [hu]
    · rfl
  | @closeHandle _ _ b hown =>
    by_cases ha : a = b
    · subst ha
      simp [Kernel.closeHandle, hown, hu]
    · simp [Kernel.closeHandle, Function.update_of_ne ha]
  | @launch j _ cl hown hnone =>
    by_cases ha : a = cl.dup
    · subst ha
      have hj : Thread.watcher j ≠ t := by
        rintro rfl
        simpa [hnone, Kernel.launch] using ht j rfl
      simp [Kernel.launch, hown, hu, hj]
    · simp [Kernel.launch, Function.update_of_ne ha]

theorem Move.console (hm : Move u k k') (hu : u ≠ t) (ht : t = .watcher t.session → k.closures t.session ≠ none)
    (h : Console t c k) : Console t c k' := by
  obtain ⟨hsole, hkept⟩ := h
  cases hm with
  | idle | openAll | closeHandle | launch => exact ⟨hsole, hkept⟩
  | claim _ _ =>
    refine ⟨hsole, fun h => hkept ?_⟩
    by_cases hi : t.session = u.session
    · simp [Kernel.claim, hi, Thread.eq_other hi.symm hu] at h
    · simpa [Kernel.claim, Function.update_of_ne hi] using h
  | @createConsole j _ c' hfree hnone =>
    have hj : j ≠ t.session := by
      rintro rfl
      cases t with
      | caller j => exact hu rfl
      | watcher j => exact ht rfl hnone
    refine ⟨fun a ha => hsole a ?_, fun h => ?_⟩
    · by_cases hac : a = c'
      · subst hac
        simp [Kernel.createConsole, hj] at ha
      · simpa [Kernel.createConsole, Function.update_of_ne hac] using ha
    · have hc := hkept h
      have hne : c ≠ c' := by
        rintro rfl
        rw [hfree] at hc
        cases hc
      simpa [Kernel.createConsole, Function.update_of_ne hne] using hc
  | @closeConsole _ _ c' hown hwon =>
    refine ⟨fun a ha => hsole a ?_, fun h => ?_⟩
    · by_cases hac : a = c'
      · subst hac
        simp [Kernel.closeConsole] at ha
      · simpa [Kernel.closeConsole, Function.update_of_ne hac] using ha
    · have hc := hkept h
      have hne : c ≠ c' := by
        rintro rfl
        have hs : u.session = t.session := by simpa [hown] using hc
        obtain rfl := Thread.eq_other hs hu
        rcases hwon with hwon | ⟨hother, hnone⟩
        · exact h (hs ▸ hwon)
        · cases t with
          | caller j => cases hother
          | watcher j => exact ht rfl hnone
      simpa [Kernel.closeConsole, Function.update_of_ne hne] using hc

theorem Move.closed_some (hm : Move u k k') (h : k.closed i = some t) : k'.closed i = some t := by
  cases hm with
  | idle | openAll | closeHandle | createConsole | closeConsole | launch => exact h
  | claim hnone =>
    have hi : i ≠ u.session := by
      rintro rfl
      rw [hnone] at h
      cases h
    exact (Function.update_of_ne hi ..).trans h

theorem Move.closed_ne (hm : Move u k k') (hu : u ≠ t) (h : k.closed i ≠ some t) : k'.closed i ≠ some t := by
  cases hm with
  | idle | openAll | closeHandle | createConsole | closeConsole | launch => exact h
  | claim =>
    by_cases hi : i = u.session
    · subst hi
      simp [Kernel.claim, hu]
    · simpa [Kernel.claim, Function.update_of_ne hi] using h

theorem Move.unclaimed (hm : Move u k k') (hu : u ≠ .caller i) (h : Unclaimed i k) : Unclaimed i k' := by
  cases hm with
  | idle | openAll | closeHandle | createConsole | closeConsole | launch => exact h
  | claim =>
    by_cases hi : i = u.session
    · subst hi
      cases u with
      | caller j => exact absurd rfl hu
      | watcher j => exact .inr (Function.update_self ..)
    · exact h.imp (Function.update_of_ne hi ..).trans (Function.update_of_ne hi ..).trans

theorem Move.unshared (hm : Move u k k') (hu : u ≠ .caller i) (hcl : k.closures i = none) (h : Unshared i k) :
    Unshared i k' := by
  intro a ha
  by_cases hw : u = .watcher i
  · subst hw
    cases hm with
    | idle | closeConsole | claim => exact h a ha
    | @closeHandle _ _ b hown => exact h b hown
  · exact h a ((hm.handles hw (by simp [hm.closures hu, hcl]) a).mp ha)

theorem Move.started (hm : Move u k k') (hu : u ≠ .caller i) (h : Started i k) : Started i k' := by
  obtain ⟨hstarted, hunshared⟩ := h
  have hcl := hm.closures hu
  refine ⟨fun hclosed => ?_, fun hnone => hm.unshared hu (hcl ▸ hnone) (hunshared (hcl ▸ hnone))⟩
  rw [hcl]
  by_cases hw : u = .watcher i
  · subst hw
    cases hm with
    | idle | closeHandle | closeConsole => exact hstarted hclosed
    | claim _ hsome => exact hsome rfl
  · by_contra hnone
    exact hm.closed_ne hw (fun hw => hstarted hw hnone) hclosed

theorem Move.bare (hm : Move u k k') (hu : u = .caller i → k.closures i ≠ none) (h : Bare i k) : Bare i k' := by
  intro a
  cases hm with
  | idle | openAll | closeHandle | claim | launch => exact h a
  | @createConsole j _ c _ hnone =>
    have hj : j ≠ i := by
      rintro rfl
      exact hu rfl hnone
    by_cases ha : a = c
    · subst ha
      simp [Kernel.createConsole, hj]
    · simpa [Kernel.createConsole, Function.update_of_ne ha] using h a
  | @closeConsole _ _ c =>
    by_cases ha : a = c
    · subst ha
      simp [Kernel.closeConsole]
    · simpa [Kernel.closeConsole, Function.update_of_ne ha] using h a

theorem Move.alone (hm : Move u k k') (hu : u ≠ .caller i) (h : Alone i k) : Alone i k' := by
  obtain ⟨hcl, hclosed, hunshared⟩ := h
  refine ⟨(hm.closures hu).trans hcl, ?_, hm.unshared hu hcl hunshared⟩
  cases hm with
  | idle | openAll | closeHandle | createConsole | closeConsole | launch => exact hclosed
  | claim _ hstarted =>
    have hi : i ≠ u.session := by
      rintro rfl
      cases u with
      | caller j => exact hu rfl
      | watcher j => exact hstarted rfl hcl
    exact (Function.update_of_ne hi ..).trans hclosed

theorem Holds.move (h : Holds t hs k) (hm : Move u k k') (hu : u ≠ t)
    (ht : ∀ i, t = .watcher i → k.closures i ≠ none) : Holds t hs k' :=
  ⟨h.1, fun a => (hm.handles hu (fun i hi => .inl (ht i hi)) a).trans (h.2 a)⟩

theorem Watched.move (h : Watched i cl k) (hm : Move u k k') (hu : u ≠ .watcher i) : Watched i cl k' := by
  obtain ⟨hcl, hholds, hconsole⟩ := h
  have hne : k.closures i ≠ none := by simp [hcl]
  refine ⟨hm.closures_some hcl, hholds.move hm hu ?_, hm.console hu (fun _ => hne) hconsole⟩
  rintro j ⟨⟩
  exact hne

theorem watched_launch (hdup : Unshared i k)
    (hconsole : ∀ c', k.consoles c' = some i ↔ c' = cl.hpc) : Watched i cl (k.launch i cl) := by
  refine ⟨Function.update_self .., ⟨List.nodup_singleton _, fun a => ?_⟩, fun c' => (hconsole c').mp,
    fun _ => (hconsole _).mpr rfl⟩
  by_cases ha : a = cl.dup
  · subst ha
    simp [Kernel.launch]
  · simp [Kernel.launch, hdup a, ha]

theorem Waiting.move (h : Waiting i k) (hm : Move u k k') (hu : u ≠ .watcher i) : Waiting i k' := by
  obtain ⟨hw, hnone⟩ := h
  constructor
  · intro cl hcl
    cases hk : k.closures i with
    | some cl' =>
      cases (hm.closures_some hk).symm.trans hcl
      exact (hw cl hk).move hm hu
    | none =>
      cases hm with
      | idle | openAll | closeHandle | createConsole | closeConsole | claim => cases hk.symm.trans hcl
      | @launch j _ cl' _ _ _ hdup hconsole =>
        by_cases hj : i = j
        · subst hj
          simp only [Kernel.launch, Function.update_self, Option.some.injEq] at hcl
          subst hcl
          exact watched_launch hdup hconsole
        · cases hk.symm.trans ((Function.update_of_ne hj ..).symm.trans hcl)
  · intro hcl a ha
    have hk : k.closures i = none := by
      cases hk : k.closures i with
      | none => rfl
      | some cl => cases (hm.closures_some hk).symm.trans hcl
    exact hnone hk a ((hm.handles hu (by simp [hcl]) a).mp ha)

end Stability

end Rustils.Pty.ConPty
