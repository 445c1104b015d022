import Rustils.Net.Stage

namespace Rustils.Net

open Platform Lib.Program

section Interleaved

variable {ι : Type} {b : Backend} {path : Path} {fd : Fd} {i j : ι} {o : SysCall} {r : Answer o}
  {σ : ι → Stage} {s' : Stage} {c c' : Pool ι Answer (Result Fd × Errno) Kernel} {k' : Kernel}
  {p' : Prog Answer (Result Fd × Errno)} {rest : Answer o → Prog Answer (Result Fd × Errno)}

def Held (c : Pool ι Answer (Result Fd × Errno) Kernel) (path : Path) : Prop :=
  ∃ id, c.state.fs path = some (.socket id) ∧ c.state.sockets id ≠ none ∧
    ∀ i rest, c.progs i ≠ .op (.close id) rest

def Condemns (path : Path) : Prog Answer (Result Fd × Errno) → Prop
  | .op (.unlinkat p) _ => p = path
  | .op (.close _) rest => ∃ rest', rest (.ok ()) = .op (.unlinkat path) rest'
  | _ => False

/-- Whoever holds the path listens by the time it is probed, and nobody takes the path while
another stands between its refused probe and its `unlinkat`. -/
def Orderly (b : Backend) (path : Path) (c : Pool ι Answer (Result Fd × Errno) Kernel) :
    (o : SysCall) → Answer o → Prop
  | .connect _ _ _, _ => Held c path → c.state.Listening b path
  | .bind _ _ _, .ok _ => ∀ j, ¬Condemns path (c.progs j)
  | _, _ => True

def Placed (path : Path) (c : Pool ι Answer (Result Fd × Errno) Kernel) : Stage → Prop
  | ⟨_, .away⟩ => True
  | ⟨_, .refused _⟩ => ¬Held c path
  | ⟨_, .doomed⟩ => ¬Held c path
  | ⟨own, .bound fd⟩ => fd ∈ own ∧ (path = [] ∨ c.state.fs path = some (.socket fd))
  | ⟨own, .narrowed fd⟩ => fd ∈ own ∧ c.state.fs path = some (.socket fd)
  | ⟨own, .serving fd⟩ =>
    fd ∈ own ∧ c.state.fs path = some (.socket fd) ∧ c.state.sockets fd = some .listening
  | ⟨own, .failed fd⟩ => fd ∈ own

structure Inv (b : Backend) (path : Path) (σ : ι → Stage)
    (c : Pool ι Answer (Result Fd × Errno) Kernel) : Prop where
  follows : ∀ i, Safe moves (Allowed b path) Ends (c.progs i) (σ i)
  apart : ∀ i j fd, fd ∈ (σ i).own → fd ∈ (σ j).own → i = j
  opened : ∀ i fd, fd ∈ (σ i).own → c.state.sockets fd ≠ none
  placed : ∀ i, Placed path c (σ i)

theorem Inv.condemns (h : Inv b path σ c) {own : Set Fd}
    (hj : (∃ probe, σ j = ⟨own, .refused probe⟩) ∨ σ j = ⟨own, .doomed⟩) :
    Condemns path (c.progs j) := by
  have hf := h.follows j
  have hdoomed : ∀ {own p}, Safe moves (Allowed b path) Ends p ⟨own, .doomed⟩ →
      ∃ rest, p = .op (.unlinkat path) rest := by
    intro own p hp
    match p, hp with
    | .ret (.ok fd, _), hp => cases hp
    | .ret (.error _, _), hp => cases hp
    | .op (.unlinkat _) rest, hp =>
      obtain rfl := hp.1
      exact ⟨rest, rfl⟩
  rcases hj with ⟨probe, hj⟩ | hj
  · rw [hj] at hf
    match hp : c.progs j, hf with
    | .ret (.ok fd, _), hf => cases hf
    | .ret (.error _, _), hf => cases hf
    | .op (.close fd) rest, hf => exact hdoomed (hf.2 (.ok ()) _ rfl)
  · rw [hj] at hf
    obtain ⟨rest, hp⟩ := hdoomed hf
    rw [hp]
    exact rfl

theorem Inv.close_own (h : Inv b path σ c) {rest : Answer (.close fd) → _}
    (hp : c.progs i = .op (.close fd) rest) : fd ∈ (σ i).own := by
  have hf := h.follows i
  rw [hp] at hf
  have hpl := h.placed i
  match hs : σ i, hf.1 with
  | ⟨own, .away⟩, ha => exact ha
  | ⟨own, .refused _⟩, ha => exact ha.2
  | ⟨own, .failed _⟩, ha =>
    obtain rfl := ha
    rw [hs] at hpl
    exact hpl

theorem Inv.held (h : Inv b path σ c) (j : ι) (fd : Fd) (hfd : fd ∈ (σ j).own)
    (hp : c.state.fs path = some (.socket fd)) (hj : ¬Allowed b path (σ j) (.close fd)) :
    Held c path := by
  refine ⟨fd, hp, h.opened j fd hfd, fun i rest hi => ?_⟩
  obtain rfl := h.apart i j fd (h.close_own hi) hfd
  have hf := h.follows i
  rw [hi] at hf
  exact hj hf.1

theorem Placed.frame {s : Stage} (h : Placed path c s) (hfs : c'.state.fs path = c.state.fs path)
    (hsame : ∀ x ∈ s.own, c'.state.sockets x = c.state.sockets x)
    (hheld : Held c' path → Held c path) : Placed path c' s := by
  match s, h with
  | ⟨own, .away⟩, _ => trivial
  | ⟨own, .refused _⟩, h => exact fun hh => h (hheld hh)
  | ⟨own, .doomed⟩, h => exact fun hh => h (hheld hh)
  | ⟨own, .bound fd⟩, h =>
    refine ⟨h.1, ?_⟩
    rw [hfs]
    exact h.2
  | ⟨own, .narrowed fd⟩, h =>
    refine ⟨h.1, ?_⟩
    rw [hfs]
    exact h.2
  | ⟨own, .serving fd⟩, h =>
    refine ⟨h.1, ?_⟩
    rw [hfs, hsame fd h.1]
    exact h.2
  | ⟨own, .failed fd⟩, h => exact h

variable [DecidableEq ι]

theorem Inv.advance (h : Inv b path σ c) (hs : Safe moves (Allowed b path) Ends p' s')
    (hframe : ∀ x, c.state.sockets x ≠ none → x ∉ (σ i).own → k'.sockets x = c.state.sockets x)
    (hnew : ∀ x ∈ s'.own, k'.sockets x ≠ none ∧ (x ∈ (σ i).own ∨ c.state.sockets x = none))
    (hself : Placed path ⟨Function.update c.progs i p', k'⟩ s')
    (hothers : ∀ j, j ≠ i → Placed path ⟨Function.update c.progs i p', k'⟩ (σ j)) :
    Inv b path (Function.update σ i s') ⟨Function.update c.progs i p', k'⟩ := by
  have hforeign : ∀ j x, j ≠ i → x ∈ (σ j).own → x ∉ s'.own := by
    intro j x hj hx hx'
    rcases (hnew x hx').2 with hi | hn
    · exact hj (h.apart j i x hx hi)
    · exact h.opened j x hx hn
  constructor
  · intro j
    by_cases hj : j = i
    · subst hj
      simpa using hs
    · simpa [hj] using h.follows j
  · intro j₁ j₂ x h₁ h₂
    by_cases hj₁ : j₁ = i <;> by_cases hj₂ : j₂ = i
    · rw [hj₁, hj₂]
    · subst hj₁
      simp only [Function.update_self, Function.update_of_ne hj₂] at h₁ h₂
      exact absurd h₁ (hforeign j₂ x hj₂ h₂)
    · subst hj₂
      simp only [Function.update_self, Function.update_of_ne hj₁] at h₁ h₂
      exact absurd h₂ (hforeign j₁ x hj₁ h₁)
    · rw [Function.update_of_ne hj₁] at h₁
      rw [Function.update_of_ne hj₂] at h₂
      exact h.apart j₁ j₂ x h₁ h₂
  · intro j x hx
    by_cases hj : j = i
    · subst hj
      rw [Function.update_self] at hx
      exact (hnew x hx).1
    · rw [Function.update_of_ne hj] at hx
      show k'.sockets x ≠ none
      rw [hframe x (h.opened j x hx) fun hi => hj (h.apart j i x hx hi)]
      exact h.opened j x hx
  · intro j
    by_cases hj : j = i
    · subst hj
      rw [Function.update_self]
      exact hself
    · rw [Function.update_of_ne hj]
      exact hothers j hj

theorem held_of_step (hp : c.progs i = .op o rest) (hfs : k'.fs path = c.state.fs path)
    (hopen : ∀ id, c.state.fs path = some (.socket id) → k'.sockets id ≠ none →
      c.state.sockets id ≠ none)
    (hclose : ∀ id, o = .close id → k'.sockets id = none)
    (h : Held ⟨Function.update c.progs i p', k'⟩ path) : Held c path := by
  obtain ⟨id, hid, hs, hprogs⟩ := h
  rw [hfs] at hid
  refine ⟨id, hid, hopen id hid hs, fun j rest' hj => ?_⟩
  by_cases hji : j = i
  · subst hji
    rw [hp] at hj
    cases hj
    exact hs (hclose id rfl)
  · refine hprogs j rest' ?_
    rw [← hj]
    exact Function.update_of_ne hji _ _

theorem Inv.quiet (h : Inv b path σ c) (hp : c.progs i = .op o rest)
    (hs : Safe moves (Allowed b path) Ends p' s') (hfs : k'.fs = c.state.fs)
    (hkeep : ∀ x, x ∉ (σ i).own → ¬c.state.Fresh x → k'.sockets x = c.state.sockets x)
    (hnew : ∀ x ∈ s'.own, k'.sockets x ≠ none ∧ (x ∈ (σ i).own ∨ c.state.Fresh x))
    (hclose : ∀ id, o = .close id → k'.sockets id = none)
    (hself : (Held ⟨Function.update c.progs i p', k'⟩ path → Held c path) →
      Placed path ⟨Function.update c.progs i p', k'⟩ s') :
    Inv b path (Function.update σ i s') ⟨Function.update c.progs i p', k'⟩ := by
  have hframe : ∀ x, c.state.sockets x ≠ none → x ∉ (σ i).own →
      k'.sockets x = c.state.sockets x := fun x hx hi => hkeep x hi fun hf => hx hf.1
  have hheld : Held ⟨Function.update c.progs i p', k'⟩ path → Held c path := by
    apply held_of_step hp (congrFun hfs path) _ hclose
    intro id hid hx
    by_cases hi : id ∈ (σ i).own
    · exact h.opened i id hi
    · rwa [← hkeep id hi fun hf => hf.2 path hid]
  apply h.advance hs hframe _ (hself hheld)
  · intro j hj
    apply (h.placed j).frame (congrFun hfs path) _ hheld
    exact fun x hx => hframe x (h.opened j x hx) fun hi => hj (h.apart j i x hx hi)
  · intro x hx
    exact ⟨(hnew x hx).1, (hnew x hx).2.imp_right And.left⟩

theorem Inv.still (h : Inv b path σ c) (hp : c.progs i = .op o rest)
    (hs : Safe moves (Allowed b path) Ends p' s') (hown : s'.own = (σ i).own)
    (ho : ∀ id, o ≠ .close id)
    (hself : (Held ⟨Function.update c.progs i p', c.state⟩ path → Held c path) →
      Placed path ⟨Function.update c.progs i p', c.state⟩ s') :
    Inv b path (Function.update σ i s') ⟨Function.update c.progs i p', c.state⟩ := by
  apply h.quiet hp hs rfl (fun _ _ _ => rfl) _ (fun id hid => absurd hid (ho id)) hself
  intro x hx
  rw [hown] at hx
  exact ⟨h.opened i x hx, .inl hx⟩

theorem Inv.setSocket (h : Inv b path σ c) {st : Option SocketState} (hp : c.progs i = .op o rest)
    (hs : Safe moves (Allowed b path) Ends p' s') (hfd : fd ∈ (σ i).own ∨ c.state.Fresh fd)
    (hown : ∀ x ∈ s'.own, if x = fd then st ≠ none else x ∈ (σ i).own)
    (hclose : ∀ id, o = .close id → id = fd ∧ st = none)
    (hself : (Held ⟨Function.update c.progs i p', c.state.setSocket fd st⟩ path → Held c path) →
      Placed path ⟨Function.update c.progs i p', c.state.setSocket fd st⟩ s') :
    Inv b path (Function.update σ i s')
      ⟨Function.update c.progs i p', c.state.setSocket fd st⟩ := by
  have hat : (c.state.setSocket fd st).sockets fd = st := Function.update_self ..
  apply h.quiet hp hs (c.state.setSocket_fs fd st) _ _ _ hself
  · intro x hx hf
    apply c.state.setSocket_sockets_ne
    rintro rfl
    exact hfd.elim hx hf
  · intro x hx
    by_cases hxfd : x = fd
    · subst hxfd
      rw [hat]
      exact ⟨by simpa using hown x hx, hfd⟩
    · have hi : x ∈ (σ i).own := by simpa [hxfd] using hown x hx
      rw [c.state.setSocket_sockets_ne _ hxfd]
      exact ⟨h.opened i x hi, .inl hi⟩
  · intro id hid
    obtain ⟨rfl, rfl⟩ := hclose id hid
    exact hat

theorem Inv.bind {addr : SockaddrUn} {len : ℕ} {u : Unit} (h : Inv b path σ c) {own : Set Fd}
    (hσ : σ i = ⟨own, .away⟩) (hfd : fd ∈ own) (ha : addr.pathname b len = path)
    (hs : Safe moves (Allowed b path) Ends p' ⟨own, .bound fd⟩)
    (hk : step b c.state (.bind fd addr len) (.ok u) k') (ho : ∀ j, ¬Condemns path (c.progs j)) :
    Inv b path (Function.update σ i ⟨own, .bound fd⟩) ⟨Function.update c.progs i p', k'⟩ := by
  simp only [step, ha] at hk
  cases hfree : c.state.fs path with
  | some e => simp [hfree] at hk
  | none =>
    simp only [hfree] at hk
    subst hk
    have hne : ∀ x, x ≠ fd →
        ((c.state.setEntry path (some (.socket fd))).setSocket fd (some .bound)).sockets x =
          c.state.sockets x := fun x hx => Kernel.setSocket_sockets_ne _ _ hx
    have hfdi : fd ∈ (σ i).own := by
      rw [hσ]
      exact hfd
    apply h.advance hs
    · intro x _ hx
      apply hne
      rintro rfl
      exact hx hfdi
    · intro x hx
      have hxi : x ∈ (σ i).own := by
        rw [hσ]
        exact hx
      refine ⟨?_, .inl hxi⟩
      by_cases hxfd : x = fd
      · subst hxfd
        simp [Kernel.setSocket]
      · rw [hne x hxfd]
        exact h.opened i x hxi
    · refine ⟨hfd, ?_⟩
      by_cases hp : path = []
      · exact .inl hp
      · right
        simp [Kernel.setEntry, hp]
    · intro j hj
      have hpl := h.placed j
      -- whoever was further on had an entry at the path, where the kernel found none
      obtain ⟨own', standing, hσj⟩ : ∃ own' standing, σ j = ⟨own', standing⟩ := ⟨_, _, rfl⟩
      rw [hσj] at hpl ⊢
      cases standing with
      | away => trivial
      | refused probe => exact absurd (h.condemns (.inl ⟨probe, hσj⟩)) (ho j)
      | doomed => exact absurd (h.condemns (.inr hσj)) (ho j)
      | bound fd' =>
        rw [Placed, hfree] at hpl
        exact ⟨hpl.1, .inl (hpl.2.resolve_right (by rintro ⟨⟩))⟩
      | narrowed fd' =>
        rw [Placed, hfree] at hpl
        cases hpl.2
      | serving fd' =>
        rw [Placed, hfree] at hpl
        cases hpl.2.1
      | failed fd' => exact hpl

theorem Inv.unlinkat {u : Unit} (h : Inv b path σ c) {own : Set Fd}
    {rest : Answer (.unlinkat path) → _} (hp : c.progs i = .op (.unlinkat path) rest)
    (hσ : σ i = ⟨own, .doomed⟩) (hs : Safe moves (Allowed b path) Ends p' ⟨own, .away⟩)
    (hk : step b c.state (.unlinkat path) (.ok u) k') :
    Inv b path (Function.update σ i ⟨own, .away⟩) ⟨Function.update c.progs i p', k'⟩ := by
  obtain ⟨hn, -, rfl⟩ := hk
  have hfree : ¬Held c path := by
    have hpl := h.placed i
    rw [hσ] at hpl
    exact hpl
  have hpath : path ≠ [] := by
    rintro rfl
    exact hn c.state.unnamed
  have hgone : (c.state.setEntry path none).fs path = none := by simp [Kernel.setEntry, hpath]
  have hnot : ¬Held ⟨Function.update c.progs i p', c.state.setEntry path none⟩ path := by
    rintro ⟨id, hid, -⟩
    rw [hgone] at hid
    cases hid
  apply h.advance hs
  · exact fun _ _ _ => rfl
  · intro x hx
    have hxi : x ∈ (σ i).own := by
      rw [hσ]
      exact hx
    exact ⟨h.opened i x hxi, .inl hxi⟩
  · trivial
  · intro j hj
    have hpl := h.placed j
    have hheld := h.held j
    -- a call that has the path in its hands would make it held
    obtain ⟨own', standing, hσj⟩ : ∃ own' standing, σ j = ⟨own', standing⟩ := ⟨_, _, rfl⟩
    rw [hσj] at hpl hheld ⊢
    cases standing with
    | away => trivial
    | refused _ => exact hnot
    | doomed => exact hnot
    | bound fd' => exact absurd (hheld fd' hpl.1 (hpl.2.resolve_left hpath) id) hfree
    | narrowed fd' => exact absurd (hheld fd' hpl.1 hpl.2 id) hfree
    | serving fd' => exact absurd (hheld fd' hpl.1 hpl.2.1 id) hfree
    | failed fd' => exact hpl

theorem Inv.close {own : Set Fd} {st st' : Standing} {rest : Answer (.close fd) → _}
    (h : Inv b path σ c) (hp : c.progs i = .op (.close fd) rest) (hσ : σ i = ⟨own, st⟩)
    (hs : Safe moves (Allowed b path) Ends p' ⟨own \ {fd}, st'⟩)
    (hself : (Held ⟨Function.update c.progs i p', c.state.setSocket fd none⟩ path → Held c path) →
      Placed path ⟨Function.update c.progs i p', c.state.setSocket fd none⟩ ⟨own \ {fd}, st'⟩) :
    ∃ s', Inv b path (Function.update σ i s')
      ⟨Function.update c.progs i p', c.state.setSocket fd none⟩ := by
  refine ⟨_, h.setSocket hp hs (.inl (h.close_own hp)) ?_ ?_ hself⟩
  · rintro x ⟨hx, hne⟩
    have hxfd : x ≠ fd := hne
    rw [if_neg hxfd, hσ]
    exact hx
  · rintro id ⟨⟩
    exact ⟨rfl, rfl⟩

theorem Inv.opens {own : Set Fd} {rest : Answer .socket → _} (h : Inv b path σ c) (hp : c.progs i = .op .socket rest)
    (hσ : σ i = ⟨own, .away⟩) (hfresh : c.state.Fresh fd)
    (hs : Safe moves (Allowed b path) Ends p' ⟨insert fd own, .away⟩) :
    Inv b path (Function.update σ i ⟨insert fd own, .away⟩)
      ⟨Function.update c.progs i p', c.state.setSocket fd (some .unbound)⟩ := by
  refine h.setSocket hp hs (.inr hfresh) ?_ (by simp) fun _ => trivial
  intro x hx
  split_ifs with hxfd
  · simp
  · rw [hσ]
    exact hx.resolve_left hxfd

theorem Inv.refuses {own : Set Fd} {addr : SockaddrUn} {len : ℕ} {e : Errno} {rest : Answer (.connect fd addr len) → _}
    (h : Inv b path σ c) (hp : c.progs i = .op (.connect fd addr len) rest) (hσ : σ i = ⟨own, .away⟩)
    (hr : c.state.Listening b path → e ≠ .ECONNREFUSED) (ho : Held c path → c.state.Listening b path)
    (hs : Safe moves (Allowed b path) Ends p' ⟨own, if e = .ECONNREFUSED then .refused fd else .away⟩) :
    Inv b path (Function.update σ i ⟨own, if e = .ECONNREFUSED then .refused fd else .away⟩)
      ⟨Function.update c.progs i p', c.state⟩ := by
  refine h.still hp hs (by rw [hσ]) (by simp) fun hheld => ?_
  split_ifs with he
  · exact fun hh => hr (ho (hheld hh)) he
  · trivial

theorem Inv.narrows {own : Set Fd} {mode : ℕ} {rest : Answer (.chmod path mode) → _} (h : Inv b path σ c)
    (hp : c.progs i = .op (.chmod path mode) rest) (hσ : σ i = ⟨own, .bound fd⟩) (hn : c.state.resolve b path ≠ none)
    (hs : Safe moves (Allowed b path) Ends p' ⟨own, .narrowed fd⟩) :
    Inv b path (Function.update σ i ⟨own, .narrowed fd⟩) ⟨Function.update c.progs i p', c.state⟩ := by
  have hpl := h.placed i
  rw [hσ] at hpl
  refine h.still hp hs (by rw [hσ]) (by simp) fun _ => ⟨hpl.1, ?_⟩
  refine hpl.2.resolve_left ?_
  rintro rfl
  exact hn (c.state.resolve_nil b)

theorem Inv.listens {own : Set Fd} {rest : Answer (.listen fd) → _} (h : Inv b path σ c)
    (hp : c.progs i = .op (.listen fd) rest) (hσ : σ i = ⟨own, .narrowed fd⟩)
    (hs : Safe moves (Allowed b path) Ends p' ⟨own, .serving fd⟩) :
    Inv b path (Function.update σ i ⟨own, .serving fd⟩)
      ⟨Function.update c.progs i p', c.state.setSocket fd (some .listening)⟩ := by
  have hpl := h.placed i
  rw [hσ] at hpl
  refine h.setSocket hp hs (.inl (by rw [hσ]; exact hpl.1)) ?_ (by simp)
    fun _ => ⟨hpl.1, hpl.2, Function.update_self ..⟩
  intro x hx
  split_ifs
  · simp
  · rw [hσ]
    exact hx

theorem Inv.step (h : Inv b path σ c) (hstep : Pool.Step (step b) i o r c c')
    (ho : Orderly b path c o r) : ∃ s', Inv b path (Function.update σ i s') c' := by
  obtain ⟨p', hstep, hprogs⟩ := hstep.program
  obtain ⟨progs', k'⟩ := c'
  obtain rfl : progs' = _ := hprogs
  generalize hp : c.progs i = p at hstep
  obtain ⟨rest, rfl, rfl, hk⟩ : ∃ rest, p = .op o rest ∧ p' = rest r ∧ Net.step b c.state o r k' := by
    cases hstep with
    | intro hk => exact ⟨_, rfl, rfl, hk⟩
  have hf := h.follows i
  rw [hp] at hf
  obtain ⟨hallow, hnext⟩ := hf
  have hpl := h.placed i
  generalize hσ : σ i = s at hallow hnext hpl
  match s, o, hallow with
  | ⟨own, .away⟩, .socket, _ =>
    rcases r with e | fd
    · cases hk
      exact ⟨_, h.still hp (hnext _ _ rfl) (by rw [hσ]) (by simp) fun _ => trivial⟩
    · obtain ⟨hfresh, rfl⟩ := hk
      have hnot : fd ∉ own := by
        intro hmem
        exact h.opened i fd (by rw [hσ]; exact hmem) hfresh.1
      exact ⟨_, h.opens hp hσ hfresh (hnext _ _ ⟨hnot, rfl⟩)⟩
  | ⟨own, .away⟩, .fcntlCloexec fd, _ =>
    rcases r with e | u <;> obtain rfl := hk
    · exact ⟨_, h.still hp (hnext _ _ rfl) (by rw [hσ]) (by simp) fun _ => trivial⟩
    · exact ⟨_, h.still hp (hnext _ _ rfl) (by rw [hσ]) (by simp) fun _ => trivial⟩
  | ⟨own, .away⟩, .bind fd addr len, ⟨hfd, ha⟩ =>
    rcases r with e | u
    · obtain rfl : k' = c.state := by
        simp only [Net.step] at hk
        split at hk <;> simp_all
      exact ⟨_, h.still hp (hnext _ _ rfl) (by rw [hσ]) (by simp) fun _ => trivial⟩
    · exact ⟨_, h.bind hσ hfd ha (hnext _ _ rfl) hk ho⟩
  | ⟨own, .away⟩, .connect probe addr len, ha =>
    obtain ⟨rfl, hr⟩ := hk
    rcases r with e | u
    · exact ⟨_, h.refuses hp hσ (ha ▸ hr.1) ho (hnext _ _ rfl)⟩
    · exact ⟨_, h.still hp (hnext _ _ rfl) (by rw [hσ]) (by simp) fun _ => trivial⟩
  | ⟨own, .away⟩, .close fd, hfd =>
    obtain rfl := hk
    exact h.close hp hσ (hnext _ _ rfl) fun _ => trivial
  | ⟨own, .refused probe⟩, .close fd, ⟨_, hfd⟩ =>
    obtain rfl := hk
    exact h.close hp hσ (hnext _ _ rfl) fun hheld hh => hpl (hheld hh)
  | ⟨own, .doomed⟩, .unlinkat p, hpath =>
    obtain rfl := hpath
    rcases r with e | u
    · obtain rfl := hk
      exact ⟨_, h.still hp (hnext _ _ rfl) (by rw [hσ]) (by simp) fun _ => trivial⟩
    · exact ⟨_, h.unlinkat hp hσ (hnext _ _ rfl) hk⟩
  | ⟨own, .bound fd⟩, .chmod p mode, hpath =>
    obtain rfl := hpath
    rcases r with e | u
    · obtain rfl := hk
      exact ⟨_, h.still hp (hnext _ _ rfl) (by rw [hσ]) (by simp) fun _ => hpl.1⟩
    · obtain ⟨hn, rfl⟩ := hk
      exact ⟨_, h.narrows hp hσ hn (hnext _ _ rfl)⟩
  | ⟨own, .narrowed fd⟩, .listen fd', hfd =>
    obtain rfl := hfd
    rcases r with e | u
    · obtain rfl := hk
      exact ⟨_, h.still hp (hnext _ _ rfl) (by rw [hσ]) (by simp) fun _ => hpl.1⟩
    · obtain rfl := hk
      exact ⟨_, h.listens hp hσ (hnext _ _ rfl)⟩
  | ⟨own, .failed fd⟩, .close fd', hfd =>
    obtain rfl := hk
    exact h.close hp hσ (hnext _ _ rfl) fun _ => trivial

def racing (b : Backend) (path : Path) (errno : ι → Errno) (k : Kernel) :
    Pool ι Answer (Result Fd × Errno) Kernel := ⟨fun i => unixListen b path (errno i), k⟩

def OrderlyReaches (b : Backend) (path : Path) :
    Pool ι Answer (Result Fd × Errno) Kernel → Pool ι Answer (Result Fd × Errno) Kernel → Prop :=
  Relation.ReflTransGen fun c c' => ∃ i o r, Pool.Step (Net.step b) i o r c c' ∧ Orderly b path c o r

theorem inv_of_reaches {errno : ι → Errno} {k : Kernel}
    (h : OrderlyReaches b path (racing b path errno k) c) : ∃ σ, Inv b path σ c := by
  induction h with
  | refl =>
    refine ⟨fun _ => .start, fun i => unixListen_moves b path (errno i), ?_, ?_, fun _ => trivial⟩
    · rintro i j fd ⟨⟩
    · rintro i fd ⟨⟩
  | tail _ hs ih =>
    obtain ⟨σ, h⟩ := ih
    obtain ⟨i, o, r, hs, ho⟩ := hs
    obtain ⟨s', h'⟩ := h.step hs ho
    exact ⟨_, h'⟩

theorem orderly_listeners_keep_path (b : Backend) (path : Path) (errno : ι → Errno) (k : Kernel)
    (c : Pool ι Answer (Result Fd × Errno) Kernel)
    (h : OrderlyReaches b path (racing b path errno k) c) :
    (∀ i p c', Pool.Step (Net.step b) i (.unlinkat p) (.ok ()) c c' → p = path ∧ ¬Held c p) ∧
    (∀ i fd e, c.progs i = .ret (.ok fd, e) →
      c.state.fs path = some (.socket fd) ∧ c.state.sockets fd = some .listening) ∧
    ∀ i j fd fd' e e', c.progs i = .ret (.ok fd, e) → c.progs j = .ret (.ok fd', e') → i = j := by
  obtain ⟨σ, h⟩ := inv_of_reaches h
  have hserve : ∀ i fd e, c.progs i = .ret (.ok fd, e) →
      Placed path c ⟨(σ i).own, .serving fd⟩ := by
    intro i fd e hi
    have hf := h.follows i
    rw [hi] at hf
    have hst : (σ i).standing = .serving fd := hf
    rw [← hst]
    exact h.placed i
  refine ⟨?_, fun i fd e hi => (hserve i fd e hi).2, ?_⟩
  · intro i p c' hs
    obtain ⟨p', hs, -⟩ := hs.program
    have hf := h.follows i
    have hpl := h.placed i
    generalize hp : c.progs i = q at hs hf
    cases hs with
    | intro hk =>
      match hσ : σ i, hf.1, hpl with
      | ⟨own, .doomed⟩, hpath, hpl =>
        obtain rfl := hpath
        exact ⟨rfl, hpl⟩
  · intro i j fd fd' e e' hi hj
    obtain ⟨hown, hfs, -⟩ := hserve i fd e hi
    obtain ⟨hown', hfs', -⟩ := hserve j fd' e' hj
    obtain rfl : fd = fd' := by
      rw [hfs] at hfs'
      cases hfs'
      rfl
    exact h.apart i j fd hown hown'

theorem OrderlyReaches.op {c₀ : Pool ι Answer (Result Fd × Errno) Kernel}
    (h : OrderlyReaches b path c₀ c) (i : ι) (o : SysCall) (r : Answer o) (k' : Kernel)
    {rest : Answer o → _} (hp : c.progs i = .op o rest) (hk : Net.step b c.state o r k')
    (ho : Orderly b path c o r) :
    OrderlyReaches b path c₀ ⟨Function.update c.progs i (rest r), k'⟩ :=
  .tail h ⟨i, o, r, .op hp hk, ho⟩

end Interleaved

def opened (k : Kernel) (fd : Fd) : Kernel := k.setSocket fd (some .unbound)

def bound (k : Kernel) (fd : Fd) : Kernel :=
  (k.setEntry [47, 115] (some (.socket fd))).setSocket fd (some .bound)

theorem bound_resolve (k : Kernel) (fd : Fd) :
    (bound k fd).resolve .linux [47, 115] = some (.socket fd) := by
  simp [bound, Kernel.resolve, Kernel.maxSymlinks, Kernel.follow, Kernel.setEntry]

theorem Kernel.Fresh.setSocket {k : Kernel} {fd id : Fd} (h : k.Fresh id) (hne : id ≠ fd) (s : Option SocketState) :
    (k.setSocket fd s).Fresh id := by
  refine ⟨?_, h.2⟩
  rw [k.setSocket_sockets_ne _ hne]
  exact h.1

theorem fresh_opened {k : Kernel} {fd id : Fd} (h : k.Fresh id) (hne : id ≠ fd) : (opened k fd).Fresh id :=
  h.setSocket hne _

theorem fresh_bound {k : Kernel} {fd id : Fd} (h : k.Fresh id) (hne : id ≠ fd) :
    (bound k fd).Fresh id := by
  constructor
  · rw [bound, Kernel.setSocket_sockets_ne _ _ hne]
    exact h.1
  · intro p hp
    by_cases hpath : p = [47, 115]
    · subst hpath
      have hfs : (bound k fd).fs [47, 115] = some (.socket fd) := by simp [bound, Kernel.setEntry]
      rw [hfs] at hp
      cases hp
      exact hne rfl
    · rw [bound, Kernel.setSocket_fs, Kernel.setEntry_fs_ne _ _ hpath] at hp
      exact h.2 p hp

theorem fresh_empty (id : Fd) : Kernel.empty.Fresh id := ⟨rfl, fun _ => by rintro ⟨⟩⟩

theorem first_keeps_path :
    ∃ c, OrderlyReaches .linux [47, 115] (racing .linux [47, 115] (fun _ : Bool => .ENOENT) .empty) c ∧
      c.progs false = .ret (.ok 0, .ENOENT) ∧
      c.progs true = .ret (.error (.new .addrInUse (.errno 98) "bind"), .EADDRINUSE) ∧
      c.state.fs [47, 115] = some (.socket 0) ∧ c.state.sockets 0 = some .listening := by
  have h₀ : OrderlyReaches .linux [47, 115] (racing .linux [47, 115] (fun _ : Bool => .ENOENT) .empty)
      (racing .linux [47, 115] (fun _ : Bool => .ENOENT) .empty) := .refl
  have h₁ := h₀.op false .socket (.ok 0) (opened .empty 0) rfl ⟨⟨rfl, fun _ => by rintro ⟨⟩⟩, rfl⟩ trivial
  have h₂ := h₁.op false (.bind 0 _ _) (.ok ()) (bound (opened .empty 0) 0) rfl rfl
    (by rintro (_ | _) <;> exact id)
  have h₃ := h₂.op false (.chmod _ _) (.ok ()) (bound (opened .empty 0) 0) rfl
    ⟨by rw [bound_resolve]; exact Option.some_ne_none _, rfl⟩ trivial
  let k := (bound (opened .empty 0) 0).setSocket 0 (some .listening)
  have h₄ := h₃.op false (.listen 0) (.ok ()) k rfl rfl trivial
  -- the second comes to a path that is held, and its probe finds the first listening
  have hfresh : ∀ {fd}, fd ≠ 0 → k.Fresh fd := fun hne => (fresh_bound (fresh_opened (fresh_empty _) hne) hne).setSocket hne _
  have hlistening : (opened (opened k 1) 2).Listening .linux [47, 115] := ⟨0, bound_resolve (opened .empty 0) 0, rfl⟩
  have h₅ := h₄.op true .socket (.ok 1) (opened k 1) rfl ⟨hfresh (by decide), rfl⟩ trivial
  have h₆ := h₅.op true (.bind 1 _ _) (.error .EADDRINUSE) (opened k 1) rfl ⟨rfl, rfl⟩ trivial
  have h₇ := h₆.op true .socket (.ok 2) (opened (opened k 1) 2) rfl
    ⟨fresh_opened (hfresh (by decide)) (by decide), rfl⟩ trivial
  have h₈ := h₇.op true (.connect 2 _ _) (.ok ()) (opened (opened k 1) 2) rfl ⟨rfl, .inr hlistening⟩ fun _ => hlistening
  have h₉ := h₈.op true (.close 2) (.ok ()) _ rfl rfl trivial
  have h₁₀ := h₉.op true (.close 1) (.ok ()) _ rfl rfl trivial
  exact ⟨_, h₁₀, rfl, rfl, (orderly_listeners_keep_path _ _ _ _ _ h₁₀).2.1 false 0 .ENOENT rfl⟩

theorem binds :
    ∃ p, Reaches (step .linux) (unixListen .linux [47, 115] .ENOENT, .empty)
        (p, bound (opened .empty 0) 0) ∧
      (∀ rest, p ≠ .op (.close 0) rest) ∧
      ∀ k, k.resolve .linux [47, 115] ≠ none →
        Reaches (step .linux) (p, k) (.ret (.ok 0, .ENOENT), k.setSocket 0 (some .listening)) := by
  have h₀ : Reaches (step .linux) (unixListen .linux [47, 115] .ENOENT, .empty) _ := .refl
  have h₁ := h₀.op .socket (.ok 0) (opened .empty 0) rfl ⟨fresh_empty 0, rfl⟩
  have h₂ := h₁.op (.bind 0 _ _) (.ok ()) (bound (opened .empty 0) 0) rfl rfl
  refine ⟨_, h₂, by rintro rest ⟨⟩, fun k hk => ?_⟩
  refine reaches_op.mpr (.inr ⟨.ok (), k, ⟨hk, rfl⟩, ?_⟩)
  exact reaches_op.mpr (.inr ⟨.ok (), _, rfl, .refl⟩)

theorem takes_over :
    ∃ rest k, Reaches (step .linux) (unixListen .linux [47, 115] .ENOENT, bound (opened .empty 0) 0)
        (.op (.unlinkat [47, 115]) rest, k) ∧
      k.fs [47, 115] = some (.socket 0) ∧ k.sockets 0 = some .bound ∧
      ∃ k', k'.resolve .linux [47, 115] ≠ none ∧
        Reaches (step .linux) (rest (.ok ()), k.setEntry [47, 115] none)
          (.ret (.ok 1, .ECONNREFUSED), k') := by
  let k₁ := bound (opened .empty 0) 0
  let k₂ := opened (opened k₁ 1) 2
  have hfresh : k₁.Fresh 1 := fresh_bound (fresh_opened (fresh_empty 1) (by decide)) (by decide)
  have hfresh' : (opened k₁ 1).Fresh 2 :=
    fresh_opened (fresh_bound (fresh_opened (fresh_empty 2) (by decide)) (by decide)) (by decide)
  have hquiet : ¬k₂.Listening .linux [47, 115] := by
    rintro ⟨id, hid, hs⟩
    have h0 : k₂.resolve .linux [47, 115] = some (.socket 0) := bound_resolve (opened .empty 0) 0
    rw [h0] at hid
    cases hid
    cases hs
  have h₀ : Reaches (step .linux) (unixListen .linux [47, 115] .ENOENT, k₁) _ := .refl
  have h₁ := h₀.op .socket (.ok 1) (opened k₁ 1) rfl ⟨hfresh, rfl⟩
  have h₂ := h₁.op (.bind 1 _ _) (.error .EADDRINUSE) (opened k₁ 1) rfl ⟨rfl, rfl⟩
  have h₃ := h₂.op .socket (.ok 2) k₂ rfl ⟨hfresh', rfl⟩
  have h₄ := h₃.op (.connect 2 _ _) (.error .ECONNREFUSED) k₂ rfl
    ⟨rfl, fun hl => absurd hl hquiet, fun _ _ => rfl⟩
  have h₅ := h₄.op (.close 2) (.ok ()) (k₂.setSocket 2 none) rfl rfl
  let k₃ := bound ((k₂.setSocket 2 none).setEntry [47, 115] none) 1
  have hres : (k₃.setSocket 1 (some .listening)).resolve .linux [47, 115] = some (.socket 1) :=
    bound_resolve ((k₂.setSocket 2 none).setEntry [47, 115] none) 1
  refine ⟨_, _, h₅, rfl, rfl, k₃.setSocket 1 (some .listening), ?_, ?_⟩
  · rw [hres]
    exact Option.some_ne_none _
  · refine reaches_op.mpr (.inr ⟨.ok (), k₃, rfl, ?_⟩)
    refine reaches_op.mpr (.inr ⟨.ok (), _, ⟨?_, rfl⟩, ?_⟩)
    · rw [bound_resolve]
      exact Option.some_ne_none _
    · exact reaches_op.mpr (.inr ⟨.ok (), _, rfl, .refl⟩)

theorem starting_listener_unlinked :
    ∃ c c' d, Pool.Reaches (step .linux)
        (racing .linux [47, 115] (fun _ : Bool => .ENOENT) .empty) c ∧
      Held c [47, 115] ∧ Pool.Step (step .linux) true (.unlinkat [47, 115]) (.ok ()) c c' ∧
      Pool.Reaches (step .linux) c' d ∧
      d.progs false = .ret (.ok 0, .ENOENT) ∧ d.progs true = .ret (.ok 1, .ECONNREFUSED) := by
  obtain ⟨p, hp, hnot, hrest⟩ := binds
  obtain ⟨rest, k, hk, hfs, hs, k', hk', hrest'⟩ := takes_over
  let c₀ := racing .linux [47, 115] (fun _ : Bool => .ENOENT) .empty
  let c₁ : Pool Bool Answer (Result Fd × Errno) Kernel :=
    ⟨Function.update (Function.update c₀.progs false p) true (.op (.unlinkat [47, 115]) rest), k⟩
  let c₂ : Pool Bool Answer (Result Fd × Errno) Kernel :=
    ⟨Function.update c₁.progs true (rest (.ok ())), k.setEntry [47, 115] none⟩
  have h₁ : Pool.Reaches (step .linux) c₀ c₁ := (Pool.Reaches.run .refl false hp).run true hk
  have h₂ : Pool.Step (step .linux) true (.unlinkat [47, 115]) (.ok ()) c₁ c₂ := by
    apply Pool.Step.op rfl
    refine ⟨?_, ?_, rfl⟩
    · exact ne_of_eq_of_ne hfs (Option.some_ne_none _)
    · exact ne_of_eq_of_ne hfs (by rintro ⟨⟩)
  have h₃ := (Pool.Reaches.run (c := c₂) .refl true hrest').run false (hrest k' hk')
  refine ⟨c₁, c₂, _, h₁, ⟨0, hfs, ?_, ?_⟩, h₂, h₃, rfl, rfl⟩
  · exact ne_of_eq_of_ne hs (Option.some_ne_none _)
  · rintro (_ | _) rest₀ h
    · exact hnot rest₀ h
    · cases h

end Rustils.Net
