import Rustils.Pty.LinuxMoves

namespace Rustils.Pty.LinuxPty

open Platform Lib.Program Process
open Mock.Pty (WinSize)

variable {i j : Session} {k k' : Kernel} {fd : Fd} {p q : Tty} {t t' : Terminal} {c : Family} {ch ch' : Child}
  {pid : Pid} {asked : Option Winsize} {locked : Bool} {path : Path}

section Phases

def Bare (i : Session) (k : Kernel) : Prop := ∀ fd e, k.table fd = some e → e.owner ≠ some i

def Only (i : Session) (fd : Fd) (k : Kernel) : Prop := ∀ fd' e, k.table fd' = some e → e.owner = some i → fd' = fd

def Childless (i : Session) (k : Kernel) : Prop := ∀ c ch, k.families c = some ch → ch.session ≠ some i

def OnlyChild (i : Session) (c : Family) (k : Kernel) : Prop :=
  ∀ c' ch, k.families c' = some ch → ch.session = some i → c' = c

def Idle (i : Session) (k : Kernel) : Prop := Confined k ∧ Bare i k ∧ Childless i k

def Opened (i : Session) (fd : Fd) (p : Tty) (path : Path) (locked : Bool) (k : Kernel) : Prop :=
  Confined k ∧ Only i fd k ∧ Childless i k ∧ ∃ t, Own i k fd p t ∧ t.path = path ∧ t.locked = locked ∧ t.given = none

def Attached (i : Session) (fd : Fd) (p : Tty) (c : Family) (pid : Pid) (asked : Option Winsize) (k : Kernel) : Prop :=
  Confined k ∧ Only i fd k ∧ OnlyChild i c k ∧ ∃ t ch, Hosts i k fd p t c ch ∧ ch.pid = pid ∧ t.asked = asked

def Past (i : Session) (c : Family) (pid : Pid) (k : Kernel) : Prop :=
  Confined k ∧ Bare i k ∧ OnlyChild i c k ∧ ∃ ch p t, k.families c = some ch ∧ ch.session = some i ∧ ch.pid = pid ∧
    ch.On p ∧ k.ttys p = some t ∧ t.given = some c

theorem Child.On.same (h : ch.On p) (hsame : ch.Same ch') : ch'.On p :=
  ⟨hsame.leads.trans h.leads, hsame.began ▸ h.stdio, hsame.began ▸ h.rest⟩

theorem Kept.bare (h : Kept i k k') (hb : Bare i k) : Bare i k' := fun fd e he howner =>
  hb fd e ((h.table fd e howner).mp he) howner

theorem Kept.only (h : Kept i k k') (ho : Only i fd k) : Only i fd k' := fun fd' e he howner =>
  ho fd' e ((h.table fd' e howner).mp he) howner

theorem Kept.childless (h : Kept i k k') (hc : Childless i k) : Childless i k' := fun c ch' hch' hsession => by
  obtain ⟨ch, hch, hsession'⟩ := h.unborn c ch' hch' hsession
  exact hc c ch hch hsession'

theorem Kept.onlyChild (h : Kept i k k') (hc : OnlyChild i c k) : OnlyChild i c k' := fun c' ch' hch' hsession => by
  obtain ⟨ch, hch, hsession'⟩ := h.unborn c' ch' hch' hsession
  exact hc c' ch hch hsession'

theorem Only.bare (h : Only i fd k) : Bare i (k.put fd none) := fun fd' e he howner => by
  rcases put_cases he with ⟨-, he⟩ | ⟨hne, he⟩
  · cases he
  · exact hne (h fd' e he howner)

theorem stable_idle (i : Session) : Stable (Rely i) (Idle i) := by
  rintro k k' ⟨hconf, hbare, hnone⟩ hm
  obtain ⟨hconf', hkept⟩ := hm hconf
  exact ⟨hconf', hkept.bare hbare, hkept.childless hnone⟩

theorem stable_opened : Stable (Rely i) (Opened i fd p path locked) := by
  rintro k k' ⟨hconf, honly, hnone, t, ho, hpath, hlocked, hgiven⟩ hm
  obtain ⟨hconf', hkept⟩ := hm hconf
  obtain ⟨t', ho', hsame⟩ := hkept.own ho
  exact ⟨hconf', hkept.only honly, hkept.childless hnone, t', ho', hsame.path.trans hpath, hsame.locked.trans hlocked,
    hsame.given.trans hgiven⟩

theorem stable_attached : Stable (Rely i) (Attached i fd p c pid asked) := by
  rintro k k' ⟨hconf, honly, hsole, t, ch, ⟨ho, hgiven, hch, hsession, hon⟩, hpid, hasked⟩ hm
  obtain ⟨hconf', hkept⟩ := hm hconf
  obtain ⟨t', ho', hsame⟩ := hkept.own ho
  obtain ⟨ch', hch', hchild⟩ := hkept.families c ch hch
  exact ⟨hconf', hkept.only honly, hkept.onlyChild hsole, t', ch',
    ⟨ho', hsame.given.trans hgiven, hch', hchild.session.trans hsession, hon.same hchild⟩, hchild.pid.trans hpid,
    hsame.asked.trans hasked⟩

theorem stable_past : Stable (Rely i) (Past i c pid) := by
  rintro k k' ⟨hconf, hbare, hsole, ch, p, t, hch, hsession, hpid, hon, ht, hgiven⟩ hm
  obtain ⟨hconf', hkept⟩ := hm hconf
  obtain ⟨ch', hch', hchild⟩ := hkept.families c ch hch
  obtain ⟨t', ht', hgiven'⟩ := hkept.given p t c ht hgiven
  exact ⟨hconf', hkept.bare hbare, hkept.onlyChild hsole, ch', p, t', hch', hchild.session.trans hsession,
    hchild.pid.trans hpid, hon.same hchild, ht', hgiven'⟩

end Phases

section Steps

theorem Idle.opened {flags : UInt32} (h : Idle i k) (hk : kernel k (.posixOpenpt i flags) (.ok fd) k')
    (hflag : flags &&& O_CLOEXEC ≠ 0) (hconf : Confined k') : ∃ p path, Opened i fd p path true k' := by
  obtain ⟨-, hbare, hnone⟩ := h
  obtain ⟨hfree, p, path, hp, -, rfl⟩ := hk
  rw [decide_eq_true hflag] at hconf ⊢
  refine ⟨p, path, hconf, fun fd' e he howner => ?_, hnone, _, ⟨put_self, setTty_self⟩, rfl, rfl, rfl⟩
  rcases put_cases he with ⟨hfd, -⟩ | ⟨-, he⟩
  · exact hfd
  · exact absurd howner (hbare fd' e he)

theorem Opened.unlocked (h : Opened i fd p path locked k) (hk : kernel k (.unlockpt fd) (.ok ()) k')
    (hconf : Confined k') : Opened i fd p path false k' := by
  obtain ⟨-, honly, hnone, t, ho, hpath, -, hgiven⟩ := h
  obtain ⟨q, t', hm, rfl⟩ := hk
  obtain ⟨rfl, rfl⟩ := ho.master hm
  exact ⟨hconf, honly, hnone, _, ⟨ho.1, setTty_self⟩, hpath, rfl, hgiven⟩

theorem Opened.named {len : ℕ} {slavePath : Path} (h : Opened i fd p path locked k)
    (hk : kernel k (.ptsname fd len) (.ok slavePath) k') : slavePath = path ∧ k' = k := by
  obtain ⟨-, -, -, t, ho, hpath, -⟩ := h
  obtain ⟨hk', q, t', hm, hslave, -⟩ := hk
  obtain ⟨rfl, rfl⟩ := ho.master hm
  exact ⟨hslave.trans hpath, hk'⟩

theorem Opened.executed {prog cwd : Path} {argv env : List (List UInt8)} (h : Opened i fd p path false k)
    (hk : kernel k (.posixSpawn i prog ((attach cwd path).map Prod.fst) POSIX_SPAWN_SETSID argv env) (.ok pid) k') :
    ∃ c asked, Attached i fd p c pid asked k' := by
  obtain ⟨hconf, honly, hnone, t, ho, rfl, hlocked, hgiven⟩ := h
  obtain ⟨c, ch, hx⟩ := executed_of_kernel hconf ho hlocked hgiven hk
  refine ⟨c, t.asked, hx.confined, ?_⟩
  rw [hx.state]
  refine ⟨honly, fun c' ch' hch' hsession => ?_, _, ch,
    ⟨⟨ho.1, setTty_self⟩, rfl, setFamily_self, hx.session, hx.on⟩, hx.pid, rfl⟩
  rcases setFamily_cases hch' with ⟨hc, -⟩ | ⟨-, hch'⟩
  · exact hc
  · exact absurd hsession (hnone c' ch' hch')

theorem Opened.closed (h : Opened i fd p path locked k) : Idle i (k.put fd none) := by
  obtain ⟨hconf, honly, hnone, -⟩ := h
  exact ⟨hconf.putNone fd, honly.bare, hnone⟩

theorem Attached.setTty {asked' : Option Winsize} (h : Attached i fd p c pid asked k) (hm : k.Master fd q t)
    (hpath : t'.path = t.path) (hgiven : t'.given = t.given) (hasked : t'.asked = asked') :
    Attached i fd p c pid asked' (k.setTty q t') := by
  obtain ⟨hconf, honly, hsole, u, ch, ⟨ho, hgiven', hch, hsession, hon⟩, hpid, -⟩ := h
  obtain ⟨rfl, rfl⟩ := ho.master hm
  exact ⟨hconf.setTty ho.2 hpath hgiven, honly, hsole, t', ch,
    ⟨⟨ho.1, setTty_self⟩, hgiven.trans hgiven', hch, hsession, hon⟩, hpid, hasked⟩

theorem Attached.resized {ws : Winsize} (h : Attached i fd p c pid asked k)
    (hk : kernel k (.setWinsize fd ws) (.ok ()) k') : Attached i fd p c pid (some ws) k' := by
  obtain ⟨q, t, hm, rfl⟩ := hk
  exact h.setTty hm rfl rfl rfl

theorem Attached.asked_eq (h : Attached i fd p c pid asked k) (hm : k.Master fd q t) : t.asked = asked := by
  obtain ⟨-, -, -, u, ch, ⟨ho, -⟩, -, hasked⟩ := h
  obtain ⟨rfl, rfl⟩ := ho.master hm
  exact hasked

theorem Attached.read {len : ℕ} {r : Except Int32 (List UInt8)} (h : Attached i fd p c pid asked k)
    (hk : kernel k (.read fd len) r k') : Attached i fd p c pid asked k' := by
  cases r with
  | error code => exact hk.1 ▸ h
  | ok bytes =>
    obtain ⟨q, t, hm, -, -, rest, -, rfl⟩ := hk
    have hasked := h.asked_eq hm
    exact h.setTty hm rfl rfl hasked

theorem Attached.write {buf : List UInt8} {r : Except Int32 ℕ} (h : Attached i fd p c pid asked k)
    (hk : kernel k (.write fd buf) r k') : Attached i fd p c pid asked k' := by
  cases r with
  | error code =>
    obtain rfl : k' = k := hk
    exact h
  | ok n =>
    obtain ⟨-, q, t, echo, hm, -, rfl⟩ := hk
    have hasked := h.asked_eq hm
    exact h.setTty hm rfl rfl hasked

theorem Attached.closed (h : Attached i fd p c pid asked k) : Past i c pid (k.put fd none) := by
  obtain ⟨hconf, honly, hsole, t, ch, ⟨ho, hgiven, hch, hsession, hon⟩, hpid, -⟩ := h
  exact ⟨hconf.putNone fd, honly.bare, hsole, ch, p, t, hch, hsession, hpid, hon, ho.2, hgiven⟩

theorem Opened.own (h : Opened i fd p path locked k) : ∃ p t, Own i k fd p t := by
  obtain ⟨-, -, -, t, ho, -⟩ := h
  exact ⟨p, t, ho⟩

theorem Attached.own (h : Attached i fd p c pid asked k) : ∃ p t, Own i k fd p t := by
  obtain ⟨-, -, -, t, ch, ⟨ho, -⟩, -⟩ := h
  exact ⟨p, t, ho⟩

theorem Attached.hosts (h : Attached i fd p c pid asked k) : ∃ p t c ch, Hosts i k fd p t c ch := by
  obtain ⟨-, -, -, t, ch, hhosts, -⟩ := h
  exact ⟨p, t, c, ch, hhosts⟩

theorem Attached.sized {ws : Winsize} (h : Attached i fd p c pid (some ws) k) :
    ∃ p t c ch, Hosts i k fd p t c ch ∧ t.asked ≠ none := by
  obtain ⟨-, -, -, t, ch, hhosts, -, hasked⟩ := h
  exact ⟨p, t, c, ch, hhosts, hasked ▸ nofun⟩

end Steps

section Programs

abbrev Steady {α : Type} (i : Session) (Q : α → Kernel → Prop) : Prog Answer α → Kernel → Prop :=
  Secure world (Rely i) (Guar i) (Sound i) Q

variable {α : Type} {Q : α → Kernel → Prop}

theorem steady_op {I : Kernel → Prop} {o : Call} {rest : Answer o → Prog Answer α} (hI : Stable (Rely i) I) (hs : I k)
    (hsound : ∀ k, I k → Sound i k o) (hconf : ∀ k, I k → Confined k)
    (hrest : ∀ k r k', I k → Confined k' → kernel k o r k' → Steady i Q (rest r) k') : Steady i Q (.op o rest) k := by
  refine Secure.op hI hs hsound ?_
  rintro k r k' hk ⟨k₁, hm, hk'⟩
  have hrely (j : Session) : Rely j k k₁ := by
    clear hk'
    induction hm with
    | refl => exact rely_refl j k
    | tail _ hstep ih => exact ih.trans (rely_elsewhere j hstep)
  have h₁ : I k₁ := hI k k₁ hk (hrely i)
  have hguar : Guar i k₁ k' := guar_kernel (hsound k₁ h₁) hk'
  have hconf' : Confined k' := (hguar (i + 1) (Nat.succ_ne_self i) (hconf k₁ h₁)).1
  exact ⟨fun j hj => (hrely j).trans (hguar j hj), hrest k₁ r k' h₁ hconf' hk'⟩

theorem steady_idle {I : Kernel → Prop} {o : Call} {rest : Answer o → Prog Answer α} (hI : Stable (Rely i) I) (hs : I k)
    (hsound : ∀ k, I k → Sound i k o) (hconf : ∀ k, I k → Confined k) (hidle : ∀ k r k', kernel k o r k' → k' = k)
    (hrest : ∀ r k, I k → Steady i Q (rest r) k) : Steady i Q (.op o rest) k :=
  steady_op hI hs hsound hconf fun k r k' hk _ hk' => hidle k r k' hk' ▸ hrest r k hk

theorem steady_ret {I : Kernel → Prop} {a : α} (hI : Stable (Rely i) I) (hs : I k) (h : ∀ k, I k → Q a k) :
    Steady i Q (.ret a) k := Secure.ret hI hs h

theorem steady_closing {Q : Result α → Kernel → Prop} (e : PlatformError) (h : Opened i fd p path locked k)
    (hQ : ∀ k, Idle i k → Q (.error e) k) : Steady i Q (closing fd e) k := by
  refine steady_op stable_opened h (fun k hk => hk.own) (fun k hk => hk.1) fun k r k' hk _ hk' => ?_
  obtain rfl : k' = k.put fd none := hk'
  exact steady_ret (stable_idle i) hk.closed hQ

theorem steady_leaving (a : α) (h : Attached i fd p c pid asked k) (hQ : ∀ k, Past i c pid k → Q a k) :
    Steady i Q (.op (.close fd) fun _ => .ret a) k := by
  refine steady_op stable_attached h (fun k hk => hk.own) (fun k hk => hk.1) fun k r k' hk _ hk' => ?_
  obtain rfl : k' = k.put fd none := hk'
  exact steady_ret stable_past hk.closed hQ

theorem steady_openPtyPair (h : Idle i k) :
    Steady i (fun r k => (∀ e, r = .error e → Idle i k) ∧
      ∀ fd path, r = .ok (fd, path) → ∃ p, Opened i fd p path false k) (openPtyPair i) k := by
  have herror (e : PlatformError) (k : Kernel) (hk : Idle i k) :
      (∀ e', (.error e : Result (Fd × Path)) = .error e' → Idle i k) ∧
        ∀ fd path, (.error e : Result (Fd × Path)) = .ok (fd, path) → ∃ p, Opened i fd p path false k :=
    ⟨fun _ _ => hk, nofun⟩
  refine steady_op (stable_idle i) h (fun k _ => ⟨rfl, by decide⟩) (fun k hk => hk.1) ?_
  rintro k (code | fd) k' hk hconf hk'
  · obtain rfl : k' = k := hk'
    exact steady_ret (stable_idle i) hk (herror _)
  obtain ⟨p, path, hopened⟩ := hk.opened hk' (by decide) hconf
  refine steady_idle stable_opened hopened (fun k hk => hk.own) (fun k hk => hk.1) (fun k r k' hk' => ?_) ?_
  · cases r <;> exact hk'
  rintro (code | ⟨⟩) k hk
  · exact steady_closing _ hk (herror _)
  refine steady_op stable_opened hk (fun k hk => hk.own) (fun k hk => hk.1) ?_
  rintro k (code | ⟨⟩) k' hk hconf hk'
  · obtain rfl : k' = k := hk'
    exact steady_closing _ hk (herror _)
  refine steady_op stable_opened (hk.unlocked hk' hconf) (fun k hk => hk.own) (fun k hk => hk.1) ?_
  rintro k (code | slavePath) k' hk hconf hk'
  · obtain rfl : k' = k := hk'
    exact steady_closing _ hk (herror _)
  obtain ⟨rfl, rfl⟩ := hk.named hk'
  refine steady_ret stable_opened hk fun k hk => ⟨nofun, fun fd' path' heq => ?_⟩
  cases heq
  exact ⟨p, hk⟩

theorem steady_addActions (as : List (Action × String × Path)) {I : Kernel → Prop} (hI : Stable (Rely i) I) (hs : I k)
    (hconf : ∀ k, I k → Confined k) : Steady i (fun _ => I) (addActions as) k := by
  induction as generalizing k with
  | nil => exact steady_ret hI hs fun _ hk => hk
  | cons a as ih =>
    refine steady_idle hI hs (fun _ _ => trivial) hconf (fun k r k' hk' => ?_) ?_
    · cases r <;> exact hk'
    rintro (code | ⟨⟩) k hk
    · exact steady_ret hI hk fun _ hk => hk
    · exact ih hk

def Launched (i : Session) (fd : Fd) (p : Tty) (path : Path) (r : Result Pid) (k : Kernel) : Prop :=
  (∀ e, r = .error e → Opened i fd p path false k) ∧ ∀ pid, r = .ok pid → ∃ c asked, Attached i fd p c pid asked k

theorem launched_error (e : PlatformError) (h : Opened i fd p path false k) : Launched i fd p path (.error e) k :=
  ⟨fun _ _ => h, nofun⟩

theorem steady_launch (s : Strings) {cwd : Path} (h : Opened i fd p path false k) :
    Steady i (Launched i fd p path) (launch i s ((attach cwd path).map Prod.fst)) k := by
  refine steady_idle stable_opened h (fun _ _ => trivial) (fun k hk => hk.1) (fun k r k' hk' => ?_) ?_
  · cases r <;> exact hk'
  rintro (code | ⟨⟩) k hk
  · exact steady_ret stable_opened hk fun _ => launched_error _
  refine steady_idle stable_opened hk (fun _ _ => trivial) (fun k hk => hk.1) (fun k r k' hk' => ?_) ?_
  · cases r <;> exact hk'
  rintro (code | ⟨⟩) k hk
  · exact steady_ret stable_opened hk fun _ => launched_error _
  refine steady_op stable_opened hk (fun k hk => ?_) (fun k hk => hk.1) ?_
  · obtain ⟨-, -, -, t, ho, hpath, hlocked, hgiven⟩ := hk
    exact ⟨rfl, rfl, fd, p, t, cwd, ho, hlocked, hgiven, hpath ▸ rfl⟩
  rintro k (code | pid) k' hk hconf hk'
  · obtain rfl : k' = k := hk'
    exact steady_ret stable_opened hk fun _ => launched_error _
  · obtain ⟨c, asked, hattached⟩ := hk.executed hk'
    refine steady_ret stable_attached hattached fun k hk => ⟨nofun, fun pid' heq => ?_⟩
    cases heq
    exact ⟨c, asked, hk⟩

theorem steady_spawnAttached (s : Result Strings) (h : Opened i fd p path false k) :
    Steady i (Launched i fd p path) (spawnAttached i s path) k := by
  cases s with
  | error e => exact steady_ret stable_opened h fun _ => launched_error e
  | ok s =>
    refine steady_idle stable_opened h (fun _ _ => trivial) (fun k hk => hk.1) (fun k r k' hk' => ?_) ?_
    · cases r <;> exact hk'
    rintro (code | ⟨⟩) k hk
    · exact steady_ret stable_opened hk fun _ => launched_error _
    refine Secure.bind (steady_addActions _ stable_opened hk fun k hk => hk.1) ?_
    rintro (e | ⟨⟩) k hk
    · exact steady_ret stable_opened hk fun _ => launched_error e
    · exact steady_launch s hk

end Programs

section Spawn

def winsize (size : WinSize) : Winsize := ⟨size.rows, size.cols, 0, 0⟩

def HungUp (c : Family) (k : Kernel) : Prop := ∀ p t, k.ttys p = some t → t.given = some c → ¬ k.Holds (.master p)

def Left (i : Session) (pid : Pid) (k : Kernel) : Prop := ∃ c, Past i c pid k ∧ HungUp c k

theorem Past.left (h : Past i c pid k) : Left i pid k := by
  refine ⟨c, h, fun p t ht hgiven hholds => ?_⟩
  obtain ⟨hconf, hbare, -, ch, -, -, hch, hsession, -⟩ := h
  obtain ⟨fd, e, he, hobj⟩ := hconf.holds_master.mp hholds
  obtain ⟨-, -, t', ht', hfor⟩ := hconf.master fd e p he hobj
  cases ht.symm.trans ht'
  obtain ⟨ch', hch', howner⟩ := hfor c hgiven
  cases hch.symm.trans hch'
  exact hbare fd e he (howner.symm.trans hsession)

/-- What a spawn that gives up leaves: nothing at all, but for the child whose terminal could not be sized. -/
def Abandoned (i : Session) (e : PlatformError) (k : Kernel) : Prop :=
  Idle i k ∨ e.op = "TIOCSWINSZ" ∧ ∃ pid, Left i pid k

theorem stable_abandoned (e : PlatformError) : Stable (Rely i) (Abandoned i e) := by
  rintro k k' (hidle | ⟨hop, pid, c, hpast, -⟩) hm
  · exact .inl (stable_idle i k k' hidle hm)
  · exact .inr ⟨hop, pid, (stable_past k k' hpast hm).left⟩

def Spawned (i : Session) (size : WinSize) : Result (Fd × LinuxChild) → Kernel → Prop
  | .error e, k => Abandoned i e k
  | .ok (fd, child), k => child.group = some child.pid ∧ child.reaped = none ∧
      ∃ p c, Attached i fd p c child.pid (some (winsize size)) k

theorem steady_spawn (varsOs : List (List UInt8 × List UInt8)) (cmd : Command) (resolved : Result Path) (size : WinSize)
    (h : Idle i k) : Steady i (Spawned i size) (spawn i varsOs cmd resolved size) k := by
  have hrefused (e : PlatformError) : Steady i (Spawned i size) (.ret (.error e)) k :=
    steady_ret (stable_idle i) h fun _ => .inl
  unfold spawn
  split
  · exact hrefused _
  · exact hrefused _
  refine Secure.bind (steady_openPtyPair h) ?_
  rintro (e | ⟨master, slavePath⟩) k ⟨herror, hok⟩
  · exact steady_ret (stable_idle i) (herror e rfl) fun _ => .inl
  obtain ⟨p, hopened⟩ := hok master slavePath rfl
  refine Secure.bind (steady_spawnAttached _ hopened) ?_
  rintro (e | pid) k ⟨herror, hok⟩
  · exact steady_closing e (herror e rfl) fun _ => .inl
  obtain ⟨c, asked, hattached⟩ := hok pid rfl
  refine steady_op stable_attached hattached (fun k hk => hk.hosts) (fun k hk => hk.1) ?_
  rintro k (code | ⟨⟩) k' hk hconf hk'
  · obtain rfl : k' = k := hk'
    exact steady_leaving _ hk fun k hk => .inr ⟨rfl, pid, hk.left⟩
  · exact steady_ret stable_attached (hk.resized hk') fun k hk => ⟨rfl, rfl, p, c, hk⟩

end Spawn

section Runs

theorem steady_perform {ws : Winsize} (u : Use) (h : Attached i fd p c pid (some ws) k) :
    Steady i (fun _ k => ∃ ws, Attached i fd p c pid (some ws) k) (perform fd u) k := by
  cases u with
  | read len =>
    refine steady_op stable_attached h (fun k hk => hk.sized) (fun k hk => hk.1) fun k r k' hk _ hk' => ?_
    cases r <;> exact steady_ret stable_attached (hk.read hk') fun k hk => ⟨ws, hk⟩
  | write buf =>
    refine steady_op stable_attached h (fun k hk => hk.sized) (fun k hk => hk.1) fun k r k' hk _ hk' => ?_
    cases r <;> exact steady_ret stable_attached (hk.write hk') fun k hk => ⟨ws, hk⟩
  | resize size =>
    refine steady_op stable_attached h (fun k hk => hk.hosts) (fun k hk => hk.1) ?_
    rintro k (code | ⟨⟩) k' hk _ hk'
    · obtain rfl : k' = k := hk'
      exact steady_ret stable_attached hk fun k hk => ⟨ws, hk⟩
    · exact steady_ret stable_attached (hk.resized hk') fun k hk => ⟨winsize size, hk⟩

theorem steady_serve (client : Prog Reply Unit) {ws : Winsize} (h : Attached i fd p c pid (some ws) k) :
    Steady i (fun _ k => ∃ ws, Attached i fd p c pid (some ws) k) (serve fd client) k := by
  induction client generalizing k ws with
  | ret _ => exact steady_ret stable_attached h fun k hk => ⟨ws, hk⟩
  | op u rest ih => exact Secure.bind (steady_perform u h) fun r k ⟨_, hk⟩ => ih r hk

def Ended (i : Session) : Result LinuxChild → Kernel → Prop
  | .error e, k => Abandoned i e k
  | .ok child, k => child.group = some child.pid ∧ Left i child.pid k

theorem steady_session (plan : Plan) (h : Idle i k) : Steady i (Ended i) (session i plan) k := by
  refine Secure.bind (steady_spawn plan.varsOs plan.cmd plan.resolved plan.size h) ?_
  rintro (e | ⟨master, child⟩) k hspawned
  · exact steady_ret (stable_abandoned e) hspawned fun _ hk => hk
  · obtain ⟨hgroup, -, p, c, hattached⟩ := hspawned
    refine Secure.bind (steady_serve _ hattached) ?_
    rintro ⟨⟩ k ⟨ws, hk⟩
    exact steady_leaving _ hk fun k hk => ⟨hgroup, hk.left⟩

variable {plans : Session → Plan} {pool : Pool Session Answer (Result LinuxChild) Kernel}

theorem idle_start (i : Session) : Idle i start where
  left :=
    { master := fun _ _ _ he => nomatch (he : none = some _)
      slave := fun _ _ _ he => nomatch (he : none = some _)
      sole := fun _ _ _ _ _ he => nomatch (he : none = some _)
      families := fun _ _ _ hch => nomatch (hch : none = some _)
      paths := fun _ _ _ _ _ _ _ _ he => nomatch (he : none = some _) }
  right := ⟨fun _ _ he => (nomatch (he : none = some _)), fun _ _ hch => (nomatch (hch : none = some _))⟩

theorem rely_of_guar (i j : Session) (hne : i ≠ j) (k k' : Kernel) (h : Guar i k k') : Rely j k k' := h j (Ne.symm hne)

theorem steady_sessions (plans : Session → Plan) (i : Session) :
    Steady i (Ended i) ((sessions plans).progs i) (sessions plans).state :=
  steady_session (plans i) (idle_start i)

theorem sound_of_reaches (h : Pool.Reaches world (sessions plans) pool) {o : Call}
    {rest : Answer o → Prog Answer (Result LinuxChild)} (hp : pool.progs i = .op o rest) : Sound i pool.state o :=
  h.guarded rely_of_guar (steady_sessions plans) hp

theorem confined_of_reaches (h : Pool.Reaches world (sessions plans) pool) : Confined pool.state := by
  refine h.invariant (P := fun pool => Confined pool.state) (idle_start 0).1 ?_
  intro pool pool' i o r hreach hconf hstep
  obtain ⟨p', hs, -⟩ := hstep.program
  have hsecure := hreach.secure rely_of_guar (steady_sessions plans) i
  generalize pool.progs i = prog at hs hsecure
  generalize pool.state = k at hs hsecure hconf
  generalize pool'.state = k' at hs
  obtain ⟨hk⟩ := hs
  obtain ⟨-, hrest⟩ := hsecure k .refl
  exact ((hrest r k' hk).1 (i + 1) (Nat.succ_ne_self i) hconf).1

theorem terminals_apart (plans : Session → Plan) (pool : Pool Session Answer (Result LinuxChild) Kernel)
    (h : Pool.Reaches world (sessions plans) pool) :
    Confined pool.state ∧ (∀ i o rest, pool.progs i = .op o rest → Sound i pool.state o) ∧
      ∀ i r, pool.progs i = .ret r → Ended i r pool.state :=
  ⟨confined_of_reaches h, fun _ _ _ hp => sound_of_reaches h hp,
    fun _ _ hp => h.returned rely_of_guar (steady_sessions plans) hp⟩

theorem reaches_step {α : Type} {o : Call} {rest : Answer o → Prog Answer α} {d : Prog Answer α × Kernel} (r : Answer o)
    (hk : kernel k o r k') (h : Reaches world (rest r, k') d) : Reaches world (.op o rest, k) d :=
  .head (.op rest ⟨k, .refl, hk⟩) h

def shell : Plan where
  cmd := ⟨[0x73, 0x68], [], [0x2F], .inherit, .inherit⟩
  varsOs := []
  resolved := .ok [0x2F, 0x73, 0x68]
  size := ⟨24, 80⟩
  client _ := .op (.read 16) fun _ => .ret ()

def tty0 (locked : Bool) : Terminal := ⟨[0x2F, 0x30], locked, none, none, []⟩

def opened : Kernel := (start.put 0 (some ⟨.master 0, true, some 0⟩)).setTty 0 (tty0 true)

def unlocked : Kernel := opened.setTty 0 (tty0 false)

theorem opened_of_start : kernel start (.posixOpenpt 0 (O_RDWR ||| O_NOCTTY ||| O_CLOEXEC)) (.ok 0) opened := by
  refine ⟨rfl, 0, [0x2F, 0x30], rfl, fun _ _ ht => (nomatch (ht : none = some _)), ?_⟩
  rw [decide_eq_true (by decide)]
  rfl

theorem own_unlocked : Own 0 unlocked 0 0 (tty0 false) := ⟨rfl, setTty_self⟩

theorem confined_unlocked : Confined unlocked := by
  have hsound : Sound 0 start (.posixOpenpt 0 (O_RDWR ||| O_NOCTTY ||| O_CLOEXEC)) := ⟨rfl, by decide⟩
  have hopened : Confined opened := (guar_kernel hsound opened_of_start 1 (by decide) (idle_start 0).1).1
  exact hopened.setTty setTty_self rfl rfl

theorem executes : ∃ k', kernel unlocked (.posixSpawn 0 [0x2F, 0x73, 0x68]
    ((attach [0x2F] (tty0 false).path).map Prod.fst) POSIX_SPAWN_SETSID [[0x73, 0x68]] []) (.ok 7) k' := by
  have hnames : unlocked.Names (tty0 false).path 0 (tty0 false) := ⟨setTty_self, rfl, .inl ⟨0, _, own_unlocked.1, rfl⟩⟩
  exact ⟨_, 0, _, rfl,
    ⟨_, .chdir _, _, .openTty hnames rfl, _, .dup2 rfl (by decide), _, .dup2 rfl (by decide), rfl⟩, rfl⟩

def Drained (k : Kernel) : Prop :=
  ∃ t c ch, Own 0 k 0 0 t ∧ t.given = some c ∧ k.families c = some ch ∧ t.output = [] ∧ ch.holds = ∅

def shellChild : LinuxChild := ⟨7, some 7, none⟩

theorem reaches_spawned : ∃ k, Drained k ∧ Reaches world
    (spawn 0 shell.varsOs shell.cmd shell.resolved shell.size, start) (.ret (.ok (0, shellChild)), k) := by
  obtain ⟨k', hk'⟩ := executes
  obtain ⟨c, ch, hx⟩ := executed_of_kernel confined_unlocked own_unlocked rfl rfl hk'
  have hch : k'.families c = some ch := hx.state ▸ setFamily_self
  have htty : k'.ttys 0 = some { tty0 false with given := some c } := hx.state ▸ setTty_self
  have htable : k'.table 0 = some ⟨.master 0, true, some 0⟩ := hx.state ▸ own_unlocked.1
  have hgo : Elsewhere k' (k'.setFamily c { ch with holds := ∅ }) := .letGo hch (Set.empty_subset _)
  let sized : Terminal := { tty0 false with given := some c, asked := some ⟨24, 80, 0, 0⟩ }
  let k : Kernel := (k'.setFamily c { ch with holds := ∅ }).setTty 0 sized
  have hsize : kernel (k'.setFamily c { ch with holds := ∅ }) (.setWinsize 0 ⟨24, 80, 0, 0⟩) (.ok ()) k :=
    ⟨0, _, ⟨⟨_, htable, rfl⟩, htty⟩, rfl⟩
  have hdrained : Drained k := ⟨sized, c, { ch with holds := ∅ }, ⟨htable, setTty_self⟩, rfl, setFamily_self, rfl, rfl⟩
  refine ⟨k, hdrained, ?_⟩
  refine reaches_step (.ok 0) opened_of_start (reaches_step (.ok ()) rfl ?_)
  refine reaches_step (.ok ()) ⟨0, _, ⟨⟨_, rfl, rfl⟩, setTty_self⟩, rfl⟩ ?_
  refine reaches_step (.ok [0x2F, 0x30]) ⟨rfl, 0, tty0 false, ⟨⟨_, rfl, rfl⟩, setTty_self⟩, rfl, by decide⟩ ?_
  refine reaches_step (.ok ()) rfl (reaches_step (.ok ()) rfl (reaches_step (.ok ()) rfl ?_))
  refine reaches_step (.ok ()) rfl (reaches_step (.ok ()) rfl ?_)
  refine reaches_step (.ok ()) rfl (reaches_step (.ok ()) rfl (reaches_step (.ok 7) hk' ?_))
  exact .head (.op _ ⟨_, .single hgo, hsize⟩) .refl

theorem reaches_reading : ∃ k rest, Drained k ∧ Reaches world (session 0 shell, start) (.op (.read 0 16) rest, k) ∧
    Reaches world (.op (.read 0 16) rest, k) (.ret (.ok shellChild), k.put 0 none) := by
  obtain ⟨k, hdrained, hspawn⟩ := reaches_spawned
  refine ⟨k, _, hdrained, hspawn.bind_left _, ?_⟩
  exact reaches_step (.error 4) ⟨rfl, fun heof => absurd heof (by decide)⟩ (reaches_step () rfl .refl)

theorem terminals_apart_shell : ∃ pool : Pool Session Answer (Result LinuxChild) Kernel,
    pool.progs 0 = .ret (.ok shellChild) ∧ Left 0 7 pool.state := by
  obtain ⟨k, rest, -, hread, hdone⟩ := reaches_reading
  have hpool : Pool.Reaches world (sessions fun _ => shell) (sessions fun _ => shell) := .refl
  obtain ⟨pool, hpool, hprog⟩ : ∃ pool, Pool.Reaches world (sessions fun _ => shell) pool ∧
      pool.progs 0 = .ret (.ok shellChild) := ⟨_, hpool.run 0 (hread.trans hdone), rfl⟩
  exact ⟨pool, hprog, ((terminals_apart _ pool hpool).2.2 0 _ hprog).2⟩

theorem reaches_read_iff {len : ℕ} :
    (∃ k', Reaches kernel (read fd len, k) (.ret (.ok []), k')) ↔
      (∃ k', kernel k (.read fd len) (.ok []) k') ∨ ∃ k', kernel k (.read fd len) (.error EIO) k' := by
  constructor
  · rintro ⟨k', hreach⟩
    rcases reaches_op.mp hreach with hstart | ⟨code | bytes, k₁, hk, hreach⟩
    · cases hstart
    · by_cases hcode : code = EIO
      · exact .inr ⟨k₁, hcode ▸ hk⟩
      · simp [if_neg hcode, reaches_ret] at hreach
    · cases reaches_ret.mp hreach
      exact .inl ⟨_, hk⟩
  · rintro (⟨k', hk⟩ | ⟨k', hk⟩)
    · exact ⟨k', .head (.op _ hk) .refl⟩
    · exact ⟨k', .head (.op _ hk) .refl⟩

theorem end_of_output (h : Pool.Reaches world (sessions plans) pool) {len : ℕ}
    {rest : Answer (.read fd len) → Prog Answer (Result LinuxChild)} (hp : pool.progs i = .op (.read fd len) rest) :
    ∃ p t c ch, Hosts i pool.state fd p t c ch ∧
      ((∃ k', Reaches kernel (read fd len, pool.state) (.ret (.ok []), k')) ↔
        len = 0 ∨ t.output = [] ∧ .slave p ∉ ch.holds) := by
  obtain ⟨p, t, c, ch, hhosts, -⟩ := sound_of_reaches h hp
  have hconf := confined_of_reaches h
  refine ⟨p, t, c, ch, hhosts, ?_⟩
  obtain ⟨ho, hgiven, hch, -⟩ := hhosts
  have hmaster : pool.state.Master fd p t := ⟨⟨_, ho.1, rfl⟩, ho.2⟩
  have hheld : pool.state.Holds (.slave p) ↔ .slave p ∈ ch.holds := by
    rw [hconf.holds_slave]
    constructor
    · rintro ⟨c', ch', hch', hmem⟩
      obtain ⟨t', ht', hgiven'⟩ := (hconf.families c' ch' p hch').2 hmem
      cases ho.2.symm.trans ht'
      cases hgiven.symm.trans hgiven'
      cases hch.symm.trans hch'
      exact hmem
    · exact fun hmem => ⟨c, ch, hch, hmem⟩
  rw [reaches_read_iff]
  constructor
  · rintro (⟨k', -, -, -, -, hlen, -⟩ | ⟨k', -, heof⟩)
    · exact .inl (hlen rfl)
    · obtain ⟨q, t', hm, hout, hslave⟩ := heof rfl
      obtain ⟨rfl, rfl⟩ := ho.master hm
      exact .inr ⟨hout, fun hmem => hslave (hheld.mpr hmem)⟩
  · rintro (rfl | ⟨hout, hslave⟩)
    · exact .inl ⟨_, p, t, hmaster, Nat.le_refl _, fun _ => rfl, t.output, rfl, rfl⟩
    · exact .inr ⟨_, rfl, fun _ => ⟨p, t, hmaster, hout, fun hholds => hslave (hheld.mp hholds)⟩⟩

theorem end_of_output_shell : ∃ (pool : Pool Session Answer (Result LinuxChild) Kernel) (k : Kernel),
    Reaches kernel (read 0 16, pool.state) (.ret (.ok []), k) := by
  obtain ⟨k, rest, ⟨t, c, ch, ho, hgiven, hch, hout, hholds⟩, hread, -⟩ := reaches_reading
  have hpool : Pool.Reaches world (sessions fun _ => shell) (sessions fun _ => shell) := .refl
  obtain ⟨p, t', c', ch', ⟨ho', hgiven', hch', -⟩, hend⟩ := end_of_output (hpool.run 0 hread) (Function.update_self ..)
  cases ho.1.symm.trans ho'.1
  cases ho.2.symm.trans ho'.2
  cases hgiven.symm.trans hgiven'
  cases hch.symm.trans hch'
  exact ⟨_, hend.mpr (.inr ⟨hout, hholds ▸ Set.notMem_empty _⟩)⟩

end Runs

end Rustils.Pty.LinuxPty
