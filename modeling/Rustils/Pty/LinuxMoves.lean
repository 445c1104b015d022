import Mathlib.Tactic.IntervalCases
import Rustils.Pty.LinuxConfined

namespace Rustils.Pty.LinuxPty

open Platform Lib.Program Process

/-- A child that began as the leader of a session of its own, on the terminal `p` and with no end of another. -/
structure Child.On (ch : Child) (p : Tty) : Prop where
  leads : ch.leads = true
  stdio : ∀ fd < 3, ch.began fd = some (.slave p)
  rest : ∀ fd o, 3 ≤ fd → ch.began fd = some o → ∃ n, o = .other n

def Hosts (i : Session) (k : Kernel) (fd : Fd) (p : Tty) (t : Terminal) (c : Family) (ch : Child) : Prop :=
  Own i k fd p t ∧ t.given = some c ∧ k.families c = some ch ∧ ch.session = some i ∧ ch.On p

def Sound (i : Session) (k : Kernel) : Call → Prop
  | .posixOpenpt j flags => j = i ∧ flags &&& O_CLOEXEC ≠ 0
  | .grantpt fd | .unlockpt fd | .ptsname fd _ | .close fd => ∃ p t, Own i k fd p t
  | .posixSpawn j _ actions flags _ _ => j = i ∧ flags = POSIX_SPAWN_SETSID ∧ ∃ fd p t cwd, Own i k fd p t ∧
      t.locked = false ∧ t.given = none ∧ actions = (attach cwd t.path).map Prod.fst
  | .setWinsize fd _ => ∃ p t c ch, Hosts i k fd p t c ch
  | .read fd _ | .write fd _ => ∃ p t c ch, Hosts i k fd p t c ch ∧ t.asked ≠ none
  | .fileActionsInit | .addAction _ | .spawnattrInit | .setflags _ => True

variable {i j : Session} {k k' : Kernel} {fd : Fd} {p q : Tty} {t t' : Terminal} {c : Family} {ch ch' : Child}

section Kept

theorem kept_refl (j : Session) (k : Kernel) : Kept j k k where
  table _ _ _ := Iff.rfl
  ttys _ _ t h := ⟨t, h.2, .refl t⟩
  given _ t _ ht h := ⟨t, ht, h⟩
  families _ ch h := ⟨ch, h, .refl ch⟩
  unborn _ ch h hsession := ⟨ch, h, hsession⟩

theorem kept_put {e : Option Entry} (hbefore : ∀ e₀, k.table fd = some e₀ → e₀.owner ≠ some j)
    (hafter : ∀ e₀, e = some e₀ → e₀.owner ≠ some j) : Kept j k (k.put fd e) where
  table fd' e' he' := by
    by_cases hfd : fd' = fd
    · subst hfd
      rw [put_self]
      exact ⟨fun h => absurd he' (hafter e' h), fun h => absurd he' (hbefore e' h)⟩
    · rw [put_ne hfd]
  ttys _ _ t h := ⟨t, h.2, .refl t⟩
  given _ t _ ht h := ⟨t, ht, h⟩
  families _ ch h := ⟨ch, h, .refl ch⟩
  unborn _ ch h hsession := ⟨ch, h, hsession⟩

theorem kept_setTty (hgiven : ∀ u c, k.ttys p = some u → u.given = some c → t.given = some c)
    (hsame : ∀ fd u, Own j k fd p u → u.Same t) : Kept j k (k.setTty p t) where
  table _ _ _ := Iff.rfl
  ttys fd q u h := by
    by_cases hq : q = p
    · subst hq
      exact ⟨t, setTty_self, hsame fd u h⟩
    · exact ⟨u, (setTty_ne hq).trans h.2, .refl u⟩
  given q u c hu hc := by
    by_cases hq : q = p
    · subst hq
      exact ⟨t, setTty_self, hgiven u c hu hc⟩
    · exact ⟨u, (setTty_ne hq).trans hu, hc⟩
  families _ ch h := ⟨ch, h, .refl ch⟩
  unborn _ ch h hsession := ⟨ch, h, hsession⟩

theorem kept_setFamily (hold : ∀ ch, k.families c = some ch → ch.Same ch')
    (hnew : k.families c = none → ch'.session ≠ some j) : Kept j k (k.setFamily c ch') where
  table _ _ _ := Iff.rfl
  ttys _ _ t h := ⟨t, h.2, .refl t⟩
  given _ t _ ht h := ⟨t, ht, h⟩
  families c' ch h := by
    by_cases hc : c' = c
    · subst hc
      exact ⟨ch', setFamily_self, hold ch h⟩
    · exact ⟨ch, (setFamily_ne hc).trans h, .refl ch⟩
  unborn c' ch h hsession := by
    rcases setFamily_cases h with ⟨rfl, rfl⟩ | ⟨-, h⟩
    · cases hch : k.families c' with
      | none => exact absurd hsession (hnew hch)
      | some ch₀ => exact ⟨ch₀, rfl, (hold ch₀ hch).session.symm.trans hsession⟩
    · exact ⟨ch, h, hsession⟩

end Kept

section Execute

theorem actsAll_attach (h : Confined k) (ho : Own i k fd p t) (hunlocked : t.locked = false) (hgiven : t.given = none)
    {cwd : Path} {s : Kernel.Setup}
    (hs : k.ActsAll ((attach cwd t.path).map Prod.fst) (k.forked POSIX_SPAWN_SETSID) s) :
    s.leads = true ∧ s.tty = some p ∧ (∀ a < 3, s.table a = some (.slave p, false)) ∧
      ∀ a, 3 ≤ a → s.table a = (k.forked POSIX_SPAWN_SETSID).table a := by
  obtain ⟨s₁, hchdir, s₂, hopen, s₃, hdup, s₄, hdup', rfl⟩ := hs
  cases hchdir
  have hnames : k.Names t.path p t := ⟨ho.2, rfl, .inl ⟨fd, _, ho.1, rfl⟩⟩
  have hcloexec : decide (O_RDWR &&& O_CLOEXEC ≠ 0) = false := by decide
  have hctty : O_RDWR &&& O_NOCTTY = 0 := by decide
  cases hopen with
  | openFile hnone => exact absurd hnames (hnone p t)
  | @openTty _ _ _ q t' hq _ =>
    obtain ⟨rfl, rfl⟩ := h.names_own ho hq rfl
    cases hdup with
    | dup2 h₀ _ =>
      cases hdup' with
      | dup2 h₀' _ =>
        dsimp only at h₀ h₀'
        rw [Function.update_self] at h₀
        cases h₀
        rw [Function.update_of_ne (by decide), Function.update_self] at h₀'
        cases h₀'
        refine ⟨rfl, if_pos ⟨rfl, rfl, hgiven, hctty⟩, fun a ha => ?_, fun a ha => ?_⟩
        · interval_cases a <;> simp [hcloexec]
        · have hne (b : Fd) (hb : b < 3) : a ≠ b := Nat.ne_of_gt (Nat.lt_of_lt_of_le hb ha)
          dsimp only
          rw [Function.update_of_ne (hne 2 (by decide)), Function.update_of_ne (hne 1 (by decide)),
            Function.update_of_ne (hne 0 (by decide))]

theorem Confined.seen (h : Confined k) {s : Kernel.Setup} (hstdio : ∀ a < 3, s.table a = some (.slave p, false))
    (hrest : ∀ a, 3 ≤ a → s.table a = (k.forked POSIX_SPAWN_SETSID).table a) :
    (∀ a < 3, s.seen a = some (.slave p)) ∧ ∀ a o, 3 ≤ a → s.seen a = some o → ∃ n, o = .other n := by
  refine ⟨fun a ha => ?_, fun a o ha ho => ?_⟩
  · rw [Kernel.Setup.seen, hstdio a ha]
    rfl
  · rw [Kernel.Setup.seen, hrest a ha, Kernel.forked] at ho
    dsimp only at ho
    cases he : k.table a with
    | none =>
      rw [he] at ho
      cases ho
    | some e =>
      rw [he] at ho
      cases hflag : e.cloexec with
      | true => simp [hflag] at ho
      | false =>
        obtain rfl : e.obj = o := by simpa [hflag] using ho
        cases hobj : e.obj with
        | master q =>
          obtain ⟨htrue, -⟩ := h.master a e q he hobj
          cases htrue.symm.trans hflag
        | slave q => exact absurd hobj (h.slave a e q he)
        | other n => exact ⟨n, rfl⟩

theorem Confined.execute (h : Confined k) (ho : Own i k fd p t) (hgiven : t.given = none) (hc : k.families c = none)
    (hsession : ch.session = some i) (hholds : ∀ q, .master q ∉ ch.holds ∧ (.slave q ∈ ch.holds → q = p)) :
    Confined ((k.setFamily c ch).setTty p { t with given := some c }) := by
  have hne (c' : Family) (ch' : Child) (hch : k.families c' = some ch') : c' ≠ c := by
    rintro rfl
    cases hch.symm.trans hc
  refine ⟨fun a e q he hobj => ?_, h.slave, h.sole, fun c' ch' q hch => ?_, ?_⟩
  · obtain ⟨hflag, howner, u, hu, hfor⟩ := h.master a e q he hobj
    refine ⟨hflag, howner, ?_⟩
    by_cases hq : q = p
    · subst hq
      obtain rfl : a = fd := h.sole a fd e _ q he ho.1 hobj rfl
      cases he.symm.trans ho.1
      refine ⟨_, setTty_self, fun c' hc' => ?_⟩
      cases hc'
      exact ⟨ch, setFamily_self, hsession⟩
    · refine ⟨u, (setTty_ne hq).trans hu, fun c' hc' => ?_⟩
      obtain ⟨ch', hch', hsession'⟩ := hfor c' hc'
      exact ⟨ch', (setFamily_ne (hne c' ch' hch')).trans hch', hsession'⟩
  · rcases setFamily_cases hch with ⟨rfl, rfl⟩ | ⟨-, hch⟩
    · refine ⟨(hholds q).1, fun hmem => ?_⟩
      obtain rfl := (hholds q).2 hmem
      exact ⟨_, setTty_self, rfl⟩
    · refine ⟨(h.families c' ch' q hch).1, fun hmem => ?_⟩
      obtain ⟨u, hu, hgiven'⟩ := (h.families c' ch' q hch).2 hmem
      have hq : q ≠ p := by
        rintro rfl
        cases ho.2.symm.trans hu
        cases hgiven.symm.trans hgiven'
      exact ⟨u, (setTty_ne hq).trans hu, hgiven'⟩
  · intro a b e e' q r u u' he he' hobj hobj' hu hu' heq
    obtain ⟨u₀, hu₀, hp₀⟩ := setTty_path hu ho.2 rfl
    obtain ⟨u₀', hu₀', hp₀'⟩ := setTty_path hu' ho.2 rfl
    exact h.paths a b e e' q r u₀ u₀' he he' hobj hobj' hu₀ hu₀' (hp₀.symm.trans (heq.trans hp₀'))

structure Executed (i : Session) (k : Kernel) (p : Tty) (t : Terminal) (pid : Pid) (c : Family) (ch : Child)
    (k' : Kernel) : Prop where
  unborn : k.families c = none
  state : k' = (k.setFamily c ch).setTty p { t with given := some c }
  session : ch.session = some i
  pid : ch.pid = pid
  on : ch.On p
  confined : Confined k'

theorem executed_of_kernel (h : Confined k) (ho : Own i k fd p t) (hunlocked : t.locked = false)
    (hgiven : t.given = none) {path cwd : Path} {argv env : List (List UInt8)} {pid : Pid}
    (hk : kernel k (.posixSpawn i path ((attach cwd t.path).map Prod.fst) POSIX_SPAWN_SETSID argv env) (.ok pid) k') :
    ∃ c ch, Executed i k p t pid c ch k' := by
  obtain ⟨c, s, hc, hs, rfl⟩ := hk
  obtain ⟨hleads, htty, hstdio, hrest⟩ := actsAll_attach h ho hunlocked hgiven hs
  obtain ⟨hseen, hother⟩ := h.seen hstdio hrest
  refine ⟨c, ⟨some i, pid, s.leads, s.seen, {o | ∃ fd, s.seen fd = some o}⟩, hc, ?_, rfl, rfl,
    ⟨hleads, hseen, hother⟩, ?_⟩
  · rw [Kernel.executed, htty]
    dsimp only
    rw [ho.2]
    rfl
  · rw [Kernel.executed, htty]
    dsimp only
    rw [ho.2]
    refine h.execute ho hgiven hc rfl fun q => ?_
    have hobj (o : Obj) (hmem : ∃ fd, s.seen fd = some o) : o = .slave p ∨ ∃ n, o = .other n := by
      obtain ⟨a, ha⟩ := hmem
      by_cases hlt : a < 3
      · exact .inl (Option.some.inj (ha.symm.trans (hseen a hlt)))
      · exact .inr (hother a o (Nat.le_of_not_lt hlt) ha)
    refine ⟨fun hmem => ?_, fun hmem => ?_⟩
    · obtain hslave | ⟨n, hn⟩ := hobj _ hmem
      · cases hslave
      · cases hn
    · obtain hslave | ⟨n, hn⟩ := hobj _ hmem
      · cases hslave
        rfl
      · cases hn

end Execute

section Moves

theorem Own.master (ho : Own i k fd p t) (hm : k.Master fd q t') : q = p ∧ t' = t := by
  obtain ⟨⟨e, he, hobj⟩, ht'⟩ := hm
  cases ho.1.symm.trans he
  cases hobj
  exact ⟨rfl, Option.some.inj (ht'.symm.trans ho.2)⟩

theorem Confined.owner (h : Confined k) {fd' : Fd} (ho : Own i k fd p t) (ho' : Own j k fd' p t') : j = i := by
  obtain rfl := h.sole fd fd' _ _ p ho.1 ho'.1 rfl rfl
  cases ho.1.symm.trans ho'.1
  rfl

theorem rely_setTty (ho : Own i k fd p t) (hpath : t'.path = t.path) (hgiven : t'.given = t.given) (hne : j ≠ i) :
    Rely j k (k.setTty p t') := by
  refine fun h => ⟨h.setTty ho.2 hpath hgiven, kept_setTty (fun u c hu hc => ?_) fun _ u ho' => ?_⟩
  · cases ho.2.symm.trans hu
    exact hgiven.trans hc
  · exact absurd (h.owner ho ho') hne

theorem rely_refl (j : Session) (k : Kernel) : Rely j k k := fun h => ⟨h, kept_refl j k⟩

theorem rely_holds {holds : Set Obj} (hch : k.families c = some ch) (hholds : ∀ o ∈ holds, o ∈ ch.holds ∨
      (∃ n, o = .other n) ∨ ∃ p t, o = .slave p ∧ k.ttys p = some t ∧ t.given = some c) :
    Rely j k (k.setFamily c { ch with holds }) := by
  refine fun h => ⟨h.setFamily (fun ch' hch' => ?_) fun p => ⟨fun hmem => ?_, fun hmem => ?_⟩,
    kept_setFamily (fun ch' hch' => ?_) fun hnone => ?_⟩
  · cases hch.symm.trans hch'
    rfl
  · obtain hold | ⟨n, hn⟩ | ⟨q, t, hq, -⟩ := hholds _ hmem
    · exact (h.families c ch p hch).1 hold
    · cases hn
    · cases hq
  · obtain hold | ⟨n, hn⟩ | ⟨q, t, hq, ht, hgiven⟩ := hholds _ hmem
    · exact (h.families c ch p hch).2 hold
    · cases hn
    · cases hq
      exact ⟨t, ht, hgiven⟩
  · cases hch.symm.trans hch'
    exact ⟨rfl, rfl, rfl, rfl⟩
  · cases hch.symm.trans hnone

theorem rely_elsewhere (j : Session) (hm : Elsewhere k k') : Rely j k k' := by
  intro h
  cases hm with
  | @openFile fd hfree n cloexec =>
    refine ⟨h.putOther fd n cloexec, kept_put (fun e he => ?_) fun e he => ?_⟩
    · cases hfree.symm.trans he
    · cases he
      exact nofun
  | @closeFile fd e he howner =>
    refine ⟨h.putNone fd, kept_put (fun e' he' => ?_) nofun⟩
    cases he.symm.trans he'
    rw [howner]
    exact nofun
  | @spawn c ch hc hsession hholds =>
    refine ⟨h.setFamily (fun ch' hch' => ?_) fun p => ⟨fun hmem => ?_, fun hmem => ?_⟩,
      kept_setFamily (fun ch' hch' => ?_) fun _ => ?_⟩
    · cases hc.symm.trans hch'
    · obtain ⟨n, hn⟩ | ⟨fd, e, he, hflag, hobj⟩ := hholds _ hmem
      · cases hn
      · obtain ⟨htrue, -⟩ := h.master fd e p he hobj
        cases htrue.symm.trans hflag
    · obtain ⟨n, hn⟩ | ⟨fd, e, he, hflag, hobj⟩ := hholds _ hmem
      · cases hn
      · exact absurd hobj (h.slave fd e p he)
    · cases hc.symm.trans hch'
    · rw [hsession]
      exact nofun
  | @letGo c ch hch rest hrest =>
    exact rely_holds hch (fun o ho => .inl (hrest ho)) h
  | @take c ch hch n =>
    exact rely_holds hch (fun o ho => (Set.mem_insert_iff.mp ho).symm.imp_right fun heq => .inl ⟨n, heq⟩) h
  | @reopen c ch q t hch ht hgiven hopen =>
    refine rely_holds hch (fun o ho => (Set.mem_insert_iff.mp ho).symm.imp_right fun heq => ?_) h
    exact .inr ⟨q, t, heq, ht, hgiven⟩
  | emit hch ht hslave bytes =>
    refine ⟨h.setTty ht rfl rfl, kept_setTty (fun u c' hu hc' => ?_) fun _ u ho => ?_⟩
    · cases ht.symm.trans hu
      exact hc'
    · cases ht.symm.trans ho.2
      exact ⟨rfl, rfl, rfl, rfl⟩

theorem guar_openpt {flags : UInt32} (hflag : flags &&& O_CLOEXEC ≠ 0) (hk : kernel k (.posixOpenpt i flags) (.ok fd) k')
    (hne : j ≠ i) : Rely j k k' := by
  obtain ⟨hfree, p, path, hp, hpath, rfl⟩ := hk
  rw [decide_eq_true hflag]
  refine fun h => ⟨h.openMaster hfree hp hpath, ?_⟩
  refine (kept_put (fun e he => ?_) fun e he => ?_).trans (kept_setTty (fun u c hu => ?_) fun _ u ho => ?_)
  · cases hfree.symm.trans he
  · cases he
    exact fun heq => hne (Option.some.inj heq).symm
  · cases hp.symm.trans hu
  · cases hp.symm.trans ho.2

theorem guar_spawn {path : Path} {cwd : Path} {argv env : List (List UInt8)} {pid : Pid}
    (ho : Own i k fd p t) (hunlocked : t.locked = false) (hgiven : t.given = none)
    (hk : kernel k (.posixSpawn i path ((attach cwd t.path).map Prod.fst) POSIX_SPAWN_SETSID argv env) (.ok pid) k')
    (hne : j ≠ i) : Rely j k k' := by
  intro h
  obtain ⟨c, ch, hx⟩ := executed_of_kernel h ho hunlocked hgiven hk
  refine ⟨hx.confined, hx.state ▸ (kept_setFamily (fun ch' hch' => ?_) fun _ => ?_).trans
    (kept_setTty (fun u c' hu hc' => ?_) fun fd' u ho' => ?_)⟩
  · cases hx.unborn.symm.trans hch'
  · rw [hx.session]
    exact fun heq => hne (Option.some.inj heq).symm
  · cases ho.2.symm.trans hu
    cases hgiven.symm.trans hc'
  · exact absurd (h.owner ho ho') hne

theorem guar_close (ho : Own i k fd p t) (hne : j ≠ i) : Rely j k (k.put fd none) := by
  refine fun h => ⟨h.putNone fd, kept_put (fun e he => ?_) nofun⟩
  cases ho.1.symm.trans he
  exact fun heq => hne (Option.some.inj heq).symm

theorem guar_kernel {o : Call} {r : Answer o} (hs : Sound i k o) (hk : kernel k o r k') : Guar i k k' := by
  intro j hne
  cases o with
  | posixOpenpt i' flags =>
    obtain ⟨rfl, hflag⟩ := hs
    cases r with
    | error code => exact hk ▸ rely_refl j k
    | ok fd => exact guar_openpt hflag hk hne
  | grantpt fd | fileActionsInit | addAction a | spawnattrInit | setflags flags =>
    cases r <;> exact hk ▸ rely_refl j k
  | unlockpt fd =>
    obtain ⟨p, t, ho⟩ := hs
    cases r with
    | error code => exact hk ▸ rely_refl j k
    | ok _ =>
      obtain ⟨q, t', hm, rfl⟩ := hk
      obtain ⟨rfl, rfl⟩ := ho.master hm
      exact rely_setTty ho rfl rfl hne
  | ptsname fd len =>
    cases r with
    | error code => exact hk ▸ rely_refl j k
    | ok path => exact hk.1 ▸ rely_refl j k
  | posixSpawn i' path actions flags argv env =>
    obtain ⟨rfl, rfl, fd, p, t, cwd, ho, hunlocked, hgiven, rfl⟩ := hs
    cases r with
    | error code => exact hk ▸ rely_refl j k
    | ok pid => exact guar_spawn ho hunlocked hgiven hk hne
  | setWinsize fd ws =>
    obtain ⟨p, t, c, ch, ho, -⟩ := hs
    cases r with
    | error code => exact hk ▸ rely_refl j k
    | ok _ =>
      obtain ⟨q, t', hm, rfl⟩ := hk
      obtain ⟨rfl, rfl⟩ := ho.master hm
      exact rely_setTty ho rfl rfl hne
  | read fd len =>
    obtain ⟨p, t, c, ch, ⟨ho, -⟩, -⟩ := hs
    cases r with
    | error code => exact hk.1 ▸ rely_refl j k
    | ok bytes =>
      obtain ⟨q, t', hm, -, -, rest, -, rfl⟩ := hk
      obtain ⟨rfl, rfl⟩ := ho.master hm
      exact rely_setTty ho rfl rfl hne
  | write fd buf =>
    obtain ⟨p, t, c, ch, ⟨ho, -⟩, -⟩ := hs
    cases r with
    | error code => exact hk ▸ rely_refl j k
    | ok n =>
      obtain ⟨-, q, t', echo, hm, -, rfl⟩ := hk
      obtain ⟨rfl, rfl⟩ := ho.master hm
      exact rely_setTty ho rfl rfl hne
  | close fd =>
    obtain ⟨p, t, ho⟩ := hs
    obtain rfl : k' = k.put fd none := hk
    exact guar_close ho hne

end Moves

end Rustils.Pty.LinuxPty
