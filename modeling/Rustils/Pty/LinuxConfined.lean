import Rustils.Pty.LinuxPty

namespace Rustils.Pty.LinuxPty

open Platform Lib.Program Process

section Lookup

variable {k : Kernel} {fd fd' : Fd} {p q : Tty} {c c' : Family} {e : Option Entry} {e' : Entry} {t t' : Terminal}
  {ch ch' : Child}

theorem put_self : (k.put fd e).table fd = e := Function.update_self ..

theorem put_ne (h : fd' ≠ fd) : (k.put fd e).table fd' = k.table fd' := Function.update_of_ne h _ _

theorem put_cases (h : (k.put fd e).table fd' = some e') :
    fd' = fd ∧ e = some e' ∨ fd' ≠ fd ∧ k.table fd' = some e' := by
  by_cases hfd : fd' = fd
  · subst hfd
    exact .inl ⟨rfl, put_self.symm.trans h⟩
  · exact .inr ⟨hfd, (put_ne hfd).symm.trans h⟩

theorem setTty_self : (k.setTty p t).ttys p = some t := Function.update_self ..

theorem setTty_ne (h : q ≠ p) : (k.setTty p t).ttys q = k.ttys q := Function.update_of_ne h _ _

theorem setTty_cases (h : (k.setTty p t).ttys q = some t') : q = p ∧ t = t' ∨ q ≠ p ∧ k.ttys q = some t' := by
  by_cases hq : q = p
  · subst hq
    exact .inl ⟨rfl, Option.some.inj (setTty_self.symm.trans h)⟩
  · exact .inr ⟨hq, (setTty_ne hq).symm.trans h⟩

theorem setTty_path {u : Terminal} (h : (k.setTty p t').ttys q = some u) (ht : k.ttys p = some t)
    (hpath : t'.path = t.path) : ∃ u₀, k.ttys q = some u₀ ∧ u.path = u₀.path := by
  rcases setTty_cases h with ⟨rfl, rfl⟩ | ⟨-, h⟩
  · exact ⟨t, ht, hpath⟩
  · exact ⟨u, h, rfl⟩

theorem setFamily_self : (k.setFamily c ch).families c = some ch := Function.update_self ..

theorem setFamily_ne (h : c' ≠ c) : (k.setFamily c ch).families c' = k.families c' := Function.update_of_ne h _ _

theorem setFamily_cases (h : (k.setFamily c ch).families c' = some ch') :
    c' = c ∧ ch = ch' ∨ c' ≠ c ∧ k.families c' = some ch' := by
  by_cases hc : c' = c
  · subst hc
    exact .inl ⟨rfl, Option.some.inj (setFamily_self.symm.trans h)⟩
  · exact .inr ⟨hc, (setFamily_ne hc).symm.trans h⟩

end Lookup

structure Confined (k : Kernel) : Prop where
  master : ∀ fd e p, k.table fd = some e → e.obj = .master p → e.cloexec = true ∧ e.owner ≠ none ∧
    ∃ t, k.ttys p = some t ∧ ∀ c, t.given = some c → ∃ ch, k.families c = some ch ∧ ch.session = e.owner
  slave : ∀ fd e p, k.table fd = some e → e.obj ≠ .slave p
  sole : ∀ fd fd' e e' p, k.table fd = some e → k.table fd' = some e' → e.obj = .master p → e'.obj = .master p →
    fd = fd'
  families : ∀ c ch p, k.families c = some ch →
    .master p ∉ ch.holds ∧ (.slave p ∈ ch.holds → ∃ t, k.ttys p = some t ∧ t.given = some c)
  paths : ∀ fd fd' e e' p q t t', k.table fd = some e → k.table fd' = some e' → e.obj = .master p → e'.obj = .master q →
    k.ttys p = some t → k.ttys q = some t' → t.path = t'.path → p = q

def Own (i : Session) (k : Kernel) (fd : Fd) (p : Tty) (t : Terminal) : Prop :=
  k.table fd = some ⟨.master p, true, some i⟩ ∧ k.ttys p = some t

structure Terminal.Same (t t' : Terminal) : Prop where
  path : t'.path = t.path
  locked : t'.locked = t.locked
  given : t'.given = t.given
  asked : t'.asked = t.asked

structure Child.Same (ch ch' : Child) : Prop where
  session : ch'.session = ch.session
  pid : ch'.pid = ch.pid
  leads : ch'.leads = ch.leads
  began : ch'.began = ch.began

structure Kept (j : Session) (k k' : Kernel) : Prop where
  table : ∀ fd e, e.owner = some j → (k'.table fd = some e ↔ k.table fd = some e)
  ttys : ∀ fd p t, Own j k fd p t → ∃ t', k'.ttys p = some t' ∧ t.Same t'
  given : ∀ p t c, k.ttys p = some t → t.given = some c → ∃ t', k'.ttys p = some t' ∧ t'.given = some c
  families : ∀ c ch, k.families c = some ch → ∃ ch', k'.families c = some ch' ∧ ch.Same ch'
  unborn : ∀ c ch', k'.families c = some ch' → ch'.session = some j → ∃ ch, k.families c = some ch ∧ ch.session = some j

def Rely (j : Session) (k k' : Kernel) : Prop := Confined k → Confined k' ∧ Kept j k k'

def Guar (i : Session) (k k' : Kernel) : Prop := ∀ j, j ≠ i → Rely j k k'

variable {i j : Session} {k k' : Kernel} {fd : Fd} {p q : Tty} {t t' : Terminal} {c : Family} {ch ch' : Child}
  {e : Entry}

theorem Terminal.Same.refl (t : Terminal) : t.Same t := ⟨rfl, rfl, rfl, rfl⟩

theorem Child.Same.refl (ch : Child) : ch.Same ch := ⟨rfl, rfl, rfl, rfl⟩

theorem Child.Same.trans {ch₁ ch₂ ch₃ : Child} (h : ch₁.Same ch₂) (h' : ch₂.Same ch₃) : ch₁.Same ch₃ :=
  ⟨h'.session.trans h.session, h'.pid.trans h.pid, h'.leads.trans h.leads, h'.began.trans h.began⟩

theorem Terminal.Same.trans {t₁ t₂ t₃ : Terminal} (h : t₁.Same t₂) (h' : t₂.Same t₃) : t₁.Same t₃ :=
  ⟨h'.path.trans h.path, h'.locked.trans h.locked, h'.given.trans h.given, h'.asked.trans h.asked⟩

theorem Kept.own (h : Kept j k k') (ho : Own j k fd p t) : ∃ t', Own j k' fd p t' ∧ t.Same t' := by
  obtain ⟨t', ht', hsame⟩ := h.ttys fd p t ho
  exact ⟨t', ⟨(h.table fd _ rfl).mpr ho.1, ht'⟩, hsame⟩

theorem Kept.trans {k₁ k₂ k₃ : Kernel} (h : Kept j k₁ k₂) (h' : Kept j k₂ k₃) : Kept j k₁ k₃ where
  table fd e he := (h'.table fd e he).trans (h.table fd e he)
  ttys fd p t ho := by
    obtain ⟨t₂, ho₂, hsame⟩ := h.own ho
    obtain ⟨t₃, ht₃, hsame'⟩ := h'.ttys fd p t₂ ho₂
    exact ⟨t₃, ht₃, hsame.trans hsame'⟩
  given p t c ht hgiven := by
    obtain ⟨t₂, ht₂, hgiven₂⟩ := h.given p t c ht hgiven
    exact h'.given p t₂ c ht₂ hgiven₂
  families c ch hch := by
    obtain ⟨ch₂, hch₂, hsame⟩ := h.families c ch hch
    obtain ⟨ch₃, hch₃, hsame'⟩ := h'.families c ch₂ hch₂
    exact ⟨ch₃, hch₃, hsame.trans hsame'⟩
  unborn c ch hch hsession := by
    obtain ⟨ch₂, hch₂, hsession₂⟩ := h'.unborn c ch hch hsession
    exact h.unborn c ch₂ hch₂ hsession₂

theorem Rely.trans {k₁ k₂ k₃ : Kernel} (h : Rely j k₁ k₂) (h' : Rely j k₂ k₃) : Rely j k₁ k₃ := fun hc =>
  have h₂ := h hc
  have h₃ := h' h₂.1
  ⟨h₃.1, h₂.2.trans h₃.2⟩

namespace Confined

variable (h : Confined k)

include h

theorem holds_master : k.Holds (.master p) ↔ ∃ fd e, k.table fd = some e ∧ e.obj = .master p := by
  constructor
  · rintro (hfd | ⟨c, ch, hch, hmem⟩)
    · exact hfd
    · exact absurd hmem (h.families c ch p hch).1
  · exact .inl

theorem holds_slave : k.Holds (.slave p) ↔ ∃ c ch, k.families c = some ch ∧ .slave p ∈ ch.holds := by
  constructor
  · rintro (⟨fd, e, he, hobj⟩ | hch)
    · exact absurd hobj (h.slave fd e p he)
    · exact hch
  · exact .inr

theorem names_own {path : List UInt8} (ho : Own i k fd p t) (hn : k.Names path q t') (hpath : t.path = path) :
    q = p ∧ t' = t := by
  obtain ⟨ht', hpath', hq⟩ := hn
  obtain ⟨fd', e', he', hobj'⟩ := h.holds_master.mp hq
  have hqp : q = p := h.paths fd' fd e' _ q p t' t he' ho.1 hobj' rfl ht' ho.2 (hpath'.trans hpath.symm)
  subst hqp
  exact ⟨rfl, Option.some.inj (ht'.symm.trans ho.2)⟩

theorem putNone (fd : Fd) : Confined (k.put fd none) := by
  have hsub (fd' : Fd) (e : Entry) (he : (k.put fd none).table fd' = some e) : k.table fd' = some e := by
    rcases put_cases he with ⟨-, hnone⟩ | ⟨-, he⟩
    · cases hnone
    · exact he
  exact
    { master := fun a e p he => h.master a e p (hsub a e he)
      slave := fun a e p he => h.slave a e p (hsub a e he)
      sole := fun a b e e' p he he' => h.sole a b e e' p (hsub a e he) (hsub b e' he')
      families := h.families
      paths := fun a b e e' p q t t' he he' => h.paths a b e e' p q t t' (hsub a e he) (hsub b e' he') }

theorem putOther (fd : Fd) (n : ℕ) (cloexec : Bool) : Confined (k.put fd (some ⟨.other n, cloexec, none⟩)) := by
  have hsub (fd' : Fd) (e : Entry) (o : Obj) (he : (k.put fd (some ⟨.other n, cloexec, none⟩)).table fd' = some e)
      (hobj : e.obj = o) (ho : o ≠ .other n) : k.table fd' = some e := by
    rcases put_cases he with ⟨-, hnew⟩ | ⟨-, he⟩
    · cases hnew
      exact absurd hobj.symm ho
    · exact he
  exact
    { master := fun a e p he hobj => h.master a e p (hsub a e _ he hobj nofun) hobj
      slave := fun a e p he hobj => h.slave a e p (hsub a e _ he hobj nofun) hobj
      sole := fun a b e e' p he he' hobj hobj' =>
        h.sole a b e e' p (hsub a e _ he hobj nofun) (hsub b e' _ he' hobj' nofun) hobj hobj'
      families := h.families
      paths := fun a b e e' p q t t' he he' hobj hobj' =>
        h.paths a b e e' p q t t' (hsub a e _ he hobj nofun) (hsub b e' _ he' hobj' nofun) hobj hobj' }

theorem setTty (ht : k.ttys p = some t) (hpath : t'.path = t.path) (hgiven : t'.given = t.given) :
    Confined (k.setTty p t') := by
  have hsup (q : Tty) (u₀ : Terminal) (hu₀ : k.ttys q = some u₀) :
      ∃ u, (k.setTty p t').ttys q = some u ∧ u.given = u₀.given := by
    by_cases hq : q = p
    · subst hq
      cases hu₀.symm.trans ht
      exact ⟨t', setTty_self, hgiven⟩
    · exact ⟨u₀, (setTty_ne hq).trans hu₀, rfl⟩
  exact
    { master := fun a e q he hobj => by
        obtain ⟨hflag, howner, u₀, hu₀, hfor⟩ := h.master a e q he hobj
        obtain ⟨u, hu, hsame⟩ := hsup q u₀ hu₀
        exact ⟨hflag, howner, u, hu, hsame ▸ hfor⟩
      slave := h.slave
      sole := h.sole
      families := fun c ch q hch => by
        refine ⟨(h.families c ch q hch).1, fun hmem => ?_⟩
        obtain ⟨u₀, hu₀, hgiven₀⟩ := (h.families c ch q hch).2 hmem
        obtain ⟨u, hu, hsame⟩ := hsup q u₀ hu₀
        exact ⟨u, hu, hsame.trans hgiven₀⟩
      paths := fun a b e e' q r u u' he he' hobj hobj' hu hu' heq => by
        obtain ⟨u₀, hu₀, hp₀⟩ := setTty_path hu ht hpath
        obtain ⟨u₀', hu₀', hp₀'⟩ := setTty_path hu' ht hpath
        exact h.paths a b e e' q r u₀ u₀' he he' hobj hobj' hu₀ hu₀' (hp₀.symm.trans (heq.trans hp₀')) }

theorem setFamily (hold : ∀ ch, k.families c = some ch → ch'.session = ch.session)
    (hholds : ∀ p, .master p ∉ ch'.holds ∧ (.slave p ∈ ch'.holds → ∃ t, k.ttys p = some t ∧ t.given = some c)) :
    Confined (k.setFamily c ch') where
  master a e p he hobj := by
    obtain ⟨hflag, howner, t, ht, hfor⟩ := h.master a e p he hobj
    refine ⟨hflag, howner, t, ht, fun c' hgiven => ?_⟩
    obtain ⟨ch, hch, hsession⟩ := hfor c' hgiven
    by_cases hc : c' = c
    · subst hc
      exact ⟨ch', setFamily_self, (hold ch hch).trans hsession⟩
    · exact ⟨ch, (setFamily_ne hc).trans hch, hsession⟩
  slave := h.slave
  sole := h.sole
  families c' ch p hch := by
    rcases setFamily_cases hch with ⟨rfl, rfl⟩ | ⟨-, hch⟩
    · exact hholds p
    · exact h.families c' ch p hch
  paths := h.paths

theorem openMaster {path : Path} (hfree : k.table fd = none) (hnew : k.ttys p = none)
    (hpath : ∀ q t, k.ttys q = some t → k.Holds (.master q) ∨ k.Holds (.slave q) → t.path ≠ path) :
    Confined ((k.put fd (some ⟨.master p, true, some i⟩)).setTty p ⟨path, true, none, none, []⟩) := by
  have hold (a : Fd) (e : Entry) (q : Tty) (he : k.table a = some e) (hobj : e.obj = .master q) : q ≠ p := by
    rintro rfl
    obtain ⟨-, -, t, ht, -⟩ := h.master a e q he hobj
    cases ht.symm.trans hnew
  have hlive (a : Fd) (e : Entry) (q : Tty) (t : Terminal) (he : k.table a = some e) (hobj : e.obj = .master q)
      (ht : k.ttys q = some t) : t.path ≠ path :=
    hpath q t ht (.inl (.inl ⟨a, e, he, hobj⟩))
  refine ⟨fun a e q he hobj => ?_, fun a e q he hobj => ?_, fun a b e e' q he he' hobj hobj' => ?_,
    fun c ch q hch => ?_, fun a b e e' q r u u' he he' hobj hobj' hu hu' heq => ?_⟩
  · rcases put_cases he with ⟨rfl, hnew⟩ | ⟨-, he⟩
    · cases hnew
      cases hobj
      exact ⟨rfl, nofun, _, setTty_self, nofun⟩
    · obtain ⟨hflag, howner, t, ht, hfor⟩ := h.master a e q he hobj
      exact ⟨hflag, howner, t, (setTty_ne (hold a e q he hobj)).trans ht, hfor⟩
  · rcases put_cases he with ⟨rfl, hnew⟩ | ⟨-, he⟩
    · cases hnew
      cases hobj
    · exact h.slave a e q he hobj
  · rcases put_cases he with ⟨rfl, hnew⟩ | ⟨-, hbefore⟩ <;> rcases put_cases he' with ⟨rfl, hnew'⟩ | ⟨-, hbefore'⟩
    · rfl
    · cases hnew
      cases hobj
      exact absurd rfl (hold b e' p hbefore' hobj')
    · cases hnew'
      cases hobj'
      exact absurd rfl (hold a e p hbefore hobj)
    · exact h.sole a b e e' q hbefore hbefore' hobj hobj'
  · refine ⟨(h.families c ch q hch).1, fun hmem => ?_⟩
    obtain ⟨t, ht, hgiven⟩ := (h.families c ch q hch).2 hmem
    have hq : q ≠ p := by
      rintro rfl
      cases ht.symm.trans hnew
    exact ⟨t, (setTty_ne hq).trans ht, hgiven⟩
  · rcases put_cases he with ⟨rfl, hnew⟩ | ⟨-, hbefore⟩ <;> rcases put_cases he' with ⟨rfl, hnew'⟩ | ⟨-, hbefore'⟩
    · cases hnew
      cases hnew'
      cases hobj
      cases hobj'
      rfl
    · cases hnew
      cases hobj
      have hr := hold b e' r hbefore' hobj'
      cases setTty_self.symm.trans hu
      exact absurd heq.symm (hlive b e' r u' hbefore' hobj' ((setTty_ne hr).symm.trans hu'))
    · cases hnew'
      cases hobj'
      have hq := hold a e q hbefore hobj
      cases setTty_self.symm.trans hu'
      exact absurd heq (hlive a e q u hbefore hobj ((setTty_ne hq).symm.trans hu))
    · exact h.paths a b e e' q r u u' hbefore hbefore' hobj hobj' ((setTty_ne (hold a e q hbefore hobj)).symm.trans hu)
        ((setTty_ne (hold b e' r hbefore' hobj')).symm.trans hu') heq

end Confined

end Rustils.Pty.LinuxPty
