import Rustils.Net.Kernel

namespace Rustils.Net

open Platform Lib.Program

variable {b : Backend} {path : Path} {errno : Errno} {k₀ k k' : Kernel} {fd : Fd} {α β : Type}

structure Undisturbed (k₀ k : Kernel) : Prop where
  fs : k.fs = k₀.fs
  sockets : ∀ id, ¬k₀.Fresh id → k.sockets id = k₀.sockets id

namespace Undisturbed

theorem refl (k : Kernel) : Undisturbed k k := ⟨rfl, fun _ _ => rfl⟩

theorem fresh (h : Undisturbed k₀ k) (hf : k.Fresh fd) : k₀.Fresh fd := by
  by_contra hn
  have hs : k₀.sockets fd = none := by rw [← h.sockets fd hn, hf.1]
  exact hn ⟨hs, by rw [← h.fs]; exact hf.2⟩

theorem trans (h : Undisturbed k₀ k) (h' : Undisturbed k k') : Undisturbed k₀ k' := by
  refine ⟨h'.fs.trans h.fs, fun id hid => ?_⟩
  rw [h'.sockets id fun hf => hid (h.fresh hf), h.sockets id hid]

theorem setSocket (h : Undisturbed k₀ k) (hf : k₀.Fresh fd) (st : Option SocketState) :
    Undisturbed k₀ (k.setSocket fd st) := by
  refine ⟨h.fs, fun id hid => ?_⟩
  rw [k.setSocket_sockets_ne st (by rintro rfl; exact hid hf), h.sockets id hid]

theorem follow (h : Undisturbed k₀ k) (n : ℕ) (p : Path) : k.follow n p = k₀.follow n p := by
  induction n generalizing p with
  | zero => simp only [Kernel.follow, h.fs]
  | succ n ih => simp only [Kernel.follow, h.fs, ih]

theorem dead (h : Undisturbed k₀ k) : k.Dead path ↔ k₀.Dead path := by
  unfold Kernel.Dead
  rw [h.fs]
  apply exists_congr
  intro id
  apply and_congr_right
  intro hp
  rw [h.sockets id fun hf => hf.2 path hp]

theorem listening (h : Undisturbed k₀ k) (hl : k₀.Listening b path) : k.Listening b path := by
  obtain ⟨id, hp, hs⟩ := hl
  refine ⟨id, by rw [← hp]; exact h.follow _ path, ?_⟩
  have hid : ¬k₀.Fresh id := by
    intro hf
    rw [hf.1] at hs
    cases hs
  rw [h.sockets id hid, hs]

end Undisturbed

def Protected (k : Kernel) (path : Path) : Prop := k.fs path ≠ none ∧ ¬k.Dead path

def Kept (k₀ : Kernel) (path : Path) (k : Kernel) : Prop :=
  (∀ q, q ≠ path → k.fs q = k₀.fs q) ∧ (Protected k₀ path → k.fs path = k₀.fs path)

theorem Undisturbed.kept (h : Undisturbed k₀ k) : Kept k₀ path k :=
  ⟨fun q _ => by rw [h.fs], fun _ => by rw [h.fs]⟩

theorem Kept.of_fs (h : Kept k₀ path k) (hfs : k'.fs = k.fs) : Kept k₀ path k' := by
  unfold Kept
  rw [hfs]
  exact h

def Careful (k₀ : Kernel) (path : Path) (k : Kernel) (o : SysCall) : Prop :=
  Kept k₀ path k ∧
    ∀ p, o = .unlinkat p → p = path ∧ (k.fs p = none ∨ k.fs p = some .dir ∨ k.Dead p)

section Thread

variable {S : Type} {env : Env S Answer} {G : S → SysCall → Prop} {P : α × Errno → S → Prop}
  {Q : β × Errno → S → Prop} {s : S}

theorem safe_sys {o : SysCall} {f : Answer o → Thread β} (hG : G s o)
    (hf : ∀ r s', env s o r s' → Safe env G Q (f r (errnoAfter errno r)) s') :
    Safe env G Q ((sys o >>= f) errno) s := ⟨hG, hf⟩

theorem safe_thread_bind {x : Thread α} {f : α → Thread β} (hx : Safe env G P (x errno) s)
    (hf : ∀ a e s', P (a, e) s' → Safe env G Q (f a e) s') :
    Safe env G Q ((x >>= f) errno) s := hx.bind fun p s' h => hf p.1 p.2 s' h

theorem safe_get {f : Errno → Thread β} (h : Safe env G Q (f errno errno) s) :
    Safe env G Q ((get >>= f) errno) s := h

end Thread

theorem careful_of_kept {o : SysCall} (h : Kept k₀ path k) (ho : ∀ p, o ≠ .unlinkat p) :
    Careful k₀ path k o := ⟨h, fun p hp => absurd hp (ho p)⟩

theorem drop_safe {P : Kernel → Prop} (h : Kept k₀ path k) (hP : P (k.setSocket fd none)) :
    Safe (step b) (Careful k₀ path) (fun _ => P) (drop fd errno) k := by
  apply safe_sys (careful_of_kept h (by simp))
  rintro r _ rfl
  exact hP

theorem setCloexec_safe {P : Kernel → Prop} (h : Kept k₀ path k) (hP : P k) :
    Safe (step b) (Careful k₀ path) (fun _ => P) (setCloexec b fd errno) k := by
  apply safe_sys (careful_of_kept h (by simp))
  rintro (e | ⟨⟩) _ rfl <;> exact hP

theorem newUnixSocket_safe (h : Undisturbed k₀ k) :
    Safe (step b) (Careful k₀ path)
      (fun r k => Undisturbed k₀ k ∧ ∀ fd, r.1 = .ok fd → k₀.Fresh fd) (newUnixSocket b errno) k := by
  apply safe_sys (careful_of_kept h.kept (by simp))
  rintro (e | fd) k₁ hk
  · cases hk
    exact ⟨h, by rintro fd ⟨⟩⟩
  · obtain ⟨hf, rfl⟩ := hk
    have h₀ := h.fresh hf
    have h₁ := h.setSocket h₀ (some .unbound)
    cases b with
    | linux => exact ⟨h₁, by rintro _ ⟨⟩; exact h₀⟩
    | bsd =>
      apply safe_thread_bind (setCloexec_safe (b := .bsd) h₁.kept h₁)
      rintro (e | ⟨⟩) _ k₂ h₂
      · apply safe_thread_bind (drop_safe h₂.kept (h₂.setSocket h₀ none))
        intro _ _ k₃ h₃
        exact ⟨h₃, by rintro fd ⟨⟩⟩
      · exact ⟨h₂, by rintro _ ⟨⟩; exact h₀⟩

theorem isStaleSocket_safe {addr : SockaddrUn} {len : ℕ} (ha : toSockaddrUn b path = .ok (addr, len))
    (h : Undisturbed k₀ k) :
    Safe (step b) (Careful k₀ path)
      (fun r k => Undisturbed k₀ k ∧ (r.1 = true → ¬k₀.Listening b path))
      (isStaleSocket b path errno) k := by
  apply safe_thread_bind (newUnixSocket_safe h)
  rintro (e | probe) _ k₁ ⟨h₁, hf⟩
  · exact ⟨h₁, by rintro ⟨⟩⟩
  · have hf := hf probe rfl
    simp only [ha]
    apply safe_sys (careful_of_kept h₁.kept (by simp))
    rintro r _ ⟨rfl, hr⟩
    have hd := h₁.setSocket hf none
    rcases r with e | ⟨⟩
    · apply safe_get
      apply safe_thread_bind (drop_safe h₁.kept hd)
      intro _ _ k₂ h₂
      refine ⟨h₂, fun hst hl => ?_⟩
      rw [pathname_toSockaddrUn ha] at hr
      exact hr.1 (h₁.listening hl) (of_decide_eq_true hst)
    · apply safe_thread_bind (drop_safe h₁.kept hd)
      intro _ _ k₂ h₂
      exact ⟨h₂, by rintro ⟨⟩⟩

theorem bind_kept {addr : SockaddrUn} {len : ℕ} {r : Answer (.bind fd addr len)}
    (ha : addr.pathname b len = path) (h : Kept k₀ path k)
    (hk : step b k (.bind fd addr len) r k') :
    Kept k₀ path k' ∧ (Protected k₀ path → ∀ u, r ≠ .ok u) := by
  simp only [step, ha] at hk
  cases hp : k.fs path with
  | some e =>
    rcases r with e' | u <;> simp only [hp] at hk
    rw [hk.2]
    exact ⟨h, fun _ _ => by rintro ⟨⟩⟩
  | none =>
    rcases r with e' | u <;> simp only [hp] at hk
    · rw [hk.2]
      exact ⟨h, fun _ _ => by rintro ⟨⟩⟩
    · have hn : ¬Protected k₀ path := fun hpr => hpr.1 (by rw [← h.2 hpr, hp])
      refine ⟨⟨fun q hq => ?_, fun hpr => absurd hpr hn⟩, fun hpr => absurd hpr hn⟩
      rw [hk, Kernel.setSocket_fs, Kernel.setEntry_fs_ne _ _ hq, h.1 q hq]

def Distinguished (b : Backend) (k : Kernel) (path : Path) : Prop :=
  k.fs path = none ∨ k.Dead path ∨ k.fs path = some .dir ∨ k.Listening b path

theorem Distinguished.refused (hd : Distinguished b k₀ path) (hl : ¬k₀.Listening b path) :
    k₀.fs path = none ∨ k₀.fs path = some .dir ∨ k₀.Dead path := by
  rcases hd with hd | hd | hd | hd
  · exact .inl hd
  · exact .inr (.inr hd)
  · exact .inr (.inl hd)
  · exact absurd hd hl

theorem unlinkat_kept {r : Answer (.unlinkat path)} (h : Undisturbed k₀ k)
    (hd : k₀.fs path = none ∨ k₀.fs path = some .dir ∨ k₀.Dead path)
    (hk : step b k (.unlinkat path) r k') : Kept k₀ path k' := by
  rcases r with e | u
  · cases hk
    exact h.kept
  · obtain ⟨hn, hdir, rfl⟩ := hk
    rw [h.fs] at hn hdir
    have hdead := (hd.resolve_left hn).resolve_left hdir
    refine ⟨fun q hq => ?_, fun hp => absurd hdead hp.2⟩
    rw [Kernel.setEntry_fs_ne _ _ hq, h.fs]

theorem reclaim_safe {addr : SockaddrUn} {len : ℕ} {r : Answer (.bind fd addr len)}
    (ha : toSockaddrUn b path = .ok (addr, len)) (hd : Distinguished b k₀ path)
    (hk : Kept k₀ path k) (hr : Protected k₀ path → ∀ u, r ≠ .ok u)
    (hu : ∀ e, r = .error e → Undisturbed k₀ k) :
    Safe (step b) (Careful k₀ path)
      (fun r k => Kept k₀ path k ∧ (Protected k₀ path → ∀ u, r.1 ≠ .ok (.ok u)))
      (reclaim b fd path addr len r errno) k := by
  have hsame : Protected k₀ path → ∀ u, (.ok r : Result (Answer (.bind fd addr len))) ≠ .ok (.ok u) :=
    fun hp u h => hr hp u (Except.ok.inj h)
  rcases r with e | u
  · apply safe_get
    split_ifs with he
    · apply safe_thread_bind (isStaleSocket_safe ha (hu e rfl))
      rintro (_ | _) _ k₁ ⟨h₁, hst⟩
      · exact ⟨h₁.kept, hsame⟩
      · have hentry := hd.refused (hst rfl)
        simp only [pathToCstring_of_toSockaddrUn ha, if_true]
        apply safe_sys
        · refine ⟨h₁.kept, ?_⟩
          rintro _ ⟨⟩
          rw [h₁.fs, h₁.dead]
          exact ⟨rfl, hentry⟩
        · intro r k₂ h₂
          have hk₂ := unlinkat_kept h₁ hentry h₂
          apply safe_sys (careful_of_kept hk₂ (by simp))
          intro r k₃ h₃
          obtain ⟨hk₃, hr₃⟩ := bind_kept (pathname_toSockaddrUn ha) hk₂ h₃
          exact ⟨hk₃, fun hp u h => hr₃ hp u (Except.ok.inj h)⟩
    · exact ⟨hk, hsame⟩
  · exact ⟨hk, hsame⟩

theorem narrowAndListen_safe (h : Kept k₀ path k) (hp : ¬Protected k₀ path) :
    Safe (step b) (Careful k₀ path)
      (fun r k => Kept k₀ path k ∧ (Protected k₀ path → ∀ u, r.1 ≠ .ok u))
      (narrowAndListen b fd path errno) k := by
  unfold narrowAndListen
  cases pathToCstring path with
  | error e => exact ⟨h, fun hp' => absurd hp' hp⟩
  | ok cPath =>
    apply safe_sys (careful_of_kept h (by simp))
    rintro (e | u) k₁ h₁
    · cases h₁
      exact ⟨h, fun hp' => absurd hp' hp⟩
    · obtain ⟨-, rfl⟩ := h₁
      apply safe_sys (careful_of_kept h (by simp))
      rintro (e | u) k₁ h₁
      · cases h₁
        exact ⟨h, fun hp' => absurd hp' hp⟩
      · cases h₁
        exact ⟨h.of_fs rfl, fun hp' => absurd hp' hp⟩

theorem listenAt_safe (hd : (∃ e, toSockaddrUn b path = .error e) ∨ Distinguished b k₀ path)
    (h : Undisturbed k₀ k) :
    Safe (step b) (Careful k₀ path)
      (fun r k => Kept k₀ path k ∧ (Protected k₀ path → ∀ u, r.1 ≠ .ok u))
      (listenAt b fd path errno) k := by
  unfold listenAt
  cases ha : toSockaddrUn b path with
  | error e => exact ⟨h.kept, fun _ _ => by rintro ⟨⟩⟩
  | ok a =>
    obtain ⟨addr, len⟩ := a
    have hd : Distinguished b k₀ path := hd.resolve_left (by rintro ⟨e, he⟩; rw [he] at ha; cases ha)
    apply safe_sys (careful_of_kept h.kept (by simp))
    intro r k₁ h₁
    obtain ⟨hk₁, hr⟩ := bind_kept (pathname_toSockaddrUn ha) h.kept h₁
    have hu : ∀ e, r = .error e → Undisturbed k₀ k₁ := by
      rintro e rfl
      have hk : k₁ = k := by
        simp only [step] at h₁
        split at h₁ <;> simp_all
      rw [hk]
      exact h
    apply safe_thread_bind (reclaim_safe ha hd hk₁ hr hu)
    rintro (e | e | u) _ k₂ ⟨hk₂, hr₂⟩
    · exact ⟨hk₂, fun _ _ => by rintro ⟨⟩⟩
    · exact ⟨hk₂, fun _ _ => by rintro ⟨⟩⟩
    · exact narrowAndListen_safe hk₂ fun hp => hr₂ hp u rfl

theorem unixListen_safe (hd : (∃ e, toSockaddrUn b path = .error e) ∨ Distinguished b k path)
    (errno : Errno) :
    Safe (step b) (Careful k path)
      (fun r k' => Kept k path k' ∧ (Protected k path → ∀ fd, r.1 ≠ .ok fd))
      (unixListen b path errno) k := by
  apply safe_thread_bind (newUnixSocket_safe (.refl k))
  rintro (e | fd) _ k₁ ⟨h₁, -⟩
  · exact ⟨h₁.kept, fun _ _ => by rintro ⟨⟩⟩
  · apply safe_thread_bind (listenAt_safe hd h₁)
    rintro (e | u) _ k₂ ⟨hk₂, hr⟩
    · apply safe_thread_bind (drop_safe hk₂ (hk₂.of_fs rfl))
      intro _ _ k₃ hk₃
      exact ⟨hk₃, fun _ _ => by rintro ⟨⟩⟩
    · exact ⟨hk₂, fun hp => absurd rfl (hr hp u)⟩

theorem reaches_sys {c : Prog Answer (β × Errno) × Kernel} {o : SysCall} {r : Answer o}
    {f : Answer o → Thread β} (h : step b k o r k')
    (hf : Reaches (step b) (f r (errnoAfter errno r), k') c) :
    Reaches (step b) ((sys o >>= f) errno, k) c := .head (.op _ h) hf

theorem reaches_thread_bind {c : Prog Answer (β × Errno) × Kernel} {x : Thread α}
    {f : α → Thread β} {a : α} {e : Errno}
    (hx : Reaches (step b) (x errno, k) (.ret (a, e), k')) (hf : Reaches (step b) (f a e, k') c) :
    Reaches (step b) ((x >>= f) errno, k) c := (hx.bind_left _).trans hf

theorem issues_thread_bind {o : SysCall} {t : Kernel} {x : Thread α} {f : α → Thread β} {a : α}
    {e : Errno} (hx : Reaches (step b) (x errno, k) (.ret (a, e), k'))
    (hf : Issues (step b) (f a e) k' o t) : Issues (step b) ((x >>= f) errno) k o t :=
  (hx.bind_left _).issues hf

theorem newUnixSocket_reaches (b : Backend) (errno : Errno) (k : Kernel) :
    ∃ fd, k.Fresh fd ∧ Reaches (step b) (newUnixSocket b errno, k)
      (.ret (.ok fd, errno), k.setSocket fd (some .unbound)) := by
  obtain ⟨fd, hf⟩ := k.exists_fresh
  refine ⟨fd, hf, reaches_sys (r := .ok fd) ⟨hf, rfl⟩ ?_⟩
  cases b with
  | linux => exact .refl
  | bsd => exact reaches_thread_bind (x := setCloexec .bsd fd) (reaches_sys (r := .ok ()) rfl .refl) .refl

theorem not_listening_setSocket (hf : k.Fresh fd) (hl : ¬k.Listening b path) :
    ¬(k.setSocket fd (some .unbound)).Listening b path := by
  rintro ⟨id, hp, hs⟩
  have hne : id ≠ fd := by
    rintro rfl
    simp [Kernel.setSocket] at hs
  rw [k.setSocket_sockets_ne _ hne] at hs
  rw [Kernel.resolve, ((Undisturbed.refl k).setSocket hf _).follow] at hp
  exact hl ⟨id, hp, hs⟩

theorem isStaleSocket_reaches {addr : SockaddrUn} {len : ℕ}
    (ha : toSockaddrUn b path = .ok (addr, len)) (hl : ¬k.Listening b path) (errno : Errno) :
    ∃ k' e, Undisturbed k k' ∧
      Reaches (step b) (isStaleSocket b path errno, k) (.ret (true, e), k') := by
  obtain ⟨probe, hf, hr⟩ := newUnixSocket_reaches b errno k
  have h₁ := (Undisturbed.refl k).setSocket hf (some .unbound)
  have hl₁ := not_listening_setSocket hf hl
  refine ⟨_, .ECONNREFUSED, h₁.setSocket hf none, reaches_thread_bind hr ?_⟩
  simp only [ha]
  rw [← pathname_toSockaddrUn ha] at hl₁
  have hrefused : step b (k.setSocket probe (some .unbound)) (.connect probe addr len)
      (.error .ECONNREFUSED) (k.setSocket probe (some .unbound)) :=
    ⟨rfl, fun h => absurd h hl₁, fun _ _ => rfl⟩
  apply reaches_sys hrefused
  exact reaches_thread_bind (x := get) .refl
    (reaches_thread_bind (x := drop probe) (reaches_sys (r := .ok ()) rfl .refl) .refl)

theorem reclaim_issues {addr : SockaddrUn} {len : ℕ} (ha : toSockaddrUn b path = .ok (addr, len))
    (hl : ¬k.Listening b path) (fd : Fd) :
    ∃ k', Undisturbed k k' ∧ Issues (step b)
      (reclaim b fd path addr len (.error .EADDRINUSE) .EADDRINUSE) k (.unlinkat path) k' := by
  obtain ⟨k', e, h, hr⟩ := isStaleSocket_reaches ha hl .EADDRINUSE
  refine ⟨k', h, issues_thread_bind (x := get) .refl ?_⟩
  rw [if_pos rfl]
  apply issues_thread_bind hr
  simp only [pathToCstring_of_toSockaddrUn ha, if_true]
  exact issues_op

theorem listenAt_issues {addr : SockaddrUn} {len : ℕ} (ha : toSockaddrUn b path = .ok (addr, len))
    (hp : k.fs path ≠ none) (hl : ¬k.Listening b path) (fd : Fd) (errno : Errno) :
    ∃ k', Undisturbed k k' ∧ Issues (step b) (listenAt b fd path errno) k (.unlinkat path) k' := by
  obtain ⟨k', h, hi⟩ := reclaim_issues ha hl fd
  obtain ⟨e, he⟩ := Option.ne_none_iff_exists'.mp hp
  have hbind : step b k (.bind fd addr len) (.error .EADDRINUSE) k := by
    simp only [step, pathname_toSockaddrUn ha, he, and_self]
  unfold listenAt
  simp only [ha]
  exact ⟨k', h, (reaches_sys hbind .refl).issues (hi.bind _)⟩

theorem unixListen_issues {addr : SockaddrUn} {len : ℕ}
    (ha : toSockaddrUn b path = .ok (addr, len)) (hp : k.fs path ≠ none)
    (hl : ¬k.Listening b path) (errno : Errno) :
    ∃ k', Undisturbed k k' ∧ Issues (step b) (unixListen b path errno) k (.unlinkat path) k' := by
  obtain ⟨fd, hf, hr⟩ := newUnixSocket_reaches b errno k
  have h₁ := (Undisturbed.refl k).setSocket hf (some .unbound)
  obtain ⟨k', h, hi⟩ := listenAt_issues (k := k.setSocket fd (some .unbound)) ha hp
    (not_listening_setSocket hf hl) fd errno
  exact ⟨k', h₁.trans h, issues_thread_bind hr (hi.bind _)⟩

def SparesEntries (b : Backend) (k : Kernel) (path : Path) : Prop :=
  ∀ errno c, Reaches (step b) (unixListen b path errno, k) c →
    (∀ p c', Step (step b) (.unlinkat p) (.ok ()) c c' → p = path ∧ c.2.Dead p) ∧
    (∀ q, q ≠ path → c.2.fs q = k.fs q) ∧
    (Protected k path → c.2.fs path = k.fs path ∧
      (∀ r e, c.1 = .ret (r, e) → ∃ err, r = .error err) ∧
      ∃ err e k', Reaches (step b) c (.ret (.error err, e), k'))

theorem kept_of_safe {Q : α × Errno → Kernel → Prop} {p : Prog Answer (α × Errno)}
    (h : Safe (step b) (Careful k₀ path) (fun r k => Kept k₀ path k ∧ Q r k) p k) :
    Kept k₀ path k := by
  cases p with
  | ret r => exact h.1
  | op o f => exact h.1.1

theorem unixListen_spares
    (hd : (∃ e, toSockaddrUn b path = .error e) ∨ Distinguished b k path) :
    SparesEntries b k path := by
  intro errno c hc
  have hs := (unixListen_safe hd errno).reaches hc
  have hk := kept_of_safe hs
  refine ⟨?_, hk.1, fun hp => ⟨hk.2 hp, ?_, ?_⟩⟩
  · rintro p c' ⟨hstep⟩
    obtain ⟨rfl, hp⟩ := hs.1.2 p rfl
    exact ⟨rfl, (hp.resolve_left hstep.1).resolve_left hstep.2.1⟩
  · rintro (err | fd) e hret
    · exact ⟨err, rfl⟩
    · rw [hret] at hs
      exact absurd rfl (hs.2 hp fd)
  · obtain ⟨⟨err | fd, e⟩, k', hr⟩ := (step_total b).returns c.1 c.2
    · exact ⟨err, e, k', hr⟩
    · exact absurd rfl ((hs.reaches hr).2 hp fd)

theorem unixListen_destroys {a : SockaddrUn × ℕ} (ha : toSockaddrUn b path = .ok a)
    (hd : ¬Distinguished b k path) : ¬SparesEntries b k path := by
  intro h
  obtain ⟨addr, len⟩ := a
  simp only [Distinguished, not_or] at hd
  obtain ⟨hn, hdead, hdir, hl⟩ := hd
  obtain ⟨k₁, h₁, K, hr⟩ := unixListen_issues ha hn hl .ENOENT
  have hstep : step b k₁ (.unlinkat path) (.ok ()) (k₁.setEntry path none) := by
    refine ⟨?_, ?_, rfl⟩
    · rw [h₁.fs]
      exact hn
    · rw [h₁.fs]
      exact hdir
  have hdead₁ := ((h _ _ hr).1 path _ (.intro hstep)).2
  exact hdead (h₁.dead.mp hdead₁)

theorem sparesEntries_iff (b : Backend) (k : Kernel) (path : Path) :
    SparesEntries b k path ↔
      (∃ e, toSockaddrUn b path = .error e) ∨ k.fs path = none ∨ k.Dead path ∨
        k.fs path = some .dir ∨ k.Listening b path := by
  constructor
  · intro h
    cases ha : toSockaddrUn b path with
    | error e => exact .inl ⟨e, rfl⟩
    | ok a =>
      right
      by_contra hd
      exact unixListen_destroys ha hd h
  · exact unixListen_spares

theorem regularFile_unlinked :
    ¬SparesEntries .linux (Kernel.empty.setEntry [47, 115] (some (.file [104, 105]))) [47, 115] ∧
      ¬SparesEntries .bsd (Kernel.empty.setEntry [47, 115] (some (.file [104, 105]))) [47, 115] := by
  have hfs : (Kernel.empty.setEntry [47, 115] (some (.file [104, 105]))).fs [47, 115] =
      some (.file [104, 105]) := by
    simp [Kernel.setEntry]
  have hd : ∀ b, ¬Distinguished b
      (Kernel.empty.setEntry [47, 115] (some (.file [104, 105]))) [47, 115] := by
    rintro b (h | ⟨id, h, -⟩ | h | ⟨id, h, -⟩)
    · simp [hfs] at h
    · simp [hfs] at h
    · simp [hfs] at h
    · cases b <;> simp [Kernel.resolve, Kernel.maxSymlinks, Kernel.follow, hfs] at h
  exact ⟨unixListen_destroys rfl (hd .linux), unixListen_destroys rfl (hd .bsd)⟩

end Rustils.Net
