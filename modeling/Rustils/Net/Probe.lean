import Rustils.Lib.Transcript
import Rustils.Net.Kernel

namespace Rustils.Net

open Platform Lib.Program

variable {α β : Type} {b : Backend} {path : Path} {fd : Fd} {errno errno' : Errno} {tr : Transcript Answer}

def lastError (errno : Errno) (tr : Transcript Answer) : Errno := tr.foldl (fun e x => errnoAfter e x.2) errno

theorem lastError_append (errno : Errno) (tr tr' : Transcript Answer) :
    lastError errno (tr ++ tr') = lastError (lastError errno tr) tr' := List.foldl_append

def Tracks (m : Thread α) : Prop := ∀ errno tr a errno', Runs (m errno) tr (a, errno') → errno' = lastError errno tr

theorem tracks_pure (a : α) : Tracks (pure a) := by
  intro errno tr a' errno' h
  obtain ⟨rfl, ⟨⟩⟩ := runs_ret.mp h
  rfl

theorem tracks_get : Tracks get := by
  intro errno tr a errno' h
  obtain ⟨rfl, ⟨⟩⟩ := runs_ret.mp h
  rfl

theorem runs_sys {o : SysCall} {r : Answer o} :
    Runs (sys o errno) tr (r, errno') ↔ tr = [⟨o, r⟩] ∧ errno' = errnoAfter errno r := by
  constructor
  · intro h
    obtain ⟨r', tr', rfl, hr⟩ := runs_op.mp h
    obtain ⟨rfl, ⟨⟩⟩ := runs_ret.mp hr
    exact ⟨rfl, rfl⟩
  · rintro ⟨rfl, rfl⟩
    exact .op r (.ret _)

theorem tracks_sys (o : SysCall) : Tracks (sys o) := by
  intro errno tr a errno' h
  obtain ⟨rfl, rfl⟩ := runs_sys.mp h
  rfl

theorem runs_thread_bind {x : Thread α} {f : α → Thread β} {c : β} :
    Runs ((x >>= f) errno) tr (c, errno') ↔
      ∃ tr₁ tr₂ a e, tr = tr₁ ++ tr₂ ∧ Runs (x errno) tr₁ (a, e) ∧ Runs (f a e) tr₂ (c, errno') := by
  constructor
  · intro h
    obtain ⟨tr₁, tr₂, ⟨a, e⟩, rfl, h₁, h₂⟩ := runs_bind.mp h
    exact ⟨tr₁, tr₂, a, e, rfl, h₁, h₂⟩
  · rintro ⟨tr₁, tr₂, a, e, rfl, h₁, h₂⟩
    exact h₁.bind h₂

theorem runs_drop {u : Unit} (h : Runs (drop fd errno) tr (u, errno')) : ∃ r, tr = [⟨.close fd, r⟩] := by
  obtain ⟨tr₁, tr₂, r, e, rfl, hclose, h⟩ := runs_thread_bind.mp h
  rw [(runs_sys.mp hclose).1, (runs_ret.mp h).1]
  exact ⟨r, rfl⟩

theorem tracks_bind {x : Thread α} {f : α → Thread β} (hx : Tracks x) (hf : ∀ a, Tracks (f a)) : Tracks (x >>= f) := by
  intro errno tr c errno' h
  obtain ⟨tr₁, tr₂, a, e, rfl, h₁, h₂⟩ := runs_thread_bind.mp h
  rw [lastError_append, ← hx _ _ _ _ h₁]
  exact hf a _ _ _ _ h₂

theorem tracks_drop (fd : Fd) : Tracks (drop fd) := tracks_bind (tracks_sys _) fun _ => tracks_pure _

theorem tracks_netErr (b : Backend) (op : String) : Tracks (netErr b op) := tracks_bind tracks_get fun _ => tracks_pure _

theorem tracks_setCloexec (b : Backend) (fd : Fd) : Tracks (setCloexec b fd) := by
  apply tracks_bind (tracks_sys _)
  rintro (e | ⟨⟩)
  · exact tracks_bind (tracks_netErr _ _) fun _ => tracks_pure _
  · exact tracks_pure _

theorem tracks_newUnixSocket (b : Backend) : Tracks (newUnixSocket b) := by
  apply tracks_bind (tracks_sys _)
  rintro (e | fd)
  · exact tracks_bind (tracks_netErr _ _) fun _ => tracks_pure _
  · cases b with
    | linux => exact tracks_pure _
    | bsd =>
      apply tracks_bind (tracks_setCloexec _ _)
      rintro (e | ⟨⟩)
      · exact tracks_bind (tracks_drop _) fun _ => tracks_pure _
      · exact tracks_pure _

theorem tracks_isStaleSocket (b : Backend) (path : Path) : Tracks (isStaleSocket b path) := by
  apply tracks_bind (tracks_newUnixSocket b)
  rintro (e | probe)
  · exact tracks_pure _
  · dsimp only
    split
    · exact tracks_bind (tracks_drop _) fun _ => tracks_pure _
    · apply tracks_bind (tracks_sys _)
      rintro (e | ⟨⟩)
      · exact tracks_bind tracks_get fun _ => tracks_bind (tracks_drop _) fun _ => tracks_pure _
      · exact tracks_bind (tracks_drop _) fun _ => tracks_pure _

theorem tracks_reclaim (b : Backend) (fd : Fd) (path : Path) (addr : SockaddrUn) (len : ℕ)
    (r : Answer (.bind fd addr len)) : Tracks (reclaim b fd path addr len r) := by
  unfold reclaim
  split
  · exact tracks_pure _
  · apply tracks_bind tracks_get
    intro e
    split_ifs with he
    · apply tracks_bind (tracks_isStaleSocket b path)
      intro stale
      cases stale with
      | false => exact tracks_pure _
      | true =>
        rw [if_pos rfl]
        split
        · exact tracks_pure _
        · exact tracks_bind (tracks_sys _) fun _ => tracks_bind (tracks_sys _) fun _ => tracks_pure _
    · exact tracks_pure _

theorem tracks_narrowAndListen (b : Backend) (fd : Fd) (path : Path) : Tracks (narrowAndListen b fd path) := by
  unfold narrowAndListen
  split
  · exact tracks_pure _
  · apply tracks_bind (tracks_sys _)
    rintro (e | ⟨⟩)
    · exact tracks_bind (tracks_netErr _ _) fun _ => tracks_pure _
    · apply tracks_bind (tracks_sys _)
      rintro (e | ⟨⟩)
      · exact tracks_bind (tracks_netErr _ _) fun _ => tracks_pure _
      · exact tracks_pure _

theorem tracks_listenAt (b : Backend) (fd : Fd) (path : Path) : Tracks (listenAt b fd path) := by
  unfold listenAt
  split
  · exact tracks_pure _
  · apply tracks_bind (tracks_sys _)
    intro r
    apply tracks_bind (tracks_reclaim _ _ _ _ _ r)
    rintro (e | e | ⟨⟩)
    · exact tracks_pure _
    · exact tracks_bind (tracks_netErr _ _) fun _ => tracks_pure _
    · exact tracks_narrowAndListen _ _ _

def Blames (b : Backend) (errno : Errno) (e : PlatformError) : Prop :=
  ∃ op, e = .new (kindOf errno) (.errno (errno.code b)) op

theorem netErr_blames {op : String} {e : PlatformError}
    (h : Runs ((do return .error (← netErr b op) : Thread (Result α)) errno) tr (.error e, errno')) :
    Blames b errno' e := by
  obtain ⟨rfl, ⟨⟩⟩ := runs_ret.mp h
  exact ⟨op, rfl⟩

theorem narrowAndListen_blames {cPath : Path} {e : PlatformError} (hc : pathToCstring path = .ok cPath)
    (h : Runs (narrowAndListen b fd path errno) tr (.error e, errno')) : Blames b errno' e := by
  rw [narrowAndListen, hc] at h
  obtain ⟨tr₁, tr₂, r, e₁, rfl, -, h⟩ := runs_thread_bind.mp h
  rcases r with _ | ⟨⟩
  · exact netErr_blames h
  · obtain ⟨tr₁, tr₂, r, e₁, rfl, -, h⟩ := runs_thread_bind.mp h
    rcases r with _ | ⟨⟩
    · exact netErr_blames h
    · cases (runs_ret.mp h).2

theorem reclaim_ok {addr : SockaddrUn} {len : ℕ} {cPath : Path} {r : Answer (.bind fd addr len)} {e : PlatformError}
    (hc : pathToCstring path = .ok cPath) (h : Runs (reclaim b fd path addr len r errno) tr (.error e, errno')) : False := by
  unfold reclaim at h
  split at h
  · cases (runs_ret.mp h).2
  · obtain ⟨tr₁, tr₂, e₁, e₂, rfl, -, h⟩ := runs_thread_bind.mp h
    split_ifs at h
    · obtain ⟨tr₁, tr₂, stale, e₃, rfl, -, h⟩ := runs_thread_bind.mp h
      cases stale with
      | false => cases (runs_ret.mp h).2
      | true =>
        rw [if_pos rfl, hc] at h
        obtain ⟨_, _, _, _, rfl, -, h⟩ := runs_thread_bind.mp h
        obtain ⟨_, _, _, _, rfl, -, h⟩ := runs_thread_bind.mp h
        cases (runs_ret.mp h).2
    · cases (runs_ret.mp h).2

theorem listenAt_blames {e : PlatformError} (h : Runs (listenAt b fd path errno) tr (.error e, errno')) :
    tr = [] ∨ (∃ addr len r tr', tr = ⟨.bind fd addr len, r⟩ :: tr') ∧ Blames b errno' e := by
  unfold listenAt at h
  rcases ha : toSockaddrUn b path with e' | ⟨addr, len⟩ <;> rw [ha] at h
  · exact .inl (runs_ret.mp h).1
  · have hc := pathToCstring_of_toSockaddrUn ha
    obtain ⟨tr₁, tr₂, r, e₁, rfl, hbind, hrest⟩ := runs_thread_bind.mp h
    obtain ⟨rfl, -⟩ := runs_sys.mp hbind
    refine .inr ⟨⟨addr, len, r, tr₂, rfl⟩, ?_⟩
    obtain ⟨tr₃, tr₄, r', e₂, rfl, hreclaim, hlisten⟩ := runs_thread_bind.mp hrest
    rcases r' with e' | e' | ⟨⟩
    · exact (reclaim_ok hc hreclaim).elim
    · exact netErr_blames hlisten
    · exact narrowAndListen_blames hc hlisten

def bindAnswer : (Σ o, Answer o) → Option (Except Errno Unit)
  | ⟨.bind _ _ _, r⟩ => some r
  | _ => none

def firstBind (tr : Transcript Answer) : Option (Except Errno Unit) := tr.findSome? bindAnswer

def afterBind (tr : Transcript Answer) : Transcript Answer := (tr.dropWhile fun x => (bindAnswer x).isNone).tail

theorem newUnixSocket_unbound {r : Result Fd} (h : Runs (newUnixSocket b errno) tr (r, errno')) :
    ∀ x ∈ tr, bindAnswer x = none := by
  obtain ⟨tr₁, tr₂, r₁, e₁, rfl, hsocket, hopened⟩ := runs_thread_bind.mp h
  obtain ⟨rfl, -⟩ := runs_sys.mp hsocket
  suffices hrest : ∀ x ∈ tr₂, bindAnswer x = none by simpa [bindAnswer] using hrest
  rcases r₁ with e | fd
  · rw [(runs_ret.mp hopened).1]
    exact nofun
  · cases b with
    | linux =>
      rw [(runs_ret.mp hopened).1]
      exact nofun
    | bsd =>
      obtain ⟨tr₃, tr₄, r₂, e₂, rfl, hcloexec, hset⟩ := runs_thread_bind.mp hopened
      obtain ⟨tr₅, tr₆, r₃, e₃, rfl, hfcntl, hnone⟩ := runs_thread_bind.mp hcloexec
      obtain ⟨rfl, -⟩ := runs_sys.mp hfcntl
      have htr : tr₆ = [] := by rcases r₃ with e | ⟨⟩ <;> exact (runs_ret.mp hnone).1
      subst htr
      suffices hclose : ∀ x ∈ tr₄, bindAnswer x = none by simpa [bindAnswer] using hclose
      rcases r₂ with e | ⟨⟩
      · obtain ⟨tr₇, tr₈, _, _, rfl, hdrop, hend⟩ := runs_thread_bind.mp hset
        obtain ⟨c, rfl⟩ := runs_drop hdrop
        rw [(runs_ret.mp hend).1]
        simp [bindAnswer]
      · rw [(runs_ret.mp hset).1]
        exact nofun

theorem kindOf_eq_addrInUse : kindOf errno = .addrInUse ↔ errno = .EADDRINUSE := by
  cases errno <;> simp [kindOf]

theorem listen_addrInUse_iff {e : PlatformError} (h : Runs (unixListen b path errno) tr (.error e, errno'))
    (hbind : firstBind tr = some (.error .EADDRINUSE)) :
    e.kind = .addrInUse ↔ lastError .EADDRINUSE (afterBind tr).dropLast = .EADDRINUSE := by
  obtain ⟨tr₁, tr₂, r, e₁, rfl, hsocket, hopened⟩ := runs_thread_bind.mp h
  have hnone := newUnixSocket_unbound hsocket
  rw [firstBind, List.findSome?_append, List.findSome?_eq_none_iff.mpr hnone, Option.none_or] at hbind
  have hafter : afterBind (tr₁ ++ tr₂) = afterBind tr₂ := by
    rw [afterBind, List.dropWhile_append_of_pos (by simpa using hnone), afterBind]
  rw [hafter]
  rcases r with e' | fd
  · rw [(runs_ret.mp hopened).1] at hbind
    cases hbind
  · obtain ⟨tr₃, tr₄, r, e₂, rfl, hlisten, hend⟩ := runs_thread_bind.mp hopened
    rcases r with e' | ⟨⟩
    · obtain ⟨tr₅, tr₆, _, e₃, rfl, hdrop, hret⟩ := runs_thread_bind.mp hend
      obtain ⟨close, rfl⟩ := runs_drop hdrop
      obtain ⟨rfl, ⟨⟩⟩ := runs_ret.mp hret
      have htrack := tracks_listenAt _ _ _ _ _ _ _ hlisten
      obtain rfl | ⟨⟨addr, len, r, tr', rfl⟩, op, rfl⟩ := listenAt_blames hlisten
      · cases hbind
      · have hr : r = .error .EADDRINUSE := Option.some.inj hbind
        subst hr
        have hlast : (afterBind (⟨.bind fd addr len, .error .EADDRINUSE⟩ :: tr' ++ [⟨.close fd, close⟩])).dropLast = tr' :=
          List.dropLast_concat
        rw [List.append_nil, hlast]
        exact kindOf_eq_addrInUse.trans (htrack ▸ Iff.rfl)
    · cases (runs_ret.mp hend).2

def oneByteAddr : SockaddrUn := ⟨none, AF_UNIX, 97 :: List.replicate 107 0⟩

def probing (answer : Except Errno Unit) : Transcript Answer :=
  [⟨.socket, .ok (3 : Fd)⟩, ⟨.bind 3 oneByteAddr 4, .error .EADDRINUSE⟩, ⟨.socket, .ok (4 : Fd)⟩,
    ⟨.connect 4 oneByteAddr 4, answer⟩, ⟨.close 4, .ok ()⟩, ⟨.close 3, .ok ()⟩]

theorem answered_probe :
    ErrorKind.addrInUse = .addrInUse ↔ lastError .EADDRINUSE (afterBind (probing (.ok ()))).dropLast = .EADDRINUSE := by
  have hrun : Runs (unixListen .linux [97] .ENOENT) (probing (.ok ()))
      (.error (.new .addrInUse (.errno 98) "bind"), .EADDRINUSE) :=
    .op _ (.op _ (.op _ (.op _ (.op _ (.op _ (.ret _))))))
  exact listen_addrInUse_iff hrun rfl

theorem denied_probe_hides_addrInUse :
    ¬∀ (b : Backend) (path : Path) (errno errno' : Errno) (tr : Transcript Answer) (e : PlatformError),
      Runs (unixListen b path errno) tr (.error e, errno') → firstBind tr = some (.error .EADDRINUSE) →
        (∀ x ∈ tr, ∀ p, x.1 ≠ .unlinkat p) → e.kind = .addrInUse := by
  intro h
  have hrun : Runs (unixListen .linux [97] .ENOENT) (probing (.error .EACCES))
      (.error (.new .permissionDenied (.errno 13) "bind"), .EACCES) :=
    .op _ (.op _ (.op _ (.op _ (.op _ (.op _ (.ret _))))))
  have hkind := h _ _ _ _ _ _ hrun rfl (by simp [probing])
  cases hkind

end Rustils.Net
