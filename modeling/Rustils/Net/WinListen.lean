import Rustils.Lib.Transcript
import Rustils.Net.ReadTimeout
import Rustils.Net.UnixAddr

namespace Rustils.Net.Winsock

open Platform Lib.Program
open ReadTimeout.Windows (wsaKind)

abbrev Sock := ℕ

inductive Call
  | socket
  | bind (s : Sock) (addr : List UInt8)
  | connect (s : Sock) (addr : List UInt8)
  | listen (s : Sock)
  | closesocket (s : Sock)
  | deleteFileW (name : List UInt16)
  | sleep (millis : ℕ)

@[reducible] def Reply : Call → Type
  | .socket => Except Int32 Sock
  | .bind _ _ => Except Int32 Unit
  | .connect _ _ => Except Int32 Unit
  | .listen _ => Except Int32 Unit
  | _ => Unit

def WSAECONNREFUSED : Int32 := 10061
def WSAENOBUFS : Int32 := 10055

def wsaErr (op : String) (code : Int32) : PlatformError := .new (wsaKind code) (.win32 code.toUInt32) op

def settle {α : Type} (op : String) : Except Int32 α → Result α
  | .error code => .error (wsaErr op code)
  | .ok a => .ok a

def os (c : Call) : Prog Reply (Reply c) := .call c

def rawUnixSocket : Prog Reply (Result Sock) := .op .socket fun r => .ret (settle "socket" r)

def rawConnectUnix (sock : Sock) (path : List UInt16) : Prog Reply (Result Unit) :=
  match toSockaddrUn path with
  | .error e => .ret (.error e)
  | .ok buf => .op (.connect sock buf) fun r => .ret (settle "connect" r)

def rawBindUnix (sock : Sock) (path : List UInt16) : Prog Reply (Result Unit) :=
  match toSockaddrUn path with
  | .error e => .ret (.error e)
  | .ok buf => .op (.bind sock buf) fun r => .ret (settle "bind" r)

def rawListen (sock : Sock) : Prog Reply (Result Unit) := .op (.listen sock) fun r => .ret (settle "listen" r)

def drop (sock : Sock) : Prog Reply Unit := .op (.closesocket sock) .ret

def STALE_PROBE_ENOBUFS_RETRIES : ℕ := 20
def STALE_PROBE_ENOBUFS_RETRY_DELAY : ℕ := 25

def probeOnce (path : List UInt16) (again : Option (Prog Reply Bool)) : Prog Reply Bool := do
  match ← rawUnixSocket with
  | .error _ => return false
  | .ok probe =>
    match ← rawConnectUnix probe path with
    | .ok _ =>
      drop probe
      return false
    | .error e =>
      if e.kind = .connectionRefused then do
        drop probe
        return true
      else
        match again with
        | some again =>
          if e.os = .win32 WSAENOBUFS.toUInt32 then do
            -- `continue` lets go of the probe, behind the sleep
            os (.sleep STALE_PROBE_ENOBUFS_RETRY_DELAY)
            drop probe
            again
          else do
            drop probe
            return false
        | none =>
          drop probe
          return false

def isStaleSocketFrom (path : List UInt16) : ℕ → Prog Reply Bool
  | 0 => probeOnce path none
  | n + 1 => probeOnce path (some (isStaleSocketFrom path n))

def isStaleSocket (path : List UInt16) : Prog Reply Bool := isStaleSocketFrom path STALE_PROBE_ENOBUFS_RETRIES

def isStaleBindCandidate (e : PlatformError) : Bool := e.kind = .addrInUse ∨ e.os = .win32 0

def rebind (sock : Sock) (path : List UInt16) (first : Result Unit) : Prog Reply (Result Unit) := do
  match first with
  | .ok () => return .ok ()
  | .error e =>
    if isStaleBindCandidate e then do
      if ← isStaleSocket path then do
        os (.deleteFileW (path ++ [0]))
        rawBindUnix sock path
      else return .error e
    else return .error e

def unixListen (path : List UInt16) : Prog Reply (Result Sock) := do
  match ← rawUnixSocket with
  | .error e => return .error e
  | .ok sock =>
    let first ← rawBindUnix sock path
    match ← rebind sock path first with
    | .error e =>
      drop sock
      return .error e
    | .ok _ =>
      match ← rawListen sock with
      | .error e =>
        drop sock
        return .error e
      | .ok _ => return .ok sock

abbrev Event := Σ o, Reply o

def openedBy : Event → Option Sock
  | ⟨.socket, .ok s⟩ => some s
  | _ => none

def closedBy : Event → Option Sock
  | ⟨.closesocket s, _⟩ => some s
  | _ => none

def isConnect : Event → Bool
  | ⟨.connect _ _, _⟩ => true
  | _ => false

def isSleep : Event → Bool
  | ⟨.sleep _, _⟩ => true
  | _ => false

def isDelete : Event → Bool
  | ⟨.deleteFileW _, _⟩ => true
  | _ => false

def failureOf : Event → Option PlatformError
  | ⟨.bind _ _, .error code⟩ => some (wsaErr "bind" code)
  | ⟨.listen _, .error code⟩ => some (wsaErr "listen" code)
  | _ => none

def refused (s : Sock) (addr : List UInt8) : List Event := [⟨.connect s addr, .error WSAECONNREFUSED⟩, ⟨.closesocket s, ()⟩]

structure Orderly (path : List UInt16) (tr : List Event) (r : Result Sock) : Prop where
  handles : (tr.filterMap openedBy).Perm (tr.filterMap closedBy ++ r.toOption.toList)
  probes : tr.countP isConnect ≤ STALE_PROBE_ENOBUFS_RETRIES + 1
  sleeps : tr.countP isSleep ≤ STALE_PROBE_ENOBUFS_RETRIES
  removals : tr.countP isDelete ≤ 1
  removed : ∀ before after name u, tr = before ++ ⟨.deleteFileW name, u⟩ :: after →
    name = path ++ [0] ∧ ∃ earlier s addr, before = earlier ++ refused s addr ∧ toSockaddrUn path = .ok addr
  blames : ∀ e, r = .error e → toSockaddrUn path = .error e ∨
    (∃ code, tr = [⟨.socket, .error code⟩] ∧ e = wsaErr "socket" code) ∨ (tr.filterMap failureOf).getLast? = some e
  listens : ∀ s, r = .ok s → tr.getLast? = some ⟨.listen s, .ok ()⟩ ∧
    ∃ addr, toSockaddrUn path = .ok addr ∧ ⟨.bind s addr, .ok ()⟩ ∈ tr

structure Probed (path : List UInt16) (retries : ℕ) (tr : List Event) (stale : Bool) : Prop where
  handles : (tr.filterMap openedBy) = tr.filterMap closedBy
  probes : tr.countP isConnect ≤ retries + 1
  sleeps : tr.countP isSleep ≤ retries
  removals : tr.countP isDelete = 0
  failures : tr.filterMap failureOf = []
  refusal : stale → ∃ earlier s addr, tr = earlier ++ refused s addr ∧ toSockaddrUn path = .ok addr

section Runs

variable {path : List UInt16} {sock : Sock} {tr : List Event} {again : Prog Reply Bool} {retries : ℕ} {stale : Bool}

theorem runs_rawUnixSocket {r : Result Sock} (h : Runs rawUnixSocket tr r) :
    (∃ code, tr = [⟨.socket, .error code⟩] ∧ r = .error (wsaErr "socket" code)) ∨ ∃ s, tr = [⟨.socket, .ok s⟩] ∧ r = .ok s := by
  obtain ⟨a, tr', rfl, hret⟩ := runs_op.mp h
  obtain ⟨rfl, rfl⟩ := runs_ret.mp hret
  rcases a with code | s
  · exact .inl ⟨code, rfl, rfl⟩
  · exact .inr ⟨s, rfl, rfl⟩

theorem runs_rawConnectUnix {r : Result Unit} (h : Runs (rawConnectUnix sock path) tr r) :
    (∃ e, toSockaddrUn path = .error e ∧ tr = [] ∧ r = .error e) ∨
      ∃ addr a, toSockaddrUn path = .ok addr ∧ tr = [⟨.connect sock addr, a⟩] ∧ r = settle "connect" a := by
  unfold rawConnectUnix at h
  cases haddr : toSockaddrUn path with
  | error e =>
    rw [haddr] at h
    obtain ⟨rfl, rfl⟩ := runs_ret.mp h
    exact .inl ⟨e, rfl, rfl, rfl⟩
  | ok addr =>
    rw [haddr] at h
    obtain ⟨a, tr', rfl, hret⟩ := runs_op.mp h
    obtain ⟨rfl, rfl⟩ := runs_ret.mp hret
    exact .inr ⟨addr, a, rfl, rfl, rfl⟩

theorem runs_rawBindUnix {r : Result Unit} (h : Runs (rawBindUnix sock path) tr r) :
    (∃ e, toSockaddrUn path = .error e ∧ tr = [] ∧ r = .error e) ∨
      ∃ addr a, toSockaddrUn path = .ok addr ∧ tr = [⟨.bind sock addr, a⟩] ∧ r = settle "bind" a := by
  unfold rawBindUnix at h
  cases haddr : toSockaddrUn path with
  | error e =>
    rw [haddr] at h
    obtain ⟨rfl, rfl⟩ := runs_ret.mp h
    exact .inl ⟨e, rfl, rfl, rfl⟩
  | ok addr =>
    rw [haddr] at h
    obtain ⟨a, tr', rfl, hret⟩ := runs_op.mp h
    obtain ⟨rfl, rfl⟩ := runs_ret.mp hret
    exact .inr ⟨addr, a, rfl, rfl, rfl⟩

theorem runs_rawListen {r : Result Unit} (h : Runs (rawListen sock) tr r) :
    ∃ a, tr = [⟨.listen sock, a⟩] ∧ r = settle "listen" a := by
  obtain ⟨a, tr', rfl, hret⟩ := runs_op.mp h
  obtain ⟨rfl, rfl⟩ := runs_ret.mp hret
  exact ⟨a, rfl, rfl⟩

theorem runs_drop {β : Type} {p : Prog Reply β} {b : β} (h : Runs (drop sock >>= fun _ => p) tr b) :
    ∃ tr', tr = ⟨.closesocket sock, ()⟩ :: tr' ∧ Runs p tr' b := by
  obtain ⟨⟨⟩, tr', rfl, hp⟩ := runs_op.mp h
  exact ⟨tr', rfl, hp⟩

theorem ite_kind_ne {P : Prop} [Decidable P] {a b kind : ErrorKind} (ha : a ≠ kind) (hb : b ≠ kind) :
    (if P then a else b) ≠ kind := by
  split_ifs
  · exact ha
  · exact hb

theorem kind_refused {code : Int32} (h : (wsaErr "connect" code).kind = .connectionRefused) : code = WSAECONNREFUSED := by
  by_contra hcode
  have hother : code ≠ 10061 := hcode
  have hkind : wsaKind code ≠ .connectionRefused := by
    rw [wsaKind, if_neg hother]
    iterate 10 refine ite_kind_ne nofun ?_
    nofun
  exact hkind h

theorem addrError_kind {e : PlatformError} (h : toSockaddrUn path = .error e) : e.kind ≠ .connectionRefused := by
  unfold toSockaddrUn at h
  split at h
  · cases h
    exact nofun
  · dsimp only at h
    split_ifs at h
    cases h
    exact nofun

theorem Probed.quiet (hhandles : tr.filterMap openedBy = tr.filterMap closedBy) (hone : tr.countP isConnect ≤ 1)
    (hrest : tr.countP isSleep = 0 ∧ tr.countP isDelete = 0 ∧ tr.filterMap failureOf = []) :
    Probed path retries tr false :=
  ⟨hhandles, hone.trans (Nat.le_add_left 1 retries), hrest.1 ▸ Nat.zero_le _, hrest.2.1, hrest.2.2, nofun⟩

/-- What the next turns leave, with a probe before them that has slept. -/
theorem Probed.slept {probe : Sock} {called : List Event} {n : ℕ} (h : Probed path n tr stale)
    (hone : called.countP isConnect ≤ 1) (hnone : called.countP isSleep = 0 ∧ called.countP isDelete = 0)
    (hopen : called.filterMap openedBy = [] ∧ called.filterMap closedBy = [] ∧ called.filterMap failureOf = []) :
    Probed path (n + 1) ([⟨.socket, .ok probe⟩] ++ (called ++
      ⟨.sleep STALE_PROBE_ENOBUFS_RETRY_DELAY, ()⟩ :: ⟨.closesocket probe, ()⟩ :: tr)) stale := by
  refine ⟨?_, ?_, ?_, ?_, ?_, fun hstale => ?_⟩
  · simp only [List.filterMap_append, hopen]
    exact congrArg (probe :: ·) h.handles
  · rw [List.countP_append, List.countP_append, Nat.add_comm n 1, Nat.add_assoc]
    exact (Nat.zero_add _).trans_le (Nat.add_le_add hone h.probes)
  · have hsleeps : (⟨.sleep STALE_PROBE_ENOBUFS_RETRY_DELAY, ()⟩ :: ⟨.closesocket probe, ()⟩ :: tr : List Event).countP isSleep =
        tr.countP isSleep + 1 := List.countP_cons_of_pos rfl
    rw [List.countP_append, List.countP_append, hnone.1, hsleeps, Nat.zero_add]
    exact (Nat.zero_add _).trans_le (Nat.succ_le_succ h.sleeps)
  · rw [List.countP_append, List.countP_append, hnone.2, Nat.zero_add]
    exact (Nat.zero_add _).trans h.removals
  · simp only [List.filterMap_append, hopen]
    exact h.failures
  · obtain ⟨earlier, s, addr, rfl, haddr⟩ := h.refusal hstale
    refine ⟨[⟨.socket, .ok probe⟩] ++ (called ++
      ⟨.sleep STALE_PROBE_ENOBUFS_RETRY_DELAY, ()⟩ :: ⟨.closesocket probe, ()⟩ :: earlier), s, addr, ?_, haddr⟩
    simp

theorem runs_probeOnce {turns : Option (Prog Reply Bool)} (h : Runs (probeOnce path turns) tr stale)
    (hagain : ∀ again ∈ turns, ∀ tr' stale', Runs again tr' stale' → ∃ n, retries = n + 1 ∧ Probed path n tr' stale') :
    Probed path retries tr stale := by
  obtain ⟨tr₁, tr₂, r, rfl, hsocket, h⟩ := runs_bind.mp h
  rcases runs_rawUnixSocket hsocket with ⟨code, rfl, rfl⟩ | ⟨probe, rfl, rfl⟩
  · obtain ⟨rfl, rfl⟩ := runs_ret.mp h
    exact .quiet rfl (Nat.zero_le 1) ⟨rfl, rfl, rfl⟩
  obtain ⟨tr₃, tr₄, r, rfl, hconnect, hrest⟩ := runs_bind.mp h
  have hcalled : (∃ e, toSockaddrUn path = .error e ∧ tr₃ = [] ∧ r = .error e) ∨
      ∃ addr a, toSockaddrUn path = .ok addr ∧ tr₃ = [⟨.connect probe addr, a⟩] ∧ r = settle "connect" a :=
    runs_rawConnectUnix hconnect
  have hends {tr₄ : List Event} (h : Runs (do drop probe; return false) tr₄ stale) :
      Probed path retries ([⟨.socket, .ok probe⟩] ++ (tr₃ ++ tr₄)) stale := by
    obtain ⟨tr', rfl, hret⟩ := runs_drop h
    obtain ⟨rfl, rfl⟩ := runs_ret.mp hret
    rcases hcalled with ⟨e, -, rfl, -⟩ | ⟨addr, a, -, rfl, -⟩
    · exact .quiet rfl (Nat.zero_le 1) ⟨rfl, rfl, rfl⟩
    · exact .quiet rfl le_rfl ⟨rfl, rfl, rfl⟩
  rcases r with e | ⟨⟩
  swap
  · exact hends hrest
  dsimp only at hrest
  by_cases hkind : e.kind = .connectionRefused
  · rw [if_pos hkind] at hrest
    obtain ⟨tr', rfl, hret⟩ := runs_drop hrest
    obtain ⟨rfl, rfl⟩ := runs_ret.mp hret
    rcases hcalled with ⟨e', haddr, -, he⟩ | ⟨addr, a, haddr, rfl, he⟩
    · cases he
      exact absurd hkind (addrError_kind haddr)
    · rcases a with code | ⟨⟩
      · cases he
        cases kind_refused hkind
        refine ⟨rfl, Nat.le_add_left 1 retries, Nat.zero_le _, rfl, rfl, fun _ => ?_⟩
        exact ⟨[⟨.socket, .ok probe⟩], probe, addr, rfl, haddr⟩
      · cases he
  · rw [if_neg hkind] at hrest
    rcases turns with _ | again
    · exact hends hrest
    dsimp only at hrest
    by_cases hbufs : e.os = .win32 WSAENOBUFS.toUInt32
    · rw [if_pos hbufs] at hrest
      obtain ⟨⟨⟩, tr₅, rfl, hwoken⟩ := runs_op.mp hrest
      obtain ⟨tr₆, rfl, hturn⟩ := runs_drop hwoken
      obtain ⟨n, rfl, hmore⟩ := hagain again rfl _ _ hturn
      rcases hcalled with ⟨e', -, rfl, -⟩ | ⟨addr, a, -, rfl, -⟩
      · exact hmore.slept (Nat.zero_le 1) ⟨rfl, rfl⟩ ⟨rfl, rfl, rfl⟩
      · exact hmore.slept le_rfl ⟨rfl, rfl⟩ ⟨rfl, rfl, rfl⟩
    · rw [if_neg hbufs] at hrest
      exact hends hrest

theorem runs_isStaleSocketFrom {n : ℕ} (h : Runs (isStaleSocketFrom path n) tr stale) : Probed path n tr stale := by
  induction n generalizing tr stale with
  | zero => exact runs_probeOnce h nofun
  | succ n ih =>
    refine runs_probeOnce h fun again hagain tr' stale' h' => ?_
    cases hagain
    exact ⟨n, rfl, ih h'⟩

def Reclaims (path : List UInt16) (tr : List Event) : Prop :=
  tr.countP isDelete = 0 ∨ ∃ earlier s addr u after, tr = (earlier ++ refused s addr) ++ ⟨.deleteFileW (path ++ [0]), u⟩ :: after ∧
    toSockaddrUn path = .ok addr ∧ earlier.countP isDelete = 0 ∧ after.countP isDelete = 0

theorem Reclaims.amid {before after : List Event} (h : Reclaims path tr) (hbefore : before.countP isDelete = 0)
    (hafter : after.countP isDelete = 0) : Reclaims path (before ++ (tr ++ after)) := by
  rcases h with h | ⟨earlier, s, addr, u, later, rfl, haddr, hearlier, hlater⟩
  · exact .inl (by simp only [List.countP_append, hbefore, h, hafter])
  · refine .inr ⟨before ++ earlier, s, addr, u, later ++ after, by simp, haddr, ?_, ?_⟩
    · rw [List.countP_append, hbefore, hearlier]
    · rw [List.countP_append, hlater, hafter]

theorem Reclaims.removals (h : Reclaims path tr) : tr.countP isDelete ≤ 1 := by
  rcases h with h | ⟨earlier, s, addr, u, after, rfl, -, hearlier, hafter⟩
  · exact h.trans_le (Nat.zero_le 1)
  · rw [List.countP_append, List.countP_append, List.countP_cons, hearlier, hafter]
    exact le_rfl

theorem notMem_of_countP {name : List UInt16} {u : Unit} (h : tr.countP isDelete = 0) : (⟨.deleteFileW name, u⟩ : Event) ∉ tr :=
  fun hmem => List.countP_eq_zero.mp h _ hmem rfl

theorem Reclaims.removed {before after : List Event} {name : List UInt16} {u : Unit} (h : Reclaims path tr)
    (htr : tr = before ++ ⟨.deleteFileW name, u⟩ :: after) :
    name = path ++ [0] ∧ ∃ earlier s addr, before = earlier ++ refused s addr ∧ toSockaddrUn path = .ok addr := by
  rcases h with h | ⟨earlier, s, addr, u', later, rfl, haddr, hearlier, hlater⟩
  · rw [htr] at h
    exact absurd (List.mem_append_right before (List.mem_cons_self ..)) (notMem_of_countP h)
  · have hquiet : (earlier ++ refused s addr).countP isDelete = 0 := by
      rw [List.countP_append, hearlier]
      rfl
    obtain ⟨rfl, hname, -⟩ :=
      (List.append_cons_inj_of_notMem (notMem_of_countP hquiet) (notMem_of_countP hlater)).mp htr
    cases hname
    exact ⟨rfl, earlier, s, addr, rfl, haddr⟩

structure Bound (path : List UInt16) (sock : Sock) (tr : List Event) (r : Result Unit) : Prop where
  handles : tr.filterMap openedBy = tr.filterMap closedBy
  probes : tr.countP isConnect ≤ STALE_PROBE_ENOBUFS_RETRIES + 1
  sleeps : tr.countP isSleep ≤ STALE_PROBE_ENOBUFS_RETRIES
  reclaims : Reclaims path tr
  blames : ∀ e, r = .error e → toSockaddrUn path = .error e ∨ (tr.filterMap failureOf).getLast? = some e
  binds : r = .ok () → ∃ addr, toSockaddrUn path = .ok addr ∧ ⟨.bind sock addr, .ok ()⟩ ∈ tr

theorem Probed.bound {trb : List Event} {r : Result Unit} (h : Probed path STALE_PROBE_ENOBUFS_RETRIES tr stale)
    (hbind : (∃ e, toSockaddrUn path = .error e ∧ trb = [] ∧ r = .error e) ∨
      ∃ addr a, toSockaddrUn path = .ok addr ∧ trb = [⟨.bind sock addr, a⟩] ∧ r = settle "bind" a) :
    Bound path sock (trb ++ tr) r := by
  rcases hbind with ⟨e, haddr, rfl, rfl⟩ | ⟨addr, a, haddr, rfl, rfl⟩
  · refine ⟨h.handles, h.probes, h.sleeps, .inl h.removals, fun e' he => .inl ?_, nofun⟩
    cases he
    exact haddr
  · refine ⟨h.handles, ?_, ?_, .inl ?_, fun e he => .inr ?_, fun hok => ⟨addr, haddr, ?_⟩⟩
    · exact h.probes
    · exact h.sleeps
    · exact h.removals
    · rcases a with code | ⟨⟩
      · cases he
        rw [List.filterMap_append, h.failures]
        rfl
      · cases he
    · rcases a with code | ⟨⟩
      · cases hok
      · exact List.mem_cons_self ..

theorem runs_rebind {trb tr : List Event} {first r : Result Unit} (h : Runs (rebind sock path first) tr r)
    (hbind : (∃ e, toSockaddrUn path = .error e ∧ trb = [] ∧ first = .error e) ∨
      ∃ addr a, toSockaddrUn path = .ok addr ∧ trb = [⟨.bind sock addr, a⟩] ∧ first = settle "bind" a) :
    Bound path sock (trb ++ tr) r := by
  have hnone : Probed path STALE_PROBE_ENOBUFS_RETRIES [] false := ⟨rfl, Nat.zero_le _, Nat.zero_le _, rfl, rfl, nofun⟩
  rcases first with e | ⟨⟩
  swap
  · obtain ⟨rfl, rfl⟩ := runs_ret.mp h
    exact hnone.bound hbind
  unfold rebind at h
  dsimp only at h
  by_cases hcandidate : isStaleBindCandidate e = true
  swap
  · rw [if_neg hcandidate] at h
    obtain ⟨rfl, rfl⟩ := runs_ret.mp h
    exact hnone.bound hbind
  rw [if_pos hcandidate] at h
  obtain ⟨tr₁, tr₂, stale, rfl, hprobes, hrest⟩ := runs_bind.mp h
  have hprobed : Probed path STALE_PROBE_ENOBUFS_RETRIES tr₁ stale := runs_isStaleSocketFrom hprobes
  rcases stale
  · obtain ⟨rfl, rfl⟩ := runs_ret.mp hrest
    rw [List.append_nil]
    exact hprobed.bound hbind
  · obtain ⟨⟨⟩, tr₃, rfl, hagain⟩ := runs_op.mp hrest
    obtain ⟨earlier, s, addr, hearlier, haddr⟩ := hprobed.refusal rfl
    rcases hbind with ⟨e', haddr', -⟩ | ⟨addr', a, -, rfl, -⟩
    · cases haddr.symm.trans haddr'
    rcases runs_rawBindUnix hagain with ⟨e', haddr', -⟩ | ⟨addr'', a', haddr'', rfl, rfl⟩
    · cases haddr.symm.trans haddr'
    refine ⟨?_, ?_, ?_, .inr ?_, fun e he => .inr ?_, fun hok => ⟨addr'', haddr'', ?_⟩⟩
    · simp only [List.filterMap_append]
      rw [hprobed.handles]
      rfl
    · rw [← List.append_assoc, List.countP_append]
      exact hprobed.probes
    · rw [← List.append_assoc, List.countP_append]
      exact hprobed.sleeps
    · have hremovals : tr₁.countP isDelete = 0 := hprobed.removals
      rw [hearlier, List.countP_append] at hremovals
      refine ⟨⟨.bind sock addr', a⟩ :: earlier, s, addr, (), [⟨.bind sock addr'', a'⟩], by simp [hearlier], haddr, ?_, rfl⟩
      simpa [isDelete] using (Nat.add_eq_zero_iff.mp hremovals).1
    · rcases a' with code | ⟨⟩
      · cases he
        rw [← List.append_assoc, List.filterMap_append]
        exact List.getLast?_concat
      · cases he
    · rcases a' with code | ⟨⟩
      · cases hok
      · simp

theorem Bound.orderly {bound : Result Unit} {tail : List Event} {r : Result Sock} (h : Bound path sock tr bound)
    (hsock : (sock :: tail.filterMap openedBy).Perm (tail.filterMap closedBy ++ r.toOption.toList))
    (hquiet : tail.countP isConnect = 0 ∧ tail.countP isSleep = 0 ∧ tail.countP isDelete = 0)
    (hblames : ∀ e, r = .error e →
      tail.filterMap failureOf = [] ∧ bound = .error e ∨ (tail.filterMap failureOf).getLast? = some e)
    (hlistens : ∀ s, r = .ok s → s = sock ∧ bound = .ok () ∧ tail = [⟨.listen sock, .ok ()⟩]) :
    Orderly path ([⟨.socket, .ok sock⟩] ++ (tr ++ tail)) r := by
  have hreclaims : Reclaims path ([⟨.socket, .ok sock⟩] ++ (tr ++ tail)) := h.reclaims.amid rfl hquiet.2.2
  refine ⟨?_, ?_, ?_, hreclaims.removals, fun _ _ _ _ => hreclaims.removed, fun e he => ?_, fun s hs => ?_⟩
  · have hrest : (sock :: (tr.filterMap closedBy ++ tail.filterMap openedBy)).Perm
        (tr.filterMap closedBy ++ (tail.filterMap closedBy ++ r.toOption.toList)) :=
      List.perm_middle.symm.trans (hsock.append_left _)
    simp only [List.filterMap_append, h.handles, List.append_assoc]
    exact hrest
  · simpa [List.countP_append, hquiet.1, isConnect] using h.probes
  · simpa [List.countP_append, hquiet.2.1, isSleep] using h.sleeps
  · rcases hblames e he with ⟨hnone, hbound⟩ | hlast
    · rcases h.blames e hbound with haddr | hlast
      · exact .inl haddr
      · refine .inr (.inr ?_)
        rw [List.filterMap_append, List.filterMap_append, hnone, List.append_nil]
        exact hlast
    · refine .inr (.inr ?_)
      rw [List.filterMap_append, List.filterMap_append, List.getLast?_append, List.getLast?_append, hlast]
      rfl
  · obtain ⟨rfl, hbound, rfl⟩ := hlistens s hs
    obtain ⟨addr, haddr, hmem⟩ := h.binds hbound
    refine ⟨?_, addr, haddr, ?_⟩
    · rw [← List.append_assoc]
      exact List.getLast?_concat
    · exact List.mem_append_right _ (List.mem_append_left _ hmem)

theorem unix_listen_orderly {r : Result Sock} (h : Runs (unixListen path) tr r) : Orderly path tr r := by
  obtain ⟨tr₁, tr₂, r₁, rfl, hsocket, h⟩ := runs_bind.mp h
  rcases runs_rawUnixSocket hsocket with ⟨code, rfl, rfl⟩ | ⟨sock, rfl, rfl⟩
  · obtain ⟨rfl, rfl⟩ := runs_ret.mp h
    refine ⟨.refl _, Nat.zero_le _, Nat.zero_le _, Nat.zero_le _, ?_, ?_, nofun⟩
    · exact fun _ _ _ _ => (Reclaims.removed (.inl rfl))
    · rintro e ⟨⟩
      exact .inr (.inl ⟨code, rfl, rfl⟩)
  obtain ⟨trb, tr₃, first, rfl, hbind, h⟩ := runs_bind.mp h
  obtain ⟨tr₄, tail, bound, rfl, hrebind, hrest⟩ := runs_bind.mp h
  have hbound : Bound path sock (trb ++ tr₄) bound := runs_rebind hrebind (runs_rawBindUnix hbind)
  rw [← List.append_assoc trb]
  rcases bound with e | ⟨⟩
  · obtain ⟨tr', rfl, hret⟩ := runs_drop hrest
    obtain ⟨rfl, rfl⟩ := runs_ret.mp hret
    refine hbound.orderly (.refl _) ⟨rfl, rfl, rfl⟩ (fun e' he => .inl ⟨rfl, ?_⟩) (fun s hs => nomatch hs)
    cases he
    rfl
  obtain ⟨tr₅, tr₆, listened, rfl, hlisten, hrest⟩ := runs_bind.mp hrest
  obtain ⟨a, rfl, rfl⟩ := runs_rawListen hlisten
  rcases a with code | ⟨⟩
  · obtain ⟨tr', rfl, hret⟩ := runs_drop hrest
    obtain ⟨rfl, rfl⟩ := runs_ret.mp hret
    refine hbound.orderly (.refl _) ⟨rfl, rfl, rfl⟩ (fun e' he => .inr ?_) (fun s hs => nomatch hs)
    cases he
    rfl
  · obtain ⟨rfl, rfl⟩ := runs_ret.mp hrest
    refine hbound.orderly (.refl _) ⟨rfl, rfl, rfl⟩ (fun e' he => nomatch he) fun s hs => ?_
    cases hs
    exact ⟨rfl, rfl, rfl⟩

def reclaim : List Event :=
  let addr := 1 :: 0 :: 97 :: List.replicate 107 0
  [⟨.socket, .ok 3⟩, ⟨.bind 3 addr, .error 10048⟩, ⟨.socket, .ok 4⟩, ⟨.connect 4 addr, .error WSAENOBUFS⟩,
    ⟨.sleep 25, ()⟩, ⟨.closesocket 4, ()⟩, ⟨.socket, .ok 4⟩, ⟨.connect 4 addr, .error WSAECONNREFUSED⟩,
    ⟨.closesocket 4, ()⟩, ⟨.deleteFileW [97, 0], ()⟩, ⟨.bind 3 addr, .ok ()⟩, ⟨.listen 3, .ok ()⟩]

theorem unix_listen_orderly_reclaim : Runs (unixListen [97]) reclaim (.ok 3) ∧ Orderly [97] reclaim (.ok 3) := by
  have hruns : Runs (unixListen [97]) reclaim (.ok 3) :=
    .op _ (.op _ (.op _ (.op _ (.op _ (.op _ (.op _ (.op _ (.op _ (.op _ (.op _ (.op _ (.ret _))))))))))))
  exact ⟨hruns, unix_listen_orderly hruns⟩

end Runs

end Rustils.Net.Winsock
