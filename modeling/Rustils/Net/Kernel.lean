import Mathlib.Data.Set.Finite.Lattice
import Mathlib.Logic.Function.Basic
import Mathlib.Tactic.SplitIfs
import Rustils.Net.Unix

namespace Rustils.Net

open Platform Lib.Program

theorem finite_update {α β : Type} [DecidableEq α] {f : α → Option β}
    (h : {a | f a ≠ none}.Finite) (a : α) (b : Option β) :
    {x | Function.update f a b x ≠ none}.Finite := by
  refine (h.insert a).subset fun x hx => ?_
  by_cases hxa : x = a
  · exact .inl hxa
  · rw [Set.mem_ofPred_eq, Function.update_of_ne hxa] at hx
    exact .inr hx

inductive SocketState
  | unbound | bound | listening
  deriving DecidableEq

/-- What a name stands for. A `socket` may outlive the socket that was bound to it. -/
inductive Entry
  | file (contents : List UInt8)
  | dir
  | symlink (target : Path)
  | fifo
  | socket (id : Fd)
  deriving DecidableEq

structure Kernel where
  fs : Path → Option Entry
  sockets : Fd → Option SocketState
  unnamed : fs [] = none
  finite_fs : {p | fs p ≠ none}.Finite
  finite_sockets : {fd | sockets fd ≠ none}.Finite

namespace Kernel

def empty : Kernel where
  fs := fun _ => none
  sockets := fun _ => none
  unnamed := rfl
  finite_fs := by simp
  finite_sockets := by simp

def setSocket (k : Kernel) (fd : Fd) (st : Option SocketState) : Kernel :=
  { k with
    sockets := Function.update k.sockets fd st
    finite_sockets := finite_update k.finite_sockets fd st }

def setEntry (k : Kernel) (path : Path) (e : Option Entry) : Kernel where
  fs := if path = [] then k.fs else Function.update k.fs path e
  sockets := k.sockets
  unnamed := by
    by_cases h : path = []
    · rw [if_pos h, k.unnamed]
    · rw [if_neg h, Function.update_of_ne (Ne.symm h), k.unnamed]
  finite_fs := by
    by_cases h : path = []
    · rw [if_pos h]
      exact k.finite_fs
    · rw [if_neg h]
      exact finite_update k.finite_fs path e
  finite_sockets := k.finite_sockets

@[simp] theorem setSocket_fs (k : Kernel) (fd : Fd) (st : Option SocketState) :
    (k.setSocket fd st).fs = k.fs := rfl

theorem setSocket_sockets_ne (k : Kernel) {fd id : Fd} (st : Option SocketState) (h : id ≠ fd) :
    (k.setSocket fd st).sockets id = k.sockets id := Function.update_of_ne h _ _

theorem setEntry_fs_ne (k : Kernel) {path q : Path} (e : Option Entry) (h : q ≠ path) :
    (k.setEntry path e).fs q = k.fs q := by
  by_cases hp : path = []
  · simp [setEntry, hp]
  · simp [setEntry, hp, Function.update_of_ne h]

def Fresh (k : Kernel) (fd : Fd) : Prop :=
  k.sockets fd = none ∧ ∀ p, k.fs p ≠ some (.socket fd)

def idAt (k : Kernel) (p : Path) : Fd :=
  match k.fs p with
  | some (.socket id) => id
  | _ => 0

theorem exists_fresh (k : Kernel) : ∃ fd, k.Fresh fd := by
  obtain ⟨fd, hfd⟩ := (k.finite_sockets.union (k.finite_fs.image k.idAt)).exists_notMem
  rw [Set.mem_union, not_or] at hfd
  refine ⟨fd, not_not.mp hfd.1, fun p hp => hfd.2 ⟨p, ?_, ?_⟩⟩
  · rw [Set.mem_ofPred_eq, hp]
    exact Option.some_ne_none _
  · simp only [idAt, hp]

def follow (k : Kernel) : ℕ → Path → Option Entry
  | 0, path => match k.fs path with
    | some (.symlink _) => none
    | e => e
  | n + 1, path => match k.fs path with
    | some (.symlink target) => k.follow n target
    | e => e

def maxSymlinks : Backend → ℕ
  | .linux => 40
  | .bsd => 32

def resolve (k : Kernel) (b : Backend) (path : Path) : Option Entry := k.follow (maxSymlinks b) path

theorem resolve_nil (k : Kernel) (b : Backend) : k.resolve b [] = none := by
  cases b <;> simp [resolve, maxSymlinks, follow, k.unnamed]

def Listening (k : Kernel) (b : Backend) (path : Path) : Prop :=
  ∃ id, k.resolve b path = some (.socket id) ∧ k.sockets id = some .listening

def Dead (k : Kernel) (path : Path) : Prop :=
  ∃ id, k.fs path = some (.socket id) ∧ k.sockets id = none

end Kernel

def SockaddrUn.pathname (b : Backend) (addr : SockaddrUn) (len : ℕ) : Path :=
  (addr.sunPath.take (len - sunPathOffset b)).takeWhile (· ≠ 0)

/-- The empty name is not one of the file system, so nothing is said here about where a `bind` or a
`connect` to it leads. -/
def step (b : Backend) : Env Kernel Answer
  | k, .socket, .ok fd, k' => k.Fresh fd ∧ k' = k.setSocket fd (some .unbound)
  | k, .bind fd addr len, r, k' =>
    let path := addr.pathname b len
    match k.fs path, r with
    | some _, .ok _ => False
    | some _, .error e => e = .EADDRINUSE ∧ k' = k
    | none, .ok _ => k' = (k.setEntry path (some (.socket fd))).setSocket fd (some .bound)
    | none, .error e => (path ≠ [] → e ≠ .EADDRINUSE) ∧ k' = k
  | k, .connect _ addr len, r, k' =>
    let path := addr.pathname b len
    k' = k ∧ match r with
      | .ok _ => path = [] ∨ k.Listening b path
      | .error e =>
        (k.Listening b path → e ≠ .ECONNREFUSED) ∧
          (¬k.Listening b path → k.resolve b path ≠ none → e = .ECONNREFUSED)
  | k, .unlinkat path, .ok _, k' =>
    k.fs path ≠ none ∧ k.fs path ≠ some .dir ∧ k' = k.setEntry path none
  | k, .chmod path _, .ok _, k' => k.resolve b path ≠ none ∧ k' = k
  | k, .listen fd, .ok _, k' => k' = k.setSocket fd (some .listening)
  | k, .close fd, _, k' => k' = k.setSocket fd none
  | k, _, _, k' => k' = k

theorem pathname_toSockaddrUn {b : Backend} {path : Path} {addr : SockaddrUn} {len : ℕ}
    (h : toSockaddrUn b path = .ok (addr, len)) : addr.pathname b len = path := by
  unfold toSockaddrUn at h
  split_ifs at h with hnul hlen
  obtain ⟨rfl, rfl⟩ : _ ∧ _ := by simpa only [Except.ok.injEq, Prod.mk.injEq] using h
  have hpos : sunPathLen b - path.length = sunPathLen b - path.length - 1 + 1 := by omega
  have hlen' : sunPathOffset b + path.length + 1 - sunPathOffset b = path.length + 1 := by omega
  simp only [SockaddrUn.pathname, hlen']
  rw [hpos, List.replicate_succ, List.take_append, List.take_of_length_le (by omega),
    Nat.add_sub_cancel_left, List.take_succ_cons, List.take_zero, List.takeWhile_append_of_pos]
  · simp
  · intro u hu
    simp only [List.contains_eq_mem, decide_eq_true_eq] at hnul
    exact decide_eq_true fun hz => hnul (hz ▸ hu)

theorem pathToCstring_of_toSockaddrUn {b : Backend} {path : Path} {a : SockaddrUn × ℕ}
    (h : toSockaddrUn b path = .ok a) : pathToCstring path = .ok path := by
  unfold toSockaddrUn at h
  split_ifs at h with hnul
  rw [pathToCstring, if_neg hnul]

theorem step_total (b : Backend) : (step b).Total := by
  intro k o
  cases o with
  | socket => exact ⟨.error .EACCES, k, rfl⟩
  | bind fd addr len =>
    cases h : k.fs (addr.pathname b len) with
    | none => exact ⟨.error .EACCES, k, by simp [step, h]⟩
    | some e => exact ⟨.error .EADDRINUSE, k, by simp [step, h]⟩
  | connect fd addr len =>
    by_cases h : k.Listening b (addr.pathname b len)
    · exact ⟨.ok (), k, rfl, .inr h⟩
    · exact ⟨.error .ECONNREFUSED, k, rfl, fun h' => absurd h' h, fun _ _ => rfl⟩
  | close fd => exact ⟨.ok (), _, rfl⟩
  | _ => exact ⟨.error .EACCES, k, rfl⟩

end Rustils.Net
