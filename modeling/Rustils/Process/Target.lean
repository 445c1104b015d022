import Mathlib.Algebra.Group.Int.Defs
import Mathlib.Algebra.Group.Nat.Defs
import Mathlib.Data.Int.Notation
import Mathlib.Data.UInt
import Mathlib.Tactic.SplitIfs
import Rustils.Process.Child

namespace Rustils.Process

open Platform Lib.Program

inductive GroupSpec
  | inherit
  | newGroup
  | joinGroup (pgid : UInt32)
  deriving DecidableEq

structure Command where
  group : GroupSpec
  detached : Bool
  deriving DecidableEq

/-- The attributes of `posix_spawn`: the argument of `POSIX_SPAWN_SETPGROUP`, where it is set, and
`POSIX_SPAWN_SETSID`. -/
structure SpawnAttr where
  pgroup : Option Pid
  setsid : Bool

def spawnAttr (group : GroupSpec) (detached : Bool) : SpawnAttr where
  pgroup := match group with
    | .inherit => none
    | .joinGroup pgid => some pgid.toInt32
    | .newGroup => some 0
  setsid := detached

def LinuxSpawner.spawn (cmd : Command) (resolved : Result Unit) (spawned : Result Pid) :
    Result LinuxChild :=
  match cmd.detached, cmd.group with
  | true, .joinGroup _ =>
    .error (.new .invalidInput .none "spawn: detach cannot join an existing group")
  | true, .newGroup => .error (.new .unsupported .none "spawn: detach with GroupSpec::NewGroup")
  | detached, group =>
    match resolved with
    | .error e => .error e
    | .ok _ =>
      match spawned with
      | .error e => .error e
      | .ok pid =>
        let group := match group with
          | .inherit => if detached then some pid else none
          | .newGroup => some pid
          | .joinGroup pgid => some pgid.toInt32
        .ok ⟨pid, group, none⟩

/-- The processes there are, with their groups; the calling one, and the groups of its session. -/
structure Kernel where
  pgid : ℤ → Option ℤ
  caller : ℤ
  session : ℤ → Prop
  pid_pos : ∀ pid, (pgid pid).isSome → 0 < pid
  pid_lt : ∀ pid, (pgid pid).isSome → pid < 2 ^ 31
  init_there : (pgid 1).isSome
  caller_there : (pgid caller).isSome

/-- Where `posix_spawn` puts a child, if it succeeds: `setpgid` refuses a negative group, a group of
another session, and to move the leader of a session. -/
inductive PosixSpawn (k : Kernel) : SpawnAttr → Pid → ℤ → Prop
  | inherit {pid : Pid} {pgid : ℤ} (hpid : 0 < pid) (hnew : k.pgid pid.toInt = none)
    (hg : k.pgid k.caller = some pgid) : PosixSpawn k ⟨none, false⟩ pid pgid
  | setsid {pid : Pid} (hpid : 0 < pid) (hnew : k.pgid pid.toInt = none) :
    PosixSpawn k ⟨none, true⟩ pid pid.toInt
  | lead {pid : Pid} (hpid : 0 < pid) (hnew : k.pgid pid.toInt = none) :
    PosixSpawn k ⟨some 0, false⟩ pid pid.toInt
  | join {pid g : Pid} (hpid : 0 < pid) (hnew : k.pgid pid.toInt = none) (hg : 0 < g)
    (hs : k.session g.toInt ∨ g = pid) : PosixSpawn k ⟨some g, false⟩ pid g.toInt

def Accepted (k : Kernel) (cmd : Command) (child : LinuxChild) (pgid : ℤ) : Prop :=
  PosixSpawn k (spawnAttr cmd.group cmd.detached) child.pid pgid ∧
    LinuxSpawner.spawn cmd (.ok ()) (.ok child.pid) = .ok child

inductive Target
  | process (pid : ℤ)
  | callerGroup
  | everyone
  | group (pgid : ℤ)
  deriving DecidableEq

/-- How `kill(2)` reads its first argument. -/
def killTarget (pid : Pid) : Target :=
  if 0 < pid.toInt then .process pid.toInt
  else if pid.toInt = 0 then .callerGroup
  else if pid.toInt = -1 then .everyone
  else .group (-pid.toInt)

def killArg : Op → Option Pid
  | .killSingle pid _ => some pid
  | .killGroup pgid _ => some (-pgid)
  | _ => none

def ESRCH : Int32 := 3

def EPERM : Int32 := 1

def isAliveAnswer : Except Int32 Unit → Result Bool
  | .ok _ => .ok true
  | .error code =>
    if code = ESRCH then .ok false
    else if code = EPERM then .ok true
    else .error (errnoErr "kill" code)

def Kernel.Reached (k : Kernel) : Target → ℤ → Prop
  | .process pid, p => (k.pgid p).isSome ∧ p = pid
  | .callerGroup, p => (k.pgid p).isSome ∧ k.pgid p = k.pgid k.caller
  | .everyone, p => (k.pgid p).isSome ∧ p ≠ 1 ∧ p ≠ k.caller
  | .group pgid, p => k.pgid p = some pgid

inductive KillZero (k : Kernel) (pid : Pid) : Except Int32 Unit → Prop
  | ok {p : ℤ} (h : k.Reached (killTarget pid) p) : KillZero k pid (.ok ())
  | perm {p : ℤ} (h : k.Reached (killTarget pid) p) : KillZero k pid (.error EPERM)
  | noSuch (h : ∀ p, ¬ k.Reached (killTarget pid) p) : KillZero k pid (.error ESRCH)

def KillTreeReaches (cmd : Command) : Prop :=
  ∀ k child pgid, Accepted k cmd child pgid → ∀ sig o rest arg, child.killTree sig = .op o rest →
    killArg o = some arg → killTarget arg = .group pgid

def ProbesOnly (pid : UInt32) : Prop :=
  killTarget pid.toInt32 = .process pid.toNat ∧
    ∀ k r, KillZero k pid.toInt32 r →
      ∃ alive, isAliveAnswer r = .ok alive ∧ (alive = true ↔ (k.pgid pid.toNat).isSome)

theorem killTarget_neg {g : Pid} (h : 1 < g.toInt) : killTarget (-g) = .group g.toInt := by
  have hlt := g.toInt_lt
  have hneg : (-g).toInt = -g.toInt := by
    rw [Int32.toInt_neg, Int.bmod_eq_of_le (by omega) (by omega)]
  rw [killTarget, hneg, if_neg (by omega), if_neg (by omega), if_neg (by omega), Int.neg_neg]

theorem toInt_toInt32 (n : UInt32) :
    n.toInt32.toInt = if n.toNat < 2 ^ 31 then (n.toNat : ℤ) else n.toNat - 2 ^ 32 := by
  rw [← Int32.toInt_toBitVec, UInt32.toBitVec_toInt32, BitVec.toInt_eq_toNat_cond]
  have hn : n.toBitVec.toNat = n.toNat := rfl
  rw [hn]
  split_ifs <;> omega

theorem one_lt_of_new {k : Kernel} {pid : Pid} (hpid : 0 < pid) (hnew : k.pgid pid.toInt = none) :
    1 < pid.toInt := by
  have hpos : 0 < pid.toInt := Int32.lt_iff_toInt_lt.mp hpid
  have hne : pid.toInt ≠ 1 := by
    intro h
    have hinit := k.init_there
    rw [← h, hnew] at hinit
    cases hinit
  omega

theorem killTree_arg {child : LinuxChild} {sig : Signal} {o : Op}
    {rest : Answer o → Prog Answer (Result Unit)} {arg : Pid} (h : child.killTree sig = .op o rest)
    (ho : killArg o = some arg) : ∃ g, child.group = some g ∧ arg = -g := by
  unfold LinuxChild.killTree at h
  rcases hg : child.group with _ | g
  · rw [hg] at h
    cases h
  · rw [hg] at h
    cases h
    cases ho
    exact ⟨g, rfl, rfl⟩

theorem killTreeReaches_of {cmd : Command}
    (h : cmd.detached = true ∨ cmd.group ≠ .joinGroup 0 ∧ cmd.group ≠ .joinGroup 1) :
    KillTreeReaches cmd := by
  intro k child pgid hacc sig o rest arg hop harg
  obtain ⟨g, hgroup, rfl⟩ := killTree_arg hop harg
  obtain ⟨hspawn, hchild⟩ := hacc
  obtain ⟨group, detached⟩ := cmd
  cases group with
  | inherit =>
    cases detached with
    | false =>
      have hg : none = child.group := congrArg LinuxChild.group (Except.ok.inj hchild)
      cases hg.trans hgroup
    | true =>
      have hg : some child.pid = child.group := congrArg LinuxChild.group (Except.ok.inj hchild)
      obtain rfl : child.pid = g := Option.some.inj (hg.trans hgroup)
      cases hspawn with
      | setsid hpid hnew => exact killTarget_neg (one_lt_of_new hpid hnew)
  | newGroup =>
    cases detached with
    | true => cases hchild
    | false =>
      have hg : some child.pid = child.group := congrArg LinuxChild.group (Except.ok.inj hchild)
      obtain rfl : child.pid = g := Option.some.inj (hg.trans hgroup)
      cases hspawn with
      | lead hpid hnew => exact killTarget_neg (one_lt_of_new hpid hnew)
      | join hpid hnew hpos hs => exact absurd hpos (by decide)
  | joinGroup n =>
    cases detached with
    | true => cases hchild
    | false =>
      obtain hdet | ⟨h0, h1⟩ := h
      · cases hdet
      have hg : some n.toInt32 = child.group := congrArg LinuxChild.group (Except.ok.inj hchild)
      obtain rfl : n.toInt32 = g := Option.some.inj (hg.trans hgroup)
      have hpos : 0 < n.toInt32 ∧ pgid = n.toInt32.toInt := by
        generalize hattr : spawnAttr (.joinGroup n) false = attr at hspawn
        cases hspawn with
        | inherit => cases hattr
        | setsid => cases hattr
        | lead hpid hnew =>
          have hz : n.toInt32 = 0 := Option.some.inj (congrArg SpawnAttr.pgroup hattr)
          have hn : n = 0 := by rw [← UInt32.toUInt32_toInt32 n, hz]; rfl
          exact absurd (congrArg GroupSpec.joinGroup hn) h0
        | join hpid hnew hpos hs =>
          obtain rfl := Option.some.inj (congrArg SpawnAttr.pgroup hattr)
          exact ⟨hpos, rfl⟩
      obtain ⟨hpos, rfl⟩ := hpos
      apply killTarget_neg
      have hlt : 0 < n.toInt32.toInt := Int32.lt_iff_toInt_lt.mp hpos
      have hne : n.toInt32.toInt ≠ 1 := by
        intro hone
        have hone' : n.toInt32 = 1 := Int32.toInt_inj.mp hone
        have hn : n = 1 := by rw [← UInt32.toUInt32_toInt32 n, hone']; rfl
        exact absurd (congrArg GroupSpec.joinGroup hn) h1
      omega

def twoProcesses : Kernel where
  pgid p := if p = 1 then some 1 else if p = 5 then some 5 else none
  caller := 5
  session g := g = 1 ∨ g = 5
  pid_pos := by
    intro pid h
    split_ifs at h with h1 h5
    · omega
    · omega
    · cases h
  pid_lt := by
    intro pid h
    split_ifs at h with h1 h5
    · omega
    · omega
    · cases h
  init_there := rfl
  caller_there := rfl

theorem accepted_joinGroup_zero :
    Accepted twoProcesses ⟨.joinGroup 0, false⟩ ⟨7, some 0, none⟩ 7 :=
  ⟨.lead (by decide) rfl, rfl⟩

theorem accepted_joinGroup_one :
    Accepted twoProcesses ⟨.joinGroup 1, false⟩ ⟨7, some 1, none⟩ 1 :=
  ⟨.join (by decide) rfl (by decide) (.inl (.inl rfl)), rfl⟩

theorem not_killTreeReaches {cmd : Command} {k : Kernel} {child : LinuxChild} {g : Pid} {pgid : ℤ}
    (hacc : Accepted k cmd child pgid) (hg : child.group = some g)
    (ht : killTarget (-g) ≠ .group pgid) : ¬ KillTreeReaches cmd := by
  intro h
  apply ht
  have hop : ∃ rest, child.killTree .kill = .op (.killGroup g 9) rest := by
    unfold LinuxChild.killTree
    rw [hg]
    exact ⟨_, rfl⟩
  obtain ⟨rest, hop⟩ := hop
  exact h k child pgid hacc .kill _ rest _ hop rfl

theorem killTarget_toInt32 (pid : UInt32) (hpos : 0 < pid) (hlt : pid < 2 ^ 31) :
    killTarget pid.toInt32 = .process pid.toNat := by
  have h0 : 0 < pid.toNat := UInt32.lt_iff_toNat_lt.mp hpos
  have h1 : pid.toNat < 2 ^ 31 := UInt32.lt_iff_toNat_lt.mp hlt
  rw [killTarget, toInt_toInt32, if_pos h1, if_pos (by omega)]

theorem probesOnly_of (pid : UInt32) (hpos : 0 < pid) (hlt : pid < 2 ^ 31) : ProbesOnly pid := by
  have ht := killTarget_toInt32 pid hpos hlt
  refine ⟨ht, fun k r hr => ?_⟩
  cases hr with
  | ok h =>
    rw [ht] at h
    obtain ⟨hsome, rfl⟩ := h
    exact ⟨true, rfl, fun _ => hsome, fun _ => rfl⟩
  | perm h =>
    rw [ht] at h
    obtain ⟨hsome, rfl⟩ := h
    exact ⟨true, rfl, fun _ => hsome, fun _ => rfl⟩
  | noSuch h =>
    rw [ht] at h
    refine ⟨false, rfl, by rintro ⟨⟩, fun hsome => ?_⟩
    exact absurd ⟨hsome, rfl⟩ (h pid.toNat)

theorem pos_lt_of_probesOnly {pid : UInt32} (h : ProbesOnly pid) : 0 < pid ∧ pid < 2 ^ 31 := by
  have ht := h.1
  rw [killTarget, toInt_toInt32] at ht
  rw [UInt32.lt_iff_toNat_lt, UInt32.lt_iff_toNat_lt]
  change 0 < pid.toNat ∧ pid.toNat < 2 ^ 31
  split_ifs at ht with h31 hpos hzero hone
  · exact ⟨by omega, h31⟩
  · have hbound := pid.toNat_lt
    omega

theorem signals_reach_iff (cmd : Command) (pid : UInt32) :
    (KillTreeReaches cmd ↔
      cmd.detached = true ∨ cmd.group ≠ .joinGroup 0 ∧ cmd.group ≠ .joinGroup 1) ∧
    (ProbesOnly pid ↔ 0 < pid ∧ pid < 2 ^ 31) := by
  refine ⟨⟨?_, killTreeReaches_of⟩, pos_lt_of_probesOnly, fun h => probesOnly_of pid h.1 h.2⟩
  intro h
  by_contra hne
  rw [not_or] at hne
  obtain ⟨hdet, hne⟩ := hne
  obtain ⟨group, detached⟩ := cmd
  obtain rfl : detached = false := by simpa using hdet
  by_cases h0 : group = .joinGroup 0
  · subst h0
    exact not_killTreeReaches accepted_joinGroup_zero rfl (by decide) h
  · by_cases h1 : group = .joinGroup 1
    · subst h1
      exact not_killTreeReaches accepted_joinGroup_one rfl (by decide) h
    · exact hne ⟨h0, h1⟩

theorem joinGroup_zero_signals_caller :
    (∃ child rest, Accepted twoProcesses ⟨.joinGroup 0, false⟩ child 7 ∧
      child.killTree .kill = .op (.killGroup 0 9) rest ∧
      killArg (.killGroup 0 9) = some 0 ∧ killTarget 0 = .callerGroup) ∧
    ¬ KillTreeReaches ⟨.joinGroup 0, false⟩ ∧ ¬ ProbesOnly 0 := by
  refine ⟨⟨_, _, accepted_joinGroup_zero, rfl, rfl, rfl⟩, ?_, ?_⟩
  · exact not_killTreeReaches accepted_joinGroup_zero rfl (by decide)
  · intro h
    cases h.1

end Rustils.Process
