import Mathlib.Data.Fin.VecNotation
import Rustils.Lib.Bpf
import Rustils.Lib.LittleEndian

namespace Rustils.Security

open Lib.Bpf Lib.LittleEndian

def SECCOMP_DATA_NR_OFFSET : UInt32 := 0
def SECCOMP_DATA_ARCH_OFFSET : UInt32 := 4
def SECCOMP_DATA_ARG0_OFFSET : UInt32 := 16

def AUDIT_ARCH_X86_64 : UInt32 := 0xC000003E

def SYS_socket : Int64 := 41
def AF_INET : Int32 := 2
def AF_INET6 : Int32 := 10
def AF_PACKET : Int32 := 17
def EPERM : Int32 := 1

def SECCOMP_RET_KILL_PROCESS : UInt32 := 0x80000000
def SECCOMP_RET_KILL_THREAD : UInt32 := 0x00000000
def SECCOMP_RET_TRAP : UInt32 := 0x00030000
def SECCOMP_RET_ERRNO : UInt32 := 0x00050000
def SECCOMP_RET_USER_NOTIF : UInt32 := 0x7fc00000
def SECCOMP_RET_TRACE : UInt32 := 0x7ff00000
def SECCOMP_RET_LOG : UInt32 := 0x7ffc0000
def SECCOMP_RET_ALLOW : UInt32 := 0x7fff0000
def SECCOMP_RET_ACTION_FULL : UInt32 := 0xffff0000
def SECCOMP_RET_DATA : UInt32 := 0x0000ffff

def bpfStmt (code k : UInt32) : SockFilter := ⟨code.toUInt16, 0, 0, k⟩

def bpfJump (code k : UInt32) (jt jf : UInt8) : SockFilter := ⟨code.toUInt16, jt, jf, k⟩

def buildSeccompProgram : List SockFilter :=
  let ldWAbs := BPF_LD ||| BPF_W ||| BPF_ABS
  let jmpJeqK := BPF_JMP ||| BPF_JEQ ||| BPF_K
  let retK := BPF_RET ||| BPF_K
  [bpfStmt ldWAbs SECCOMP_DATA_ARCH_OFFSET,
    bpfJump jmpJeqK AUDIT_ARCH_X86_64 0 8,
    bpfStmt ldWAbs SECCOMP_DATA_NR_OFFSET,
    bpfJump jmpJeqK SYS_socket.toUInt64.toUInt32 0 4,
    bpfStmt ldWAbs SECCOMP_DATA_ARG0_OFFSET,
    bpfJump jmpJeqK AF_INET.toUInt32 3 0,
    bpfJump jmpJeqK AF_INET6.toUInt32 2 0,
    bpfJump jmpJeqK AF_PACKET.toUInt32 1 0,
    bpfStmt retK SECCOMP_RET_ALLOW,
    bpfStmt retK (SECCOMP_RET_ERRNO ||| (EPERM.toUInt32 &&& SECCOMP_RET_DATA)),
    bpfStmt retK SECCOMP_RET_KILL_PROCESS]

structure SeccompData where
  nr : Int32
  arch : UInt32
  instructionPointer : UInt64
  args : Fin 6 → UInt64

namespace SeccompData

def bytes (d : SeccompData) : List UInt8 :=
  leBytes 4 d.nr.toUInt32.toNat ++ (leBytes 4 d.arch.toNat ++
    (leBytes 8 d.instructionPointer.toNat ++
      (List.ofFn d.args).flatMap fun arg => leBytes 8 arg.toNat))

/-- Only whole aligned words of the structure can be loaded. -/
def load (d : SeccompData) (k : UInt32) : Option UInt32 :=
  if k.toNat % 4 = 0 ∧ k.toNat + 4 ≤ d.bytes.length then
    some (UInt32.ofNat (leNat ((d.bytes.drop k.toNat).take 4)))
  else none

end SeccompData

inductive Action
  | killProcess
  | killThread
  | trap (data : UInt32)
  | errno (data : UInt32)
  | userNotif
  | trace (data : UInt32)
  | log
  | allow
  deriving DecidableEq

/-- The kernel kills the process for an action it does not know. -/
def Action.ofRet (ret : UInt32) : Action :=
  let action := ret &&& SECCOMP_RET_ACTION_FULL
  let data := ret &&& SECCOMP_RET_DATA
  if action = SECCOMP_RET_ALLOW then .allow
  else if action = SECCOMP_RET_LOG then .log
  else if action = SECCOMP_RET_TRACE then .trace data
  else if action = SECCOMP_RET_USER_NOTIF then .userNotif
  else if action = SECCOMP_RET_ERRNO then .errno data
  else if action = SECCOMP_RET_TRAP then .trap data
  else if action = SECCOMP_RET_KILL_THREAD then .killThread
  else .killProcess

def verdict (prog : List SockFilter) (d : SeccompData) : Option Action :=
  (run d.load prog 0).map Action.ofRet

section Load

variable (d : SeccompData)

theorem load_eq {k : UInt32} (pre post : List UInt8) (x : ℕ)
    (hb : d.bytes = pre ++ (leBytes 4 x ++ post)) (hk : k.toNat = pre.length)
    (ha : k.toNat % 4 = 0) : d.load k = some (UInt32.ofNat x) := by
  have hlen := congrArg List.length hb
  simp only [List.length_append, length_leBytes] at hlen
  have htake : (d.bytes.drop k.toNat).take 4 = leBytes 4 x := by
    rw [hb, hk, List.drop_left]
    exact List.take_left' (length_leBytes 4 x)
  rw [SeccompData.load, if_pos ⟨ha, by omega⟩, htake, leNat_leBytes]
  apply congrArg some
  apply UInt32.toNat_inj.mp
  simp only [UInt32.toNat_ofNat']
  omega

theorem load_nr : d.load SECCOMP_DATA_NR_OFFSET = some d.nr.toUInt32 := by
  rw [load_eq d [] _ d.nr.toUInt32.toNat rfl rfl rfl, UInt32.ofNat_toNat]

theorem load_arch : d.load SECCOMP_DATA_ARCH_OFFSET = some d.arch := by
  rw [load_eq d (leBytes 4 d.nr.toUInt32.toNat) _ d.arch.toNat rfl rfl rfl, UInt32.ofNat_toNat]

theorem load_arg0 : d.load SECCOMP_DATA_ARG0_OFFSET = some (d.args 0).toUInt32 := by
  let pre := leBytes 4 d.nr.toUInt32.toNat ++
    (leBytes 4 d.arch.toNat ++ leBytes 8 d.instructionPointer.toNat)
  let rest := (List.ofFn fun i : Fin 5 => d.args i.succ).flatMap fun arg => leBytes 8 arg.toNat
  have hlow : leBytes 8 (d.args 0).toNat =
      leBytes 4 (d.args 0).toNat ++ (leBytes 8 (d.args 0).toNat).drop 4 := by
    rw [← take_leBytes (w := 8) (v := 4) _ (by decide), List.take_append_drop]
  have hb : d.bytes = pre ++ (leBytes 4 (d.args 0).toNat ++
      ((leBytes 8 (d.args 0).toNat).drop 4 ++ rest)) := by
    rw [SeccompData.bytes, List.ofFn_succ, List.flatMap_cons]
    nth_rewrite 1 [hlow]
    simp only [pre, rest, List.append_assoc]
  rw [load_eq d pre _ (d.args 0).toNat hb (by simp [pre]; rfl) rfl]
  rfl

end Load

def Blocked (d : SeccompData) : Prop :=
  (d.args 0).toUInt32 = AF_INET.toUInt32 ∨ (d.args 0).toUInt32 = AF_INET6.toUInt32 ∨
    (d.args 0).toUInt32 = AF_PACKET.toUInt32

instance (d : SeccompData) : Decidable (Blocked d) := inferInstanceAs (Decidable (_ ∨ _ ∨ _))

theorem run_stmt_ret (load : UInt32 → Option UInt32) (k acc : UInt32) (rest : List SockFilter) :
    run load (bpfStmt (BPF_RET ||| BPF_K) k :: rest) acc = some k := run_retK rfl

theorem run_stmt_load {load : UInt32 → Option UInt32} {k word : UInt32} (acc : UInt32)
    (rest : List SockFilter) (h : load k = some word) :
    run load (bpfStmt (BPF_LD ||| BPF_W ||| BPF_ABS) k :: rest) acc = run load rest word :=
  run_ldAbs rfl h

theorem run_jump_eq (load : UInt32 → Option UInt32) (k acc : UInt32) (jt jf : UInt8)
    (rest : List SockFilter) :
    run load (bpfJump (BPF_JMP ||| BPF_JEQ ||| BPF_K) k jt jf :: rest) acc =
      if acc = k then run load (rest.drop jt.toNat) acc else run load (rest.drop jf.toNat) acc :=
  run_jeq rfl

theorem run_buildSeccompProgram (d : SeccompData) : run d.load buildSeccompProgram 0 = some (
    if d.arch ≠ AUDIT_ARCH_X86_64 then SECCOMP_RET_KILL_PROCESS
    else if d.nr.toUInt32 = SYS_socket.toUInt64.toUInt32 ∧ Blocked d then
      SECCOMP_RET_ERRNO ||| (EPERM.toUInt32 &&& SECCOMP_RET_DATA)
    else SECCOMP_RET_ALLOW) := by
  unfold buildSeccompProgram Blocked
  rw [run_stmt_load _ _ (load_arch d), run_jump_eq]
  by_cases harch : d.arch = AUDIT_ARCH_X86_64
  · rw [if_pos harch, if_neg (not_not.mpr harch), UInt8.toNat_zero, List.drop_zero,
      run_stmt_load _ _ (load_nr d), run_jump_eq]
    by_cases hnr : d.nr.toUInt32 = SYS_socket.toUInt64.toUInt32
    · rw [if_pos hnr, UInt8.toNat_zero, List.drop_zero, run_stmt_load _ _ (load_arg0 d)]
      simp only [run_jump_eq, hnr, true_and, UInt8.toNat_zero, UInt8.reduceToNat, List.drop_zero, List.drop_succ_cons,
        run_stmt_ret]
      split_ifs with h₁ h₂ h₃ <;> simp_all
    · rw [if_neg hnr, if_neg (mt And.left hnr)]
      exact run_stmt_ret ..
  · rw [if_neg harch, if_pos harch]
    exact run_stmt_ret ..

theorem nr_eq_socket (d : SeccompData) :
    d.nr.toUInt32 = SYS_socket.toUInt64.toUInt32 ↔ d.nr = SYS_socket.toInt32 := by
  constructor
  · intro h
    exact congrArg UInt32.toInt32 h
  · intro h
    rw [h]
    rfl

theorem verdict_eq (d : SeccompData) : verdict buildSeccompProgram d = some (
    if d.arch ≠ AUDIT_ARCH_X86_64 then .killProcess
    else if d.nr = SYS_socket.toInt32 ∧ Blocked d then .errno EPERM.toUInt32
    else .allow) := by
  rw [verdict, run_buildSeccompProgram, Option.map_some]
  simp only [nr_eq_socket]
  split_ifs <;> rfl

theorem seccomp_verdict (d : SeccompData) :
    ∃ v, verdict buildSeccompProgram d = some v ∧
      (v = .killProcess ↔ d.arch ≠ AUDIT_ARCH_X86_64) ∧
      (v = .errno EPERM.toUInt32 ↔
        d.arch = AUDIT_ARCH_X86_64 ∧ d.nr = SYS_socket.toInt32 ∧ Blocked d) ∧
      (v ≠ .killProcess → v ≠ .errno EPERM.toUInt32 → v = .allow) := by
  refine ⟨_, verdict_eq d, ?_⟩
  by_cases harch : d.arch = AUDIT_ARCH_X86_64
  · rw [if_neg (not_not.mpr harch)]
    by_cases hsocket : d.nr = SYS_socket.toInt32 ∧ Blocked d
    · rw [if_pos hsocket]
      simp [harch, hsocket]
    · rw [if_neg hsocket]
      simp [harch, hsocket]
  · rw [if_pos harch]
    simp [harch]

def X32_SYSCALL_BIT : UInt32 := 0x40000000

def DispatchesToSocket (d : SeccompData) : Prop :=
  d.arch = AUDIT_ARCH_X86_64 ∧ (d.nr.toUInt32 = SYS_socket.toUInt64.toUInt32 ∨
    d.nr.toUInt32 = SYS_socket.toUInt64.toUInt32 ||| X32_SYSCALL_BIT)

theorem not_allowed_iff (d : SeccompData) (hd : DispatchesToSocket d) (hb : Blocked d) :
    verdict buildSeccompProgram d ≠ some .allow ↔ d.nr.toUInt32 &&& X32_SYSCALL_BIT = 0 := by
  obtain ⟨harch, hnr⟩ := hd
  rw [verdict_eq, if_neg (not_not.mpr harch)]
  rcases hnr with hnr | hnr
  · rw [if_pos ⟨(nr_eq_socket d).mp hnr, hb⟩, hnr]
    exact iff_of_true (by decide) (by decide)
  · have hne : d.nr.toUInt32 ≠ SYS_socket.toUInt64.toUInt32 := by
      rw [hnr]
      decide
    rw [if_neg fun h => hne ((nr_eq_socket d).mpr h.1), hnr]
    exact iff_of_false (by decide) (by decide)

def inetCall (nr : Int32) : SeccompData := ⟨nr, AUDIT_ARCH_X86_64, 0, ![2, 1, 0, 0, 0, 0]⟩

theorem native_inet_not_allowed :
    DispatchesToSocket (inetCall 41) ∧ Blocked (inetCall 41) ∧
      verdict buildSeccompProgram (inetCall 41) ≠ some .allow := by
  have hd : DispatchesToSocket (inetCall 41) := ⟨rfl, .inl rfl⟩
  exact ⟨hd, .inl rfl, (not_allowed_iff _ hd (.inl rfl)).mpr (by decide)⟩

theorem x32_inet_allowed :
    DispatchesToSocket (inetCall 0x40000029) ∧ Blocked (inetCall 0x40000029) ∧
      verdict buildSeccompProgram (inetCall 0x40000029) = some .allow := by
  refine ⟨⟨rfl, .inr rfl⟩, .inl rfl, ?_⟩
  rw [verdict_eq]
  rfl

end Rustils.Security
