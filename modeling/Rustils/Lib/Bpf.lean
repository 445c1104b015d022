import Mathlib.Data.Nat.Notation
import Mathlib.Data.UInt

namespace Rustils.Lib.Bpf

def BPF_LD : UInt32 := 0x00
def BPF_JMP : UInt32 := 0x05
def BPF_RET : UInt32 := 0x06
def BPF_W : UInt32 := 0x00
def BPF_ABS : UInt32 := 0x20
def BPF_JA : UInt32 := 0x00
def BPF_JEQ : UInt32 := 0x10
def BPF_JGT : UInt32 := 0x20
def BPF_JGE : UInt32 := 0x30
def BPF_JSET : UInt32 := 0x40
def BPF_K : UInt32 := 0x00
def BPF_A : UInt32 := 0x10

structure SockFilter where
  code : UInt16
  jt : UInt8
  jf : UInt8
  k : UInt32

inductive Cond
  | eq | gt | ge | set

def Cond.test (acc k : UInt32) : Cond → Bool
  | .eq => acc == k
  | .gt => k < acc
  | .ge => k ≤ acc
  | .set => acc &&& k != 0

inductive Opcode
  | ldAbs
  | ja
  | jump (c : Cond)
  | retK
  | retA

def Opcode.decode (code : UInt16) : Option Opcode :=
  if code = (BPF_LD ||| BPF_W ||| BPF_ABS).toUInt16 then some .ldAbs
  else if code = (BPF_JMP ||| BPF_JA).toUInt16 then some .ja
  else if code = (BPF_JMP ||| BPF_JEQ ||| BPF_K).toUInt16 then some (.jump .eq)
  else if code = (BPF_JMP ||| BPF_JGT ||| BPF_K).toUInt16 then some (.jump .gt)
  else if code = (BPF_JMP ||| BPF_JGE ||| BPF_K).toUInt16 then some (.jump .ge)
  else if code = (BPF_JMP ||| BPF_JSET ||| BPF_K).toUInt16 then some (.jump .set)
  else if code = (BPF_RET ||| BPF_K).toUInt16 then some .retK
  else if code = (BPF_RET ||| BPF_A).toUInt16 then some .retA
  else none

/-- The instructions still ahead are the argument, so that a jump leaves some of them out. -/
def run (load : UInt32 → Option UInt32) (prog : List SockFilter) (acc : UInt32) : Option UInt32 :=
  match prog with
  | [] => none
  | i :: rest =>
    match Opcode.decode i.code with
    | some .ldAbs =>
      match load i.k with
      | some word => run load rest word
      | none => none
    | some .ja => run load (rest.drop i.k.toNat) acc
    | some (.jump c) =>
      run load (rest.drop (if c.test acc i.k then i.jt.toNat else i.jf.toNat)) acc
    | some .retK => some i.k
    | some .retA => some acc
    | none => none
termination_by prog.length
decreasing_by all_goals simp only [List.length_cons, List.length_drop]; omega

section Run

variable {load : UInt32 → Option UInt32} {i : SockFilter} {rest : List SockFilter}
  {acc word : UInt32}

theorem run_ldAbs (hi : Opcode.decode i.code = some .ldAbs) (hl : load i.k = some word) :
    run load (i :: rest) acc = run load rest word := by
  rw [run, hi, hl]

theorem run_jeq (hi : Opcode.decode i.code = some (.jump .eq)) :
    run load (i :: rest) acc =
      if acc = i.k then run load (rest.drop i.jt.toNat) acc else run load (rest.drop i.jf.toNat) acc := by
  have htest : Cond.test acc i.k .eq = true ↔ acc = i.k := beq_iff_eq
  rw [run, hi]
  dsimp only
  by_cases h : acc = i.k
  · rw [if_pos h, if_pos (htest.mpr h)]
  · rw [if_neg h, if_neg (mt htest.mp h)]

theorem run_retK (hi : Opcode.decode i.code = some .retK) :
    run load (i :: rest) acc = some i.k := by
  rw [run, hi]

end Run

end Rustils.Lib.Bpf
