import Rustils.Process.Child

namespace Rustils.Process

open Platform Lib.Program

/-- A process with the stop and the resumption that were not reported yet, one that has ended, or
none any more. -/
inductive Proc
  | alive (stopped : Option SigNum) (continued : Bool)
  | zombie (t : Termination)
  | gone

inductive KernelEvent : Proc → Proc → Prop
  | stop {stopped : Option SigNum} {continued : Bool} (sig : SigNum) :
    KernelEvent (.alive stopped continued) (.alive (some sig) false)
  | resume {stopped : Option SigNum} {continued : Bool} :
    KernelEvent (.alive stopped continued) (.alive none true)
  | exit {stopped : Option SigNum} {continued : Bool} (t : Termination) :
    KernelEvent (.alive stopped continued) (.zombie t)

inductive KernelAnswer
  | report (r : Report)
  | nothing
  | failed (errno : Int32)

/-- Any call may fail, and one on a process that is gone does. -/
inductive Waitpid (flags : WaitFlags) : Proc → KernelAnswer → Proc → Prop
  | terminated (t : Termination) : Waitpid flags (.zombie t) (.report (.terminated t)) .gone
  | stopped (sig : SigNum) (continued : Bool) (h : flags.untraced = true) :
    Waitpid flags (.alive (some sig) continued) (.report (.stopped sig)) (.alive none continued)
  | continued (stopped : Option SigNum) (h : flags.continued = true) :
    Waitpid flags (.alive stopped true) (.report .continued) (.alive stopped false)
  | nothing (stopped : Option SigNum) (continued : Bool) (h : flags.nohang = true)
    (hs : flags.untraced = true → stopped = none)
    (hc : flags.continued = true → continued = false) :
    Waitpid flags (.alive stopped continued) .nothing (.alive stopped continued)
  | failed (p : Proc) (errno : Int32) : Waitpid flags p (.failed errno) p

/-- The registers after the call; where nothing is written there, 0 stands for what was there. -/
def KernelAnswer.raw (pid : Pid) : KernelAnswer → WaitAnswer
  | .report r => ⟨pid, r.word, 0⟩
  | .nothing => ⟨0, 0, 0⟩
  | .failed errno => ⟨-1, 0, errno⟩

inductive Call
  | wait | tryWait | waitJob | tryWaitJob
  | waitAny (co : Company)
  | killSingle (sig : Signal)
  | killTree (sig : Signal)

inductive Ret
  | wait (r : Result ExitStatus)
  | tryWait (r : Result (Option ExitStatus))
  | waitJob (r : Result ExitStatus)
  | tryWaitJob (r : Result (Option ExitStatus))
  | waitAny (r : Result (Option ℕ))
  | killSingle (r : Result Unit)
  | killTree (r : Result Unit)

def LinuxChild.run (self : LinuxChild) : Call → Prog Answer (Ret × Option LinuxChild)
  | .wait => do return (.wait (← self.wait), none)
  | .tryWait => do
    let (r, self) ← self.tryWait
    return (.tryWait r, some self)
  | .waitJob => do
    let (r, self) ← self.waitJob
    return (.waitJob r, some self)
  | .tryWaitJob => do
    let (r, self) ← self.tryWaitJob
    return (.tryWaitJob r, some self)
  | .waitAny co => do
    let (r, self) ← self.waitAny co
    return (.waitAny r, some self)
  | .killSingle sig => do return (.killSingle (← self.killSingle sig), some self)
  | .killTree sig => do return (.killTree (← self.killTree sig), some self)

inductive Task
  | idle (child : LinuxChild)
  | running (p : Prog Answer (Ret × Option LinuxChild))
  | consumed

def Task.returned : Option LinuxChild → Task
  | some child => .idle child
  | none => .consumed

structure Sys where
  proc : Proc
  task : Task

inductive Label
  | kernel
  | call (c : Call)
  | waitpid (flags : WaitFlags) (a : KernelAnswer)
  | op (o : Op)
  | ret (r : Ret)

inductive Step (pid : Pid) : Sys → Label → Sys → Prop
  | kernel {p p' : Proc} {t : Task} (h : KernelEvent p p') : Step pid ⟨p, t⟩ .kernel ⟨p', t⟩
  | call {p : Proc} {child : LinuxChild} (c : Call) :
    Step pid ⟨p, .idle child⟩ (.call c) ⟨p, .running (child.run c)⟩
  | again {p p' : Proc} {f : WaitFn} {k : Result f.Ret → Prog Answer (Ret × Option LinuxChild)}
    {a : KernelAnswer} (hw : Waitpid f.flags p a p') (ht : f.turn pid (a.raw pid) = none) :
    Step pid ⟨p, .running (.op (.loop f pid) k)⟩ (.waitpid f.flags a)
      ⟨p', .running (.op (.loop f pid) k)⟩
  | answered {p p' : Proc} {f : WaitFn} {k : Result f.Ret → Prog Answer (Ret × Option LinuxChild)}
    {a : KernelAnswer} {r : Result f.Ret} (hw : Waitpid f.flags p a p')
    (ht : f.turn pid (a.raw pid) = some r) :
    Step pid ⟨p, .running (.op (.loop f pid) k)⟩ (.waitpid f.flags a) ⟨p', .running (k r)⟩
  | op {p : Proc} {o : Op} {k : Answer o → Prog Answer (Ret × Option LinuxChild)}
    (ho : ∀ f pid, o ≠ .loop f pid) (r : Answer o) :
    Step pid ⟨p, .running (.op o k)⟩ (.op o) ⟨p, .running (k r)⟩
  | ret {p : Proc} {r : Ret} {child : Option LinuxChild} :
    Step pid ⟨p, .running (.ret (r, child))⟩ (.ret r) ⟨p, .returned child⟩

def spawned (pid : Pid) (group : Option Pid) : Sys :=
  ⟨.alive none false, .idle ⟨pid, group, none⟩⟩

end Rustils.Process
