import Rustils.Lib.Transcript
import Rustils.Term.Terminal

namespace Rustils.Term.Linux

open Platform Lib.Program

def ENOTTY : Int32 := 25
def EBADF : Int32 := 9

def termErr (op : String) (code : Int32) : PlatformError :=
  let kind : ErrorKind := if code = ENOTTY then .other else if code = EBADF then .invalidInput else .other
  .new kind (.errno code) op

structure Termios where
  iflag : UInt32
  oflag : UInt32
  cflag : UInt32
  lflag : UInt32
  vmin : UInt8
  vtime : UInt8
  deriving DecidableEq

def ECHO : UInt32 := 0o10
def ICANON : UInt32 := 0o2
def ISIG : UInt32 := 0o1
def ECHONL : UInt32 := 0o100
def IEXTEN : UInt32 := 0o100000
def IGNBRK : UInt32 := 0o1
def BRKINT : UInt32 := 0o2
def PARMRK : UInt32 := 0o10
def ISTRIP : UInt32 := 0o40
def INLCR : UInt32 := 0o100
def IGNCR : UInt32 := 0o200
def ICRNL : UInt32 := 0o400
def IXON : UInt32 := 0o2000
def OPOST : UInt32 := 0o1
def CSIZE : UInt32 := 0o60
def PARENB : UInt32 := 0o400
def CS8 : UInt32 := 0o60

def cfmakeraw (t : Termios) : Termios where
  iflag := t.iflag &&& ~~~(IGNBRK ||| BRKINT ||| PARMRK ||| ISTRIP ||| INLCR ||| IGNCR ||| ICRNL ||| IXON)
  oflag := t.oflag &&& ~~~OPOST
  cflag := (t.cflag &&& ~~~(CSIZE ||| PARENB)) ||| CS8
  lflag := t.lflag &&& ~~~(ECHO ||| ECHONL ||| ICANON ||| ISIG ||| IEXTEN)
  vmin := 1
  vtime := 0

inductive Call
  | tcgetattr (fd : TermStream)
  | tcsetattr (fd : TermStream) (t : Termios)

@[reducible] def Answer : Call → Type
  | .tcgetattr _ => Except Int32 Termios
  | .tcsetattr _ _ => Except Int32 Unit

def enterRaw (fd : TermStream) : Prog Answer (Result Termios) :=
  .op (.tcgetattr fd) fun
    | .error code => .ret (.error (termErr "tcgetattr" code))
    | .ok cur =>
      .op (.tcsetattr fd (cfmakeraw cur)) fun
        | .error code => .ret (.error (termErr "tcsetattr" code))
        | .ok _ => .ret (.ok cur)

def restore (fd : TermStream) (saved : Termios) : Prog Answer (Result Unit) :=
  .op (.tcsetattr fd saved) fun
    | .error code => .ret (.error (termErr "tcsetattr" code))
    | .ok _ => .ret (.ok ())

def Termios.isRaw (t : Termios) : Bool := t.lflag &&& (ICANON ||| ECHO) = 0

def isRaw (fd : TermStream) : Prog Answer Bool :=
  .op (.tcgetattr fd) fun
    | .error _ => .ret false
    | .ok cur => .ret cur.isRaw

def Termios.echo (t : Termios) : Bool := t.lflag &&& ECHO ≠ 0

def Termios.setEcho (t : Termios) (on : Bool) : Termios :=
  { t with lflag := if on then t.lflag ||| ECHO else t.lflag &&& ~~~ECHO }

def setEcho (fd : TermStream) (on : Bool) : Prog Answer (Result Bool) :=
  .op (.tcgetattr fd) fun
    | .error code => .ret (.error (termErr "tcgetattr" code))
    | .ok cur =>
      .op (.tcsetattr fd (cur.setEcho on)) fun
        | .error code => .ret (.error (termErr "tcsetattr" code))
        | .ok _ => .ret (.ok cur.echo)

namespace LinuxTerminal

def enterRaw : Option Termios → Prog Answer (Result Unit × Option Termios) := Term.enterRaw (Linux.enterRaw .stdin)

def leaveRaw : Option Termios → Prog Answer (Result Unit × Option Termios) := Term.leaveRaw (Linux.restore .stdin)

end LinuxTerminal

structure Tty where
  attrs : TermStream → Option Termios

def Tty.set (σ : Tty) (fd : TermStream) (t : Termios) : Tty := ⟨Function.update σ.attrs fd (some t)⟩

@[simp] theorem Tty.set_self (σ : Tty) (fd : TermStream) (t : Termios) : (σ.set fd t).attrs fd = some t :=
  Function.update_self ..

def tty : Env Tty Answer
  | σ, .tcgetattr fd, .ok t, σ' => σ.attrs fd = some t ∧ σ' = σ
  | σ, .tcsetattr fd t, .ok _, σ' => (σ.attrs fd).isSome ∧ σ' = σ.set fd t
  | σ, _, _, σ' => σ' = σ

/-- Another process changes the attributes of a terminal. -/
inductive Drift (σ : Tty) : Tty → Prop
  | intro {fd : TermStream} (h : (σ.attrs fd).isSome) (t : Termios) : Drift σ (σ.set fd t)

def system : Env Tty Answer := Env.amid tty Drift

end Rustils.Term.Linux
