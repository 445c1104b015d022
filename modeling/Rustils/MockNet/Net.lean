import Rustils.Lib.History
import Rustils.Lib.Registry
import Rustils.Platform.Error

namespace Rustils.MockNet

open Platform Lib.Program Lib.Registry

inductive Space
  | tcp
  | unix
  | udp
  deriving DecidableEq

inductive SocketAddr
  | v4 (ip : UInt32) (port : UInt16)
  | v6 (ip : BitVec 128) (port : UInt16) (flowinfo scopeId : UInt32)
  deriving DecidableEq

structure PathBuf where
  absolute : Bool
  components : List (List UInt8)
  deriving DecidableEq

def SocketAddr.port : SocketAddr → UInt16
  | .v4 _ port => port
  | .v6 _ port _ _ => port

def SocketAddr.withPort : SocketAddr → UInt16 → SocketAddr
  | .v4 ip _, port => .v4 ip port
  | .v6 ip _ _ _, port => .v6 ip port 0 0

def localhost (port : UInt16) : SocketAddr := .v4 0x7f000001 port

/-- One end of a pair of streams; `id` is the call that made the pair. -/
structure MockTcpStream where
  id : ℕ
  localAddr : SocketAddr
  peer : SocketAddr
  deriving DecidableEq

structure MockUnixStream where
  id : ℕ
  localAddr : Option PathBuf
  peer : Option PathBuf
  deriving DecidableEq

@[reducible] def Addr : Space → Type
  | .tcp => SocketAddr
  | .unix => PathBuf
  | .udp => SocketAddr

@[reducible] def Msg : Space → Type
  | .tcp => MockTcpStream × SocketAddr
  | .unix => MockUnixStream × Option PathBuf
  | .udp => List UInt8 × SocketAddr

instance (s : Space) : DecidableEq (Addr s) :=
  match s with
  | .tcp => inferInstanceAs (DecidableEq SocketAddr)
  | .unix => inferInstanceAs (DecidableEq PathBuf)
  | .udp => inferInstanceAs (DecidableEq SocketAddr)

structure Listener (s : Space) where
  addr : Addr s
  rx : Chan

structure Globals where
  regs : (s : Space) → Table (Addr s) (Msg s)
  nextPort : UInt16

def Globals.initial : Globals := ⟨fun _ => .empty, 40000⟩

def Globals.set (g : Globals) (s : Space) (t : Table (Addr s) (Msg s)) : Globals :=
  { g with regs := Function.update g.regs s t }

theorem Globals.set_regs (g : Globals) (s : Space) (t : Table (Addr s) (Msg s)) :
    (g.set s t).regs s = t := Function.update_self ..

inductive Section
  | nextEphemeralPort
  | get (s : Space) (addr : Addr s)
  | send (s : Space) (tx : Chan) (m : Msg s)
  | register (s : Space) (addr : Addr s)
  | sendTo (addr : SocketAddr) (m : Msg .udp)
  | recv (s : Space) (l : Listener s)
  | unregister (s : Space) (l : Listener s)
  | close (s : Space) (l : Listener s)

@[reducible] def Answer : Section → Type
  | .nextEphemeralPort => UInt16
  | .get _ _ => Option Chan
  | .send _ _ _ => Bool
  | .register _ _ => Option Chan
  | .sendTo _ _ => Option (Chan × Bool)
  | .recv s _ => Option (Msg s)
  | .unregister _ _ => Unit
  | .close _ _ => Unit

def postTo {K M : Type} (t : Table K M) (a : K) (m : M) : Option (Chan × Bool) × Table K M :=
  match t.map a with
  | some tx => (some (tx, (t.send tx m).1), (t.send tx m).2)
  | none => (none, t)

/-- A listener can be used, and dropped, as long as it was not dropped. It waits for a message, and
gets none only when no sender is left. -/
def moves : Env Globals Answer
  | g, .nextEphemeralPort, r, g' => r = g.nextPort ∧ g' = { g with nextPort := g.nextPort + 1 }
  | g, .get s addr, r, g' => r = (g.regs s).map addr ∧ g' = g
  | g, .send s tx m, r, g' => r = ((g.regs s).send tx m).1 ∧ g' = g.set s ((g.regs s).send tx m).2
  | g, .register s addr, r, g' =>
    r = ((g.regs s).register addr).1 ∧ g' = g.set s ((g.regs s).register addr).2
  | g, .sendTo addr m, r, g' =>
    r = (postTo (g.regs .udp) addr m).1 ∧ g' = g.set .udp (postTo (g.regs .udp) addr m).2
  | g, .recv s l, some m, g' =>
    (g.regs s).owners l.rx = some l.addr ∧
      ∃ rest, (g.regs s).queues l.rx = some (m :: rest) ∧
        g' = g.set s ((g.regs s).setQueue l.rx (some rest))
  | g, .recv s l, none, g' =>
    (g.regs s).owners l.rx = some l.addr ∧ (g.regs s).queues l.rx = some [] ∧
      (∀ a, (g.regs s).map a ≠ some l.rx) ∧ g' = g
  | g, .unregister s l, _, g' =>
    (g.regs s).owners l.rx = some l.addr ∧ g' = g.set s ((g.regs s).unregister l.addr l.rx)
  | g, .close s l, _, g' => g' = g.set s ((g.regs s).setQueue l.rx none)

inductive Reply
  | tcpStream (client : MockTcpStream)
  | unixStream (client : MockUnixStream)
  | listener (s : Space) (l : Listener s)
  | accepted (s : Space) (m : Msg s)
  | sent (n : ℕ)
  | received (data : List UInt8) (peer : SocketAddr)
  | dropped

abbrev Running := Prog Answer (Result Reply)

def err (kind : ErrorKind) (op : String) : PlatformError := .new kind .none op

def tcpConnect (id : ℕ) (addr : SocketAddr) : Running :=
  .op (.get .tcp addr) fun
    | none => .ret (.error (err .connectionRefused "connect"))
    | some tx =>
      .op .nextEphemeralPort fun port =>
        .op (.send .tcp tx (⟨id, addr, localhost port⟩, localhost port)) fun
          | false => .ret (.error (err .connectionRefused "connect"))
          | true => .ret (.ok (.tcpStream ⟨id, localhost port, addr⟩))

def unixConnect (id : ℕ) (path : PathBuf) : Running :=
  .op (.get .unix path) fun
    | none => .ret (.error (err .connectionRefused "connect"))
    | some tx =>
      .op (.send .unix tx (⟨id, some path, none⟩, none)) fun
        | false => .ret (.error (err .connectionRefused "connect"))
        | true => .ret (.ok (.unixStream ⟨id, none, some path⟩))

def listenAt (s : Space) (op : String) (addr : Addr s) : Running :=
  .op (.register s addr) fun
    | none => .ret (.error (err .addrInUse op))
    | some rx => .ret (.ok (.listener s ⟨addr, rx⟩))

def withPort (addr : SocketAddr) (k : SocketAddr → Running) : Running :=
  if addr.port = 0 then .op .nextEphemeralPort fun port => k (addr.withPort port) else k addr

def tcpListen (addr : SocketAddr) : Running := withPort addr (listenAt .tcp "listen")

def unixListen (path : PathBuf) : Running := listenAt .unix "listen" path

def udpBind (addr : SocketAddr) : Running := withPort addr (listenAt .udp "udp_bind")

def accept (s : Space) (l : Listener s) : Running :=
  .op (.recv s l) fun
    | some m => .ret (.ok (.accepted s m))
    | none => .ret (.error (err .other "accept"))

def sendTo (socket : Listener .udp) (buf : List UInt8) (addr : SocketAddr) : Running :=
  .op (.sendTo addr (buf, socket.addr)) fun _ => .ret (.ok (.sent buf.length))

def recvFrom (socket : Listener .udp) (len : ℕ) : Running :=
  .op (.recv .udp socket) fun
    | some (data, peer) => .ret (.ok (.received (data.take len) peer))
    | none => .ret (.error (err .other "recv_from"))

/-- `Drop` frees the address; the receiver goes after it, with the other fields. -/
def drop (s : Space) (l : Listener s) : Running :=
  .op (.unregister s l) fun _ => .op (.close s l) fun _ => .ret (.ok .dropped)

inductive Call
  | tcpConnect (addr : SocketAddr)
  | tcpListen (addr : SocketAddr)
  | unixConnect (path : PathBuf)
  | unixListen (path : PathBuf)
  | udpBind (addr : SocketAddr)
  | tcpAccept (l : Listener .tcp)
  | unixAccept (l : Listener .unix)
  | sendTo (socket : Listener .udp) (buf : List UInt8) (addr : SocketAddr)
  | recvFrom (socket : Listener .udp) (len : ℕ)
  | drop (s : Space) (l : Listener s)

def Call.run (id : ℕ) : Call → Running
  | .tcpConnect addr => MockNet.tcpConnect id addr
  | .tcpListen addr => MockNet.tcpListen addr
  | .unixConnect path => MockNet.unixConnect id path
  | .unixListen path => MockNet.unixListen path
  | .udpBind addr => MockNet.udpBind addr
  | .tcpAccept l => accept .tcp l
  | .unixAccept l => accept .unix l
  | .sendTo socket buf addr => MockNet.sendTo socket buf addr
  | .recvFrom socket len => MockNet.recvFrom socket len
  | .drop s l => MockNet.drop s l

abbrev Net := Pool ℕ Answer (Result Reply) Globals

abbrev Record := List (Taken ℕ Answer)

def start (calls : ℕ → Call) : Net := ⟨fun i => (calls i).run i, .initial⟩

end Rustils.MockNet
