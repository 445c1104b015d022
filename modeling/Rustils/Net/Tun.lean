import Mathlib.Data.List.Infix
import Mathlib.Data.List.TakeWhile
import Rustils.Lib.LittleEndian
import Rustils.Lib.Pieces
import Rustils.Lib.Utf8
import Rustils.Net.Kernel

namespace Rustils.Net.Tun

open Platform Lib.Program Lib.LittleEndian Lib.Utf8

abbrev Name := List UInt8

def ENOENT : Int32 := 2
def EPERM : Int32 := 1
def EACCES : Int32 := 13
def ENODEV : Int32 := 19
def EINVAL : Int32 := 22

def kindOf (errno : Int32) : ErrorKind :=
  if errno = ENOENT then .notFound
  else if errno = EACCES ∨ errno = EPERM then .permissionDenied
  else if errno = EINVAL then .invalidInput
  else if errno = ENODEV then .notFound
  else .other

def tunErr (op : String) (e : Int32) : PlatformError := .new (kindOf e) (.errno e) op

def IFNAMSIZ : ℕ := 16
def AF_INET : ℕ := 2
def IFF_TUN : ℕ := 0x1
def IFF_NO_PI : ℕ := 0x1000
def IFF_UP : ℕ := 0x1
def IFF_RUNNING : ℕ := 0x40

structure Ipv4Addr where
  a : UInt8
  b : UInt8
  c : UInt8
  d : UInt8

def Ipv4Addr.octets (addr : Ipv4Addr) : List UInt8 := [addr.a, addr.b, addr.c, addr.d]

def Ipv4Addr.ofBits (bits : UInt32) : Ipv4Addr :=
  ⟨(bits >>> 24).toUInt8, (bits >>> 16).toUInt8, (bits >>> 8).toUInt8, bits.toUInt8⟩

def netmask (prefixLen : UInt8) : Ipv4Addr :=
  let bits := min prefixLen.toNat 32
  .ofBits (if bits = 0 then 0 else 0xFFFFFFFF <<< UInt32.ofNat (32 - bits))

example : [24, 10, 32, 0].map (fun n => (netmask n).octets) =
    [[255, 255, 255, 0], [255, 192, 0, 0], [255, 255, 255, 255], [0, 0, 0, 0]] := by decide

structure Ifreq where
  name : List UInt8
  data : List UInt8

namespace Ifreq

def new (name : String) : Result Ifreq :=
  let bytes := asBytes name
  if IFNAMSIZ ≤ bytes.length then .error (.new .invalidInput .none "interface name too long")
  else .ok ⟨bytes ++ List.replicate (IFNAMSIZ - bytes.length) 0, List.replicate 24 0⟩

def put (r : Ifreq) (start : ℕ) (bytes : List UInt8) : Ifreq :=
  ⟨r.name, (⟨start, bytes⟩ : Lib.Pieces.Piece UInt8).store r.data⟩

def setSockaddrIn (r : Ifreq) (addr : Ipv4Addr) : Ifreq :=
  ((⟨r.name, List.replicate 24 0⟩ : Ifreq).put 0 (leBytes 2 AF_INET)).put 4 addr.octets

end Ifreq

inductive Request
  | SIOCSIFADDR | SIOCSIFNETMASK | SIOCSIFMTU | SIOCGIFFLAGS | SIOCSIFFLAGS
  deriving DecidableEq

inductive Call
  | openTun
  | tunSetIff (fd : Fd) (req : Ifreq)
  | socket
  | ioctl (sock : Fd) (num : Request) (req : Ifreq)
  | close (fd : Fd)

/-- A request comes back with what the kernel has written into it. -/
@[reducible] def Answer : Call → Type
  | .openTun | .socket => Except Int32 Fd
  | .tunSetIff _ _ | .ioctl _ _ _ => Except Int32 Ifreq
  | .close _ => Unit

structure LinuxTunDevice where
  fd : Fd
  name : String

def attempt {α β : Type} (p : Prog Answer (Result α)) (f : α → Prog Answer (Result β)) : Prog Answer (Result β) :=
  p >>= fun
    | .error e => .ret (.error e)
    | .ok a => f a

def createTun (name : String) : Prog Answer (Result Fd) :=
  .op .openTun fun
    | .error e => .ret (.error (tunErr "open /dev/net/tun" e))
    | .ok owned =>
      match Ifreq.new name with
      | .error e => .op (.close owned) fun _ => .ret (.error e)
      | .ok req =>
        .op (.tunSetIff owned (req.put 0 (leBytes 2 (IFF_TUN ||| IFF_NO_PI)))) fun
          | .error e => .op (.close owned) fun _ => .ret (.error (tunErr "ioctl(TUNSETIFF)" e))
          | .ok _ => .ret (.ok owned)

def ioctlSocket : Prog Answer (Result Fd) :=
  .op .socket fun
    | .error e => .ret (.error (tunErr "socket" e))
    | .ok fd => .ret (.ok fd)

def ioctlIfreq (sock : Fd) (num : Request) (req : Ifreq) (op : String) : Prog Answer (Result Ifreq) :=
  .op (.ioctl sock num req) fun
    | .error e => .ret (.error (tunErr op e))
    | .ok req => .ret (.ok req)

section Create

variable (name : String) (addr : Ipv4Addr) (prefixLen : UInt8) (mtu : UInt32)

def configureVia (sock : Fd) : Prog Answer (Result Unit) :=
  attempt (.ret (Ifreq.new name)) fun a =>
  attempt (ioctlIfreq sock .SIOCSIFADDR (a.setSockaddrIn addr) "SIOCSIFADDR") fun _ =>
  attempt (.ret (Ifreq.new name)) fun m =>
  attempt (ioctlIfreq sock .SIOCSIFNETMASK (m.setSockaddrIn (netmask prefixLen)) "SIOCSIFNETMASK") fun _ =>
  attempt (.ret (Ifreq.new name)) fun mt =>
  attempt (ioctlIfreq sock .SIOCSIFMTU (mt.put 0 (leBytes 4 mtu.toNat)) "SIOCSIFMTU") fun _ =>
  attempt (.ret (Ifreq.new name)) fun fl =>
  attempt (ioctlIfreq sock .SIOCGIFFLAGS fl "SIOCGIFFLAGS") fun fl =>
  let up := leNat (fl.data.take 2) ||| IFF_UP ||| IFF_RUNNING
  attempt (ioctlIfreq sock .SIOCSIFFLAGS (fl.put 0 (leBytes 2 up)) "SIOCSIFFLAGS") fun _ =>
  .ret (.ok ())

def configure : Prog Answer (Result Unit) :=
  attempt ioctlSocket fun sock => do
    let r ← configureVia name addr prefixLen mtu sock
    .op (.close sock) fun _ => .ret r

def finish (fd : Fd) : Prog Answer (Result LinuxTunDevice) := do
  match ← configure name addr prefixLen mtu with
  | .error e => .op (.close fd) fun _ => .ret (.error e)
  | .ok () => .ret (.ok ⟨fd, name⟩)

def create : Prog Answer (Result LinuxTunDevice) := attempt (createTun name) (finish name addr prefixLen mtu)

end Create

def upToNul (bytes : List UInt8) : Name := bytes.takeWhile (· != 0)

def IsTemplate (n : Name) : Prop := n = [] ∨ [0x25, 0x64] <:+: n

instance : DecidablePred IsTemplate := fun n => inferInstanceAs (Decidable (n = [] ∨ [0x25, 0x64] <:+: n))

structure IsDevice (n : Name) : Prop where
  chosen : ¬ IsTemplate n
  no_nul : 0 ∉ n
  fits : n.length < IFNAMSIZ

/-- `data` holds what was last set by each request. -/
structure Iface where
  tun : Bool
  persistent : Bool
  data : Request → List UInt8

inductive Descriptor
  | tun (device : Option Name)
  | other

structure Kernel where
  ifaces : Name → Option Iface
  fds : Fd → Option Descriptor
  finite_fds : {fd | fds fd ≠ none}.Finite

namespace Kernel

def device (k : Kernel) (fd : Fd) : Option Name :=
  match k.fds fd with
  | some (.tun n) => n
  | _ => none

def setFd (k : Kernel) (fd : Fd) (d : Option Descriptor) : Kernel :=
  ⟨k.ifaces, Function.update k.fds fd d, finite_update k.finite_fds fd d⟩

def setIface (k : Kernel) (n : Name) (i : Option Iface) : Kernel := ⟨Function.update k.ifaces n i, k.fds, k.finite_fds⟩

def Free (k : Kernel) (n : Name) : Prop := ∃ i, k.ifaces n = some i ∧ i.tun ∧ ∀ fd, k.device fd ≠ some n

def Assigns (k : Kernel) (asked m : Name) : Prop :=
  if IsTemplate asked then k.ifaces m = none ∧ IsDevice m else m = asked ∧ (k.ifaces m = none ∨ k.Free m)

def attach (k : Kernel) (fd : Fd) (m : Name) : Kernel :=
  match k.ifaces m with
  | some _ => k.setFd fd (some (.tun (some m)))
  | none => (k.setIface m (some ⟨true, false, fun _ => List.replicate 24 0⟩)).setFd fd (some (.tun (some m)))

def closed (k : Kernel) (fd : Fd) : Kernel :=
  match (k.device fd).bind fun m => (k.ifaces m).map fun i => (m, i.persistent) with
  | some (m, false) => (k.setIface m none).setFd fd none
  | _ => k.setFd fd none

end Kernel

def Iface.answered (i : Iface) (num : Request) (req : Ifreq) : Ifreq × Iface :=
  match num with
  | .SIOCGIFFLAGS => (req.put 0 ((i.data .SIOCSIFFLAGS).take 2), i)
  | _ => (req, ⟨i.tun, i.persistent, Function.update i.data num req.data⟩)

/-- Any call may fail, and a request for no interface does. -/
def kernel : Env Kernel Answer
  | k, .openTun, .ok fd, k' => k.fds fd = none ∧ k' = k.setFd fd (some (.tun none))
  | k, .openTun, .error _, k' => k' = k
  | k, .tunSetIff fd req, .ok req', k' =>
    k.fds fd = some (.tun none) ∧ k.Assigns (upToNul req.name) (upToNul req'.name) ∧ k' = k.attach fd (upToNul req'.name)
  | k, .tunSetIff _ _, .error _, k' => k' = k
  | k, .socket, .ok fd, k' => k.fds fd = none ∧ k' = k.setFd fd (some .other)
  | k, .socket, .error _, k' => k' = k
  | k, .ioctl _ num req, .ok req', k' =>
    ∃ i, k.ifaces (upToNul req.name) = some i ∧ req' = (i.answered num req).1 ∧
      k' = k.setIface (upToNul req.name) (some (i.answered num req).2)
  | k, .ioctl _ _ req, .error e, k' => k' = k ∧ (k.ifaces (upToNul req.name) = none → e = ENODEV)
  | k, .close fd, _, k' => k' = k.closed fd

def Call.configures : Call → Option Name
  | .ioctl _ _ req => some (upToNul req.name)
  | _ => none

def Names (fd : Fd) (s : Kernel) (o : Call) : Prop := ∀ n, o.configures = some n → s.device fd = some n

structure Named (fd : Fd) (k : Kernel) (r : Result LinuxTunDevice) (s : Kernel) : Prop where
  device : ∀ dev, r = .ok dev → s.device fd = some (asBytes dev.name)
  others : ∀ n, k.device fd ≠ some n → s.ifaces n = k.ifaces n

def NamesItsDevice (k : Kernel) (name : String) (addr : Ipv4Addr) (prefixLen : UInt8) (mtu : UInt32) : Prop :=
  ∀ fd k₁, Reaches kernel (createTun name, k) (.ret (.ok fd), k₁) →
    Safe kernel (Names fd) (Named fd k₁) (finish name addr prefixLen mtu fd) k₁

def Kernel.Accepts (k : Kernel) (name : String) : Prop :=
  (asBytes name).length < IFNAMSIZ ∧ ∃ m, k.Assigns (upToNul (asBytes name)) m

def Plain (name : String) : Prop := ¬ IsTemplate (asBytes name) ∧ 0 ∉ asBytes name

section Names

variable {name : String} {r : Ifreq} {bytes : List UInt8}

theorem upToNul_of_not_mem (h : 0 ∉ bytes) : upToNul bytes = bytes := by
  apply List.takeWhile_eq_self_iff.mpr
  intro b hb
  simpa using ne_of_mem_of_not_mem hb h

theorem upToNul_padded (bytes : List UInt8) (n : ℕ) : upToNul (bytes ++ List.replicate n 0) = upToNul bytes := by
  induction bytes with
  | nil => cases n <;> simp [upToNul, List.replicate_succ]
  | cons b bytes ih =>
    simp only [upToNul] at ih
    simp only [upToNul, List.cons_append, List.takeWhile_cons, ih]

theorem not_mem_upToNul (bytes : List UInt8) : 0 ∉ upToNul bytes := by
  intro h
  simpa using List.mem_takeWhile_imp h

theorem new_of_fits (h : (asBytes name).length < IFNAMSIZ) :
    Ifreq.new name = .ok ⟨asBytes name ++ List.replicate (IFNAMSIZ - (asBytes name).length) 0, List.replicate 24 0⟩ :=
  if_neg (Nat.not_le.mpr h)

theorem new_name (h : Ifreq.new name = .ok r) : upToNul r.name = upToNul (asBytes name) := by
  simp only [Ifreq.new] at h
  split_ifs at h
  rw [← Except.ok.inj h]
  exact upToNul_padded _ _

theorem put_name (r : Ifreq) (start : ℕ) (bytes : List UInt8) : (r.put start bytes).name = r.name := rfl

theorem setSockaddrIn_name (r : Ifreq) (addr : Ipv4Addr) : (r.setSockaddrIn addr).name = r.name := rfl

theorem answered_name (i : Iface) (num : Request) (req : Ifreq) : (i.answered num req).1.name = req.name := by
  cases num <;> rfl

end Names

namespace Kernel

variable {k : Kernel} {fd sock : Fd} {n m : Name}

theorem device_setFd_ne (h : sock ≠ fd) (d : Option Descriptor) : (k.setFd sock d).device fd = k.device fd := by
  simp only [device, setFd, Function.update_of_ne h.symm]

theorem closed_device (h : sock ≠ fd) : (k.closed sock).device fd = k.device fd := by
  unfold closed
  split
  · exact device_setFd_ne h none
  · exact device_setFd_ne h none

theorem closed_ifaces (h : k.device fd ≠ some n) : (k.closed fd).ifaces n = k.ifaces n := by
  unfold closed
  split
  · next m hm =>
    simp only [Option.bind_eq_some_iff, Option.map_eq_some_iff] at hm
    obtain ⟨m', hm', i, -, heq⟩ := hm
    obtain ⟨rfl, -⟩ := Prod.mk.inj heq
    apply Function.update_of_ne
    rintro rfl
    exact h hm'
  · rfl

theorem device_congr {k' : Kernel} (h : k'.fds = k.fds) : k'.device = k.device := by
  funext fd
  rw [device, device, h]

theorem attach_device (k : Kernel) (fd : Fd) (m : Name) : (k.attach fd m).device fd = some m := by
  unfold attach
  split <;> simp [device, setFd]

theorem attach_ifaces (k : Kernel) (fd : Fd) (m : Name) : (k.attach fd m).ifaces m ≠ none := by
  unfold attach
  split
  · next h => simp [setFd, h]
  · simp [setFd, setIface]

theorem exists_unused (k : Kernel) : ∃ fd, k.fds fd = none := by
  by_contra h
  push Not at h
  apply k.finite_fds.not_infinite
  have hall : {fd | k.fds fd ≠ none} = Set.univ := Set.eq_univ_of_forall h
  rw [hall]
  exact Set.infinite_univ

theorem Assigns.plain (h : k.Assigns n m) (hn : ¬ IsTemplate n) : m = n := by
  rw [Assigns, if_neg hn] at h
  exact h.1

theorem Assigns.no_nul (h : k.Assigns n m) (hn : 0 ∉ n) : 0 ∉ m := by
  unfold Assigns at h
  split_ifs at h
  · exact h.2.no_nul
  · rwa [h.1]

theorem device_opened (h : k.fds fd = none) : (k.setFd fd (some (.tun none))).device = k.device := by
  funext fd'
  by_cases hfd : fd = fd'
  · subst hfd
    simp [device, setFd, h]
  · exact device_setFd_ne hfd _

theorem assigns_opened (h : k.fds fd = none) : (k.setFd fd (some (.tun none))).Assigns n m ↔ k.Assigns n m := by
  simp only [Assigns, Free, device_opened h]
  rfl

end Kernel

section Create

variable {k k₁ : Kernel} {name : String} {fd sock : Fd} {n : Name}

theorem createTun_ok (h : Reaches kernel (createTun name, k) (.ret (.ok fd), k₁)) :
    k.Accepts name ∧ ∃ m, k.Assigns (upToNul (asBytes name)) m ∧ k₁.device fd = some m := by
  obtain h | ⟨e | owned, k₂, hopen, h⟩ := reaches_op.mp h
  · cases h
  · cases reaches_ret.mp h
  · obtain ⟨hunused, rfl⟩ := hopen
    cases hnew : Ifreq.new name with
    | error e =>
      simp only [hnew] at h
      obtain h | ⟨_, _, -, h⟩ := reaches_op.mp h
      · cases h
      · cases reaches_ret.mp h
    | ok req =>
      simp only [hnew] at h
      obtain h | ⟨e | req', k₃, hset, h⟩ := reaches_op.mp h
      · cases h
      · obtain h | ⟨_, _, -, h⟩ := reaches_op.mp h
        · cases h
        · cases reaches_ret.mp h
      · cases reaches_ret.mp h
        obtain ⟨-, hassigns, rfl⟩ := hset
        rw [Kernel.assigns_opened hunused, put_name, new_name hnew] at hassigns
        refine ⟨⟨?_, _, hassigns⟩, _, hassigns, Kernel.attach_device _ _ _⟩
        by_contra hlong
        rw [Ifreq.new, if_pos (Nat.not_lt.mp hlong)] at hnew
        cases hnew

theorem createTun_succeeds (h : k.Accepts name) :
    ∃ fd k₁ m, Reaches kernel (createTun name, k) (.ret (.ok fd), k₁) ∧ k.Assigns (upToNul (asBytes name)) m ∧
      k₁.device fd = some m ∧ k₁.ifaces m ≠ none := by
  obtain ⟨hfits, m, hassigns⟩ := h
  obtain ⟨fd, hunused⟩ := k.exists_unused
  have hnul : upToNul (m ++ List.replicate (IFNAMSIZ - m.length) 0) = m := by
    rw [upToNul_padded, upToNul_of_not_mem (hassigns.no_nul (not_mem_upToNul _))]
  have hset : kernel (k.setFd fd (some (.tun none)))
      (.tunSetIff fd (Ifreq.put ⟨asBytes name ++ List.replicate (IFNAMSIZ - (asBytes name).length) 0, List.replicate 24 0⟩ 0
        (leBytes 2 (IFF_TUN ||| IFF_NO_PI))))
      (.ok ⟨m ++ List.replicate (IFNAMSIZ - m.length) 0, List.replicate 24 0⟩)
      ((k.setFd fd (some (.tun none))).attach fd m) := by
    refine ⟨by simp [Kernel.setFd], ?_, by rw [hnul]⟩
    rw [Kernel.assigns_opened hunused, put_name, upToNul_padded, hnul]
    exact hassigns
  have hopen : kernel k .openTun (.ok fd) (k.setFd fd (some (.tun none))) := ⟨hunused, rfl⟩
  refine ⟨fd, (k.setFd fd (some (.tun none))).attach fd m, m, .head (.op _ hopen) ?_, hassigns, Kernel.attach_device _ fd m,
    Kernel.attach_ifaces _ fd m⟩
  simp only [new_of_fits hfits]
  exact .head (.op _ hset) .refl

theorem attempt_ret {α β : Type} (a : α) (f : α → Prog Answer (Result β)) : attempt (.ret (.ok a)) f = f a := rfl

section Safe

variable {α β : Type} {G : Kernel → Call → Prop} {P : Result β → Kernel → Prop}

theorem safe_attempt {p : Prog Answer (Result α)} {f : α → Prog Answer (Result β)}
    (h : Safe kernel G (fun r s => (∀ e, r = .error e → P (.error e) s) ∧ ∀ a, r = .ok a → Safe kernel G P (f a) s) p k) :
    Safe kernel G P (attempt p f) k := by
  apply h.bind
  rintro (e | a) s ⟨herr, hok⟩
  · exact herr e rfl
  · exact hok a rfl

end Safe

theorem names_of_not_request {o : Call} (h : o.configures = none) : Names fd k o := by
  simp [Names, h]

theorem safe_new {β : Type} {P : Result β → Kernel → Prop} {f : Ifreq → Prog Answer (Result β)} (herr : ∀ e, P (.error e) k)
    (hf : ∀ r, upToNul r.name = upToNul (asBytes name) → Safe kernel (Names fd) P (f r) k) :
    Safe kernel (Names fd) P (attempt (.ret (Ifreq.new name)) f) k := by
  apply safe_attempt
  exact ⟨fun e _ => herr e, fun r hr => hf r (new_name hr)⟩

structure Since (n : Name) (k₀ k : Kernel) : Prop where
  fds : k.fds = k₀.fds
  others : ∀ x ≠ n, k.ifaces x = k₀.ifaces x

theorem Since.device {k₀ : Kernel} (h : Since n k₀ k) (fd : Fd) : k.device fd = k₀.device fd :=
  congrFun (Kernel.device_congr h.fds) fd

section Configure

variable {k₀ : Kernel} (hd : k₀.device fd = some n) (hk : Since n k₀ k)

include hd hk

theorem safe_request {P : Result Unit → Kernel → Prop} {num : Request} {req : Ifreq} {op : String}
    {f : Ifreq → Prog Answer (Result Unit)} (hreq : upToNul req.name = n) (herr : ∀ e s, Since n k₀ s → P (.error e) s)
    (hf : ∀ r s, Since n k₀ s → upToNul r.name = n → Safe kernel (Names fd) P (f r) s) :
    Safe kernel (Names fd) P (attempt (ioctlIfreq sock num req op) f) k := by
  apply safe_attempt
  refine ⟨?_, ?_⟩
  · rintro _ ⟨⟩
    rw [hreq, hk.device, hd]
  · rintro (e | r) s he
    · obtain ⟨rfl, -⟩ := he
      exact ⟨fun _ _ => herr _ _ hk, by rintro _ ⟨⟩⟩
    · obtain ⟨i, -, rfl, rfl⟩ := he
      refine ⟨by rintro _ ⟨⟩, ?_⟩
      rintro _ ⟨⟩
      have hsince : Since n k₀ (k.setIface (upToNul req.name) (some (i.answered num req).2)) := by
        refine ⟨hk.fds, fun x hx => ?_⟩
        rw [← hk.others x hx]
        exact Function.update_of_ne (hreq ▸ hx) _ _
      exact hf _ _ hsince (by rw [answered_name, hreq])

theorem safe_setting {num : Request} {g : Ifreq → Ifreq} {op : String} {f : Ifreq → Prog Answer (Result Unit)}
    (hn : upToNul (asBytes name) = n) (hg : ∀ r, (g r).name = r.name)
    (hf : ∀ r s, Since n k₀ s → upToNul r.name = n → Safe kernel (Names fd) (fun _ s => Since n k₀ s) (f r) s) :
    Safe kernel (Names fd) (fun _ s => Since n k₀ s)
      (attempt (.ret (Ifreq.new name)) fun r => attempt (ioctlIfreq sock num (g r) op) f) k := by
  apply safe_new fun _ => hk
  intro r hr
  apply safe_request hd hk
  · rw [hg, hr, hn]
  · exact fun _ _ h => h
  · exact hf

variable {addr : Ipv4Addr} {prefixLen : UInt8} {mtu : UInt32}

theorem safe_configureVia (hn : upToNul (asBytes name) = n) :
    Safe kernel (Names fd) (fun _ s => Since n k₀ s) (configureVia name addr prefixLen mtu sock) k := by
  apply safe_setting hd hk hn fun r => setSockaddrIn_name r addr
  intro _ k hk _
  apply safe_setting hd hk hn fun r => setSockaddrIn_name r (netmask prefixLen)
  intro _ k hk _
  apply safe_setting hd hk hn fun r => put_name r 0 (leBytes 4 mtu.toNat)
  intro _ k hk _
  apply safe_setting hd hk hn fun _ => rfl
  intro fl k hk hfl
  apply safe_request hd hk
  · rw [put_name, hfl]
  · exact fun _ _ h => h
  · exact fun _ _ h _ => h

end Configure

variable {addr : Ipv4Addr} {prefixLen : UInt8} {mtu : UInt32}

theorem ne_of_unused (hd : k.device fd = some n) (hunused : k.fds sock = none) : sock ≠ fd := by
  rintro rfl
  simp [Kernel.device, hunused] at hd

theorem safe_configure (hn : upToNul (asBytes name) = n) (hd : k.device fd = some n) :
    Safe kernel (Names fd) (fun _ s => s.device fd = some n ∧ ∀ x ≠ n, s.ifaces x = k.ifaces x)
      (configure name addr prefixLen mtu) k := by
  apply safe_attempt
  refine ⟨names_of_not_request rfl, ?_⟩
  rintro (e | sock) s he
  · obtain rfl : s = k := he
    exact ⟨fun _ _ => ⟨hd, fun _ _ => rfl⟩, by rintro _ ⟨⟩⟩
  · obtain ⟨hunused, rfl⟩ := he
    refine ⟨by rintro _ ⟨⟩, ?_⟩
    rintro _ ⟨⟩
    have hne := ne_of_unused hd hunused
    have hd' : (k.setFd sock (some .other)).device fd = some n := (Kernel.device_setFd_ne hne _).trans hd
    apply (safe_configureVia hd' ⟨rfl, fun _ _ => rfl⟩ hn).bind
    rintro r s hs
    refine ⟨names_of_not_request rfl, ?_⟩
    rintro _ _ rfl
    refine ⟨(Kernel.closed_device hne).trans ((hs.device fd).trans hd'), fun x hx => ?_⟩
    have hother : s.device sock ≠ some x := by
      rw [hs.device]
      simp [Kernel.device, Kernel.setFd]
    exact (Kernel.closed_ifaces hother).trans (hs.others x hx)

theorem safe_finish (hplain : Plain name) (hd : k.device fd = some (asBytes name)) :
    Safe kernel (Names fd) (Named fd k) (finish name addr prefixLen mtu fd) k := by
  apply (safe_configure (upToNul_of_not_mem hplain.2) hd).bind
  rintro (e | ⟨⟩) s ⟨hs, hothers⟩
  · refine ⟨names_of_not_request rfl, ?_⟩
    rintro _ _ rfl
    refine ⟨by rintro _ ⟨⟩, fun x hx => ?_⟩
    rw [Kernel.closed_ifaces (by rwa [hs, ← hd])]
    exact hothers x fun h => hx (h ▸ hd)
  · refine ⟨?_, fun x hx => hothers x fun h => hx (h ▸ hd)⟩
    rintro _ ⟨⟩
    exact hs

structure Ready (fd : Fd) (n : Name) (k : Kernel) : Prop where
  attached : k.device fd = some n
  there : k.ifaces n ≠ none

theorem may_attempt {α β : Type} {P : Result β → Kernel → Prop} {p : Prog Answer (Result α)}
    {f : α → Prog Answer (Result β)} (h : May kernel (fun r s => ∃ a, r = .ok a ∧ May kernel P (f a) s) p k) :
    May kernel P (attempt p f) k := by
  apply h.bind
  rintro _ s ⟨a, rfl, hf⟩
  exact hf

theorem may_request {P : Result Unit → Kernel → Prop} {num : Request} {req : Ifreq} {op : String}
    {f : Ifreq → Prog Answer (Result Unit)} (hk : Ready fd n k) (hreq : upToNul req.name = n)
    (hf : ∀ r s, Ready fd n s → upToNul r.name = n → May kernel P (f r) s) :
    May kernel P (attempt (ioctlIfreq sock num req op) f) k := by
  obtain ⟨i, hi⟩ := Option.ne_none_iff_exists'.mp hk.there
  have he : kernel k (.ioctl sock num req) (.ok (i.answered num req).1) (k.setIface n (some (i.answered num req).2)) :=
    ⟨i, by rw [hreq, hi], rfl, by rw [hreq]⟩
  have hready : Ready fd n (k.setIface n (some (i.answered num req).2)) := ⟨hk.attached, by simp [Kernel.setIface]⟩
  apply may_attempt
  exact .op he ⟨_, _, .refl, _, rfl, hf _ _ hready (by rw [answered_name, hreq])⟩

theorem may_configureVia (hfits : (asBytes name).length < IFNAMSIZ) (hn : upToNul (asBytes name) = n) (hk : Ready fd n k) :
    May kernel (fun r s => r = .ok () ∧ s.device fd = some n) (configureVia name addr prefixLen mtu sock) k := by
  have hnew : upToNul (asBytes name ++ List.replicate (IFNAMSIZ - (asBytes name).length) 0) = n :=
    (upToNul_padded _ _).trans hn
  simp only [configureVia, new_of_fits hfits, attempt_ret]
  refine may_request hk ?_ fun _ k hk _ => ?_
  · exact hnew
  refine may_request hk ?_ fun _ k hk _ => ?_
  · exact hnew
  refine may_request hk ?_ fun _ k hk _ => ?_
  · exact hnew
  refine may_request hk ?_ fun fl k hk hfl => ?_
  · exact hnew
  refine may_request hk ?_ fun _ k hk _ => ?_
  · exact hfl
  exact ⟨_, _, .refl, rfl, hk.attached⟩

theorem may_finish (hfits : (asBytes name).length < IFNAMSIZ) (hn : upToNul (asBytes name) = n) (hk : Ready fd n k) :
    May kernel (fun r s => r = .ok ⟨fd, name⟩ ∧ s.device fd = some n) (finish name addr prefixLen mtu fd) k := by
  obtain ⟨sock, hunused⟩ := k.exists_unused
  have hne := ne_of_unused hk.attached hunused
  have hsock : kernel k .socket (.ok sock) (k.setFd sock (some .other)) := ⟨hunused, rfl⟩
  have hready : Ready fd n (k.setFd sock (some .other)) := ⟨(Kernel.device_setFd_ne hne _).trans hk.attached, hk.there⟩
  have hconfigure : May kernel (fun r s => r = .ok () ∧ s.device fd = some n) (configure name addr prefixLen mtu) k := by
    apply may_attempt
    refine .op hsock ⟨_, _, .refl, sock, rfl, ?_⟩
    apply (may_configureVia hfits hn hready).bind
    rintro _ s ⟨rfl, hs⟩
    have hclose : kernel s (.close sock) () (s.closed sock) := rfl
    exact .op hclose ⟨_, _, .refl, rfl, (Kernel.closed_device hne).trans hs⟩
  apply hconfigure.bind
  rintro _ s ⟨rfl, hs⟩
  exact ⟨_, _, .refl, rfl, hs⟩

theorem plain_of_names (h : NamesItsDevice k name addr prefixLen mtu) (ha : k.Accepts name) : Plain name := by
  obtain ⟨fd, k₁, m, hr, hassigns, hdevice, hthere⟩ := createTun_succeeds ha
  have hsafe := h fd k₁ hr
  have hm : m = upToNul (asBytes name) := by
    obtain ⟨sock, hunused⟩ := k₁.exists_unused
    have hne := ne_of_unused hdevice hunused
    have hsock : kernel k₁ .socket (.ok sock) (k₁.setFd sock (some .other)) := ⟨hunused, rfl⟩
    have hvia := (hsafe.of_bind.of_bind.2 _ _ hsock).of_bind
    simp only [configureVia, new_of_fits ha.1, attempt_ret] at hvia
    have hfirst := hvia.1 _ rfl
    rw [Kernel.device_setFd_ne hne, hdevice, setSockaddrIn_name, upToNul_padded] at hfirst
    exact Option.some.inj hfirst
  have hname : upToNul (asBytes name) = asBytes name := by
    subst hm
    obtain ⟨_, s, hnamed, rfl, hs⟩ := hsafe.may (may_finish ha.1 rfl ⟨hdevice, hthere⟩)
    exact Option.some.inj (hs.symm.trans (hnamed.device _ rfl))
  refine ⟨?_, ?_⟩
  · intro htemplate
    rw [← hname, ← hm] at htemplate
    rw [Kernel.Assigns, if_pos (hm ▸ htemplate)] at hassigns
    exact hassigns.2.chosen htemplate
  · rw [← hname]
    exact not_mem_upToNul _

end Create

theorem create_names_its_device_iff (k : Kernel) (name : String) (addr : Ipv4Addr) (prefixLen : UInt8) (mtu : UInt32) :
    NamesItsDevice k name addr prefixLen mtu ↔ (k.Accepts name → Plain name) := by
  constructor
  · intro h
    exact plain_of_names h
  · intro h fd k₁ hr
    obtain ⟨haccepts, m, hassigns, hdevice⟩ := createTun_ok hr
    have hplain := h haccepts
    rw [upToNul_of_not_mem hplain.2] at hassigns
    rw [hassigns.plain hplain.1] at hdevice
    exact safe_finish hplain hdevice

def loopback : Kernel where
  ifaces n := if n = asBytes "lo" then some ⟨false, true, fun _ => List.replicate 24 0⟩ else none
  fds _ := none
  finite_fds := by simp

theorem template_fails_for_want_of_its_name : ¬ NamesItsDevice loopback "tun%d" ⟨100, 64, 0, 1⟩ 10 1280 := by
  intro h
  have haccepts : loopback.Accepts "tun%d" := by
    refine ⟨by decide, asBytes "tun0", ?_⟩
    rw [Kernel.Assigns, if_pos (by decide)]
    exact ⟨rfl, by decide, by decide, by decide⟩
  exact (plain_of_names h haccepts).1 (by decide)

end Rustils.Net.Tun
