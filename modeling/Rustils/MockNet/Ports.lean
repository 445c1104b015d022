import Rustils.MockNet.Consistency

namespace Rustils.MockNet

open Platform Lib.Program Lib.Trace Lib.Registry

inductive Event
  | taken (t : Taken ℕ Answer)
  | dropStream (id : ℕ)

def Happens (c : Net) : Event → Net → Prop
  | .taken t, c' => Pool.Takes moves c t c'
  | .dropStream id, c' => (∃ client, c.progs id = .ret (.ok (.tcpStream client))) ∧ c' = c

def Event.taken? : Event → Option (Taken ℕ Answer)
  | .taken t => some t
  | .dropStream _ => none

def record (es : List Event) : Record := es.filterMap Event.taken?

def isDraw : Section → Bool
  | .nextEphemeralPort => true
  | _ => false

def draws (es : List Event) : ℕ := (record es).countP fun t => isDraw t.op

def Asks : (s : Space) → Call → (UInt16 → Addr s) → Prop
  | .tcp, call, f => ∃ addr : SocketAddr, addr.port = 0 ∧ call = .tcpListen addr ∧ f = addr.withPort
  | .udp, call, f => ∃ addr : SocketAddr, addr.port = 0 ∧ call = .udpBind addr ∧ f = addr.withPort
  | .unix, _, _ => False

def DrawnAt (es : List Event) (id n : ℕ) : Prop :=
  ∃ before p after, es = before ++ .taken ⟨id, .nextEphemeralPort, p⟩ :: after ∧ draws before = n

def Connected (es : List Event) (tx : Chan) (id : ℕ) : Prop :=
  (∃ m, .taken ⟨id, .send .tcp tx m, true⟩ ∈ es) ∧ .dropStream id ∉ es

structure LiveClient (c : Net) (es : List Event) (tx : Chan) (id : ℕ) (client : MockTcpStream) : Prop where
  returned : c.progs id = .ret (.ok (.tcpStream client))
  connected : Connected es tx id

/-- The counter does not stand at 0 for a listener, nobody has its address, and no client that the listener
still has drew a multiple of 65536 draws before or after. -/
def Meets (calls : ℕ → Call) (before : List Event) : Event → Prop
  | .taken ⟨id, .nextEphemeralPort, _⟩ => ∀ s f, Asks s (calls id) f → draws before % 65536 ≠ 25536
  | .taken ⟨id, .register s addr, _⟩ => ∀ f, Asks s (calls id) f → ∀ rx, ¬ Alive calls s (record before) ⟨addr, rx⟩
  | .taken ⟨id, .send .tcp tx _, _⟩ =>
    ∀ other n k, Connected before tx other → DrawnAt before id n → DrawnAt before other k → n % 65536 ≠ k % 65536
  | _ => True

section Draws

variable {calls : ℕ → Call} {es before after : List Event} {c c' : Net} {e : Event}

theorem record_append (es es' : List Event) : record (es ++ es') = record es ++ record es' :=
  List.filterMap_append

theorem record_taken (t : Taken ℕ Answer) : record [.taken t] = [t] := rfl

theorem mem_record {t : Taken ℕ Answer} : t ∈ record es ↔ .taken t ∈ es := by
  rw [record, List.mem_filterMap]
  constructor
  · rintro ⟨e, he, ht⟩
    cases e with
    | taken t' =>
      cases ht
      exact he
    | dropStream id => cases ht
  · intro h
    exact ⟨_, h, rfl⟩

theorem run_record (h : Run Happens (start calls) es c) : Run (Pool.Takes moves) (start calls) (record es) c := by
  induction h with
  | refl => exact .refl
  | @tail es c c' e _ hs ih =>
    rw [record_append]
    cases e with
    | taken t => exact ih.tail hs
    | dropStream id =>
      obtain ⟨-, rfl⟩ := hs
      rwa [show record [.dropStream id] = [] from rfl, List.append_nil]

theorem moves_nextPort {g g' : Globals} {o : Section} {r : Answer o} (h : moves g o r g') :
    g'.nextPort = if isDraw o then g.nextPort + 1 else g.nextPort := by
  match o, r, h with
  | .nextEphemeralPort, _, ⟨_, hg⟩ => rw [hg]; rfl
  | .get _ _, _, ⟨_, hg⟩ => rw [hg]; rfl
  | .send _ _ _, _, ⟨_, hg⟩ => rw [hg]; rfl
  | .register _ _, _, ⟨_, hg⟩ => rw [hg]; rfl
  | .sendTo _ _, _, ⟨_, hg⟩ => rw [hg]; rfl
  | .recv _ _, some _, ⟨_, _, _, hg⟩ => rw [hg]; rfl
  | .recv _ _, none, ⟨_, _, _, hg⟩ => rw [hg]; rfl
  | .unregister _ _, _, ⟨_, hg⟩ => rw [hg]; rfl
  | .close _ _, _, hg =>
    obtain rfl : g' = _ := hg
    rfl

theorem nextPort_eq (h : Run Happens (start calls) es c) :
    c.state.nextPort = UInt16.ofNat (40000 + draws es) := by
  induction h with
  | refl => rfl
  | @tail es c c' e _ hs ih =>
    rw [draws, record_append, List.countP_append]
    cases e with
    | taken t =>
      rw [moves_nextPort hs.inv.1, ih, record_taken, List.countP_singleton]
      cases isDraw t.op with
      | true => exact (UInt16.ofNat_add (40000 + draws es) 1).symm
      | false => rfl
    | dropStream id =>
      obtain ⟨-, rfl⟩ := hs
      exact ih

theorem port_of_draw {id : ℕ} {p : UInt16} (h : Run Happens (start calls) es c)
    (hes : es = before ++ .taken ⟨id, .nextEphemeralPort, p⟩ :: after) : p = UInt16.ofNat (40000 + draws before) := by
  rw [hes] at h
  obtain ⟨c₁, c₂, h₁, hs, -⟩ := run_mid.mp h
  obtain ⟨⟨hp, -⟩, -⟩ := hs.inv
  exact hp.trans (nextPort_eq h₁)

theorem drawn_port_ne_zero {n : ℕ} (h : n % 65536 ≠ 25536) : UInt16.ofNat (40000 + n) ≠ 0 := by
  intro hzero
  have hnat : (40000 + n) % 65536 = 0 := congrArg UInt16.toNat hzero
  omega

theorem mod_eq_of_drawn_port_eq {n k : ℕ} (h : UInt16.ofNat (40000 + n) = UInt16.ofNat (40000 + k)) :
    n % 65536 = k % 65536 := by
  have hnat : (40000 + n) % 65536 = (40000 + k) % 65536 := congrArg UInt16.toNat h
  omega

end Draws

section Paths

variable {id : ℕ} {call : Call} {s : Space} {f : UInt16 → Addr s} {hist : List (Σ o, Answer o)}

theorem Asks.run_eq (h : Asks s call f) (id : ℕ) :
    ∃ op, call.run id = .op .nextEphemeralPort fun port => listenAt s op (f port) := by
  cases s with
  | tcp =>
    obtain ⟨addr, hport, rfl, rfl⟩ := h
    exact ⟨"listen", if_pos hport⟩
  | udp =>
    obtain ⟨addr, hport, rfl, rfl⟩ := h
    exact ⟨"udp_bind", if_pos hport⟩
  | unix => exact h.elim

theorem Asks.path (h : Asks s call f) {p : Running} (hpath : Path (call.run id) hist p) :
    (∃ o k, p = .op o k ∧ ∀ g : Globals, ∃ r g', moves g o r g') ∨
      ∃ port r a, ⟨.nextEphemeralPort, port⟩ ∈ hist ∧ ⟨.register s (f port), r⟩ ∈ hist ∧ p = .ret a ∧
        ∀ rx, r = some rx → a = .ok (.listener s ⟨f port, rx⟩) := by
  obtain ⟨op, hrun⟩ := h.run_eq id
  rw [hrun] at hpath
  cases hpath with
  | nil => exact .inl ⟨_, _, rfl, fun g => ⟨_, _, rfl, rfl⟩⟩
  | @cons _ _ _ port _ hpath =>
    cases hpath with
    | nil => exact .inl ⟨_, _, rfl, fun g => ⟨_, _, rfl, rfl⟩⟩
    | @cons _ _ _ r _ hpath =>
      right
      cases r with
      | none =>
        cases hpath
        exact ⟨port, none, _, List.mem_cons_self, List.mem_cons_of_mem _ List.mem_cons_self, rfl, nofun⟩
      | some rx =>
        cases hpath
        refine ⟨port, some rx, _, List.mem_cons_self, List.mem_cons_of_mem _ List.mem_cons_self, rfl, ?_⟩
        rintro rx ⟨⟩
        rfl

def Streamless (r : Result Reply) : Prop := ∀ client, r ≠ .ok (.tcpStream client)

theorem listenAt_streamless (s : Space) (op : String) (addr : Addr s) : Ends Streamless (listenAt s op addr) := by
  rintro (_ | rx) <;> exact nofun

theorem withPort_streamless {k : SocketAddr → Running} (addr : SocketAddr) (hk : ∀ a, Ends Streamless (k a)) :
    Ends Streamless (withPort addr k) := by
  unfold withPort
  split
  · exact fun port => hk _
  · exact hk addr

theorem run_streamless (h : ∀ addr, call ≠ .tcpConnect addr) : Ends Streamless (call.run id) := by
  cases call with
  | tcpConnect addr => exact absurd rfl (h addr)
  | tcpListen addr => exact withPort_streamless addr (listenAt_streamless .tcp "listen")
  | unixConnect path =>
    rintro (_ | tx)
    · exact nofun
    · rintro (_ | _) <;> exact nofun
  | unixListen path => exact listenAt_streamless .unix "listen" path
  | udpBind addr => exact withPort_streamless addr (listenAt_streamless .udp "udp_bind")
  | tcpAccept l => rintro (_ | m) <;> exact nofun
  | unixAccept l => rintro (_ | m) <;> exact nofun
  | sendTo socket buf addr => exact fun _ => nofun
  | recvFrom socket len => rintro (_ | m) <;> exact nofun
  | drop s l => exact fun _ _ => nofun

theorem tcpStream_path {client : MockTcpStream} (hpath : Path (call.run id) hist (.ret (.ok (.tcpStream client)))) :
    ∃ addr tx port, client.localAddr = localhost port ∧
      hist = [⟨.get .tcp addr, some tx⟩, ⟨.nextEphemeralPort, port⟩,
        ⟨.send .tcp tx (⟨id, addr, localhost port⟩, localhost port), true⟩] := by
  by_cases hcall : ∃ addr, call = .tcpConnect addr
  · obtain ⟨addr, rfl⟩ := hcall
    cases hpath with
    | @cons _ _ _ found _ hpath =>
      cases found with
      | none => cases hpath
      | some tx =>
        cases hpath with
        | @cons _ _ _ port _ hpath =>
          cases hpath with
          | @cons _ _ _ ok _ hpath =>
            cases ok with
            | false => cases hpath
            | true =>
              cases hpath
              exact ⟨addr, tx, port, rfl, rfl⟩
  · have hnone : ∀ addr, call ≠ .tcpConnect addr := by
      rintro addr rfl
      exact hcall ⟨addr, rfl⟩
    exact absurd rfl (hpath.ends (run_streamless hnone) client)

end Paths

section Reached

variable {calls : ℕ → Call} {es before after : List Event} {c : Net} {tx : Chan} {i j n k : ℕ}
  {client other : MockTcpStream}

theorem DrawnAt.append (h : DrawnAt before i n) (after : List Event) : DrawnAt (before ++ after) i n := by
  obtain ⟨b, p, a, rfl, hn⟩ := h
  exact ⟨b, p, a ++ after, by simp, hn⟩

theorem history_append (es es' : List Event) :
    history i (record (es ++ es')) = history i (record es) ++ history i (record es') := by
  rw [record_append, history, List.filterMap_append]
  rfl

theorem LiveClient.sent (h : Run Happens (start calls) es c) (hl : LiveClient c es tx i client) :
    ∃ before m after n, es = before ++ .taken ⟨i, .send .tcp tx m, true⟩ :: after ∧ DrawnAt before i n ∧
      client.localAddr = localhost (UInt16.ofNat (40000 + n)) := by
  have hpath := path_of_run (run_record h) i
  rw [hl.returned] at hpath
  obtain ⟨addr, tx', port, hlocal, hhist⟩ := tcpStream_path hpath
  obtain ⟨m, hm⟩ := hl.connected.1
  obtain ⟨before, after, hes⟩ := List.append_of_mem hm
  have hdrawn : ⟨.nextEphemeralPort, port⟩ ∈ history i (record before) := by
    have hsplit : history i (record before) ++ ⟨.send .tcp tx m, true⟩ :: history i (record after) =
        history i (record es) := by
      rw [hes, history_append, show Event.taken ⟨i, .send .tcp tx m, true⟩ :: after =
        [.taken ⟨i, .send .tcp tx m, true⟩] ++ after from rfl, history_append, record_taken]
      simp [history]
    rw [hhist] at hsplit
    generalize history i (record before) = hist at hsplit ⊢
    rcases hist with _ | ⟨x, _ | ⟨y, hist⟩⟩
    · cases hsplit
    · cases hsplit
    · rw [List.cons_append, List.cons_append, List.cons.injEq, List.cons.injEq] at hsplit
      rw [hsplit.2.1]
      exact List.mem_cons_of_mem _ List.mem_cons_self
  obtain ⟨b, a, hbefore⟩ := List.append_of_mem (mem_record.mp (mem_history.mp hdrawn))
  have hport : port = UInt16.ofNat (40000 + draws b) := by
    apply port_of_draw h
    rw [hes, hbefore, List.append_assoc]
    rfl
  exact ⟨before, m, after, draws b, hes, ⟨b, port, a, hbefore, rfl⟩, by rw [hlocal, hport]⟩

variable (hmeets : ∀ before e after, es = before ++ e :: after → Meets calls before e)

include hmeets

theorem later_client_ne (hl : LiveClient c es tx i client) {m : Msg .tcp}
    (hes : es = before ++ .taken ⟨j, .send .tcp tx m, true⟩ :: after) (hj : DrawnAt before j n) (hi : DrawnAt before i k)
    (hsent : ∃ m, .taken ⟨i, .send .tcp tx m, true⟩ ∈ before) :
    localhost (UInt16.ofNat (40000 + n)) ≠ localhost (UInt16.ofNat (40000 + k)) := by
  have hheld : Event.dropStream i ∉ before := by
    intro hdrop
    apply hl.connected.2
    rw [hes]
    exact List.mem_append_left _ hdrop
  have hne : n % 65536 ≠ k % 65536 := hmeets before _ after hes i n k ⟨hsent, hheld⟩ hj hi
  intro heq
  injection heq with _ hport
  exact hne (mod_eq_of_drawn_port_eq hport)

theorem clients_differ (h : Run Happens (start calls) es c) (hi : LiveClient c es tx i client)
    (hj : LiveClient c es tx j other) (haddr : client.localAddr = other.localAddr) : i = j := by
  by_contra hne
  obtain ⟨bi, mi, ai, n, hesi, hdrawi, hlocali⟩ := hi.sent h
  obtain ⟨bj, mj, aj, k, hesj, hdrawj, hlocalj⟩ := hj.sent h
  rw [hlocali, hlocalj] at haddr
  have hsplit := hesi.symm.trans hesj
  rcases List.append_eq_append_iff.mp hsplit with ⟨mid, hmid, hrest⟩ | ⟨mid, hmid, hrest⟩
  · cases mid with
    | nil =>
      injection hrest with he
      cases he
      exact hne rfl
    | cons e mid =>
      injection hrest with he
      subst he
      have hsent : ∃ m, .taken ⟨i, .send .tcp tx m, true⟩ ∈ bj := ⟨mi, by simp [hmid]⟩
      exact later_client_ne hmeets hi hesj hdrawj (hmid ▸ hdrawi.append _) hsent haddr.symm
  · cases mid with
    | nil =>
      injection hrest with he
      cases he
      exact hne rfl
    | cons e mid =>
      injection hrest with he
      subst he
      have hsent : ∃ m, .taken ⟨j, .send .tcp tx m, true⟩ ∈ bi := ⟨mj, by simp [hmid]⟩
      exact later_client_ne hmeets hj hesi hdrawi (hmid ▸ hdrawj.append _) hsent haddr

theorem asked_port (h : Run Happens (start calls) es c) {s : Space} {f : UInt16 → Addr s} (ha : Asks s (calls i) f)
    {r : Result Reply} (hr : c.progs i = .ret r) :
    ∃ port rx before after, port ≠ 0 ∧ r = .ok (.listener s ⟨f port, rx⟩) ∧
      es = before ++ .taken ⟨i, .register s (f port), some rx⟩ :: after ∧
      ∀ rx', ¬ Alive calls s (record before) ⟨f port, rx'⟩ := by
  have hpath := path_of_run (run_record h) i
  rw [hr] at hpath
  obtain ⟨o, k, hop, -⟩ | ⟨port, answer, a, hdraw, hregister, hret, hreturn⟩ := ha.path hpath
  · cases hop
  cases hret
  obtain ⟨drawing, later, hdrawing⟩ := List.append_of_mem (mem_record.mp (mem_history.mp hdraw))
  obtain ⟨before, after, hes⟩ := List.append_of_mem (mem_record.mp (mem_history.mp hregister))
  have hport : port ≠ 0 := by
    rw [port_of_draw h hdrawing]
    exact drawn_port_ne_zero (hmeets drawing _ later hdrawing s f ha)
  have hfree : ∀ rx, ¬ Alive calls s (record before) ⟨f port, rx⟩ := hmeets before _ after hes f ha
  obtain ⟨rx, hrx⟩ : ∃ rx, answer = some rx := by
    rw [hes] at h
    obtain ⟨c₁, c₂, h₁, hs, -⟩ := run_mid.mp h
    obtain ⟨⟨hanswer, -⟩, -⟩ := hs.inv
    have hmap : (c₁.state.regs s).map (f port) = none := by
      cases hmap : (c₁.state.regs s).map (f port) with
      | none => rfl
      | some rx => exact absurd ((registered_iff_alive (run_record h₁) ⟨f port, rx⟩).mp hmap) (hfree rx)
    refine ⟨(c₁.state.regs s).next, hanswer.trans ?_⟩
    simp only [Table.register, hmap]
  subst hrx
  exact ⟨port, rx, before, after, hport, hreturn rx rfl, hes, hfree⟩

end Reached

theorem ephemeral_ports_usable (calls : ℕ → Call) (es : List Event) (c : Net) (h : Run Happens (start calls) es c)
    (hmeets : ∀ before e after, es = before ++ e :: after → Meets calls before e) :
    (∀ i s f, Asks s (calls i) f →
      (∀ r, c.progs i = .ret r → ∃ port rx before after, port ≠ 0 ∧ r = .ok (.listener s ⟨f port, rx⟩) ∧
        es = before ++ .taken ⟨i, .register s (f port), some rx⟩ :: after ∧
        ∀ rx', ¬ Alive calls s (record before) ⟨f port, rx'⟩) ∧
      ((∃ r, c.progs i = .ret r) ∨ ∃ t c', t.call = i ∧ Happens c (.taken t) c')) ∧
    ∀ tx i j client other, LiveClient c es tx i client → LiveClient c es tx j other →
      client.localAddr = other.localAddr → i = j := by
  refine ⟨fun i s f ha => ⟨fun r hr => asked_port hmeets h ha hr, ?_⟩, ?_⟩
  · obtain ⟨o, k, hop, henabled⟩ | ⟨-, -, r, -, -, hret, -⟩ := ha.path (path_of_run (run_record h) i)
    · obtain ⟨r, g, hmove⟩ := henabled c.state
      exact .inr ⟨⟨i, o, r⟩, _, rfl, Pool.Step.op hop hmove⟩
    · exact .inl ⟨r, hret⟩
  · intro tx i j client other hi hj haddr
    exact clients_differ hmeets h hi hj haddr

theorem run_taken {c₀ c : Net} {es : List Event} (h : Run Happens c₀ es c) (i : ℕ) (o : Section) (r : Answer o)
    (g : Globals) {k : Answer o → Running} (hp : c.progs i = .op o k) (hm : moves c.state o r g) :
    Run Happens c₀ (es ++ [.taken ⟨i, o, r⟩]) ⟨Function.update c.progs i (k r), g⟩ :=
  h.tail (Pool.Step.op hp hm)

def listenerAndClients : ℕ → Call
  | 0 => .tcpListen (localhost 0)
  | _ => .tcpConnect (localhost 40000)

theorem drawn_apart {calls : ℕ → Call} {before : List Event} {c : Net} {i j n k : ℕ} {p q : UInt16}
    (h : Run Happens (start calls) before c) (hp : ∀ r, .taken ⟨i, .nextEphemeralPort, r⟩ ∈ before → r = p)
    (hq : ∀ r, .taken ⟨j, .nextEphemeralPort, r⟩ ∈ before → r = q) (hne : p ≠ q) (hi : DrawnAt before i n)
    (hj : DrawnAt before j k) : n % 65536 ≠ k % 65536 := by
  obtain ⟨b, r, a, hb, rfl⟩ := hi
  obtain ⟨b', r', a', hb', rfl⟩ := hj
  intro heq
  apply hne
  rw [← hp r (hb ▸ by simp), ← hq r' (hb' ▸ by simp), port_of_draw h hb, port_of_draw h hb']
  apply UInt16.toNat_inj.mp
  rw [UInt16.toNat_ofNat', UInt16.toNat_ofNat']
  omega

def twoClientsEvents : List Event :=
  [.taken ⟨0, .nextEphemeralPort, 40000⟩, .taken ⟨0, .register .tcp (localhost 40000), some 0⟩,
    .taken ⟨1, .get .tcp (localhost 40000), some 0⟩, .taken ⟨2, .get .tcp (localhost 40000), some 0⟩,
    .taken ⟨2, .nextEphemeralPort, 40001⟩, .taken ⟨1, .nextEphemeralPort, 40002⟩,
    .taken ⟨1, .send .tcp 0 (⟨1, localhost 40000, localhost 40002⟩, localhost 40002), true⟩,
    .taken ⟨2, .send .tcp 0 (⟨2, localhost 40000, localhost 40001⟩, localhost 40001), true⟩]

theorem twoClients_run : ∃ c, Run Happens (start listenerAndClients) twoClientsEvents c ∧
    c.progs 0 = .ret (.ok (.listener .tcp ⟨localhost 40000, 0⟩)) ∧
    c.progs 1 = .ret (.ok (.tcpStream ⟨1, localhost 40002, localhost 40000⟩)) ∧
    c.progs 2 = .ret (.ok (.tcpStream ⟨2, localhost 40001, localhost 40000⟩)) := by
  have h₀ : Run Happens (start listenerAndClients) [] _ := .refl
  have h₁ := run_taken h₀ 0 .nextEphemeralPort 40000 _ rfl ⟨rfl, rfl⟩
  have h₂ := run_taken h₁ 0 (.register .tcp (localhost 40000)) (some 0) _ rfl ⟨rfl, rfl⟩
  have h₃ := run_taken h₂ 1 (.get .tcp (localhost 40000)) (some 0) _ rfl ⟨rfl, rfl⟩
  have h₄ := run_taken h₃ 2 (.get .tcp (localhost 40000)) (some 0) _ rfl ⟨rfl, rfl⟩
  have h₅ := run_taken h₄ 2 .nextEphemeralPort 40001 _ rfl ⟨rfl, rfl⟩
  have h₆ := run_taken h₅ 1 .nextEphemeralPort 40002 _ rfl ⟨rfl, rfl⟩
  have h₇ := run_taken h₆ 1 (.send .tcp 0 _) true _ rfl ⟨rfl, rfl⟩
  have h₈ := run_taken h₇ 2 (.send .tcp 0 _) true _ rfl ⟨rfl, rfl⟩
  exact ⟨_, h₈, rfl, rfl, rfl⟩

theorem twoClients_meets (before : List Event) (e : Event) (after : List Event)
    (hes : twoClientsEvents = before ++ e :: after) : Meets listenerAndClients before e := by
  obtain ⟨c, h, -⟩ := twoClients_run
  rw [hes] at h
  obtain ⟨c', -, hbefore, -⟩ := run_mid.mp h
  have hclient (i : ℕ) (s : Space) (f : UInt16 → Addr s) : ¬Asks s (listenerAndClients (i + 1)) f := by
    cases s <;> simp [Asks, listenerAndClients]
  unfold twoClientsEvents at hes
  match before, hes with
  | [], hes =>
    cases hes
    rintro s f -
    decide
  | [_], hes =>
    cases hes
    rintro f - rx ⟨⟨i, hret⟩, -⟩
    have hmem := mem_history.mp (listener_path hret)
    simp [record, Event.taken?] at hmem
  | [_, _], hes =>
    cases hes
    trivial
  | [_, _, _], hes =>
    cases hes
    trivial
  | [_, _, _, _], hes =>
    cases hes
    exact fun s f ha => absurd ha (hclient 1 s f)
  | [_, _, _, _, _], hes =>
    cases hes
    exact fun s f ha => absurd ha (hclient 0 s f)
  | [_, _, _, _, _, _], hes =>
    cases hes
    rintro other n k ⟨⟨m, hm⟩, -⟩
    simp at hm
  | [_, _, _, _, _, _, _], hes =>
    cases hes
    rintro other n k ⟨⟨m, hm⟩, -⟩
    obtain ⟨rfl, -⟩ : other = 1 ∧ _ := by simpa using hm
    exact drawn_apart (p := 40001) (q := 40002) hbefore (by simp) (by simp) (by decide)
  | _ :: _ :: _ :: _ :: _ :: _ :: _ :: _ :: before, hes => cases before <;> cases hes

theorem listener_and_clients_usable :
    ∃ c, Run Happens (start listenerAndClients) twoClientsEvents c ∧
      (∃ port rx, port ≠ 0 ∧ c.progs 0 = .ret (.ok (.listener .tcp ⟨localhost port, rx⟩))) ∧
      ∃ client other, LiveClient c twoClientsEvents 0 1 client ∧ LiveClient c twoClientsEvents 0 2 other ∧
        client.localAddr ≠ other.localAddr := by
  obtain ⟨c, h, hlisten, hclient, hother⟩ := twoClients_run
  obtain ⟨husable, hdiffer⟩ := ephemeral_ports_usable _ _ _ h twoClients_meets
  have hasks : Asks .tcp (listenerAndClients 0) (localhost 0).withPort := ⟨localhost 0, rfl, rfl, rfl⟩
  obtain ⟨port, rx, -, -, hport, hret, -⟩ := (husable 0 .tcp _ hasks).1 _ hlisten
  have hone : LiveClient c twoClientsEvents 0 1 _ :=
    ⟨hclient, ⟨(⟨1, localhost 40000, localhost 40002⟩, localhost 40002), by simp [twoClientsEvents]⟩, by simp [twoClientsEvents]⟩
  have htwo : LiveClient c twoClientsEvents 0 2 _ :=
    ⟨hother, ⟨(⟨2, localhost 40000, localhost 40001⟩, localhost 40001), by simp [twoClientsEvents]⟩, by simp [twoClientsEvents]⟩
  refine ⟨c, h, ⟨port, rx, hport, hlisten.trans (congrArg Prog.ret hret)⟩, _, _, hone, htwo, fun heq => ?_⟩
  cases hdiffer 0 1 2 _ _ hone htwo heq

def twoListens : ℕ → Call
  | 0 => .tcpListen (localhost 40000)
  | 1 => .tcpListen (localhost 0)
  | _ => .unixListen ⟨true, []⟩

theorem first_port_taken :
    ∃ es c, Run Happens (start twoListens) es c ∧ c.progs 1 = .ret (.error (err .addrInUse "listen")) ∧
      (c.state.regs .tcp).map (localhost 1) = none := by
  have h₀ : Run Happens (start twoListens) [] _ := .refl
  have h₁ := run_taken h₀ 0 (.register .tcp (localhost 40000)) (some 0) _ rfl ⟨rfl, rfl⟩
  have h₂ := run_taken h₁ 1 .nextEphemeralPort 40000 _ rfl ⟨rfl, rfl⟩
  have h₃ := run_taken h₂ 1 (.register .tcp (localhost 40000)) none _ rfl ⟨rfl, rfl⟩
  exact ⟨_, _, h₃, rfl, rfl⟩

end Rustils.MockNet
