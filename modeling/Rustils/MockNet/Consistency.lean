import Rustils.MockNet.Net

namespace Rustils.MockNet

open Platform Lib.Program Lib.Trace Lib.Registry

def onSpace (s s' : Space) (e : Act (Addr s') (Msg s')) : Option (Act (Addr s) (Msg s)) :=
  if h : s' = s then some (h ▸ e) else none

@[simp] theorem onSpace_self (s : Space) (e : Act (Addr s) (Msg s)) : onSpace s s e = some e :=
  dif_pos rfl

theorem onSpace_ne {s s' : Space} (h : s' ≠ s) (e : Act (Addr s') (Msg s')) : onSpace s s' e = none :=
  dif_neg h

def act (s : Space) : Taken ℕ Answer → Option (Act (Addr s) (Msg s))
  | ⟨_, .nextEphemeralPort, _⟩ => none
  | ⟨_, .get _ _, _⟩ => none
  | ⟨_, .send s' tx m, r⟩ => onSpace s s' (.send tx m r)
  | ⟨_, .register s' addr, r⟩ => onSpace s s' (.register addr r)
  | ⟨_, .sendTo _ m, some (tx, r)⟩ => onSpace s .udp (.send tx m r)
  | ⟨_, .sendTo _ _, none⟩ => none
  | ⟨_, .recv s' l, some m⟩ => onSpace s s' (.recv l.rx m)
  | ⟨_, .recv _ _, none⟩ => none
  | ⟨_, .unregister s' l, _⟩ => onSpace s s' (.unregister l.addr l.rx)
  | ⟨_, .close s' l, _⟩ => onSpace s s' (.close l.rx)

def acts (s : Space) (tr : Record) : List (Act (Addr s) (Msg s)) := tr.filterMap (act s)

def Follows (s : Space) (g : Globals) (e : Option (Act (Addr s) (Msg s))) (g' : Globals) : Prop :=
  match e with
  | some e => Step (g.regs s) e (g'.regs s)
  | none => g'.regs s = g.regs s

theorem follows_set {s s' : Space} {g : Globals} {e : Act (Addr s') (Msg s')}
    {t : Table (Addr s') (Msg s')} (h : Step (g.regs s') e t) :
    Follows s g (onSpace s s' e) (g.set s' t) := by
  by_cases hs : s' = s
  · subst hs
    rw [onSpace_self, Follows, Globals.set_regs]
    exact h
  · rw [onSpace_ne hs]
    exact Function.update_of_ne (Ne.symm hs) _ _

theorem moves_follows {g g' : Globals} {i : ℕ} {o : Section} {r : Answer o} (s : Space)
    (h : moves g o r g')
    (hclose : ∀ s l, o = .close s l → (g.regs s).owners l.rx = none) :
    Follows s g (act s ⟨i, o, r⟩) g' := by
  match o, r, h with
  | .nextEphemeralPort, _, ⟨_, hg⟩ =>
    rw [hg]
    rfl
  | .get _ _, _, ⟨_, hg⟩ =>
    rw [hg]
    rfl
  | .send s' tx m, _, ⟨hr, hg⟩ =>
    rw [hr, hg]
    exact follows_set (.send tx m)
  | .register s' addr, _, ⟨hr, hg⟩ =>
    rw [hr, hg]
    exact follows_set (.register addr)
  | .sendTo addr m, _, ⟨hr, hg⟩ =>
    rw [hr, hg]
    unfold postTo
    cases (g.regs .udp).map addr with
    | none =>
      show (Function.update g.regs .udp (g.regs .udp)) s = g.regs s
      rw [Function.update_eq_self]
    | some tx => exact follows_set (.send tx m)
  | .recv s' l, some m, ⟨_, rest, hq, hg⟩ =>
    rw [hg]
    exact follows_set (.recv hq)
  | .recv s' l, none, ⟨_, _, _, hg⟩ =>
    rw [hg]
    rfl
  | .unregister s' l, _, ⟨ho, hg⟩ =>
    rw [hg]
    exact follows_set (.unregister ho)
  | .close s' l, _, hg =>
    obtain rfl : g' = _ := hg
    exact follows_set (.close (hclose s' l rfl))

theorem onSpace_eq_some {s s' : Space} {e : Act (Addr s') (Msg s')} {e' : Act (Addr s) (Msg s)}
    (h : onSpace s s' e = some e') : ∃ hs : s' = s, hs ▸ e = e' := by
  by_cases hs : s' = s
  · subst hs
    rw [onSpace_self] at h
    cases h
    exact ⟨rfl, rfl⟩
  · rw [onSpace_ne hs] at h
    cases h

inductive Came : (s : Space) → Taken ℕ Answer → Act (Addr s) (Msg s) → Prop
  | send {s : Space} (i : ℕ) (tx : Chan) (m : Msg s) (r : Bool) :
      Came s ⟨i, .send s tx m, r⟩ (.send tx m r)
  | register {s : Space} (i : ℕ) (addr : Addr s) (r : Option Chan) :
      Came s ⟨i, .register s addr, r⟩ (.register addr r)
  | sendTo (i : ℕ) (addr : SocketAddr) (m : Msg .udp) (tx : Chan) (r : Bool) :
      Came .udp ⟨i, .sendTo addr m, some (tx, r)⟩ (.send tx m r)
  | recv {s : Space} (i : ℕ) (l : Listener s) (m : Msg s) :
      Came s ⟨i, .recv s l, some m⟩ (.recv l.rx m)
  | unregister {s : Space} (i : ℕ) (l : Listener s) :
      Came s ⟨i, .unregister s l, ()⟩ (.unregister l.addr l.rx)
  | close {s : Space} (i : ℕ) (l : Listener s) : Came s ⟨i, .close s l, ()⟩ (.close l.rx)

theorem came {s : Space} {t : Taken ℕ Answer} {e : Act (Addr s) (Msg s)} (h : act s t = some e) :
    Came s t e := by
  match t, h with
  | ⟨i, .send s' tx m, r⟩, h =>
    obtain ⟨rfl, rfl⟩ := onSpace_eq_some h
    exact .send i tx m r
  | ⟨i, .register s' addr, r⟩, h =>
    obtain ⟨rfl, rfl⟩ := onSpace_eq_some h
    exact .register i addr r
  | ⟨i, .sendTo addr m, some (tx, r)⟩, h =>
    obtain ⟨rfl, rfl⟩ := onSpace_eq_some h
    exact .sendTo i addr m tx r
  | ⟨i, .recv s' l, some m⟩, h =>
    obtain ⟨rfl, rfl⟩ := onSpace_eq_some h
    exact .recv i l m
  | ⟨i, .unregister s' l, _⟩, h =>
    obtain ⟨rfl, rfl⟩ := onSpace_eq_some h
    exact .unregister i l
  | ⟨i, .close s' l, _⟩, h =>
    obtain ⟨rfl, rfl⟩ := onSpace_eq_some h
    exact .close i l

theorem mem_register {s : Space} {tr : Record} {a : Addr s} {r : Option Chan} :
    .register a r ∈ acts s tr ↔ ∃ i, ⟨i, .register s a, r⟩ ∈ tr := by
  rw [acts, List.mem_filterMap]
  constructor
  · rintro ⟨t, ht, he⟩
    cases came he with
    | register i => exact ⟨i, ht⟩
  · rintro ⟨i, ht⟩
    exact ⟨_, ht, onSpace_self ..⟩

theorem mem_unregister {s : Space} {tr : Record} {l : Listener s} :
    .unregister l.addr l.rx ∈ acts s tr ↔ ∃ i, ⟨i, .unregister s l, ()⟩ ∈ tr := by
  rw [acts, List.mem_filterMap]
  constructor
  · rintro ⟨t, ht, he⟩
    generalize ha : Act.unregister l.addr l.rx = e at he
    cases came he with
    | unregister i l' =>
      obtain ⟨haddr, hrx⟩ := Act.unregister.inj ha
      obtain ⟨addr, rx⟩ := l
      obtain ⟨addr', rx'⟩ := l'
      cases haddr
      cases hrx
      exact ⟨i, ht⟩
    | _ => cases ha
  · rintro ⟨i, ht⟩
    exact ⟨_, ht, onSpace_self ..⟩

def idOf : (s : Space) → Msg s → Option ℕ
  | .tcp, (stream, _) => some stream.id
  | .unix, (stream, _) => some stream.id
  | .udp, _ => none

/-- A call that is refused an address says so and returns a listener where it gets one, sends no streams but its own, and
gives up an address or closes a receiver only to drop it. -/
def Honest (id : ℕ) (call : Call) : (o : Section) → (Answer o → Running) → Prop
  | .register s addr, k => (∃ op, k none = .ret (.error (err .addrInUse op))) ∧
      ∀ rx, k (some rx) = .ret (.ok (.listener s ⟨addr, rx⟩))
  | .send s _ m, _ => idOf s m = some id
  | .unregister s l, _ => call = .drop s l
  | .close s l, _ => call = .drop s l
  | _, _ => True

theorem listenAt_honest (id : ℕ) (call : Call) (s : Space) (op : String) (addr : Addr s) :
    Everywhere (Honest id call) (listenAt s op addr) := by
  refine ⟨⟨⟨op, rfl⟩, fun _ => rfl⟩, ?_⟩
  rintro (_ | rx) <;> trivial

theorem withPort_honest {id : ℕ} {call : Call} {k : SocketAddr → Running} (addr : SocketAddr)
    (hk : ∀ a, Everywhere (Honest id call) (k a)) : Everywhere (Honest id call) (withPort addr k) := by
  unfold withPort
  split
  · exact ⟨trivial, fun port => hk _⟩
  · exact hk addr

theorem run_honest (id : ℕ) (call : Call) : Everywhere (Honest id call) (call.run id) := by
  cases call with
  | tcpConnect addr =>
    refine ⟨trivial, ?_⟩
    rintro (_ | tx)
    · trivial
    · refine ⟨trivial, fun port => ⟨rfl, ?_⟩⟩
      rintro (_ | _) <;> trivial
  | tcpListen addr => exact withPort_honest addr (listenAt_honest id _ .tcp "listen")
  | unixConnect path =>
    refine ⟨trivial, ?_⟩
    rintro (_ | tx)
    · trivial
    · refine ⟨rfl, ?_⟩
      rintro (_ | _) <;> trivial
  | unixListen path => exact listenAt_honest id _ .unix "listen" path
  | udpBind addr => exact withPort_honest addr (listenAt_honest id _ .udp "udp_bind")
  | tcpAccept l =>
    refine ⟨trivial, ?_⟩
    rintro (_ | m) <;> trivial
  | unixAccept l =>
    refine ⟨trivial, ?_⟩
    rintro (_ | m) <;> trivial
  | sendTo socket buf addr => exact ⟨trivial, fun _ => trivial⟩
  | recvFrom socket len =>
    refine ⟨trivial, ?_⟩
    rintro (_ | m) <;> trivial
  | drop s l => exact ⟨rfl, fun _ => ⟨rfl, fun _ => trivial⟩⟩

theorem close_path {id : ℕ} {call : Call} {hist : List (Σ o, Answer o)} {s : Space} {l : Listener s}
    {k : Answer (.close s l) → Running} (h : Path (call.run id) hist (.op (.close s l) k)) :
    ⟨.unregister s l, ()⟩ ∈ hist := by
  have hcall : call = .drop s l := (h.everywhere (run_honest id call)).1.1
  subst hcall
  cases h with
  | cons h =>
    cases h with
    | nil => exact List.mem_singleton_self _
    | cons h => cases h

section Listeners

variable {id : ℕ} {call : Call} {hist : List (Σ o, Answer o)} {s s' : Space} {l : Listener s'}

def Plain (r : Result Reply) : Prop := ∀ s (l : Listener s), r ≠ .ok (.listener s l)

theorem Path.plain {p : Running} (h : Path p hist (.ret (.ok (.listener s' l)))) : ¬Ends Plain p := fun hp =>
  h.ends hp s' l rfl

theorem listenAt_path {op : String} {addr : Addr s}
    (h : Path (listenAt s op addr) hist (.ret (.ok (.listener s' l)))) : ⟨.register s' l.addr, some l.rx⟩ ∈ hist := by
  cases h with
  | @cons _ _ _ r _ h =>
    cases r with
    | none => cases h
    | some rx =>
      cases h
      exact List.mem_cons_self

theorem withPort_path {k : SocketAddr → Running} {addr : SocketAddr}
    (hk : ∀ addr hist, Path (k addr) hist (.ret (.ok (.listener s' l))) → ⟨.register s' l.addr, some l.rx⟩ ∈ hist)
    (h : Path (withPort addr k) hist (.ret (.ok (.listener s' l)))) : ⟨.register s' l.addr, some l.rx⟩ ∈ hist := by
  unfold withPort at h
  split at h
  · cases h with
    | cons h => exact List.mem_cons_of_mem _ (hk _ _ h)
  · exact hk _ _ h

theorem listener_path (h : Path (call.run id) hist (.ret (.ok (.listener s' l)))) :
    ⟨.register s' l.addr, some l.rx⟩ ∈ hist := by
  cases call with
  | tcpListen addr =>
    have hpath : Path (withPort addr (listenAt .tcp "listen")) hist _ := h
    exact withPort_path (fun _ _ => listenAt_path) hpath
  | unixListen path => exact listenAt_path h
  | udpBind addr =>
    have hpath : Path (withPort addr (listenAt .udp "udp_bind")) hist _ := h
    exact withPort_path (fun _ _ => listenAt_path) hpath
  | tcpConnect addr =>
    refine absurd ?_ (Path.plain h)
    rintro (_ | tx)
    · exact nofun
    · rintro port (_ | _) <;> exact nofun
  | unixConnect path =>
    refine absurd ?_ (Path.plain h)
    rintro (_ | tx)
    · exact nofun
    · rintro (_ | _) <;> exact nofun
  | tcpAccept l =>
    refine absurd ?_ (Path.plain h)
    rintro (_ | m) <;> exact nofun
  | unixAccept l =>
    refine absurd ?_ (Path.plain h)
    rintro (_ | m) <;> exact nofun
  | sendTo socket buf addr => exact absurd (fun _ => nofun) (Path.plain h)
  | recvFrom socket len =>
    refine absurd ?_ (Path.plain h)
    rintro (_ | m) <;> exact nofun
  | drop s l => exact absurd (fun _ _ => nofun) (Path.plain h)

end Listeners

variable {calls : ℕ → Call} {tr : Record} {c c' : Net}

def Returned (calls : ℕ → Call) (tr : Record) (i : ℕ) (r : Result Reply) : Prop :=
  Path ((calls i).run i) (history i tr) (.ret r)

def Begun (calls : ℕ → Call) (tr : Record) (i : ℕ) : Prop := history i tr ≠ [] ∨ ∃ r, Returned calls tr i r

def Alive (calls : ℕ → Call) (s : Space) (tr : Record) (l : Listener s) : Prop :=
  (∃ i, Returned calls tr i (.ok (.listener s l))) ∧ ∀ i, calls i = .drop s l → ¬Begun calls tr i

theorem acts_concat {s : Space} {t : Taken ℕ Answer} :
    acts s (tr ++ [t]) = acts s tr ++ (act s t).toList := by
  rw [acts, List.filterMap_append]
  cases h : act s t <;> simp [h, acts]

theorem run_acts (h : Run (Pool.Takes moves) (start calls) tr c) :
    ∀ s, Run Step .empty (acts s tr) (c.state.regs s) := by
  induction h with
  | refl => exact fun _ => .refl
  | @tail tr c c' t hr hs ih =>
    intro s
    obtain ⟨hmove, k, hp, -⟩ := hs.inv
    have hpath := path_of_run hr t.call
    obtain ⟨i, o, r⟩ := t
    have hclose : ∀ s' l, o = .close s' l → (c.state.regs s').owners l.rx = none := by
      rintro s' l rfl
      rw [hp] at hpath
      have hmem := mem_history.mp (close_path hpath)
      exact (owned_of_run (ih s')).gone (mem_unregister.mpr ⟨i, hmem⟩)
    have hf : Follows s c.state (act s ⟨i, o, r⟩) c'.state := moves_follows s hmove hclose
    rw [acts_concat]
    cases he : act s ⟨i, o, r⟩ with
    | none =>
      rw [he] at hf
      have hsame : c'.state.regs s = c.state.regs s := hf
      rw [hsame]
      simpa using ih s
    | some e =>
      rw [he] at hf
      exact (ih s).tail hf

theorem returned_iff (h : Run (Pool.Takes moves) (start calls) tr c) {i : ℕ} {r : Result Reply} :
    Returned calls tr i r ↔ c.progs i = .ret r := by
  have hpath := path_of_run h i
  constructor
  · intro hret
    rw [← List.append_nil (history i tr)] at hpath
    exact (hret.ret_append hpath).2
  · intro hret
    rw [hret] at hpath
    exact hpath

theorem registered_returned (h : Run (Pool.Takes moves) (start calls) tr c) {s : Space} {l : Listener s} :
    (∃ i, ⟨i, .register s l.addr, some l.rx⟩ ∈ tr) ↔ ∃ i, Returned calls tr i (.ok (.listener s l)) := by
  constructor
  · rintro ⟨i, hmem⟩
    obtain ⟨pre, post, rfl⟩ := List.append_of_mem hmem
    obtain ⟨c₁, c₂, h₁, hs, -⟩ := run_mid.mp h
    obtain ⟨-, k, hp, -⟩ := hs.inv
    have hpath := path_of_run h₁ i
    rw [hp] at hpath
    have hret := hpath.concat (some l.rx)
    rw [(hpath.everywhere (run_honest i (calls i))).1.1.2 l.rx] at hret
    have hwhole := path_of_run h i
    rw [List.append_cons, history_append, history_concat, if_pos rfl] at hwhole
    exact ⟨i, (returned_iff h).mpr (hret.ret_append hwhole).2⟩
  · rintro ⟨i, hret⟩
    exact ⟨i, mem_history.mp (listener_path hret)⟩

theorem drop_history (h : Run (Pool.Takes moves) (start calls) tr c) {s : Space} {l : Listener s} {i : ℕ}
    (hcall : calls i = .drop s l) (hb : Begun calls tr i) : ⟨i, .unregister s l, ()⟩ ∈ tr := by
  obtain ⟨p, hpath, hp⟩ : ∃ p, Path (drop s l) (history i tr) p ∧ (history i tr ≠ [] ∨ ∃ r, p = .ret r) := by
    rcases hb with hne | ⟨r, hret⟩
    · have hpath : Path ((calls i).run i) (history i tr) (c.progs i) := path_of_run h i
      rw [hcall] at hpath
      exact ⟨_, hpath, .inl hne⟩
    · rw [Returned, hcall] at hret
      exact ⟨_, hret, .inr ⟨r, rfl⟩⟩
  apply mem_history.mp
  generalize history i tr = hist at hpath hp
  cases hpath with
  | nil =>
    rcases hp with hp | ⟨r, hp⟩
    · exact absurd rfl hp
    · cases hp
  | cons _ => exact List.mem_cons_self

theorem alive_iff (h : Run (Pool.Takes moves) (start calls) tr c) {s : Space} {l : Listener s} :
    Alive calls s tr l ↔ Live (acts s tr) l.addr l.rx := by
  rw [Alive, Live, mem_register, mem_unregister, registered_returned h]
  refine and_congr_right fun _ => ⟨?_, ?_⟩
  · rintro hdrop ⟨i, hmem⟩
    obtain ⟨pre, post, rfl⟩ := List.append_of_mem hmem
    obtain ⟨c₁, c₂, h₁, hs, -⟩ := run_mid.mp h
    obtain ⟨-, k, hp, -⟩ := hs.inv
    have hpath := path_of_run h₁ i
    rw [hp] at hpath
    refine hdrop i (hpath.everywhere (run_honest i (calls i))).1.1 (.inl ?_)
    exact List.ne_nil_of_mem (mem_history.mpr hmem)
  · rintro hnone i hcall hb
    exact hnone ⟨i, drop_history h hcall hb⟩

def sent (s : Space) (ch : Chan) (tr : Record) : List (Msg s) := Lib.Registry.sent ch (acts s tr)

def received (s : Space) (ch : Chan) (tr : Record) : List (Msg s) :=
  Lib.Registry.received ch (acts s tr)

def streams (s : Space) (id : ℕ) (ms : List (Msg s)) : ℕ := ms.countP fun m => idOf s m = some id

def handsOver (s : Space) (ch : Chan) (t : Taken ℕ Answer) : Option (Msg s) :=
  (act s t).bind (Act.sent? ch)

theorem sent_step {s : Space} {ch : Chan} {t : Taken ℕ Answer} :
    sent s ch (tr ++ [t]) = sent s ch tr ++ (handsOver s ch t).toList := by
  unfold sent handsOver
  rw [acts_concat]
  cases h : act s t with
  | none => simp
  | some e => exact Lib.Registry.sent_concat

theorem handsOver_id {s : Space} {ch : Chan} {t : Taken ℕ Answer} {m : Msg s} {call : Call}
    {k : Answer t.op → Running} (hk : Honest t.call call t.op k) (h : handsOver s ch t = some m) :
    idOf s m = some t.call ∨ idOf s m = none := by
  obtain ⟨e, he, hm⟩ := Option.bind_eq_some_iff.mp h
  cases came he with
  | send i tx m' r =>
    cases r with
    | false => cases hm
    | true =>
      obtain ⟨-, rfl⟩ : tx = ch ∧ m' = m := by simpa [Act.sent?] using hm
      exact .inl hk
  | sendTo i addr m' tx r => exact .inr rfl
  | _ => cases hm

def carries (s : Space) (ch : Chan) (id : ℕ) (o : Σ o, Answer o) : Bool :=
  (handsOver s ch ⟨id, o.1, o.2⟩).any fun m => idOf s m = some id

theorem carries_get {s s' : Space} {ch : Chan} {id : ℕ} {addr : Addr s'} {r : Option Chan} :
    carries s ch id ⟨.get s' addr, r⟩ = false := by
  simp [carries, handsOver, act]

theorem carries_port {s : Space} {ch : Chan} {id : ℕ} {r : UInt16} :
    carries s ch id ⟨.nextEphemeralPort, r⟩ = false := by
  simp [carries, handsOver, act]

theorem carries_send {s : Space} {ch tx : Chan} {id : ℕ} {m : Msg s} :
    carries s ch id ⟨.send s tx m, true⟩ = decide (tx = ch ∧ idOf s m = some id) := by
  by_cases hch : tx = ch <;> simp [carries, handsOver, act, Act.sent?, hch]

theorem streams_sent (h : Run (Pool.Takes moves) (start calls) tr c) (s : Space) (ch : Chan) (id : ℕ) :
    streams s id (sent s ch tr) = (history id tr).countP (carries s ch id) := by
  induction h with
  | refl => rfl
  | @tail tr c c' t hr hs ih =>
    obtain ⟨-, k, hp, -⟩ := hs.inv
    have hpath := path_of_run hr t.call
    rw [hp] at hpath
    have hk : Honest t.call (calls t.call) t.op k := (hpath.everywhere (run_honest _ _)).1.1
    rw [sent_step, history_concat, streams, List.countP_append, List.countP_append]
    rw [streams] at ih
    rw [ih]
    congr 1
    by_cases hi : t.call = id
    · subst hi
      rw [if_pos rfl]
      cases hm : handsOver s ch t with
      | none => simp [carries, hm]
      | some m => simp [carries, hm]
    · rw [if_neg hi]
      cases hm : handsOver s ch t with
      | none => rfl
      | some m =>
        rcases handsOver_id hk hm with hid | hid
        · simp [hid, hi]
        · simp [hid]

def Connects : (s : Space) → Call → Addr s → Prop
  | .tcp, call, addr => call = .tcpConnect addr
  | .unix, call, path => call = .unixConnect path
  | .udp, _, _ => False

theorem connect_history {s : Space} {call : Call} {addr : Addr s} {id : ℕ} {r : Reply}
    {hist : List (Σ o, Answer o)} (hc : Connects s call addr)
    (h : Path (call.run id) hist (.ret (.ok r))) :
    ∃ tx, ⟨.get s addr, some tx⟩ ∈ hist ∧
      ∀ ch, hist.countP (carries s ch id) = if ch = tx then 1 else 0 := by
  cases s with
  | tcp =>
    obtain rfl : call = .tcpConnect addr := hc
    cases h with
    | @cons _ _ _ found _ h =>
      cases found with
      | none => cases h
      | some tx =>
        cases h with
        | @cons _ _ _ port _ h =>
          cases h with
          | @cons _ _ _ ok _ h =>
            cases ok with
            | false => cases h
            | true =>
              cases h
              refine ⟨tx, List.mem_cons_self .., ?_⟩
              intro ch
              simp [carries_get, carries_port, carries_send, idOf, eq_comm]
  | unix =>
    obtain rfl : call = .unixConnect addr := hc
    cases h with
    | @cons _ _ _ found _ h =>
      cases found with
      | none => cases h
      | some tx =>
        cases h with
        | @cons _ _ _ ok _ h =>
          cases ok with
          | false => cases h
          | true =>
            cases h
            refine ⟨tx, List.mem_cons_self .., ?_⟩
            intro ch
            simp [carries_get, carries_send, idOf, eq_comm]
  | udp => cases hc

section Reached

variable (h : Run (Pool.Takes moves) (start calls) tr c) {s : Space}

include h

theorem registered_iff_alive (l : Listener s) :
    (c.state.regs s).map l.addr = some l.rx ↔ Alive calls s tr l := by
  have ho := owned_of_run (run_acts h s)
  rw [ho.map, ho.live, alive_iff h]

theorem alive_unique {l l' : Listener s} (hl : Alive calls s tr l) (hl' : Alive calls s tr l')
    (ha : l.addr = l'.addr) : l.rx = l'.rx := by
  have hm := (registered_iff_alive h l).mpr hl
  have hm' := (registered_iff_alive h l').mpr hl'
  rw [ha, hm'] at hm
  exact (Option.some.inj hm).symm

theorem listen_refused {l : Listener s} (hl : Alive calls s tr l) {i : ℕ} {r : Option Chan}
    (hs : Pool.Takes moves c ⟨i, .register s l.addr, r⟩ c') :
    c'.state = c.state ∧ ∃ op, c'.progs i = .ret (.error (err .addrInUse op)) := by
  have hm := (registered_iff_alive h l).mpr hl
  obtain ⟨⟨hr, hg⟩, k, hp, hprogs⟩ := hs.inv
  simp only [Table.register, hm] at hr hg
  have hpath := path_of_run h i
  rw [hp] at hpath
  obtain ⟨⟨op, hop⟩, -⟩ := (hpath.everywhere (run_honest i (calls i))).1.1
  constructor
  · rw [hg, Globals.set, Function.update_eq_self]
  · refine ⟨op, ?_⟩
    rw [hprogs, Function.update_self, hr]
    exact hop

theorem received_in_order (ch : Chan) : received s ch tr <+: sent s ch tr :=
  ((delivered_of_run (run_acts h s)).channel ch).fifo

theorem streams_received_le (id : ℕ) (ch : Chan) :
    streams s id (received s ch tr) ≤ streams s id (sent s ch tr) :=
  (received_in_order h ch).sublist.countP_le

theorem dropped_shut {l : Listener s} {i : ℕ} {r : Result Reply} (hcall : calls i = .drop s l)
    (hr : c.progs i = .ret r) : ¬Alive calls s tr l ∧ (c.state.regs s).queues l.rx = none := by
  have hret := (returned_iff h).mpr hr
  refine ⟨fun hl => hl.2 i hcall (.inr ⟨r, hret⟩), ?_⟩
  rw [Returned, hcall] at hret
  have hclose : ⟨.close s l, ()⟩ ∈ history i tr := by
    generalize history i tr = hist at hret
    cases hret with
    | cons hret =>
      cases hret with
      | cons _ => exact List.mem_cons_of_mem _ List.mem_cons_self
  obtain ⟨pre, post, rfl⟩ := List.append_of_mem (mem_history.mp hclose)
  obtain ⟨c₁, c₂, h₁, hs, -⟩ := run_mid.mp h
  obtain ⟨-, k, hp, -⟩ := hs.inv
  have hpath := path_of_run h₁ i
  rw [hp] at hpath
  have hunreg := mem_unregister.mpr ⟨i, mem_history.mp (close_path hpath)⟩
  have hacts : acts s (pre ++ [⟨i, .close s l, ()⟩]) = acts s pre ++ [.close l.rx] := by
    rw [acts_concat, act, onSpace_self]
    rfl
  have hrun := run_acts h s
  rw [List.append_cons, acts, List.filterMap_append, ← acts, ← acts, hacts] at hrun
  obtain ⟨t₂, h₂, hpost⟩ := run_append.mp hrun
  obtain ⟨t₁, hpre, hshut⟩ := run_concat.mp h₂
  have ho := owned_of_run hpre
  have hborn := ho.born _ _ (ho.once _ _ hunreg)
  cases hshut with
  | close _ => exact (shut_of_run hpost hborn (Function.update_self ..)).2

theorem alive_open {l : Listener s} (hl : Alive calls s tr l) :
    ∃ q, (c.state.regs s).queues l.rx = some q ∧ sent s l.rx tr = received s l.rx tr ++ q := by
  have ho := owned_of_run (run_acts h s)
  have hown : (c.state.regs s).owners l.rx = some l.addr := by
    rw [ho.live, ← alive_iff h]
    exact hl
  cases hq : (c.state.regs s).queues l.rx with
  | none => exact absurd hq (open_of_run (run_acts h s) (by rw [hown]; exact Option.some_ne_none _))
  | some q =>
    have hc := (delivered_of_run (run_acts h s)).channel l.rx
    rw [hq] at hc
    exact ⟨q, rfl, hc⟩

theorem connect_delivered {id : ℕ} {addr : Addr s} {r : Reply} (hc : Connects s (calls id) addr)
    (hr : c.progs id = .ret (.ok r)) :
    ∃ tx pre post, tr = pre ++ ⟨id, .get s addr, some tx⟩ :: post ∧ Alive calls s pre ⟨addr, tx⟩ ∧
      ∀ ch, streams s id (sent s ch tr) = if ch = tx then 1 else 0 := by
  have hpath := path_of_run h id
  rw [hr] at hpath
  obtain ⟨tx, hget, hcount⟩ := connect_history hc hpath
  obtain ⟨pre, post, htr⟩ := List.append_of_mem (mem_history.mp hget)
  refine ⟨tx, pre, post, htr, ?_, ?_⟩
  · rw [htr] at h
    obtain ⟨c₁, c₂, h₁, hs, -⟩ := run_mid.mp h
    obtain ⟨⟨hfound, -⟩, -⟩ := hs.inv
    exact (registered_iff_alive h₁ ⟨addr, tx⟩).mp hfound.symm
  · intro ch
    rw [streams_sent h]
    exact hcount ch

end Reached

def twoClients : ℕ → Call
  | 0 => .unixListen ⟨true, [[115]]⟩
  | 3 => .unixAccept ⟨⟨true, [[115]]⟩, 0⟩
  | 4 => .drop .unix ⟨⟨true, [[115]]⟩, 0⟩
  | _ => .unixConnect ⟨true, [[115]]⟩

end Rustils.MockNet
