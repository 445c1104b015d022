import Rustils.Lib.Trace
import Rustils.Mock.Stream

namespace Rustils.Mock

open Platform Lib.Trace

def bytesOf : Result (List UInt8) → List UInt8
  | .ok bytes => bytes
  | .error _ => []

def Event.readAt (side : Side) : Event → List UInt8
  | .read a _ r => if a = side then bytesOf r else []
  | _ => []

def Event.writtenAt (side : Side) : Event → List UInt8
  | .write a buf (.ok _) => if a = side then buf else []
  | _ => []

def readAt (side : Side) (tr : List Event) : List UInt8 := tr.flatMap (Event.readAt side)

def writtenAt (side : Side) (tr : List Event) : List UInt8 := tr.flatMap (Event.writtenAt side)

theorem readAt_concat (side : Side) (tr : List Event) (e : Event) :
    readAt side (tr ++ [e]) = readAt side tr ++ e.readAt side := by
  simp [readAt, List.flatMap_append]

theorem writtenAt_concat (side : Side) (tr : List Event) (e : Event) :
    writtenAt side (tr ++ [e]) = writtenAt side tr ++ e.writtenAt side := by
  simp [writtenAt, List.flatMap_append]

section Read

variable {s s' : MockStream} {rx rx' : Receiver} {len : ℕ} {r : Result (List UInt8)}

theorem unread_ne_nil {readBuf : Chunk} {readPos : ℕ} (h : ¬ readBuf.length ≤ readPos) : readBuf.drop readPos ≠ [] := by
  intro hnil
  exact h (List.drop_eq_nil_iff.mp hnil)

theorem copyOut_append (readBuf : Chunk) (readPos len : ℕ) :
    (copyOut readBuf readPos len).1 ++ readBuf.drop (copyOut readBuf readPos len).2 =
      readBuf.drop readPos := by
  rw [copyOut, ← List.drop_drop]
  exact List.take_append_drop _ _

theorem copyOut_ne_nil {readBuf : Chunk} {readPos len : ℕ} (hlen : 0 < len)
    (h : readBuf.drop readPos ≠ []) : (copyOut readBuf readPos len).1 ≠ [] := by
  have hlt := List.length_pos_iff.mpr h
  rw [List.length_drop] at hlt
  apply List.ne_nil_of_length_pos
  rw [copyOut, List.length_take, List.length_drop]
  omega

inductive Outcome (s : MockStream) (rx : Receiver) (len : ℕ) :
    Result (List UInt8) → MockStream → Receiver → Prop
  | copied {bytes : List UInt8} {s' : MockStream} (hres : s.residue ≠ [])
    (happ : bytes ++ s'.residue = s.residue) (hne : 0 < len → bytes ≠ []) :
    Outcome s rx len (.ok bytes) s' rx
  | next {chunk : Chunk} {queue : List Chunk} {bytes : List UInt8} {s' : MockStream}
    (hres : s.residue = []) (hq : rx.queue = chunk :: queue) (happ : bytes ++ s'.residue = chunk)
    (hne : 0 < len → chunk ≠ [] → bytes ≠ []) :
    Outcome s rx len (.ok bytes) s' ⟨queue, rx.connected⟩
  | closed (hres : s.residue = []) (hq : rx.queue = []) (hc : rx.connected = false) :
    Outcome s rx len (.ok []) s rx
  | timeout (hres : s.residue = []) (hq : rx.queue = []) (hc : rx.connected = true) :
    Outcome s rx len (.error (err .wouldBlock "read")) s rx

theorem tcp_read_outcome {t t' : MockTcpStream} (h : t.read rx len = some (r, t', rx')) :
    Outcome (.tcp t) rx len r (.tcp t') rx' := by
  unfold MockTcpStream.read at h
  obtain ⟨queue, connected⟩ := rx
  by_cases hpos : t.readBuf.length ≤ t.readPos
  · have hres : (MockStream.tcp t).residue = [] := List.drop_eq_nil_of_le hpos
    rw [if_pos hpos] at h
    cases ht : t.readTimeout <;> cases queue <;> cases connected <;> rw [ht] at h <;> cases h
    all_goals first
      | exact .closed hres rfl rfl
      | exact .timeout hres rfl rfl
      | exact .next hres rfl (copyOut_append _ 0 len) fun hl hc => copyOut_ne_nil hl hc
  · rw [if_neg hpos] at h
    cases h
    have hres := unread_ne_nil hpos
    exact .copied hres (copyOut_append _ _ len) fun hl => copyOut_ne_nil hl hres

theorem unix_read_outcome {t t' : MockUnixStream} (h : t.read rx len = some (r, t', rx')) :
    Outcome (.unix t) rx len r (.unix t') rx' := by
  unfold MockUnixStream.read at h
  obtain ⟨queue, connected⟩ := rx
  by_cases hpos : t.readBuf.length ≤ t.readPos
  · have hres : (MockStream.unix t).residue = [] := List.drop_eq_nil_of_le hpos
    rw [if_pos hpos] at h
    cases queue <;> cases connected <;> cases h
    · exact .closed hres rfl rfl
    all_goals exact .next hres rfl (copyOut_append _ 0 len) fun hl hc => copyOut_ne_nil hl hc
  · rw [if_neg hpos] at h
    cases h
    have hres := unread_ne_nil hpos
    exact .copied hres (copyOut_append _ _ len) fun hl => copyOut_ne_nil hl hres

theorem read_outcome (h : s.read rx len = some (r, s', rx')) : Outcome s rx len r s' rx' := by
  cases s with
  | tcp t =>
    obtain ⟨⟨r, t', rx'⟩, hr, heq⟩ := Option.map_eq_some_iff.mp h
    cases heq
    exact tcp_read_outcome hr
  | unix t =>
    obtain ⟨⟨r, t', rx'⟩, hr, heq⟩ := Option.map_eq_some_iff.mp h
    cases heq
    exact unix_read_outcome hr

theorem read_returns (s : MockStream) (queue : List Chunk) (len : ℕ) :
    ∃ r s' rx', s.read ⟨queue, false⟩ len = some (r, s', rx') := by
  rcases s with t | t
  · unfold MockStream.read MockTcpStream.read
    by_cases hpos : t.readBuf.length ≤ t.readPos
    · simp only [if_pos hpos]
      cases t.readTimeout <;> cases queue <;> exact ⟨_, _, _, rfl⟩
    · simp only [if_neg hpos]
      exact ⟨_, _, _, rfl⟩
  · unfold MockStream.read MockUnixStream.read
    by_cases hpos : t.readBuf.length ≤ t.readPos
    · simp only [if_pos hpos]
      cases queue <;> exact ⟨_, _, _, rfl⟩
    · simp only [if_neg hpos]
      exact ⟨_, _, _, rfl⟩

theorem Outcome.flatten (h : Outcome s rx len r s' rx') :
    bytesOf r ++ (s'.residue ++ rx'.queue.flatten) = s.residue ++ rx.queue.flatten := by
  cases h with
  | copied hres happ hne => rw [bytesOf, ← List.append_assoc, happ]
  | next hres hq happ hne =>
    rw [bytesOf, hq, hres, List.flatten_cons, ← List.append_assoc, happ, List.nil_append]
  | closed hres hq hc => rfl
  | timeout hres hq hc => rfl

theorem Outcome.eq_closed (h : Outcome s rx len (.ok []) s' rx') (hlen : 0 < len)
    (hq : [] ∉ rx.queue) : s.residue = [] ∧ rx.queue = [] ∧ rx.connected = false := by
  generalize hr : Except.ok (ε := PlatformError) ([] : List UInt8) = r at h
  cases h with
  | copied hres happ hne =>
    cases hr
    exact absurd rfl (hne hlen)
  | @next chunk queue bytes s' hres hqueue happ hne =>
    cases hr
    rw [hqueue, List.mem_cons, not_or] at hq
    exact absurd rfl (hne hlen (Ne.symm hq.1))
  | closed hres hqueue hc => exact ⟨hres, hqueue, hc⟩
  | timeout hres hqueue hc => cases hr

end Read

section Runs

variable {c c' : Conn} {tr : List Event} {ev : Event} {side : Side} {e : End}

/-- What was written at the other end is what was read here, what is left of the chunk at hand, and
what waits; an end that is gone has read a part. -/
structure Delivered (tr : List Event) (c : Conn) (side : Side) : Prop where
  here : ∀ e, c side = some e →
    writtenAt side.peer tr = readAt side tr ++ (e.stream.residue ++ e.queue.flatten)
  read : readAt side tr <+: writtenAt side.peer tr

theorem Delivered.of_here (h : ∀ e, c side = some e →
      writtenAt side.peer tr = readAt side tr ++ (e.stream.residue ++ e.queue.flatten))
    (he : c side = some e) : Delivered tr c side :=
  ⟨h, e.stream.residue ++ e.queue.flatten, (h e he).symm⟩

theorem Delivered.frame (h : Delivered tr c side) (hr : ev.readAt side = [])
    (hw : ev.writtenAt side.peer = []) (hc : ∀ e', c' side = some e' →
      ∃ e, c side = some e ∧ e'.stream.residue = e.stream.residue ∧ e'.queue = e.queue) :
    Delivered (tr ++ [ev]) c' side := by
  constructor
  · intro e' he'
    obtain ⟨e, he, hres, hq⟩ := hc e' he'
    rw [readAt_concat, writtenAt_concat, hr, hw, List.append_nil, List.append_nil, hres, hq]
    exact h.here e he
  · rw [readAt_concat, writtenAt_concat, hr, hw, List.append_nil, List.append_nil]
    exact h.read

theorem residue_setReadTimeout (s : MockStream) (timeout : Option ℕ) :
    (s.setReadTimeout timeout).residue = s.residue := by
  cases s <;> rfl

theorem Delivered.write {a : Side} {buf : List UInt8} (h : Delivered tr c side) :
    Delivered (tr ++ [.write a buf (c.write a buf).1]) (c.write a buf).2 side := by
  unfold Conn.write
  rcases hp : c a.peer with _ | e'
  · exact h.frame rfl rfl fun e he => ⟨e, he, rfl, rfl⟩
  · by_cases ha : a.peer = side
    · subst ha
      have hw : Event.writtenAt a.peer.peer (.write a buf (.ok buf.length)) = buf := by
        simp [Event.writtenAt]
      refine .of_here ?_ (Function.update_self ..)
      intro e he
      dsimp only at he
      rw [Function.update_self] at he
      cases he
      rw [readAt_concat, writtenAt_concat, hw, h.here e' hp]
      simp [Event.readAt]
    · have hne : a ≠ side.peer := by
        rintro rfl
        exact ha (Side.peer_peer side)
      refine h.frame rfl (if_neg hne) fun e he => ⟨e, ?_, rfl, rfl⟩
      dsimp only at he
      rwa [Function.update_of_ne (Ne.symm ha)] at he

theorem Delivered.step (h : Delivered tr c side) (hs : Step c ev c') :
    Delivered (tr ++ [ev]) c' side := by
  cases hs with
  | @read a len e r s rx he hr =>
    by_cases ha : a = side
    · subst ha
      refine .of_here ?_ (Function.update_self ..)
      intro e' he'
      rw [Function.update_self] at he'
      cases he'
      have hflat : bytesOf r ++ (s.residue ++ rx.queue.flatten) =
          e.stream.residue ++ e.queue.flatten := (read_outcome hr).flatten
      have hread : Event.readAt a (.read a len r) = bytesOf r := if_pos rfl
      have hwrite : Event.writtenAt a.peer (.read a len r) = [] := rfl
      rw [readAt_concat, writtenAt_concat, h.here e he, ← hflat, hread, hwrite, List.append_nil,
        List.append_assoc]
    · refine h.frame (if_neg ha) rfl fun e' he' => ⟨e', ?_, rfl, rfl⟩
      rwa [Function.update_of_ne (Ne.symm ha)] at he'
  | write he => exact h.write
  | @setReadTimeout a timeout e he =>
    refine h.frame rfl rfl fun e' he' => ?_
    by_cases ha : side = a
    · subst ha
      rw [Function.update_self] at he'
      cases he'
      exact ⟨e, he, residue_setReadTimeout _ _, rfl⟩
    · rw [Function.update_of_ne ha] at he'
      exact ⟨e', he', rfl, rfl⟩
  | @drop a e he =>
    refine h.frame rfl rfl fun e' he' => ?_
    by_cases ha : side = a
    · subst ha
      rw [Function.update_self] at he'
      cases he'
    · rw [Function.update_of_ne ha] at he'
      exact ⟨e', he', rfl, rfl⟩

theorem delivered_connect (c : Conn) (hc : c = tcpConnect ∨ c = unixConnect) (side : Side) :
    Delivered [] c side := by
  refine ⟨fun e he => ?_, List.nil_prefix⟩
  rcases hc with rfl | rfl <;> cases he <;> rfl

theorem delivered_of_run {c₀ : Conn} (hc : c₀ = tcpConnect ∨ c₀ = unixConnect)
    (h : Run Step c₀ tr c) (side : Side) : Delivered tr c side := by
  induction h with
  | refl => exact delivered_connect c₀ hc side
  | tail _ hs ih => exact ih.step hs

def SolidAt (c : Conn) (side : Side) : Prop := ∀ e, c side = some e → [] ∉ e.queue

theorem Outcome.queue_subset {s s' : MockStream} {rx rx' : Receiver} {len : ℕ}
    {r : Result (List UInt8)} (h : Outcome s rx len r s' rx') {chunk : Chunk}
    (hc : chunk ∈ rx'.queue) : chunk ∈ rx.queue := by
  cases h with
  | next hres hq happ hne =>
    rw [hq]
    exact List.mem_cons_of_mem _ hc
  | _ => exact hc

theorem SolidAt.update {a : Side} {queue : List Chunk} {stream : MockStream} (h : SolidAt c side)
    (hq : a = side → [] ∉ queue) : SolidAt (Function.update c a (some ⟨stream, queue⟩)) side := by
  intro e he
  by_cases ha : side = a
  · subst ha
    rw [Function.update_self] at he
    cases he
    exact hq rfl
  · rw [Function.update_of_ne ha] at he
    exact h e he

theorem SolidAt.step (h : SolidAt c side) (hs : Step c ev c')
    (hev : ∀ n, ev ≠ .write side.peer [] (.ok n)) : SolidAt c' side := by
  cases hs with
  | @read a len e r s rx he hr =>
    apply h.update
    rintro rfl hmem
    exact h e he ((read_outcome hr).queue_subset hmem)
  | @write a buf e he =>
    unfold Conn.write at hev ⊢
    rcases hp : c a.peer with _ | e'
    · exact h
    · rw [hp] at hev
      apply h.update
      rintro rfl
      rw [List.mem_append, List.mem_singleton, not_or]
      refine ⟨h e' hp, ?_⟩
      rintro rfl
      exact hev 0 (by rw [Side.peer_peer]; rfl)
  | @setReadTimeout a timeout e he =>
    apply h.update
    rintro rfl
    exact h e he
  | @drop a e he =>
    intro e' he'
    by_cases ha : side = a
    · subst ha
      rw [Function.update_self] at he'
      cases he'
    · rw [Function.update_of_ne ha] at he'
      exact h e' he'

theorem solidAt_of_run {c₀ : Conn} (hc : c₀ = tcpConnect ∨ c₀ = unixConnect)
    (h : Run Step c₀ tr c) (hw : ∀ n, Event.write side.peer [] (.ok n) ∉ tr) : SolidAt c side := by
  induction h with
  | refl =>
    intro e he
    rcases hc with rfl | rfl <;> cases he <;> exact List.not_mem_nil
  | tail _ hs ih =>
    refine (ih fun n hmem => hw n (List.mem_append_left _ hmem)).step hs ?_
    rintro n rfl
    exact hw n (List.mem_append_right _ (List.mem_singleton_self _))

def reads (side : Side) : (ℕ → ℕ) → List (List UInt8) → List Event
  | lens, [] => [.read side (lens 0) (.ok [])]
  | lens, bytes :: rest => .read side (lens 0) (.ok bytes) :: reads side (fun i => lens (i + 1)) rest

theorem drains (he : c side = some e) (hp : c side.peer = none) (hs : SolidAt c side) (lens : ℕ → ℕ)
    (hlens : ∀ i, 0 < lens i) :
    ∃ parts c', Run Step c (reads side lens parts) c' ∧ (∀ bytes ∈ parts, bytes ≠ []) ∧
      parts.flatten = e.stream.residue ++ e.queue.flatten := by
  generalize hn : (e.stream.residue ++ e.queue.flatten).length = n
  induction n using Nat.strongRecOn generalizing c e lens with
  | ind n ih =>
  obtain ⟨r, s, rx, hr⟩ := read_returns e.stream e.queue (lens 0)
  have hrx : c.receiver side e = ⟨e.queue, false⟩ := by rw [Conn.receiver, hp, Option.isSome_none]
  have hstep : Step c (.read side (lens 0) r) (Function.update c side (some ⟨s, rx.queue⟩)) :=
    .read he (by rw [hrx]; exact hr)
  have hout := read_outcome hr
  have hflat : bytesOf r ++ (s.residue ++ rx.queue.flatten) = e.stream.residue ++ e.queue.flatten :=
    hout.flatten
  rcases r with err | bytes
  · cases hout with
    | timeout hres hq hconn => cases hconn
  · by_cases hnil : bytes = []
    · subst hnil
      obtain ⟨hres, hq, -⟩ := hout.eq_closed (hlens 0) (hs e he)
      refine ⟨[], _, .tail .refl hstep, by simp, ?_⟩
      change e.queue = [] at hq
      rw [hres, hq]
      rfl
    · have hlt : (s.residue ++ rx.queue.flatten).length < n := by
        have hpos := List.length_pos_iff.mpr hnil
        have hlen := congrArg List.length hflat
        rw [List.length_append, hn] at hlen
        change bytes.length + _ = n at hlen
        omega
      have hpeer : Function.update c side (some ⟨s, rx.queue⟩) side.peer = none := by
        rw [Function.update_of_ne side.peer_ne, hp]
      obtain ⟨parts, c', hrun, hne, hparts⟩ := ih _ hlt (Function.update_self ..) hpeer
        (hs.step hstep (by rintro _ ⟨⟩)) (fun i => lens (i + 1)) (fun i => hlens _) rfl
      refine ⟨bytes :: parts, c', ?_, ?_, ?_⟩
      · rw [reads, ← List.singleton_append]
        exact run_append.mpr ⟨_, .tail .refl hstep, hrun⟩
      · rintro b (_ | ⟨_, hb⟩)
        · exact hnil
        · exact hne b hb
      · rw [List.flatten_cons, hparts]
        exact hflat

end Runs

theorem mock_streams_deliver {c₀ c : Conn} (hc : c₀ = tcpConnect ∨ c₀ = unixConnect)
    (tr : List Event) (h : Run Step c₀ tr c) (side : Side) :
    readAt side tr <+: writtenAt side.peer tr ∧
    ((∀ a r, Event.write a [] r ∉ tr) → c side.peer = none →
      (∀ len c', 0 < len → Step c (.read side len (.ok [])) c' →
        readAt side tr = writtenAt side.peer tr) ∧
      ∀ e lens, c side = some e → (∀ i, 0 < lens i) →
        ∃ parts c', Run Step c (reads side lens parts) c' ∧ (∀ bytes ∈ parts, bytes ≠ []) ∧
          readAt side tr ++ parts.flatten = writtenAt side.peer tr) := by
  have hd := delivered_of_run hc h side
  refine ⟨hd.read, fun hw hp => ?_⟩
  have hsolid : SolidAt c side := solidAt_of_run hc h fun _ => hw _ _
  refine ⟨?_, ?_⟩
  · intro len c' hlen hs
    obtain ⟨he, hr⟩ := hs
    obtain ⟨hres, hq, -⟩ := (read_outcome hr).eq_closed hlen (hsolid _ he)
    change End.queue _ = [] at hq
    rw [hd.here _ he, hres, hq]
    simp
  · intro e lens he hlens
    obtain ⟨parts, c', hrun, hne, hparts⟩ := drains he hp hsolid lens hlens
    exact ⟨parts, c', hrun, hne, by rw [hparts, hd.here e he]⟩

def oneByte : List Event := [.write .server [120] (.ok 1), .drop .server]

theorem run_oneByte : ∃ c : Conn, Run Step unixConnect oneByte c ∧ c .server = none ∧
    c .client = some ⟨.unix {}, [[120]]⟩ := by
  let c₁ := (unixConnect.write .server [120]).2
  have h₁ : Step unixConnect (.write .server [120] (.ok 1)) c₁ := .write rfl
  have h₂ : Step c₁ (.drop .server) (Function.update c₁ .server none) := .drop rfl
  exact ⟨_, .tail (.tail .refl h₁) h₂, rfl, rfl⟩

theorem oneByte_delivered :
    ∃ c, Run Step unixConnect oneByte c ∧ writtenAt .server oneByte = [120] ∧
      ∃ parts c', Run Step c (reads .client (fun _ => 16) parts) c' ∧ parts.flatten = [120] := by
  obtain ⟨c, h, hp, he⟩ := run_oneByte
  obtain ⟨parts, c', hrun, -, hparts⟩ :=
    ((mock_streams_deliver (.inr rfl) oneByte h .client).2 (by simp [oneByte]) hp).2 _ (fun _ => 16) he
      (fun _ => by decide)
  exact ⟨c, h, rfl, parts, c', hrun, hparts⟩

theorem empty_write_ends_stream :
    ∃ (tr : List Event) (c c' : Conn), Run Step tcpConnect tr c ∧ c .server = none ∧
      Step c (.read .client 16 (.ok [])) c' ∧
      readAt .client tr = [] ∧ writtenAt .server tr = [120] := by
  let c₁ := (tcpConnect.write .server []).2
  let c₂ := (c₁.write .server [120]).2
  have h₁ : Step tcpConnect (.write .server [] (.ok 0)) c₁ := .write rfl
  have h₂ : Step c₁ (.write .server [120] (.ok 1)) c₂ := .write rfl
  have h₃ : Step c₂ (.drop .server) (Function.update c₂ .server none) := .drop rfl
  have he : Function.update c₂ .server none .client = some ⟨.tcp {}, [[], [120]]⟩ := rfl
  have hr : MockStream.read ⟨[[], [120]], false⟩ 16 (.tcp {}) =
      some (.ok [], .tcp {}, ⟨[[120]], false⟩) := rfl
  have h₄ : Step (Function.update c₂ .server none) (.read .client 16 (.ok []))
      (Function.update (Function.update c₂ .server none) .client (some ⟨.tcp {}, [[120]]⟩)) :=
    .read he hr
  exact ⟨_, _, _, .tail (.tail (.tail .refl h₁) h₂) h₃, rfl, h₄, rfl, rfl⟩

theorem end_of_stream {c₀ c c' : Conn} (hc : c₀ = tcpConnect ∨ c₀ = unixConnect) (tr : List Event)
    (h : Run Step c₀ tr c) (side : Side) (hw : ∀ n, Event.write side.peer [] (.ok n) ∉ tr)
    (len : ℕ) (hlen : 0 < len) (hs : Step c (.read side len (.ok [])) c') :
    c side.peer = none ∧ readAt side tr = writtenAt side.peer tr := by
  obtain ⟨he, hr⟩ := hs
  obtain ⟨hres, hq, hclosed⟩ := (read_outcome hr).eq_closed hlen (solidAt_of_run hc h hw _ he)
  refine ⟨Option.not_isSome_iff_eq_none.mp (Bool.not_eq_true _ ▸ hclosed), ?_⟩
  change End.queue _ = [] at hq
  rw [(delivered_of_run hc h side).here _ he, hres, hq]
  exact (List.append_nil _).symm

theorem oneByte_end_of_stream :
    ∃ tr c c', Run Step unixConnect tr c ∧ Step c (.read .client 16 (.ok [])) c' ∧
      c .server = none ∧ readAt .client tr = [120] ∧ readAt .client tr = writtenAt .server tr := by
  obtain ⟨c, h, hp, he⟩ := run_oneByte
  let c₁ : Conn := Function.update c .client (some ⟨.unix ⟨[120], 1⟩, []⟩)
  have hr : MockStream.read (c.receiver .client ⟨.unix {}, [[120]]⟩) 16 (.unix {}) =
      some (.ok [120], .unix ⟨[120], 1⟩, ⟨[], false⟩) := by
    rw [Conn.receiver, Side.peer, hp]
    rfl
  have h₁ : Run Step unixConnect (oneByte ++ [.read .client 16 (.ok [120])]) c₁ :=
    .tail h (.read he hr)
  have hp₁ : c₁ .server = none := hp
  have hr₁ : MockStream.read (c₁.receiver .client ⟨.unix ⟨[120], 1⟩, []⟩) 16 (.unix ⟨[120], 1⟩) =
      some (.ok [], .unix ⟨[120], 1⟩, ⟨[], false⟩) := by
    rw [Conn.receiver, Side.peer, hp₁]
    rfl
  have h₂ : Step c₁ (.read .client 16 (.ok [])) _ := .read (Function.update_self ..) hr₁
  obtain ⟨hgone, hall⟩ := end_of_stream (.inr rfl) _ h₁ .client (by simp [oneByte, Side.peer]) 16
    (by decide) h₂
  exact ⟨_, _, _, h₁, h₂, hgone, rfl, hall⟩

theorem empty_write_read_as_end :
    ∃ (c c' c'' : Conn), Run Step unixConnect [.write .server [] (.ok 0)] c ∧
      Step c (.read .client 16 (.ok [])) c' ∧ c .server ≠ none ∧
      Step c' (.write .server [120] (.ok 1)) c'' := by
  let c₁ := (unixConnect.write .server []).2
  have h₁ : Step unixConnect (.write .server [] (.ok 0)) c₁ := .write rfl
  have hr : MockStream.read ⟨[[]], true⟩ 16 (.unix {}) = some (.ok [], .unix {}, ⟨[], true⟩) := rfl
  have he : c₁ .client = some ⟨.unix {}, [[]]⟩ := rfl
  have h₂ : Step c₁ (.read .client 16 (.ok [])) (Function.update c₁ .client (some ⟨.unix {}, []⟩)) :=
    .read he hr
  have h₃ : Step (Function.update c₁ .client (some ⟨.unix {}, []⟩)) (.write .server [120] (.ok 1)) _ :=
    .write rfl
  refine ⟨_, _, _, .tail .refl h₁, h₂, ?_, h₃⟩
  rintro ⟨⟩

end Rustils.Mock
