import Rustils.Process.WaitAny
import Rustils.Process.WaitMany

namespace Rustils.Process

open Platform Lib Lib.Watch

structure Keeps (timeout : Option Duration) (now : ℕ) (panics : Prop) (reports : ℕ → Prop) : Prop where
  total : ¬ panics
  never_early : ∀ c, reports c → ∃ t, timeout = some t ∧ now + t.nanos ≤ c

namespace PollPids

open WaitAny (clockEnd)

def ENOSYS : Int32 := 38

def pidfdErr (code : Int32) : PlatformError :=
  if code = ENOSYS then .new .unsupported (.errno code) "pidfd_open" else errnoErr "pidfd_open" code

inductive Pc
  | opening (k : ℕ)
  | loop (deadline : Option ℕ)
  | call (deadline : Option ℕ) (ms : ℤ)
  | poll (deadline : Option ℕ) (ms : ℤ) (since : ℕ)
  | done (r : Result (Option ℕ))
  | panicked

def begin (timeout : Option Duration) (now : ℕ) : Pc :=
  match timeout with
  | none => .loop none
  | some t =>
    match t.after now clockEnd with
    | some d => .loop (some d)
    | none => .panicked

def timeoutMs (deadline : Option ℕ) (now : ℕ) : ℤ :=
  match deadline with
  | none => -1
  | some d => (min ((d - now) / 1000000) 0x7FFFFFFF : ℕ)

def position (revents : List Int16) : Result (Option ℕ) :=
  match revents.findIdx? (· != 0) with
  | some hit => .ok (some hit)
  | none => .error (.new .other .none "poll reported readiness but no pollfd shows revents")

/-- Any `pidfd_open` and any `poll` may fail, and `poll` returns `0` no sooner than asked. -/
inductive Step (pids : List Pid) (timeout : Option Duration) : ℕ → Pc → Pc → Prop
  | opened {c k : ℕ} (hk : k < pids.length) : Step pids timeout c (.opening k) (.opening (k + 1))
  | refused {c k : ℕ} (code : Int32) (hk : k < pids.length) :
    Step pids timeout c (.opening k) (.done (.error (pidfdErr code)))
  | begin {c : ℕ} : Step pids timeout c (.opening pids.length) (begin timeout c)
  | read {c : ℕ} {deadline : Option ℕ} : Step pids timeout c (.loop deadline) (.call deadline (timeoutMs deadline c))
  | enter {c : ℕ} {deadline : Option ℕ} {ms : ℤ} : Step pids timeout c (.call deadline ms) (.poll deadline ms c)
  | timedOut {c since : ℕ} {deadline : Option ℕ} {ms : ℤ} (hms : 0 ≤ ms) (h : since + ms.toNat * 1000000 ≤ c) :
    Step pids timeout c (.poll deadline ms since) (.done (.ok none))
  | ready {c since : ℕ} {deadline : Option ℕ} {ms : ℤ} (revents : List Int16) (h : revents.length = pids.length) :
    Step pids timeout c (.poll deadline ms since) (.done (position revents))
  | interrupted {c since : ℕ} {deadline : Option ℕ} {ms : ℤ} :
    Step pids timeout c (.poll deadline ms since) (.loop deadline)
  | failed {c since : ℕ} {deadline : Option ℕ} {ms : ℤ} (code : Int32) (h : code ≠ EINTR) :
    Step pids timeout c (.poll deadline ms since) (.done (.error (errnoErr "poll" code)))

structure Ticks (c c' : ℕ) : Prop where
  le : c ≤ c'
  lt : c' < clockEnd

def Kept (pids : List Pid) (timeout : Option Duration) (now : ℕ) : Prop :=
  Keeps timeout now (∃ n c, Run Ticks (Step pids timeout) now (.opening 0) n c .panicked)
    fun c => ∃ n, Run Ticks (Step pids timeout) now (.opening 0) n c (.done (.ok none))

variable {pids : List Pid} {timeout : Option Duration} {now : ℕ}

theorem opened_all {k : ℕ} (hk : k ≤ pids.length) :
    Run Ticks (Step pids timeout) now (.opening 0) k now (.opening k) := by
  induction k with
  | zero => exact .start
  | succ k ih => exact .step (ih (by omega)) (.opened hk)

theorem begun : Run Ticks (Step pids timeout) now (.opening 0) (pids.length + 1) now (begin timeout now) :=
  .step (opened_all (Nat.le_refl _)) .begin

theorem gives_up (pids : List Pid) {t : Duration} {late : ℕ} (hlate : late ≤ t.nanos) (hfits : now + t.nanos < clockEnd) :
    ∃ n, Run Ticks (Step pids (some t)) now (.opening 0) n
      (now + late + min ((t.nanos - late) / 1000000) 0x7FFFFFFF * 1000000) (.done (.ok none)) := by
  have hloop : begin (some t) now = .loop (some (now + t.nanos)) := by
    rw [begin, Duration.after_eq_some.mpr ⟨hfits, rfl⟩]
  have hms : timeoutMs (some (now + t.nanos)) (now + late) = (min ((t.nanos - late) / 1000000) 0x7FFFFFFF : ℕ) := by
    rw [timeoutMs, Nat.add_sub_add_left]
  have hrun : Run Ticks (Step pids (some t)) now (.opening 0) _ now (.loop (some (now + t.nanos))) := hloop ▸ begun
  have hlater : Ticks now (now + late) := ⟨by omega, by omega⟩
  have hpoll := (hrun.world hlater).step .read |>.step .enter
  rw [hms] at hpoll
  have hout : Ticks (now + late) (now + late + min ((t.nanos - late) / 1000000) 0x7FFFFFFF * 1000000) :=
    ⟨by omega, by omega⟩
  exact ⟨_, (hpoll.world hout).step (.timedOut (Int.natCast_nonneg _) (Nat.le_refl _))⟩

def Pc.Armed (timeout : Option Duration) : Pc → Prop
  | .loop deadline => deadline ≠ none → timeout ≠ none
  | .call deadline ms | .poll deadline ms _ => (deadline ≠ none → timeout ≠ none) ∧ (0 ≤ ms → timeout ≠ none)
  | .done (.ok none) => timeout ≠ none
  | .panicked => False
  | _ => True

theorem begin_armed (h : ∀ t, timeout = some t → now + t.nanos < clockEnd) : (begin timeout now).Armed timeout := by
  cases timeout with
  | none => exact fun hd => absurd rfl hd
  | some t =>
    rw [begin, Duration.after_eq_some.mpr ⟨h t rfl, rfl⟩]
    exact fun _ => nofun

theorem Pc.Armed.step {c : ℕ} {p p' : Pc} (h : p.Armed timeout) (hc : ∀ t, timeout = some t → c + t.nanos < clockEnd)
    (hs : Step pids timeout c p p') : p'.Armed timeout := by
  cases hs with
  | begin => exact begin_armed hc
  | @read deadline =>
    refine ⟨h, ?_⟩
    cases deadline with
    | none =>
      intro hms
      rw [timeoutMs] at hms
      omega
    | some d => exact fun _ => h nofun
  | enter => exact h
  | timedOut hms _ => exact h.2 hms
  | ready revents _ =>
    unfold position
    split <;> trivial
  | interrupted => exact h.1
  | _ => trivial

theorem armed_of_run {n c : ℕ} {p : Pc} (hnow : now < clockEnd) (hzero : ∀ t, timeout = some t → t.nanos = 0)
    (h : Run Ticks (Step pids timeout) now (.opening 0) n c p) : p.Armed timeout := by
  have hinv := h.invariant (I := fun c p => c < clockEnd ∧ p.Armed timeout) ⟨hnow, trivial⟩ ?_ ?_
  · exact hinv.2
  · rintro c c' p ⟨_, hp⟩ htick
    exact ⟨htick.lt, hp⟩
  · rintro c p p' ⟨hc, hp⟩ hs
    refine ⟨hc, hp.step ?_ hs⟩
    intro t ht
    rw [hzero t ht]
    exact hc

theorem keeps_iff (hnow : now < clockEnd) : Kept pids timeout now ↔ ∀ t, timeout = some t → t.nanos = 0 := by
  constructor
  · rintro ⟨htotal, hearly⟩ t rfl
    by_contra hpos
    by_cases hfits : now + t.nanos < clockEnd
    · -- a whole number of milliseconds is lost when the clock is read a nanosecond later
      have hlate : ∃ late ≤ t.nanos, late + (t.nanos - late) / 1000000 * 1000000 < t.nanos := by
        by_cases hwhole : t.nanos % 1000000 = 0
        · exact ⟨1, by omega, by omega⟩
        · exact ⟨0, by omega, by omega⟩
      obtain ⟨late, hle, hlt⟩ := hlate
      obtain ⟨n, hrun⟩ := gives_up pids hle hfits
      obtain ⟨t', ht', hpassed⟩ := hearly _ ⟨n, hrun⟩
      cases ht'
      omega
    · have hpanics : begin (some t) now = .panicked := by
        rw [begin, Duration.after_eq_none.mpr (Nat.not_lt.mp hfits)]
      exact htotal ⟨_, now, hpanics ▸ begun⟩
  · intro hzero
    constructor
    · rintro ⟨n, c, hrun⟩
      exact armed_of_run hnow hzero hrun
    · rintro c ⟨n, hrun⟩
      obtain ⟨t, ht⟩ := Option.ne_none_iff_exists'.mp (armed_of_run hnow hzero hrun)
      refine ⟨t, ht, ?_⟩
      rw [hzero t ht]
      exact hrun.le (f := id) fun _ _ htick => htick.le

end PollPids

namespace WaitMany

variable {H : Type}

def Kept (raw : List H) (timeout : Option Duration) (now : ℕ) : Prop :=
  Keeps timeout now
    (∃ faults ev m n w, Run Later (Step faults ev raw timeout) ⟨now, m⟩ (waitMany raw timeout now) n w .panicked)
    fun c => ∃ faults ev m n w,
      Run Later (Step faults ev raw timeout) ⟨now, m⟩ (waitMany raw timeout now) n w (.done (.ok none)) ∧ w.clock = c

/-- What a timeout has to be like: for a direct call a number of milliseconds that is not clamped, for the
sweeps no later than the clock can tell. -/
def Keepable (raw : List H) (now : ℕ) (t : Duration) : Prop :=
  if raw.length ≤ MAXIMUM_WAIT_OBJECTS then t.nanos % 1000000 = 0 ∧ t.asMillis < INFINITE.toNat
  else now + t.nanos < instantEnd

variable {faults : Bool} {ev : Evolution H} {raw : List H} {timeout : Option Duration} {now : ℕ}

def Pc.Timed (timeout : Option Duration) (now clock : ℕ) : Pc → Prop
  | .wait ms called => ms = directMs timeout ∧ now ≤ called.clock
  | .sweep deadline _ | .clock deadline | .sleep deadline _ =>
    ∀ d, deadline = some d → ∃ t, timeout = some t ∧ now + t.nanos = d
  | .done (.ok none) => ∃ t, timeout = some t ∧ now + t.nanos ≤ clock
  | .panicked => False
  | _ => True

theorem waitMany_timed (h : ∀ t, timeout = some t → Keepable raw now t) (clock : ℕ) :
    (waitMany raw timeout now).Timed timeout now clock := by
  unfold waitMany
  split
  · trivial
  · rename_i hlen
    cases timeout with
    | none => exact nofun
    | some t =>
      have hfits := h t rfl
      rw [Keepable, if_neg hlen] at hfits
      dsimp only
      rw [Duration.after_eq_some.mpr ⟨hfits, rfl⟩]
      rintro d ⟨⟩
      exact ⟨t, rfl, rfl⟩

theorem Pc.Timed.later {clock clock' : ℕ} {p : Pc} (h : p.Timed timeout now clock) (hle : clock ≤ clock') :
    p.Timed timeout now clock' := by
  cases p with
  | done r =>
    rcases r with e | _ | i
    · trivial
    · obtain ⟨t, ht, hc⟩ := h
      exact ⟨t, ht, Nat.le_trans hc hle⟩
    · trivial
  | _ => exact h

theorem Pc.Timed.step {w : World} {p p' : Pc} (hkeep : ∀ t, timeout = some t → Keepable raw now t)
    (hsmall : p.Small raw) (hnow : now ≤ w.clock) (h : p.Timed timeout now w.clock)
    (hs : Step faults ev raw timeout w p p') : p'.Timed timeout now w.clock := by
  cases hs with
  | call => exact ⟨rfl, hnow⟩
  | @answer called ms r code hr =>
    obtain ⟨i, _, ho⟩ | ⟨hms, hc, _, ho⟩ | ⟨_, e, ho⟩ := hr.outcome hsmall code
    · rw [ho]
      trivial
    · rw [ho]
      obtain ⟨rfl, hcalled⟩ := h
      cases timeout with
      | none => exact absurd rfl hms
      | some t =>
        have hwhole := hkeep t rfl
        have hlen : raw.length ≤ MAXIMUM_WAIT_OBJECTS := hsmall
        rw [Keepable, if_pos hlen, show INFINITE.toNat = 4294967295 by decide] at hwhole
        have heq := Duration.asMillis_mul_eq.mpr hwhole.1
        rw [directMs_toNat, Nat.min_eq_left (Nat.le_of_lt_succ hwhole.2), heq] at hc
        exact ⟨t, rfl, by omega⟩
    · rw [ho]
      trivial
  | test =>
    unfold tested
    split
    · trivial
    · exact h
    · trivial
  | swept => exact h
  | expired hd =>
    obtain ⟨t, ht, rfl⟩ := h _ rfl
    exact ⟨t, ht, hd⟩
  | tick => exact h
  | woke => exact h

theorem timed_of_run {w : World} {m n : ℕ} {p : Pc} (hkeep : ∀ t, timeout = some t → Keepable raw now t)
    (h : Run Later (Step faults ev raw timeout) ⟨now, m⟩ (waitMany raw timeout now) n w p) :
    p.Timed timeout now w.clock := by
  have hinv := h.invariant
    (I := fun w p => now ≤ w.clock ∧ p.Small raw ∧ p.Timed timeout now w.clock)
    ⟨Nat.le_refl _, small_waitMany _, waitMany_timed hkeep _⟩ ?_ ?_
  · exact hinv.2.2
  · rintro w w' p ⟨hle, hsmall, htimed⟩ hl
    exact ⟨Nat.le_trans hle hl.clock, hsmall, htimed.later hl.clock⟩
  · rintro w p p' ⟨hle, hsmall, htimed⟩ hs
    exact ⟨hle, hsmall.step hs, htimed.step hkeep hsmall hle hs⟩

theorem gives_up {t : Duration} (hlen : raw.length ≤ MAXIMUM_WAIT_OBJECTS) :
    ∃ n, Run Later (Step false (fun _ _ => false) raw (some t)) ⟨now, 0⟩ (waitMany raw (some t) now) n
      ⟨now + (directMs (some t)).toNat * 1000000, 0⟩ (.done (.ok none)) := by
  rw [waitMany, if_pos hlen]
  have htick : Later ⟨now, 0⟩ ⟨now + (directMs (some t)).toNat * 1000000, 0⟩ := ⟨Nat.le_add_right _ _, Nat.le_refl _⟩
  exact ⟨_, (.step (.world (.step .start .call) htick)
    (.answer 0 (.timedOut (directMs_ne t) (Nat.le_refl _) fun _ _ _ _ _ => rfl)))⟩

theorem keeps_iff : Kept raw timeout now ↔ ∀ t, timeout = some t → Keepable raw now t := by
  constructor
  · rintro ⟨htotal, hearly⟩ t rfl
    unfold Keepable
    split
    · rename_i hlen
      obtain ⟨n, hrun⟩ := gives_up (t := t) hlen
      obtain ⟨t', ht', hpassed⟩ := hearly _ ⟨_, _, _, n, _, hrun, rfl⟩
      cases ht'
      dsimp only at hpassed
      have hms := directMs_toNat t
      have hle := t.asMillis_mul_le
      have hend : INFINITE.toNat = 4294967295 := by decide
      exact ⟨Duration.asMillis_mul_eq.mp (by omega), by omega⟩
    · rename_i hlen
      by_contra hfits
      refine htotal ⟨false, fun _ _ => false, 0, 0, ⟨now, 0⟩, ?_⟩
      rw [waitMany, if_neg hlen, Duration.after_eq_none.mpr (Nat.not_lt.mp hfits)]
      exact .start
  · intro hkeep
    constructor
    · rintro ⟨faults, ev, m, n, w, hrun⟩
      exact timed_of_run hkeep hrun
    · rintro c ⟨faults, ev, m, n, w, hrun, rfl⟩
      exact timed_of_run hkeep hrun

end WaitMany

namespace Portable

inductive Pc
  | visit (i : ℕ)
  | clock
  | sleep (wake : ℕ)
  | done (r : Result (Option ℕ))
  | panicked

def waitAny (children : ℕ) : Pc := if children = 0 then .done (.error WaitAny.empty) else .visit 0

def TICK : ℕ := 10000000

/-- What the loop does with the time that has elapsed; `limit - elapsed` panics below zero. -/
def look (timeout : Option Duration) (elapsed now : ℕ) : Pc :=
  match timeout with
  | none => .sleep (now + TICK)
  | some limit =>
    if limit.nanos ≤ elapsed then .done (.ok none)
    else if elapsed ≤ limit.nanos then .sleep (now + min TICK (limit.nanos - elapsed))
    else .panicked

inductive Step (children : ℕ) (timeout : Option Duration) (start : ℕ) : ℕ → Pc → Pc → Prop
  | found {c i : ℕ} (h : i < children) : Step children timeout start c (.visit i) (.done (.ok (some i)))
  | running {c i : ℕ} (h : i < children) : Step children timeout start c (.visit i) (.visit (i + 1))
  | failed {c i : ℕ} (h : i < children) (e : PlatformError) :
    Step children timeout start c (.visit i) (.done (.error e))
  | visited {c : ℕ} : Step children timeout start c (.visit children) .clock
  | look {c : ℕ} : Step children timeout start c .clock (look timeout (c - start) c)
  | woke {c wake : ℕ} (h : wake ≤ c) : Step children timeout start c (.sleep wake) (.visit 0)

def Kept (children : ℕ) (timeout : Option Duration) (now : ℕ) : Prop :=
  Keeps timeout now (∃ n c, Run (· ≤ ·) (Step children timeout now) now (waitAny children) n c .panicked)
    fun c => ∃ n, Run (· ≤ ·) (Step children timeout now) now (waitAny children) n c (.done (.ok none))

def Pc.Timed (timeout : Option Duration) (start clock : ℕ) : Pc → Prop
  | .done (.ok none) => ∃ t, timeout = some t ∧ start + t.nanos ≤ clock
  | .panicked => False
  | _ => True

variable {children : ℕ} {timeout : Option Duration} {now : ℕ}

theorem look_timed {start c : ℕ} (h : start ≤ c) : (look timeout (c - start) c).Timed timeout start c := by
  unfold look
  split
  · trivial
  · rename_i limit
    split_ifs with hle hlt
    · exact ⟨limit, rfl, by omega⟩
    · trivial
    · exact hle (Nat.le_of_not_le hlt)

theorem Pc.Timed.later {start c c' : ℕ} {p : Pc} (h : p.Timed timeout start c) (hle : c ≤ c') :
    p.Timed timeout start c' := by
  cases p with
  | done r =>
    rcases r with e | _ | i
    · trivial
    · obtain ⟨t, ht, hpassed⟩ := h
      exact ⟨t, ht, Nat.le_trans hpassed hle⟩
    · trivial
  | _ => exact h

theorem Pc.Timed.step {start c : ℕ} {p p' : Pc} (h : start ≤ c) (hs : Step children timeout start c p p') :
    p'.Timed timeout start c := by
  cases hs with
  | look => exact look_timed h
  | _ => trivial

theorem timed_of_run {n c : ℕ} {p : Pc} (h : Run (· ≤ ·) (Step children timeout now) now (waitAny children) n c p) :
    p.Timed timeout now c := by
  have hstart : (waitAny children).Timed timeout now now := by
    unfold waitAny
    split <;> trivial
  have hinv := h.invariant (I := fun c p => now ≤ c ∧ p.Timed timeout now c) ⟨Nat.le_refl _, hstart⟩ ?_ ?_
  · exact hinv.2
  · rintro c c' p ⟨hc, hp⟩ hle
    exact ⟨Nat.le_trans hc hle, hp.later hle⟩
  · rintro c p p' ⟨hc, hp⟩ hs
    exact ⟨hc, .step hc hs⟩

theorem kept (children : ℕ) (timeout : Option Duration) (now : ℕ) : Kept children timeout now where
  total := fun ⟨_, _, hrun⟩ => timed_of_run hrun
  never_early := fun _ ⟨_, hrun⟩ => timed_of_run hrun

end Portable

open WaitAny (clockEnd)

theorem timeouts_kept_iff {H : Type} (pids : List Pid) (raw : List H) (children : ℕ) (timeout : Option Duration)
    (now : ℕ) (hnow : now < clockEnd) :
    (PollPids.Kept pids timeout now ↔ ∀ t, timeout = some t → t.nanos = 0) ∧
    (WaitMany.Kept raw timeout now ↔ ∀ t, timeout = some t → WaitMany.Keepable raw now t) ∧
    Portable.Kept children timeout now :=
  ⟨PollPids.keeps_iff hnow, WaitMany.keeps_iff, Portable.kept children timeout now⟩

theorem timeouts_kept_second : (0 : ℕ) < clockEnd ∧ WaitMany.Kept [()] (some ⟨1000000000, by decide⟩) 0 := by
  have hnow : 0 < clockEnd := by decide
  refine ⟨hnow, (timeouts_kept_iff [1] [()] 1 (some ⟨1000000000, by decide⟩) 0 hnow).2.1.mpr ?_⟩
  rintro t ⟨⟩
  rw [WaitMany.Keepable, if_pos (by decide)]
  decide

theorem timeouts_not_kept :
    ¬ PollPids.Kept [1] (some ⟨1500000, by decide⟩) 0 ∧
    ¬ PollPids.Kept [1] (some ⟨0x10000000000000000 * 1000000000 - 1, by decide⟩) 0 ∧
    ¬ WaitMany.Kept [()] (some ⟨1500000, by decide⟩) 0 := by
  have hnow : 0 < clockEnd := by decide
  refine ⟨?_, ?_, ?_⟩
  · rw [PollPids.keeps_iff hnow]
    intro h
    cases h _ rfl
  · rw [PollPids.keeps_iff hnow]
    intro h
    exact absurd (h _ rfl) (by decide)
  · rw [WaitMany.keeps_iff]
    intro h
    have hkeep := h _ rfl
    rw [WaitMany.Keepable, if_pos (by decide)] at hkeep
    exact absurd hkeep.1 (by decide)

end Rustils.Process
