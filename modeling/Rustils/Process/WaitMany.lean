import Rustils.Lib.Duration
import Rustils.Lib.Watch
import Rustils.Platform.Errmap

namespace Rustils.Process.WaitMany

open Platform Lib Lib.Watch
open Platform.Errmap (lastWin32Err)

variable {H : Type}

def MAXIMUM_WAIT_OBJECTS : ℕ := 64
def INFINITE : UInt32 := 0xFFFFFFFF
def WAIT_OBJECT_0 : UInt32 := 0
def WAIT_TIMEOUT : UInt32 := 258

/-- In nanoseconds: an `Instant` of this backend is a `Duration`. -/
def instantEnd : ℕ := 0x10000000000000000 * 1000000000

abbrev Evolution (H : Type) := ℕ → H → Bool

structure World where
  clock : ℕ
  moment : ℕ

structure Later (w w' : World) : Prop where
  clock : w.clock ≤ w'.clock
  moment : w.moment ≤ w'.moment

/-- What `WaitForMultipleObjects` may return in `w` when it was called in `called`. It fails only where
`faults` lets it. -/
inductive Returns (faults : Bool) (ev : Evolution H) (chunk : List H) (ms : UInt32) (called w : World) :
    UInt32 → Prop
  | signaled {i : ℕ} (h : chunk.findIdx? (ev w.moment) = some i) :
    Returns faults ev chunk ms called w (WAIT_OBJECT_0 + UInt32.ofNat i)
  | timedOut (hms : ms ≠ INFINITE) (hc : called.clock + ms.toNat * 1000000 ≤ w.clock)
    (h : ∀ m, called.moment ≤ m → m ≤ w.moment → ∀ x ∈ chunk, ev m x = false) :
    Returns faults ev chunk ms called w WAIT_TIMEOUT
  | failed {r : UInt32} (hf : faults = true) (ht : r ≠ WAIT_TIMEOUT)
    (hr : chunk.length ≤ (r - WAIT_OBJECT_0).toNat) : Returns faults ev chunk ms called w r

/-- `code` is what `GetLastError` says. -/
def waitChunk (len : ℕ) (r code : UInt32) : Result (Option ℕ) :=
  if r = WAIT_TIMEOUT then .ok none
  else
    let idx := (r - WAIT_OBJECT_0).toNat
    if idx < len then .ok (some idx) else .error (lastWin32Err "WaitForMultipleObjects" [] code)

def directMs : Option Duration → UInt32
  | none => INFINITE
  | some t => UInt32.ofNat (min t.asMillis (INFINITE - 1).toNat)

def chunk (raw : List H) (k : ℕ) : List H := (raw.drop (k * MAXIMUM_WAIT_OBJECTS)).take MAXIMUM_WAIT_OBJECTS

inductive Pc
  | direct
  | wait (ms : UInt32) (called : World)
  | sweep (deadline : Option ℕ) (k : ℕ)
  | clock (deadline : Option ℕ)
  | sleep (deadline : Option ℕ) (wake : ℕ)
  | done (r : Result (Option ℕ))
  | panicked

def waitMany (raw : List H) (timeout : Option Duration) (now : ℕ) : Pc :=
  if raw.length ≤ MAXIMUM_WAIT_OBJECTS then .direct
  else
    match timeout with
    | none => .sweep none 0
    | some t =>
      match t.after now instantEnd with
      | some d => .sweep (some d) 0
      | none => .panicked

def tested (deadline : Option ℕ) (k : ℕ) : Result (Option ℕ) → Pc
  | .ok (some hit) => .done (.ok (some (k * MAXIMUM_WAIT_OBJECTS + hit)))
  | .ok none => .sweep deadline (k + 1)
  | .error e => .done (.error e)

inductive Step (faults : Bool) (ev : Evolution H) (raw : List H) (timeout : Option Duration) : World → Pc → Pc → Prop
  | call {w : World} : Step faults ev raw timeout w .direct (.wait (directMs timeout) w)
  | answer {w called : World} {ms r : UInt32} (code : UInt32) (h : Returns faults ev raw ms called w r) :
    Step faults ev raw timeout w (.wait ms called) (.done (waitChunk raw.length r code))
  | test {w : World} {deadline : Option ℕ} {k : ℕ} {r : UInt32} (code : UInt32)
    (hk : k * MAXIMUM_WAIT_OBJECTS < raw.length) (h : Returns faults ev (chunk raw k) 0 w w r) :
    Step faults ev raw timeout w (.sweep deadline k) (tested deadline k (waitChunk (chunk raw k).length r code))
  | swept {w : World} {deadline : Option ℕ} {k : ℕ} (hk : raw.length ≤ k * MAXIMUM_WAIT_OBJECTS) :
    Step faults ev raw timeout w (.sweep deadline k) (.clock deadline)
  | expired {w : World} {d : ℕ} (h : d ≤ w.clock) : Step faults ev raw timeout w (.clock (some d)) (.done (.ok none))
  | tick {w : World} {deadline : Option ℕ} (h : ∀ d, deadline = some d → w.clock < d) :
    Step faults ev raw timeout w (.clock deadline) (.sleep deadline (w.clock + 10000000))
  | woke {w : World} {deadline : Option ℕ} {wake : ℕ} (h : wake ≤ w.clock) :
    Step faults ev raw timeout w (.sleep deadline wake) (.sweep deadline 0)

def Pc.testing : Pc → Option ℕ
  | .wait _ _ => some 0
  | .sweep _ k => some k
  | _ => none

variable {faults : Bool} {ev : Evolution H} {raw : List H} {timeout : Option Duration}

theorem findIdx_get {l : List H} {p : H → Bool} {i : ℕ} (h : l.findIdx? p = some i) :
    ∃ x, l[i]? = some x ∧ p x = true := by
  obtain ⟨hi, hp, _⟩ := List.findIdx?_eq_some_iff_getElem.mp h
  exact ⟨l[i], List.getElem?_eq_getElem hi, hp⟩

theorem findIdx_lt {l : List H} {p : H → Bool} {i : ℕ} (h : l.findIdx? p = some i) : i < l.length :=
  (List.findIdx?_eq_some_iff_findIdx_eq.mp h).1

theorem length_chunk_le (raw : List H) (k : ℕ) : (chunk raw k).length ≤ MAXIMUM_WAIT_OBJECTS :=
  List.length_take_le _ _

theorem chunk_zero (h : raw.length ≤ MAXIMUM_WAIT_OBJECTS) : chunk raw 0 = raw := by
  rw [chunk, Nat.zero_mul, List.drop_zero, List.take_of_length_le h]

theorem chunk_get {k i : ℕ} (h : i < MAXIMUM_WAIT_OBJECTS) : (chunk raw k)[i]? = raw[k * MAXIMUM_WAIT_OBJECTS + i]? := by
  rw [chunk, List.getElem?_take_of_lt h, List.getElem?_drop]

theorem waitChunk_signaled {len i : ℕ} (h : i < len) (hlen : len ≤ MAXIMUM_WAIT_OBJECTS) (code : UInt32) :
    waitChunk len (WAIT_OBJECT_0 + UInt32.ofNat i) code = .ok (some i) := by
  have hi : i < 64 := Nat.lt_of_lt_of_le h hlen
  have hnat : (WAIT_OBJECT_0 + UInt32.ofNat i).toNat = i := by
    rw [WAIT_OBJECT_0, UInt32.zero_add]
    exact UInt32.toNat_ofNat_of_lt' (by rw [UInt32.size]; omega)
  have hne : WAIT_OBJECT_0 + UInt32.ofNat i ≠ WAIT_TIMEOUT := by
    intro he
    rw [he] at hnat
    have : WAIT_TIMEOUT.toNat = 258 := rfl
    omega
  rw [waitChunk, if_neg hne]
  rw [WAIT_OBJECT_0, UInt32.zero_add] at hnat
  simp only [WAIT_OBJECT_0, UInt32.zero_add, UInt32.sub_zero, hnat, if_pos h]

theorem Returns.outcome {chunk : List H} {ms r : UInt32} {called w : World} (h : Returns faults ev chunk ms called w r)
    (hlen : chunk.length ≤ MAXIMUM_WAIT_OBJECTS) (code : UInt32) :
    (∃ i, chunk.findIdx? (ev w.moment) = some i ∧ waitChunk chunk.length r code = .ok (some i)) ∨
    (ms ≠ INFINITE ∧ called.clock + ms.toNat * 1000000 ≤ w.clock ∧
      (∀ m, called.moment ≤ m → m ≤ w.moment → ∀ x ∈ chunk, ev m x = false) ∧
      waitChunk chunk.length r code = .ok none) ∨
    (faults = true ∧ ∃ e, waitChunk chunk.length r code = .error e) := by
  cases h with
  | signaled h => exact .inl ⟨_, h, waitChunk_signaled (findIdx_lt h) hlen code⟩
  | timedOut hms hc h => exact .inr (.inl ⟨hms, hc, h, if_pos rfl⟩)
  | failed hf ht hr =>
    refine .inr (.inr ⟨hf, lastWin32Err "WaitForMultipleObjects" [] code, ?_⟩)
    rw [waitChunk, if_neg ht]
    exact if_neg (Nat.not_lt.mpr hr)

def Pc.Small (raw : List H) : Pc → Prop
  | .direct | .wait _ _ => raw.length ≤ MAXIMUM_WAIT_OBJECTS
  | _ => True

theorem small_waitMany (now : ℕ) : (waitMany raw timeout now).Small raw := by
  unfold waitMany
  split
  · assumption
  · split
    · trivial
    · split <;> trivial

theorem Pc.Small.step {w : World} {p p' : Pc} (h : p.Small raw) (hs : Step faults ev raw timeout w p p') :
    p'.Small raw := by
  cases hs with
  | call => exact h
  | test =>
    unfold tested
    split <;> trivial
  | _ => trivial

theorem Run.small {w₀ w : World} {p₀ p : Pc} {n : ℕ} (h : Run Later (Step faults ev raw timeout) w₀ p₀ n w p)
    (h₀ : p₀.Small raw) : p.Small raw := by
  apply h.invariant (I := fun _ p => p.Small raw) h₀
  · intro w w' p hp hw
    exact hp
  · intro w p p' hp hs
    exact hp.step hs

theorem testing_signaled {w : World} {p : Pc} {i : ℕ} (hp : p.Small raw)
    (h : Step faults ev raw timeout w p (.done (.ok (some i)))) :
    p.testing = some (i / MAXIMUM_WAIT_OBJECTS) ∧ ∃ x, raw[i]? = some x ∧ ev w.moment x = true := by
  generalize hq : Pc.done (.ok (some i)) = q at h
  cases h with
  | answer code h =>
    obtain ⟨j, hj, hr⟩ | ⟨_, _, _, hr⟩ | ⟨_, e, hr⟩ := h.outcome hp code
    · rw [hr] at hq
      cases hq
      have hlt : i < MAXIMUM_WAIT_OBJECTS := Nat.lt_of_lt_of_le (findIdx_lt hj) hp
      rw [Nat.div_eq_of_lt hlt]
      exact ⟨rfl, findIdx_get hj⟩
    · rw [hr] at hq
      cases hq
    · rw [hr] at hq
      cases hq
  | @test deadline k r code hk h =>
    obtain ⟨j, hj, hr⟩ | ⟨_, _, _, hr⟩ | ⟨_, e, hr⟩ := h.outcome (length_chunk_le raw k) code
    · rw [hr] at hq
      cases hq
      have hlt : j < MAXIMUM_WAIT_OBJECTS := Nat.lt_of_lt_of_le (findIdx_lt hj) (length_chunk_le raw k)
      obtain ⟨x, hx, hev⟩ := findIdx_get hj
      rw [chunk_get hlt] at hx
      refine ⟨?_, x, hx, hev⟩
      rw [Nat.mul_comm, Nat.mul_add_div (by decide), Nat.div_eq_of_lt hlt]
      rfl
    · rw [hr] at hq
      cases hq
    · rw [hr] at hq
      cases hq
  | _ => cases hq

theorem sweep_step {w : World} {deadline : Option ℕ} {k j : ℕ} {x : H} {p' : Pc} (hx : raw[j]? = some x)
    (hev : ev w.moment x = true) (hk : k * MAXIMUM_WAIT_OBJECTS ≤ j)
    (h : Step false ev raw timeout w (.sweep deadline k) p') :
    (p' = .sweep deadline (k + 1) ∧ (k + 1) * MAXIMUM_WAIT_OBJECTS ≤ j) ∨ ∃ i, p' = .done (.ok (some i)) := by
  have hj : j < raw.length := (List.getElem?_eq_some_iff.mp hx).1
  cases h with
  | test code _ h =>
    obtain ⟨i, hi, hr⟩ | ⟨_, _, hnone, hr⟩ | ⟨hf, _⟩ := h.outcome (length_chunk_le raw k) code
    · rw [hr]
      exact .inr ⟨_, rfl⟩
    · rw [hr]
      refine .inl ⟨rfl, ?_⟩
      by_contra hlt
      -- then the chunk holds `x`, and the test had found it
      rw [Nat.add_mul, Nat.one_mul, Nat.not_le] at hlt
      have hget : (chunk raw k)[j - k * MAXIMUM_WAIT_OBJECTS]? = some x := by
        rw [chunk_get (by omega), Nat.add_sub_cancel' hk, hx]
      have hfalse := hnone w.moment (Nat.le_refl _) (Nat.le_refl _) x (List.mem_of_getElem? hget)
      rw [hev] at hfalse
      cases hfalse
    · cases hf
  | swept hk' => omega

theorem test_enabled (w : World) (deadline : Option ℕ) {k : ℕ} (hk : k * MAXIMUM_WAIT_OBJECTS < raw.length) :
    ∃ p', Step faults ev raw timeout w (.sweep deadline k) p' := by
  cases hf : (chunk raw k).findIdx? (ev w.moment) with
  | some i => exact ⟨_, .test 0 hk (.signaled hf)⟩
  | none =>
    refine ⟨_, .test 0 hk (.timedOut (by decide) (Nat.le_refl _) ?_)⟩
    intro m hm hm' x hx
    cases Nat.le_antisymm hm hm'
    exact List.findIdx?_eq_none_iff.mp hf x hx

theorem sweep_finds {w₀ w : World} {deadline : Option ℕ} {n j : ℕ} {x : H} {p : Pc} (hx : raw[j]? = some x)
    (h : Run Later (Step false ev raw timeout) w₀ (.sweep deadline 0) n w p)
    (hev : ∀ m, w₀.moment ≤ m → m ≤ w.moment → ev m x = true) :
    (p = .sweep deadline n ∧ n * MAXIMUM_WAIT_OBJECTS ≤ j) ∨ ∃ i, p = .done (.ok (some i)) := by
  induction h with
  | start => exact .inl ⟨rfl, by omega⟩
  | world h hw ih => exact ih fun m hm hm' => hev m hm (Nat.le_trans hm' hw.moment)
  | @step n w p p' h hs ih =>
    obtain ⟨rfl, hn⟩ | ⟨i, rfl⟩ := ih hev
    · exact sweep_step hx (hev w.moment (h.le fun _ _ hl => hl.moment) (Nat.le_refl _)) hn hs
    · cases hs

theorem directMs_toNat (t : Duration) : (directMs (some t)).toNat = min t.asMillis 4294967294 := by
  rw [directMs, show (INFINITE - 1).toNat = 4294967294 by decide]
  apply UInt32.toNat_ofNat_of_lt'
  rw [UInt32.size]
  omega

theorem directMs_ne (t : Duration) : directMs (some t) ≠ INFINITE := by
  intro h
  have hnat := directMs_toNat t
  rw [h, show INFINITE.toNat = 4294967295 by decide] at hnat
  omega

def Admits (faults : Bool) (ev : Evolution H) (raw : List H) (timeout : Option Duration) (w : World) (p : Pc)
    (r : Option ℕ) : Prop :=
  ∃ n w', Run Later (Step faults ev raw timeout) w p n w' (.done (.ok r))

def Quiet (ev : Evolution H) (raw : List H) (since : ℕ) : Prop := ∃ m, since ≤ m ∧ ∀ x ∈ raw, ev m x = false

def Offers (ev : Evolution H) (raw : List H) (timeout : Option Duration) (since : ℕ) : Option ℕ → Prop
  | some i => ∃ m, since ≤ m ∧ raw.findIdx? (ev m) = some i
  | none => timeout ≠ none ∧ Quiet ev raw since

def Pc.Fair (ev : Evolution H) (raw : List H) (timeout : Option Duration) (since now : ℕ) : Pc → Prop
  | .wait ms called => ms = directMs timeout ∧ since ≤ called.moment ∧ called.moment ≤ now
  | .sweep deadline k => (deadline ≠ none → timeout ≠ none) ∧ (k = 0 ∨ Quiet ev raw since)
  | .clock deadline => (deadline ≠ none → timeout ≠ none) ∧ Quiet ev raw since
  | .sleep deadline _ => deadline ≠ none → timeout ≠ none
  | .done (.ok r) => Offers ev raw timeout since r
  | _ => True

theorem Pc.Fair.later {since now now' : ℕ} {p : Pc} (h : p.Fair ev raw timeout since now) (hle : now ≤ now') :
    p.Fair ev raw timeout since now' := by
  cases p with
  | wait ms called => exact ⟨h.1, h.2.1, Nat.le_trans h.2.2 hle⟩
  | done r => cases r <;> exact h
  | _ => exact h

theorem Pc.Fair.step {since : ℕ} {w : World} {p p' : Pc} (hlen : raw.length ≤ MAXIMUM_WAIT_OBJECTS)
    (h : p.Fair ev raw timeout since w.moment) (hw : since ≤ w.moment) (hs : Step faults ev raw timeout w p p') :
    p'.Fair ev raw timeout since w.moment := by
  cases hs with
  | call => exact ⟨rfl, hw, Nat.le_refl _⟩
  | @answer called ms r code hr =>
    obtain ⟨i, hi, ho⟩ | ⟨hms, _, hnone, ho⟩ | ⟨_, e, ho⟩ := hr.outcome hlen code
    · rw [ho]
      exact ⟨w.moment, hw, hi⟩
    · rw [ho]
      refine ⟨?_, called.moment, h.2.1, hnone _ (Nat.le_refl _) h.2.2⟩
      rintro rfl
      exact hms h.1
    · rw [ho]
      trivial
  | @test deadline k r code hk hr =>
    have hzero : k = 0 := by
      by_contra hne
      have : MAXIMUM_WAIT_OBJECTS ≤ k * MAXIMUM_WAIT_OBJECTS := Nat.le_mul_of_pos_left _ (Nat.pos_of_ne_zero hne)
      omega
    subst hzero
    rw [chunk_zero hlen] at hr ⊢
    obtain ⟨i, hi, ho⟩ | ⟨_, _, hnone, ho⟩ | ⟨_, e, ho⟩ := hr.outcome hlen code
    · rw [ho, tested, Nat.zero_mul, Nat.zero_add]
      exact ⟨w.moment, hw, hi⟩
    · rw [ho]
      exact ⟨h.1, .inr ⟨w.moment, hw, hnone _ (Nat.le_refl _) (Nat.le_refl _)⟩⟩
    · rw [ho]
      trivial
  | @swept deadline k hk =>
    refine ⟨h.1, ?_⟩
    rcases h.2 with rfl | hquiet
    · rw [Nat.zero_mul, Nat.le_zero, List.length_eq_zero_iff] at hk
      subst hk
      exact ⟨w.moment, hw, nofun⟩
    · exact hquiet
  | expired _ => exact ⟨h.1 nofun, h.2⟩
  | tick _ => exact h.1
  | woke _ => exact ⟨h, .inl rfl⟩

theorem offers_of_admits {w : World} {p : Pc} {r : Option ℕ} (hlen : raw.length ≤ MAXIMUM_WAIT_OBJECTS)
    (hp : p.Fair ev raw timeout w.moment w.moment) (h : Admits faults ev raw timeout w p r) :
    Offers ev raw timeout w.moment r := by
  obtain ⟨n, w', hrun⟩ := h
  have hinv := hrun.invariant (I := fun v p => w.moment ≤ v.moment ∧ p.Fair ev raw timeout w.moment v.moment)
    ⟨Nat.le_refl _, hp⟩ ?_ ?_
  · exact hinv.2
  · rintro v v' p ⟨hv, hfair⟩ hl
    exact ⟨Nat.le_trans hv hl.moment, hfair.later hl.moment⟩
  · rintro v p p' ⟨hv, hfair⟩ hs
    exact ⟨hv, hfair.step hlen hv hs⟩

theorem direct_admits {w : World} {r : Option ℕ} (hlen : raw.length ≤ MAXIMUM_WAIT_OBJECTS)
    (h : Offers ev raw timeout w.moment r) : Admits faults ev raw timeout w .direct r := by
  cases r with
  | some i =>
    obtain ⟨m, hm, hi⟩ := h
    have hs : Step faults ev raw timeout ⟨w.clock, m⟩ (.wait (directMs timeout) ⟨w.clock, m⟩) (.done (.ok (some i))) := by
      rw [← waitChunk_signaled (findIdx_lt hi) hlen 0]
      exact .answer 0 (.signaled hi)
    have hlater : Later w ⟨w.clock, m⟩ := ⟨Nat.le_refl _, hm⟩
    exact ⟨_, _, .step (.step (.world .start hlater) .call) hs⟩
  | none =>
    obtain ⟨ht, m, hm, hquiet⟩ := h
    obtain ⟨t, rfl⟩ := Option.ne_none_iff_exists'.mp ht
    -- the call is made at the quiet moment, and the clock alone goes on until it times out
    let ms := directMs (some t)
    have hret : Returns faults ev raw ms ⟨w.clock, m⟩ ⟨w.clock + ms.toNat * 1000000, m⟩ WAIT_TIMEOUT := by
      refine .timedOut (directMs_ne t) (Nat.le_refl _) ?_
      intro m' hm₁ hm₂
      cases Nat.le_antisymm hm₁ hm₂
      exact hquiet
    have hlater : Later w ⟨w.clock, m⟩ := ⟨Nat.le_refl _, hm⟩
    have htick : Later ⟨w.clock, m⟩ ⟨w.clock + ms.toNat * 1000000, m⟩ := ⟨Nat.le_add_right _ _, Nat.le_refl _⟩
    exact ⟨_, _, .step (.world (.step (.world .start hlater) .call) htick) (.answer 0 hret)⟩

theorem sweep_admits {w : World} {deadline : Option ℕ} {r : Option ℕ} (hlen : raw.length ≤ MAXIMUM_WAIT_OBJECTS)
    (hd : timeout ≠ none → deadline ≠ none) (h : Offers ev raw timeout w.moment r) :
    Admits faults ev raw timeout w (.sweep deadline 0) r := by
  cases r with
  | some i =>
    obtain ⟨m, hm, hi⟩ := h
    have hpos : 0 * MAXIMUM_WAIT_OBJECTS < raw.length := by
      have := findIdx_lt hi
      omega
    have hs : Step faults ev raw timeout ⟨w.clock, m⟩ (.sweep deadline 0) (.done (.ok (some i))) := by
      have hret : Returns faults ev (chunk raw 0) 0 ⟨w.clock, m⟩ ⟨w.clock, m⟩ (WAIT_OBJECT_0 + UInt32.ofNat i) := by
        apply Returns.signaled
        rw [chunk_zero hlen]
        exact hi
      have hstep : Step faults ev raw timeout _ (.sweep deadline 0) _ := .test 0 hpos hret
      rwa [chunk_zero hlen, waitChunk_signaled (findIdx_lt hi) hlen, tested, Nat.zero_mul, Nat.zero_add] at hstep
    have hlater : Later w ⟨w.clock, m⟩ := ⟨Nat.le_refl _, hm⟩
    exact ⟨_, _, .step (.world .start hlater) hs⟩
  | none =>
    obtain ⟨ht, m, hm, hquiet⟩ := h
    obtain ⟨d, rfl⟩ := Option.ne_none_iff_exists'.mp (hd ht)
    obtain ⟨n, hrun⟩ : ∃ n, Run Later (Step faults ev raw timeout) w (.sweep (some d) 0) n ⟨w.clock, m⟩ (.clock (some d)) := by
      have hstart : Run Later (Step faults ev raw timeout) w (.sweep (some d) 0) 0 ⟨w.clock, m⟩ (.sweep (some d) 0) :=
        .world .start ⟨Nat.le_refl _, hm⟩
      by_cases hpos : 0 * MAXIMUM_WAIT_OBJECTS < raw.length
      · have hstep : Step faults ev raw timeout ⟨w.clock, m⟩ (.sweep (some d) 0) (.sweep (some d) 1) := by
          refine .test 0 hpos (.timedOut (by decide) (Nat.le_refl _) ?_)
          intro m' hm₁ hm₂
          cases Nat.le_antisymm hm₁ hm₂
          rw [chunk_zero hlen]
          exact hquiet
        exact ⟨_, .step (.step hstart hstep) (.swept (by omega))⟩
      · exact ⟨_, .step hstart (.swept (Nat.not_lt.mp hpos))⟩
    have htick : Later ⟨w.clock, m⟩ ⟨max w.clock d, m⟩ := ⟨Nat.le_max_left _ _, Nat.le_refl _⟩
    exact ⟨_, _, .step (.world hrun htick) (.expired (Nat.le_max_right _ _))⟩

theorem sweep_admits_iff {w : World} {deadline r : Option ℕ} (hlen : raw.length ≤ MAXIMUM_WAIT_OBJECTS)
    (hd : deadline ≠ none ↔ timeout ≠ none) :
    Admits faults ev raw timeout w (.sweep deadline 0) r ↔ Offers ev raw timeout w.moment r :=
  ⟨offers_of_admits hlen ⟨hd.mp, .inl rfl⟩, sweep_admits hlen hd.mpr⟩

theorem direct_admits_iff {w : World} {r : Option ℕ} (hlen : raw.length ≤ MAXIMUM_WAIT_OBJECTS) :
    Admits faults ev raw timeout w .direct r ↔ Offers ev raw timeout w.moment r :=
  ⟨offers_of_admits hlen trivial, direct_admits hlen⟩

theorem waitMany_ne_done (now : ℕ) (r : Result (Option ℕ)) : .done r ≠ waitMany raw timeout now := by
  unfold waitMany
  split
  · nofun
  · split
    · nofun
    · split <;> nofun

theorem waitMany_direct (h : raw.length ≤ MAXIMUM_WAIT_OBJECTS) (now : ℕ) : waitMany raw timeout now = .direct := if_pos h

theorem waitMany_sweep (h : MAXIMUM_WAIT_OBJECTS < raw.length) (now : ℕ) :
    (∃ deadline, (deadline ≠ none ↔ timeout ≠ none) ∧ waitMany raw timeout now = .sweep deadline 0) ∨
      ∃ t, timeout = some t ∧ t.after now instantEnd = none ∧ waitMany raw timeout now = .panicked := by
  have hlen : ¬raw.length ≤ MAXIMUM_WAIT_OBJECTS := Nat.not_le.mpr h
  cases timeout with
  | none => exact .inl ⟨none, by simp, if_neg hlen⟩
  | some t =>
    cases hd : t.after now instantEnd with
    | none => exact .inr ⟨t, rfl, hd, by simp only [waitMany, if_neg hlen, hd]⟩
    | some d => exact .inl ⟨some d, by simp, by simp only [waitMany, if_neg hlen, hd]⟩

theorem chunks_agree (ev : Evolution H) (raw : List H) (timeout : Option Duration) :
    (∀ now, (raw.length ≤ MAXIMUM_WAIT_OBJECTS → waitMany raw timeout now = .direct) ∧
      (MAXIMUM_WAIT_OBJECTS < raw.length →
        (∃ deadline, (deadline ≠ none ↔ timeout ≠ none) ∧ waitMany raw timeout now = .sweep deadline 0) ∨
          ∃ t, timeout = some t ∧ t.after now instantEnd = none ∧ waitMany raw timeout now = .panicked)) ∧
    (∀ faults w₀ n w i,
      Run Later (Step faults ev raw timeout) w₀ (waitMany raw timeout w₀.clock) n w (.done (.ok (some i))) →
      ∃ m u p, Run Later (Step faults ev raw timeout) w₀ (waitMany raw timeout w₀.clock) m u p ∧
        Step faults ev raw timeout u p (.done (.ok (some i))) ∧ u.moment ≤ w.moment ∧
        p.testing = some (i / MAXIMUM_WAIT_OBJECTS) ∧ ∃ x, raw[i]? = some x ∧ ev u.moment x = true) ∧
    (∀ w₀ deadline n w p j x, raw[j]? = some x →
      Run Later (Step false ev raw timeout) w₀ (.sweep deadline 0) n w p →
      (∀ m, w₀.moment ≤ m → m ≤ w.moment → ev m x = true) →
      (p = .sweep deadline n ∧ n ≤ j / MAXIMUM_WAIT_OBJECTS ∧ ∃ p', Step false ev raw timeout w p p') ∨
        ∃ i, p = .done (.ok (some i))) ∧
    (raw.length ≤ MAXIMUM_WAIT_OBJECTS → ∀ faults w deadline r, (deadline ≠ none ↔ timeout ≠ none) →
      (Admits faults ev raw timeout w (.sweep deadline 0) r ↔ Admits faults ev raw timeout w .direct r)) := by
  refine ⟨fun now => ⟨fun h => waitMany_direct h now, fun h => waitMany_sweep h now⟩, ?_, ?_, ?_⟩
  · intro faults w₀ n w i h
    obtain ⟨m, u, p, hrun, hs, hlast⟩ := h.arrival (waitMany_ne_done _ _)
    have hmoment : u.moment ≤ w.moment := hlast.le fun _ _ hl => hl.moment
    exact ⟨m, u, p, hrun, hs, hmoment, testing_signaled (Run.small hrun (small_waitMany _)) hs⟩
  · intro w₀ deadline n w p j x hx h hev
    have hj : j < raw.length := (List.getElem?_eq_some_iff.mp hx).1
    obtain ⟨rfl, hn⟩ | hdone := sweep_finds hx h hev
    · exact .inl ⟨rfl, (Nat.le_div_iff_mul_le (by decide)).mpr hn, test_enabled w deadline (by omega)⟩
    · exact .inr hdone
  · intro hlen faults w deadline r hd
    rw [sweep_admits_iff hlen hd, direct_admits_iff hlen]

def seventy : List ℕ := List.range 70

def sixtyFifth : Evolution ℕ := fun _ x => x == 65

theorem chunks_agree_second : ∃ n u p, Run Later (Step false sixtyFifth seventy none) ⟨0, 0⟩ (waitMany seventy none 0) n u p ∧
    Step false sixtyFifth seventy none u p (.done (.ok (some 65))) ∧ p.testing = some 1 := by
  have hfirst : Step false sixtyFifth seventy none ⟨0, 0⟩ (.sweep none 0) (.sweep none 1) := by
    refine .test 0 (show 0 * MAXIMUM_WAIT_OBJECTS < seventy.length by decide) (.timedOut (by decide) (Nat.le_refl _) ?_)
    intro m _ _
    change ∀ x ∈ chunk seventy 0, (x == 65) = false
    decide
  have hsignaled : Returns false sixtyFifth (chunk seventy 1) 0 ⟨0, 0⟩ ⟨0, 0⟩ (WAIT_OBJECT_0 + UInt32.ofNat 1) :=
    .signaled rfl
  have hsecond : Step false sixtyFifth seventy none ⟨0, 0⟩ (.sweep none 1) (.done (.ok (some 65))) :=
    .test 0 (show 1 * MAXIMUM_WAIT_OBJECTS < seventy.length by decide) hsignaled
  obtain ⟨n, u, p, hrun, hs, _, htesting, _⟩ := (chunks_agree sixtyFifth seventy none).2.1 false ⟨0, 0⟩ 2 ⟨0, 0⟩ 65
    (.step (.step .start hfirst) hsecond)
  exact ⟨n, u, p, hrun, hs, htesting⟩

end Rustils.Process.WaitMany
