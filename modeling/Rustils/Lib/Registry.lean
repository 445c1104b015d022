import Mathlib.Data.Nat.Notation
import Mathlib.Logic.Function.Basic
import Rustils.Lib.Trace

namespace Rustils.Lib.Registry

open Lib.Trace

abbrev Chan := ℕ

variable {K M : Type}

structure Table (K M : Type) where
  map : K → Option Chan
  owners : Chan → Option K
  queues : Chan → Option (List M)
  next : Chan

def Table.empty : Table K M := ⟨fun _ => none, fun _ => none, fun _ => none, 0⟩

namespace Table

def send (t : Table K M) (c : Chan) (m : M) : Bool × Table K M :=
  match t.queues c with
  | some q => (true, { t with queues := Function.update t.queues c (some (q ++ [m])) })
  | none => (false, t)

def setQueue (t : Table K M) (c : Chan) (q : Option (List M)) : Table K M :=
  { t with queues := Function.update t.queues c q }

theorem setQueue_queues_ne (t : Table K M) {c c' : Chan} (q : Option (List M)) (h : c' ≠ c) :
    (t.setQueue c q).queues c' = t.queues c' := Function.update_of_ne h _ _

variable [DecidableEq K]

def register (t : Table K M) (a : K) : Option Chan × Table K M :=
  match t.map a with
  | some _ => (none, t)
  | none =>
    (some t.next,
      { map := Function.update t.map a (some t.next)
        owners := Function.update t.owners t.next (some a)
        queues := Function.update t.queues t.next (some [])
        next := t.next + 1 })

def unregister (t : Table K M) (a : K) (c : Chan) : Table K M :=
  { t with map := Function.update t.map a none, owners := Function.update t.owners c none }

theorem unregister_map_ne (t : Table K M) {a b : K} (c : Chan) (h : b ≠ a) :
    (t.unregister a c).map b = t.map b := Function.update_of_ne h _ _

end Table

inductive Act (K M : Type)
  | register (a : K) (r : Option Chan)
  | send (c : Chan) (m : M) (ok : Bool)
  | recv (c : Chan) (m : M)
  | unregister (a : K) (c : Chan)
  | close (c : Chan)

inductive Step [DecidableEq K] (t : Table K M) : Act K M → Table K M → Prop
  | register (a : K) : Step t (.register a (t.register a).1) (t.register a).2
  | send (c : Chan) (m : M) : Step t (.send c m (t.send c m).1) (t.send c m).2
  | recv {c : Chan} {m : M} {rest : List M} (hq : t.queues c = some (m :: rest)) :
      Step t (.recv c m) (t.setQueue c (some rest))
  | unregister {a : K} {c : Chan} (ho : t.owners c = some a) :
      Step t (.unregister a c) (t.unregister a c)
  | close {c : Chan} (ho : t.owners c = none) : Step t (.close c) (t.setQueue c none)

def Act.sent? (c : Chan) : Act K M → Option M
  | .send c' m true => if c' = c then some m else none
  | _ => none

def Act.received? (c : Chan) : Act K M → Option M
  | .recv c' m => if c' = c then some m else none
  | _ => none

def sent (c : Chan) (acts : List (Act K M)) : List M := acts.filterMap (Act.sent? c)

def received (c : Chan) (acts : List (Act K M)) : List M := acts.filterMap (Act.received? c)

def Live (acts : List (Act K M)) (a : K) (c : Chan) : Prop :=
  .register a (some c) ∈ acts ∧ .unregister a c ∉ acts

variable {acts : List (Act K M)} {e : Act K M} {t t' : Table K M} {a : K} {c : Chan}

theorem sent_concat : sent c (acts ++ [e]) = sent c acts ++ (e.sent? c).toList := by
  rw [sent, List.filterMap_append]
  cases h : e.sent? c <;> simp [h, sent]

theorem received_concat : received c (acts ++ [e]) = received c acts ++ (e.received? c).toList := by
  rw [received, List.filterMap_append]
  cases h : e.received? c <;> simp [h, received]

structure Owned (acts : List (Act K M)) (t : Table K M) : Prop where
  map : ∀ a c, t.map a = some c ↔ t.owners c = some a
  live : ∀ a c, t.owners c = some a ↔ Live acts a c
  born : ∀ a c, .register a (some c) ∈ acts → c < t.next
  once : ∀ a c, .unregister a c ∈ acts → .register a (some c) ∈ acts
  same : ∀ a a' c, .register a (some c) ∈ acts → .register a' (some c) ∈ acts → a = a'

def Intact (sent received : List M) : Option (List M) → Prop
  | some q => sent = received ++ q
  | none => received <+: sent

structure Delivered (acts : List (Act K M)) (t : Table K M) : Prop where
  channel : ∀ c, Intact (sent c acts) (received c acts) (t.queues c)
  unborn : ∀ c, t.next ≤ c → t.queues c = none ∧ sent c acts = []

theorem Owned.quiet (h : Owned acts t) (hm : t'.map = t.map) (ho : t'.owners = t.owners)
    (hn : t'.next = t.next) (hr : ∀ a c, e ≠ .register a (some c)) (hu : ∀ a c, e ≠ .unregister a c) :
    Owned (acts ++ [e]) t' := by
  have hreg : ∀ a c, Act.register a (some c) ∈ acts ++ [e] ↔ .register a (some c) ∈ acts := by
    intro a c
    simp [(hr a c).symm]
  have hunreg : ∀ a c, Act.unregister a c ∈ acts ++ [e] ↔ .unregister a c ∈ acts := by
    intro a c
    simp [(hu a c).symm]
  constructor
  · rw [hm, ho]
    exact h.map
  · intro a c
    rw [ho, h.live, Live, Live, hreg, hunreg]
  · intro a c
    rw [hn, hreg]
    exact h.born a c
  · intro a c
    rw [hreg, hunreg]
    exact h.once a c
  · intro a a' c
    rw [hreg, hreg]
    exact h.same a a' c

theorem Owned.gone (h : Owned acts t) (hu : .unregister a c ∈ acts) : t.owners c = none := by
  cases ho : t.owners c with
  | none => rfl
  | some b =>
    obtain ⟨hr, hn⟩ := (h.live b c).mp ho
    cases h.same a b c (h.once a c hu) hr
    exact absurd hu hn

theorem Owned.unique {c' : Chan} (h : Owned acts t) (hc : t.owners c = some a)
    (hc' : t.owners c' = some a) : c = c' := by
  have hm := ((h.map a c).mpr hc).symm.trans ((h.map a c').mpr hc')
  cases hm
  rfl

theorem Intact.keep {s r : List M} {q : Option (List M)} (h : Intact s r q) :
    Intact (s ++ (none : Option M).toList) (r ++ (none : Option M).toList) q := by
  simpa using h

theorem Intact.fifo {s r : List M} {q : Option (List M)} (h : Intact s r q) : r <+: s := by
  cases q with
  | none => exact h
  | some q => exact ⟨q, h.symm⟩

theorem Delivered.extend (h : Delivered acts t)
    (hc : ∀ c, Intact (sent c acts ++ (e.sent? c).toList) (received c acts ++ (e.received? c).toList)
      (t'.queues c))
    (hu : ∀ c, t'.next ≤ c → t.next ≤ c ∧ t'.queues c = t.queues c ∧ e.sent? c = none) :
    Delivered (acts ++ [e]) t' := by
  constructor
  · intro c
    rw [sent_concat, received_concat]
    exact hc c
  · intro c hn
    obtain ⟨hn, hq, he⟩ := hu c hn
    rw [hq, sent_concat, he, (h.unborn c hn).2]
    exact ⟨(h.unborn c hn).1, rfl⟩

theorem Delivered.send (h : Delivered acts t) (c : Chan) (m : M) :
    Delivered (acts ++ [.send c m (t.send c m).1]) (t.send c m).2 := by
  unfold Table.send
  cases hq : t.queues c with
  | none => exact h.extend (fun c => (h.channel c).keep) fun c hc => ⟨hc, rfl, rfl⟩
  | some q =>
    apply h.extend
    · intro c'
      have hi := h.channel c'
      by_cases hc : c' = c
      · subst hc
        rw [hq] at hi
        have hs : sent c' acts = received c' acts ++ q := hi
        simp [Intact, Act.sent?, Act.received?, hs]
      · simp only [Function.update_of_ne hc, Act.sent?, if_neg (Ne.symm hc)]
        exact hi.keep
    · intro c' hc'
      have hne : c' ≠ c := by
        rintro rfl
        rw [(h.unborn c' hc').1] at hq
        cases hq
      exact ⟨hc', Function.update_of_ne hne _ _, if_neg (Ne.symm hne)⟩

theorem Delivered.recv {m : M} {rest : List M} (h : Delivered acts t)
    (hq : t.queues c = some (m :: rest)) :
    Delivered (acts ++ [.recv c m]) (t.setQueue c (some rest)) := by
  apply h.extend
  · intro c'
    have hi := h.channel c'
    by_cases hc : c' = c
    · subst hc
      rw [hq] at hi
      simpa [Intact, Act.sent?, Act.received?, Table.setQueue] using hi
    · simp only [t.setQueue_queues_ne _ hc, Act.received?, if_neg (Ne.symm hc)]
      exact hi.keep
  · intro c' hc'
    have hne : c' ≠ c := by
      rintro rfl
      rw [(h.unborn c' hc').1] at hq
      cases hq
    exact ⟨hc', t.setQueue_queues_ne _ hne, rfl⟩

theorem Delivered.close (h : Delivered acts t) (c : Chan) :
    Delivered (acts ++ [.close c]) (t.setQueue c none) := by
  apply h.extend
  · intro c'
    have hi := h.channel c'
    by_cases hc : c' = c
    · simp only [Table.setQueue, hc, Function.update_self]
      exact Intact.keep (h.channel c).fifo
    · rw [t.setQueue_queues_ne _ hc]
      exact hi.keep
  · intro c' hc'
    refine ⟨hc', ?_, rfl⟩
    by_cases hc : c' = c
    · simp only [Table.setQueue, hc, Function.update_self]
      rw [← hc, (h.unborn c' hc').1]
    · exact t.setQueue_queues_ne _ hc

section Steps

variable [DecidableEq K]

theorem Owned.register (h : Owned acts t) (a : K) :
    Owned (acts ++ [.register a (t.register a).1]) (t.register a).2 := by
  unfold Table.register
  cases ha : t.map a with
  | some c =>
    dsimp only
    apply h.quiet rfl rfl rfl
    · rintro a c ⟨⟩
    · rintro a c ⟨⟩
  | none =>
    have hfresh : ∀ b, Act.register b (some t.next) ∉ acts := by
      intro b hb
      exact absurd (h.born b t.next hb) (Nat.lt_irrefl _)
    have hgone : ∀ b, Act.unregister b t.next ∉ acts := by
      intro b hb
      exact hfresh b (h.once b t.next hb)
    have hown : ∀ b, t.owners t.next ≠ some b := by
      intro b hb
      exact hfresh b ((h.live b t.next).mp hb).1
    constructor
    · intro b c
      have hold := h.map b c
      by_cases hb : b = a <;> by_cases hc : c = t.next
      · simp [hb, hc]
      · rw [hb, ha] at hold
        simpa [hb, hc, Ne.symm hc] using hold
      · rw [hc] at hold
        simpa [hb, hc, Ne.symm hb, hown b] using hold
      · simpa [hb, hc] using hold
    · intro b c
      have hold := h.live b c
      simp only [Live, List.mem_append, List.mem_singleton, Act.register.injEq, Option.some.injEq,
        reduceCtorEq, or_false] at hold ⊢
      by_cases hc : c = t.next
      · simp [hc, hfresh b, hgone b, eq_comm]
      · simpa [hc] using hold
    · intro b c hb
      rcases List.mem_append.mp hb with hb | hb
      · exact Nat.lt_succ_of_lt (h.born b c hb)
      · cases List.mem_singleton.mp hb
        exact Nat.lt_succ_self _
    · intro b c hb
      rcases List.mem_append.mp hb with hb | hb
      · exact List.mem_append_left _ (h.once b c hb)
      · cases List.mem_singleton.mp hb
    · intro b b' c hb hb'
      rcases List.mem_append.mp hb with hb | hb <;> rcases List.mem_append.mp hb' with hb' | hb'
      · exact h.same b b' c hb hb'
      · cases List.mem_singleton.mp hb'
        exact absurd hb (hfresh b)
      · cases List.mem_singleton.mp hb
        exact absurd hb' (hfresh b')
      · cases List.mem_singleton.mp hb
        cases List.mem_singleton.mp hb'
        rfl

theorem Owned.unregister (h : Owned acts t) (ho : t.owners c = some a) :
    Owned (acts ++ [.unregister a c]) (t.unregister a c) := by
  unfold Table.unregister
  constructor
  · intro b c'
    have hold := h.map b c'
    by_cases hb : b = a <;> by_cases hc : c' = c
    · simp [hb, hc]
    · -- the address had no other owner
      subst hb
      have hne : t.owners c' ≠ some b := by
        intro hc'
        exact hc (h.unique hc' ho)
      simp [hc, hne]
    · rw [hc, ho] at hold
      simpa [hb, hc, Ne.symm hb] using hold
    · simpa [hb, hc] using hold
  · intro b c'
    have hold := h.live b c'
    simp only [Live, List.mem_append, List.mem_singleton, Act.unregister.injEq,
      reduceCtorEq, or_false, not_or] at hold ⊢
    by_cases hc : c' = c
    · have hb : Act.register b (some c) ∈ acts ∧ Act.unregister b c ∉ acts → b = a := by
        intro hl
        have hb' := (h.live b c).mpr hl
        rw [ho] at hb'
        cases hb'
        rfl
      simp only [hc, Function.update_self, reduceCtorEq, and_true, false_iff]
      rintro ⟨hr, hu, hne⟩
      exact hne (hb ⟨hr, hu⟩)
    · simpa [hc] using hold
  · intro b c' hb
    rcases List.mem_append.mp hb with hb | hb
    · exact h.born b c' hb
    · cases List.mem_singleton.mp hb
  · intro b c' hb
    rcases List.mem_append.mp hb with hb | hb
    · exact List.mem_append_left _ (h.once b c' hb)
    · cases List.mem_singleton.mp hb
      exact List.mem_append_left _ ((h.live a c).mp ho).1
  · intro b b' c' hb hb'
    rw [List.mem_append, List.mem_singleton, or_iff_left (by simp)] at hb hb'
    exact h.same b b' c' hb hb'

theorem Owned.step (h : Owned acts t) (hs : Step t e t') : Owned (acts ++ [e]) t' := by
  cases hs with
  | register a => exact h.register a
  | send c m =>
    unfold Table.send
    cases hq : t.queues c <;> refine h.quiet rfl rfl rfl ?_ ?_ <;> rintro a c ⟨⟩
  | recv hq => refine h.quiet rfl rfl rfl ?_ ?_ <;> rintro a c ⟨⟩
  | unregister ho => exact h.unregister ho
  | close ho => refine h.quiet rfl rfl rfl ?_ ?_ <;> rintro a c ⟨⟩

theorem Delivered.register (h : Delivered acts t) (a : K) :
    Delivered (acts ++ [.register a (t.register a).1]) (t.register a).2 := by
  unfold Table.register
  cases ha : t.map a with
  | some c => exact h.extend (fun c => (h.channel c).keep) fun c hc => ⟨hc, rfl, rfl⟩
  | none =>
    apply h.extend
    · intro c
      by_cases hc : c = t.next
      · -- nothing was sent before the channel was made
        obtain ⟨hq, hs⟩ := h.unborn t.next (Nat.le_refl _)
        have hi := h.channel t.next
        rw [hq, hs] at hi
        subst hc
        rw [hs]
        simpa [Intact, Act.sent?, Act.received?] using hi
      · simp only [Function.update_of_ne hc]
        exact (h.channel c).keep
    · intro c hc
      have hne : c ≠ t.next := by
        rintro rfl
        exact absurd hc (Nat.not_succ_le_self _)
      exact ⟨Nat.le_of_succ_le hc, Function.update_of_ne hne _ _, rfl⟩

theorem Delivered.step (h : Delivered acts t) (hs : Step t e t') : Delivered (acts ++ [e]) t' := by
  cases hs with
  | register a => exact h.register a
  | send c m => exact h.send c m
  | recv hq => exact h.recv hq
  | unregister ho => exact h.extend (fun c => (h.channel c).keep) fun c hc => ⟨hc, rfl, rfl⟩
  | close _ => exact h.close _

theorem owned_of_run (h : Run Step Table.empty acts t) : Owned acts t := by
  induction h with
  | refl =>
    refine ⟨?_, ?_, ?_, ?_, ?_⟩
    · intro a c
      exact ⟨nofun, nofun⟩
    · intro a c
      refine ⟨nofun, ?_⟩
      rintro ⟨⟨⟩, -⟩
    · rintro a c ⟨⟩
    · rintro a c ⟨⟩
    · rintro a a' c ⟨⟩
  | tail _ hs ih => exact ih.step hs

theorem delivered_of_run (h : Run Step Table.empty acts t) : Delivered acts t := by
  induction h with
  | refl => exact ⟨fun _ => List.nil_prefix, fun _ _ => ⟨rfl, rfl⟩⟩
  | tail _ hs ih => exact ih.step hs

theorem open_of_run (h : Run Step Table.empty acts t) (ho : t.owners c ≠ none) :
    t.queues c ≠ none := by
  induction h with
  | refl => exact absurd rfl ho
  | @tail acts t t' e hr hs ih =>
    cases hs with
    | register a =>
      unfold Table.register at ho ⊢
      cases ha : t.map a with
      | some _ =>
        simp only [ha] at ho ⊢
        exact ih ho
      | none =>
        simp only [ha] at ho ⊢
        by_cases hc : c = t.next
        · simp [hc]
        · rw [Function.update_of_ne hc] at ho ⊢
          exact ih ho
    | send c' m =>
      unfold Table.send at ho ⊢
      cases hq : t.queues c' with
      | none =>
        simp only [hq] at ho ⊢
        exact ih ho
      | some q =>
        simp only [hq] at ho ⊢
        by_cases hc : c = c'
        · simp [hc]
        · rw [Function.update_of_ne hc]
          exact ih ho
    | @recv c' m rest hq =>
      by_cases hc : c = c'
      · simp [Table.setQueue, hc]
      · rw [t.setQueue_queues_ne _ hc]
        exact ih ho
    | @unregister a c' ho' =>
      apply ih
      rintro hn
      by_cases hc : c = c'
      · rw [hc, ho'] at hn
        cases hn
      · simp only [Table.unregister, Function.update_of_ne hc] at ho
        exact ho hn
    | @close c' ho' =>
      have hc : c ≠ c' := by
        rintro rfl
        exact ho ho'
      rw [t.setQueue_queues_ne _ hc]
      exact ih ho

theorem Step.shut (hs : Step t e t') (hc : c < t.next) (hq : t.queues c = none) : c < t'.next ∧ t'.queues c = none := by
  cases hs with
  | register a =>
    unfold Table.register
    cases t.map a with
    | some c' => exact ⟨hc, hq⟩
    | none => exact ⟨Nat.lt_succ_of_lt hc, (Function.update_of_ne (Nat.ne_of_lt hc) _ _).trans hq⟩
  | send c' m =>
    unfold Table.send
    cases hq' : t.queues c' with
    | none => exact ⟨hc, hq⟩
    | some q =>
      have hne : c ≠ c' := by
        rintro rfl
        cases hq.symm.trans hq'
      exact ⟨hc, (Function.update_of_ne hne _ _).trans hq⟩
  | @recv c' m rest hq' =>
    have hne : c ≠ c' := by
      rintro rfl
      cases hq.symm.trans hq'
    exact ⟨hc, (t.setQueue_queues_ne _ hne).trans hq⟩
  | unregister ho => exact ⟨hc, hq⟩
  | @close c' ho =>
    refine ⟨hc, ?_⟩
    by_cases hne : c = c'
    · subst hne
      exact Function.update_self ..
    · exact (t.setQueue_queues_ne _ hne).trans hq

theorem shut_of_run (h : Run Step t acts t') (hc : c < t.next) (hq : t.queues c = none) :
    c < t'.next ∧ t'.queues c = none := by
  induction h with
  | refl => exact ⟨hc, hq⟩
  | tail _ hs ih => exact hs.shut ih.1 ih.2

end Steps

end Rustils.Lib.Registry
