import Mathlib.Data.Set.Basic
import Mathlib.Logic.Relation
import Rustils.Process.Ends

namespace Rustils.Process.Pipeline

open Platform Wiring

abbrev Pid := ℕ

inductive Node
  | outside (n : ℕ)
  | null
  | read (child : Pid) (slot : ℕ)
  | write (child : Pid) (slot : ℕ)
  deriving DecidableEq

def tag (child : Pid) : Obj Node → Node
  | .held o => o
  | .devNull _ _ => .null
  | .pipeRead slot => .read child slot
  | .pipeWrite slot => .write child slot

def Node.childEnd (child : Pid) (slot : ℕ) : Node := tag child (Wiring.childEnd slot)

def Node.parentEnd (child : Pid) (slot : ℕ) : Node := tag child (Wiring.parentEnd slot)

/-- A child counts together with whom it forks; what it was given by name is kept on record. -/
structure System where
  table : Table Node
  spawned : Pid
  holds : Pid → Set Node
  named : Pid → Set Node

def start (table : ℕ → Option (ℕ × Bool)) : System where
  table fd := (table fd).map fun e => ⟨.outside e.1, e.2⟩
  spawned := 0
  holds _ := ∅
  named _ := ∅

def System.withChild (σ : System) (p : Parent Node) (plan : Plan Node) (child : Table (Obj Node)) : System where
  table fd :=
    if fd ∈ plan.childEnds.map Prod.snd then none
    else (plan.table fd).map fun e => ⟨tag σ.spawned e.obj, e.cloexec⟩
  spawned := σ.spawned + 1
  holds := Function.update σ.holds σ.spawned {n | ∃ fd o, seen child fd = some o ∧ n = tag σ.spawned o}
  named := Function.update σ.named σ.spawned
    {n | ∃ slot fd e, p.stdio slot = .file (some fd) ∧ p.table fd = some e ∧ n = e.obj}

/-- Another file is opened with the flag or without; `try_clone` sets it. A child closes what it likes. -/
inductive Step (clears : Bool) (σ : System) : System → Prop
  | spawn {p : Parent Node} {plan : Plan Node} {child : Table (Obj Node)} (htable : p.table = σ.table)
    (hplan : fileActions p = .ok plan) (hact : actAll clears plan.actions plan.table = some child) :
    Step clears σ (σ.withChild p plan child)
  | openFile {fd : ℕ} (h : σ.table fd = none) (n : ℕ) (cloexec : Bool) :
    Step clears σ { σ with table := Function.update σ.table fd (some ⟨.outside n, cloexec⟩) }
  | tryClone {fd fd' : ℕ} {e : Entry Node} (h : σ.table fd = some e) (h' : σ.table fd' = none) :
    Step clears σ { σ with table := Function.update σ.table fd' (some ⟨e.obj, true⟩) }
  | close (fd : ℕ) : Step clears σ { σ with table := Function.update σ.table fd none }
  | letGo {pid : Pid} {rest : Set Node} (h : rest ⊆ σ.holds pid) :
    Step clears σ { σ with holds := Function.update σ.holds pid rest }

abbrev Reaches (clears : Bool) : System → System → Prop := Relation.ReflTransGen (Step clears)

def Own (σ : System) (e : Entry Node) : Prop :=
  (∃ n, e.obj = .outside n) ∨ e.cloexec = true ∧ ∃ pid < σ.spawned, ∃ slot : Fin 3, e.obj = .parentEnd pid slot

structure Confined (σ : System) : Prop where
  table : ∀ fd e, σ.table fd = some e → Own σ e
  unborn : ∀ pid, σ.spawned ≤ pid → σ.holds pid = ∅
  childEnds : ∀ q pid, ∀ slot : Fin 3, .childEnd pid slot ∈ σ.holds q → q = pid
  parentEnds : ∀ q pid, ∀ slot : Fin 3, .parentEnd pid slot ∈ σ.holds q → .parentEnd pid slot ∈ σ.named q

theorem childEnd_ne_parentEnd (pid pid' : Pid) (slot slot' : Fin 3) : Node.childEnd pid slot ≠ .parentEnd pid' slot' := by
  simp only [Node.childEnd, Node.parentEnd, Wiring.childEnd, Wiring.parentEnd]
  split_ifs with h h' <;> simp only [tag, ne_eq, reduceCtorEq, not_false_eq_true, Node.read.injEq, Node.write.injEq, not_and]
  · intro _ heq
    exact h' (heq ▸ h)
  · intro _ heq
    exact h (heq ▸ ‹slot'.val = 0›)

theorem childEnd_inj {pid pid' : Pid} {slot slot' : Fin 3} (h : Node.childEnd pid slot = .childEnd pid' slot') :
    pid = pid' := by
  simp only [Node.childEnd, Wiring.childEnd] at h
  split_ifs at h <;> injection h

theorem childEnd_ne (pid : Pid) (slot : Fin 3) : (∀ n, Node.childEnd pid slot ≠ .outside n) ∧ Node.childEnd pid slot ≠ .null := by
  simp only [Node.childEnd, Wiring.childEnd]
  split_ifs <;> simp [tag]

theorem parentEnd_ne (pid : Pid) (slot : Fin 3) : (∀ n, Node.parentEnd pid slot ≠ .outside n) ∧ Node.parentEnd pid slot ≠ .null := by
  simp only [Node.parentEnd, Wiring.parentEnd]
  split_ifs <;> simp [tag]

section Steps

variable {clears : Bool} {σ σ' : System} {p : Parent Node} {plan : Plan Node} {child : Table (Obj Node)}

theorem Own.mono {e : Entry Node} (h : Own σ e) (hle : σ.spawned ≤ σ'.spawned) : Own σ' e :=
  h.imp id fun ⟨hflag, pid, hpid, hend⟩ => ⟨hflag, pid, Nat.lt_of_lt_of_le hpid hle, hend⟩

theorem Own.ne_childEnd {e : Entry Node} (h : Own σ e) (pid : Pid) (slot : Fin 3) : e.obj ≠ .childEnd pid slot := by
  rcases h with ⟨n, h⟩ | ⟨_, pid', _, slot', h⟩
  · exact fun heq => (childEnd_ne pid slot).1 n (heq.symm.trans h)
  · exact fun heq => childEnd_ne_parentEnd pid pid' slot slot' (heq.symm.trans h)

theorem Own.outside {e : Entry Node} (h : Own σ e) (hflag : e.cloexec = false) : ∃ n, e.obj = .outside n := by
  rcases h with h | ⟨h, _⟩
  · exact h
  · cases hflag.symm.trans h

theorem Confined.spawn_table (h : Confined σ) (htable : p.table = σ.table) (hplan : fileActions p = .ok plan)
    (fd : ℕ) (e : Entry Node) (he : (σ.withChild p plan child).table fd = some e) : Own (σ.withChild p plan child) e := by
  have hdrawn := (fileActions_drawn hplan).1
  have hends := fileActions_ends hplan
  simp only [System.withChild] at he
  split_ifs at he with hlisted
  obtain ⟨e₀, he₀, rfl⟩ := Option.map_eq_some_iff.mp he
  by_cases hfree : p.table fd = none
  · obtain ⟨slot, hslot⟩ := (hends.fresh fd e₀ hfree he₀).resolve_right hlisted
    exact .inr ⟨hdrawn.fresh fd e₀ hfree he₀, σ.spawned, Nat.lt_succ_self _, slot, congrArg (tag σ.spawned) hslot⟩
  · obtain ⟨e₁, he₁⟩ := Option.ne_none_iff_exists'.mp hfree
    rw [hdrawn.kept fd hfree, held, he₁] at he₀
    cases he₀
    exact (h.table fd e₁ (htable ▸ he₁)).mono (Nat.le_succ _)

theorem Confined.spawn_holds (h : Confined σ) (htable : p.table = σ.table) (hplan : fileActions p = .ok plan)
    (hact : actAll clears plan.actions plan.table = some child) {n : Node}
    (hn : n ∈ (σ.withChild p plan child).holds σ.spawned) :
    n = .null ∨ (∃ m, n = .outside m) ∨ (∃ slot : Fin 3, n = .childEnd σ.spawned slot) ∨
      n ∈ (σ.withChild p plan child).named σ.spawned ∧ ∀ pid, ∀ slot : Fin 3, n ≠ .childEnd pid slot := by
  simp only [System.withChild, Function.update_self] at hn ⊢
  obtain ⟨fd, o, hseen, rfl⟩ := hn
  rcases child_seen hplan hact hseen with (⟨slot, write, rfl⟩ | ⟨slot, rfl⟩ | ⟨slot, fd', e, hspec, he, rfl⟩) | ⟨e, he, hflag, rfl⟩
  · exact .inl rfl
  · exact .inr (.inr (.inl ⟨slot, rfl⟩))
  · exact .inr (.inr (.inr ⟨⟨slot, fd', e, hspec, he, rfl⟩, (h.table fd' e (htable ▸ he)).ne_childEnd⟩))
  · exact .inr (.inl ((h.table fd e (htable ▸ he)).outside hflag))

theorem Confined.of_table (h : Confined σ) (t : Table Node) (ht : ∀ fd e, t fd = some e → Own σ e) :
    Confined { σ with table := t } :=
  ⟨ht, h.unborn, h.childEnds, h.parentEnds⟩

theorem table_update {t : Table Node} (ht : ∀ fd e, t fd = some e → Own σ e) {fd : ℕ} {o : Option (Entry Node)}
    (ho : ∀ e, o = some e → Own σ e) (fd' : ℕ) (e : Entry Node) (he : Function.update t fd o fd' = some e) : Own σ e := by
  by_cases hfd : fd' = fd
  · subst hfd
    exact ho e (by rwa [Function.update_self] at he)
  · exact ht fd' e (by rwa [Function.update_of_ne hfd] at he)

theorem Confined.step (h : Confined σ) (hs : Step clears σ σ') : Confined σ' := by
  cases hs with
  | @spawn p plan child htable hplan hact =>
    have hholds {q : Pid} (hq : q ≠ σ.spawned) : (σ.withChild p plan child).holds q = σ.holds q := Function.update_of_ne hq ..
    have hnamed {q : Pid} (hq : q ≠ σ.spawned) : (σ.withChild p plan child).named q = σ.named q := Function.update_of_ne hq ..
    refine ⟨h.spawn_table htable hplan, fun pid hpid => ?_, fun q pid slot hn => ?_, fun q pid slot hn => ?_⟩
    · rw [hholds (Nat.ne_of_gt hpid)]
      exact h.unborn pid (Nat.le_of_succ_le hpid)
    · by_cases hq : q = σ.spawned
      · subst hq
        rcases h.spawn_holds htable hplan hact hn with heq | ⟨m, heq⟩ | ⟨slot', heq⟩ | ⟨_, hne⟩
        · exact absurd heq (childEnd_ne pid slot).2
        · exact absurd heq ((childEnd_ne pid slot).1 m)
        · exact (childEnd_inj heq).symm
        · exact absurd rfl (hne pid slot)
      · rw [hholds hq] at hn
        exact h.childEnds q pid slot hn
    · by_cases hq : q = σ.spawned
      · subst hq
        rcases h.spawn_holds htable hplan hact hn with heq | ⟨m, heq⟩ | ⟨slot', heq⟩ | ⟨hmem, _⟩
        · exact absurd heq (parentEnd_ne pid slot).2
        · exact absurd heq ((parentEnd_ne pid slot).1 m)
        · exact absurd heq.symm (childEnd_ne_parentEnd _ _ slot' slot)
        · exact hmem
      · rw [hholds hq] at hn
        rw [hnamed hq]
        exact h.parentEnds q pid slot hn
  | openFile _ n cloexec => exact h.of_table _ (table_update h.table fun _ he => (by cases he; exact .inl ⟨n, rfl⟩))
  | @tryClone fd fd' e he _ =>
    refine h.of_table _ (table_update h.table fun _ he' => ?_)
    cases he'
    exact (h.table fd e he).imp id fun hend => ⟨rfl, hend.2⟩
  | close fd => exact h.of_table _ (table_update h.table fun _ he => nomatch he)
  | @letGo pid rest hsub =>
    have hless (q : Pid) : Function.update σ.holds pid rest q ⊆ σ.holds q := by
      by_cases hq : q = pid
      · subst hq
        rwa [Function.update_self]
      · rw [Function.update_of_ne hq]
    exact ⟨h.table, fun q hq => Set.subset_empty_iff.mp (h.unborn q hq ▸ hless q),
      fun q pid' slot hn => h.childEnds q pid' slot (hless q hn), fun q pid' slot hn => h.parentEnds q pid' slot (hless q hn)⟩

theorem confined_start (table : ℕ → Option (ℕ × Bool)) : Confined (start table) where
  table fd e he := by
    obtain ⟨e₀, _, rfl⟩ := Option.map_eq_some_iff.mp he
    exact .inl ⟨e₀.1, rfl⟩
  unborn _ _ := rfl
  childEnds _ _ _ hn := hn.elim
  parentEnds _ _ _ hn := hn.elim

theorem Confined.reaches (h : Confined σ) (hr : Reaches clears σ σ') : Confined σ' := by
  induction hr with
  | refl => exact h
  | tail _ hs ih => exact ih.step hs

def System.Unheld (σ : System) (n : Node) : Prop := (∀ fd e, σ.table fd = some e → e.obj ≠ n) ∧ ∀ q, n ∉ σ.holds q

theorem Step.holds (hs : Step clears σ σ') {q : Pid} (hq : q < σ.spawned) : σ'.holds q ⊆ σ.holds q ∧ q < σ'.spawned := by
  cases hs with
  | spawn => exact ⟨(Function.update_of_ne (Nat.ne_of_lt hq) ..).subset, Nat.lt_succ_of_lt hq⟩
  | openFile | tryClone | close => exact ⟨subset_rfl, hq⟩
  | @letGo pid rest hsub =>
    refine ⟨?_, hq⟩
    by_cases hpid : q = pid
    · subst hpid
      exact (Function.update_self ..).subset.trans hsub
    · exact (Function.update_of_ne hpid ..).subset

theorem holds_of_reaches (hr : Reaches clears σ σ') {q : Pid} (hq : q < σ.spawned) :
    σ'.holds q ⊆ σ.holds q ∧ q < σ'.spawned := by
  induction hr with
  | refl => exact ⟨subset_rfl, hq⟩
  | tail _ hs ih =>
    obtain ⟨hless, hlt⟩ := hs.holds ih.2
    exact ⟨hless.trans ih.1, hlt⟩

end Steps

theorem pipe_ends_held {clears : Bool} {table : ℕ → Option (ℕ × Bool)} {σ : System} (h : Reaches clears (start table) σ)
    (pid : Pid) (slot : Fin 3) :
    (∀ q, .childEnd pid slot ∈ σ.holds q → q = pid) ∧
      (∀ fd e, σ.table fd = some e → e.obj ≠ .childEnd pid slot) ∧
      (∀ q, .parentEnd pid slot ∈ σ.holds q → .parentEnd pid slot ∈ σ.named q) ∧
      (pid < σ.spawned → .childEnd pid slot ∉ σ.holds pid →
        ∀ σ', Reaches clears σ σ' → σ'.Unheld (.childEnd pid slot)) := by
  have hσ := (confined_start table).reaches h
  refine ⟨fun q => hσ.childEnds q pid slot, fun fd e he => (hσ.table fd e he).ne_childEnd pid slot,
    fun q => hσ.parentEnds q pid slot, fun hborn hgone σ' hr => ?_⟩
  have hσ' := hσ.reaches hr
  refine ⟨fun fd e he => (hσ'.table fd e he).ne_childEnd pid slot, fun q hq => ?_⟩
  cases hσ'.childEnds q pid slot hq
  exact hgone ((holds_of_reaches hr hborn).1 hq)

def terminal (fd : ℕ) : Option (ℕ × Bool) := if fd < 3 then some (0, false) else none

def producer : Parent Node where
  table := (start terminal).table
  limit := 64
  stdio := fun | 1 => .pipe | _ => .inherit
  files_open := by
    intro slot fd
    match slot with
    | 0 | 1 | 2 => simp

def produced : System := (start terminal).withChild producer
  ⟨Function.update (Function.update (held producer.table) 3 (some ⟨.pipeRead 1, true⟩)) 4 (some ⟨.pipeWrite 1, true⟩),
    [.dup2 4 1], [(1, 4)], [(1, 3)]⟩
  (Function.update (Function.update (Function.update (held producer.table) 3 (some ⟨.pipeRead 1, true⟩)) 4
    (some ⟨.pipeWrite 1, true⟩)) 1 (some ⟨.pipeWrite 1, false⟩))

def consumer : Parent Node where
  table := produced.table
  limit := 64
  stdio := fun | 0 => .file (some 3) | _ => .inherit
  files_open := by
    intro slot fd
    match slot with
    | 0 =>
      intro h
      cases h
      rfl
    | 1 | 2 => simp

def consumed : System := produced.withChild consumer ⟨held consumer.table, [.dup2 3 0], [], []⟩
  (Function.update (held consumer.table) 0 (some ⟨.held (.read 0 1), false⟩))

theorem pipe_ends_held_pipeline : ∃ σ, Reaches true (start terminal) σ ∧ .parentEnd 0 (1 : Fin 3) ∈ σ.named 1 ∧
    σ.Unheld (.childEnd 0 (1 : Fin 3)) := by
  have hproduced : Step true (start terminal) produced := .spawn rfl rfl rfl
  have hconsumed : Step true produced consumed := .spawn rfl rfl rfl
  have hgone : Step true consumed { consumed with holds := Function.update consumed.holds 0 ∅ } := .letGo (Set.empty_subset _)
  have hall := ((Relation.ReflTransGen.single hproduced).tail hconsumed).tail hgone
  refine ⟨_, hall, ?_, (pipe_ends_held hall 0 1).2.2.2 (by decide) (by simp) _ .refl⟩
  refine (pipe_ends_held hall 0 1).2.2.1 1 ?_
  exact ⟨0, .held (.read 0 1), rfl, rfl⟩

end Rustils.Process.Pipeline
