import Mathlib.Data.List.Pairwise
import Mathlib.Logic.Function.Basic

namespace Rustils.Lib.Moves

variable {ι α : Type} [DecidableEq ι]

inductive Source (ι α : Type)
  | place (i : ι)
  | value (a : α)

structure Move (ι α : Type) where
  dst : ι
  src : Source ι α

def Source.eval (s : ι → α) : Source ι α → α
  | .place i => s i
  | .value a => a

def run : List (Move ι α) → (ι → α) → ι → α
  | [], s => s
  | m :: ms, s => run ms (Function.update s m.dst (m.src.eval s))

variable {ms : List (Move ι α)} {s t : ι → α} {i : ι}

theorem run_of_notMem (h : i ∉ ms.map Move.dst) : run ms s i = s i := by
  induction ms generalizing s with
  | nil => rfl
  | cons m ms ih =>
    rw [List.map_cons, List.mem_cons, not_or] at h
    rw [run, ih h.2, Function.update_of_ne h.1]

theorem run_place (hnodup : (ms.map Move.dst).Nodup) (hi : i ∉ ms.map Move.dst) {m : Move ι α} (hm : m ∈ ms)
    (hsrc : m.src = .place i) : run ms s m.dst = s i := by
  induction ms generalizing s with
  | nil => cases hm
  | cons n ms ih =>
    rw [List.map_cons, List.nodup_cons] at hnodup
    rw [List.map_cons, List.mem_cons, not_or] at hi
    rw [run]
    rcases List.mem_cons.mp hm with rfl | hm
    · rw [run_of_notMem hnodup.1, Function.update_self, hsrc]
      rfl
    · rw [ih hnodup.2 hi.2 hm, Function.update_of_ne hi.1]

theorem run_eq_eval_iff (hnodup : (ms.map Move.dst).Nodup) :
    (∀ m ∈ ms, run ms s m.dst = m.src.eval s) ↔
      ms.Pairwise fun m n => n.src = .place m.dst → m.src.eval s = s m.dst := by
  induction ms generalizing s with
  | nil => simp
  | cons m ms ih =>
    rw [List.map_cons, List.nodup_cons] at hnodup
    have hrun : run (m :: ms) s m.dst = m.src.eval s := by
      rw [run, run_of_notMem hnodup.1, Function.update_self]
    have hread (n : Move ι α) (hn : n ∈ ms) (hsrc : n.src = .place m.dst) :
        run (m :: ms) s n.dst = m.src.eval s := by
      rw [run, run_place hnodup.2 hnodup.1 hn hsrc, Function.update_self]
    have htail (hhead : ∀ n ∈ ms, n.src = .place m.dst → m.src.eval s = s m.dst) :
        (∀ n ∈ ms, run (m :: ms) s n.dst = n.src.eval s) ↔
          ms.Pairwise fun m n => n.src = .place m.dst → m.src.eval s = s m.dst := by
      have heval (n : Move ι α) (hn : n ∈ ms) :
          n.src.eval (Function.update s m.dst (m.src.eval s)) = n.src.eval s := by
        cases hsrc : n.src with
        | value a => rfl
        | place i =>
          by_cases hi : i = m.dst
          · subst hi
            rw [Source.eval, Source.eval, Function.update_self, hhead n hn hsrc]
          · exact Function.update_of_ne hi _ _
      have hdst (n : Move ι α) (hn : n ∈ ms) : n.dst ≠ m.dst := by
        intro h
        exact hnodup.1 (h ▸ List.mem_map_of_mem hn)
      calc (∀ n ∈ ms, run (m :: ms) s n.dst = n.src.eval s)
        _ ↔ ∀ n ∈ ms, run ms (Function.update s m.dst (m.src.eval s)) n.dst =
              n.src.eval (Function.update s m.dst (m.src.eval s)) :=
          forall₂_congr fun n hn => by rw [run, heval n hn]
        _ ↔ _ := ih hnodup.2
        _ ↔ _ := List.Pairwise.iff_of_mem fun {n k} hn hk => by
          rw [heval n hn, Function.update_of_ne (hdst n hn)]
    rw [List.pairwise_cons, List.forall_mem_cons]
    constructor
    · rintro ⟨-, h⟩
      have hhead : ∀ n ∈ ms, n.src = .place m.dst → m.src.eval s = s m.dst := by
        intro n hn hsrc
        rw [← hread n hn hsrc, h n hn, hsrc]
        rfl
      exact ⟨hhead, (htail hhead).mp h⟩
    · rintro ⟨hhead, h⟩
      exact ⟨hrun, (htail hhead).mpr h⟩

end Rustils.Lib.Moves
