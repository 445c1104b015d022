import Mathlib.Data.List.Basic

namespace Rustils.Lib.Pieces

variable {α : Type}

structure Piece (α : Type) where
  start : ℕ
  data : List α

def Piece.put (p : Piece α) (i : ℕ) : Option α := if p.start ≤ i then p.data[i - p.start]? else none

def Piece.store (p : Piece α) (buf : List α) : List α :=
  buf.take p.start ++ p.data ++ buf.drop (p.start + p.data.length)

def stored (buf : List α) (ps : List (Piece α)) : List α := ps.foldl (fun buf p => p.store buf) buf

def Once (ps : List (Piece α)) (i : ℕ) (a : α) : Prop :=
  ∃ front p back, ps = front ++ p :: back ∧ p.put i = some a ∧ ∀ q ∈ front ++ back, q.put i = none

inductive Tiled : List (Piece α) → ℕ → Prop
  | nil : Tiled [] 0
  | snoc {ps : List (Piece α)} {n : ℕ} (h : Tiled ps n) (data : List α) : Tiled (ps ++ [⟨n, data⟩]) (n + data.length)

variable {ps : List (Piece α)} {n i : ℕ} {a : α} {buf data : List α}

theorem put_before (h : i < n) : (⟨n, data⟩ : Piece α).put i = none := if_neg (Nat.not_le.mpr h)

theorem put_behind (h : n + data.length ≤ i) : (⟨n, data⟩ : Piece α).put i = none := by
  simp only [Piece.put]
  split_ifs
  · apply List.getElem?_eq_none
    omega
  · rfl

theorem Tiled.put_behind (h : Tiled ps n) (hi : n ≤ i) : ∀ p ∈ ps, p.put i = none := by
  induction h with
  | nil => simp
  | snoc h data ih =>
    refine List.forall_mem_append.mpr ⟨ih (by omega), ?_⟩
    simpa using Pieces.put_behind hi

theorem Tiled.length (h : Tiled ps n) : (ps.flatMap Piece.data).length = n := by
  induction h with
  | nil => rfl
  | snoc h data ih => simpa using ih

theorem Tiled.stored (h : Tiled ps n) (hn : n ≤ buf.length) : stored buf ps = ps.flatMap Piece.data ++ buf.drop n := by
  induction h with
  | nil => rfl
  | @snoc ps n h data ih =>
    have hlen := h.length
    simp only [Pieces.stored] at ih
    rw [Pieces.stored, List.foldl_append, ih (by omega), List.foldl_cons, List.foldl_nil, Piece.store]
    simp [← hlen, List.drop_append, Nat.add_comm]

theorem Once.snoc (h : Once ps i a) (hi : i < n) : Once (ps ++ [⟨n, data⟩]) i a := by
  obtain ⟨front, p, back, rfl, hp, hother⟩ := h
  refine ⟨front, p, back ++ [⟨n, data⟩], by simp, hp, ?_⟩
  rw [← List.append_assoc]
  refine List.forall_mem_append.mpr ⟨hother, ?_⟩
  simpa using put_before hi

theorem Tiled.once (h : Tiled ps n) (hi : i < (ps.flatMap Piece.data).length) : Once ps i (ps.flatMap Piece.data)[i] := by
  induction h with
  | nil => cases hi
  | @snoc ps n h data ih =>
    have hlen := h.length
    by_cases hin : i < n
    · have hold := ih (by omega)
      simp only [List.flatMap_append, List.getElem_append_left (hlen.symm ▸ hin)]
      exact hold.snoc hin
    · refine ⟨ps, ⟨n, data⟩, [], rfl, ?_, ?_⟩
      · simp only [List.flatMap_append, List.flatMap_singleton, List.length_append, hlen] at hi
        simp only [Piece.put, Nat.not_lt.mp hin, if_true, List.flatMap_append, List.flatMap_singleton]
        rw [List.getElem_append_right (by omega), List.getElem?_eq_getElem (by omega)]
        simp [hlen]
      · simpa using h.put_behind (Nat.not_lt.mp hin)

end Rustils.Lib.Pieces
