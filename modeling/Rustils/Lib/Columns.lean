import Mathlib.Data.List.MinMax
import Mathlib.Order.Nat

namespace Rustils.Lib.Columns

variable {α : Type}

def toRight (fill : α) (width : ℕ) (cell : List α) : List α := List.replicate (width - cell.length) fill ++ cell

def toLeft (fill : α) (width : ℕ) (cell : List α) : List α := cell ++ List.replicate (width - cell.length) fill

def widest (measure : List α → ℕ) (cells : List (List α)) : ℕ := (cells.map measure).foldr max 0

variable {fill : α} {width : ℕ} {cell : List α} {cells : List (List α)} {measure : List α → ℕ}

theorem length_toRight (h : cell.length ≤ width) : (toRight fill width cell).length = width := by
  simp [toRight, h]

theorem length_toLeft (h : cell.length ≤ width) : (toLeft fill width cell).length = width := by
  simp [toLeft, h]

theorem le_widest (h : cell ∈ cells) : measure cell ≤ widest measure cells :=
  List.le_max_of_le (List.mem_map_of_mem h) (Nat.le_refl _)

theorem length_le_widest (hm : ∀ cell, cell.length ≤ measure cell) (h : cell ∈ cells) : cell.length ≤ widest measure cells :=
  Nat.le_trans (hm cell) (le_widest h)

end Rustils.Lib.Columns
