import Mathlib.Data.List.Infix
import Rustils.Lib.Lossy

namespace Rustils.Lib.Glob

open Lib.Lossy

variable {α : Type} [DecidableEq α] (write : Char → List α)

def glob : List Char → List α → Bool
  | [], text => text.isEmpty
  | c :: p, text =>
    if c = '*' then text.tails.any (glob p)
    else (write c).isPrefixOf text && glob p (text.drop (write c).length)

def solid (p : List Char) : List Char := p.filter (· ≠ '*')

variable {write} {p : List Char} {c : Char} {text : List α}

@[simp] theorem glob_nil : glob write [] text ↔ text = [] := List.isEmpty_iff

theorem glob_star : glob write ('*' :: p) text ↔ ∃ x y, text = x ++ y ∧ glob write p y := by
  rw [glob, if_pos rfl, List.any_eq_true]
  constructor
  · rintro ⟨y, hy, h⟩
    obtain ⟨x, rfl⟩ := (List.mem_tails y text).mp hy
    exact ⟨x, y, rfl, h⟩
  · rintro ⟨x, y, rfl, h⟩
    exact ⟨y, (List.mem_tails y _).mpr (List.suffix_append x y), h⟩

theorem glob_char (hc : c ≠ '*') : glob write (c :: p) text ↔ ∃ y, text = write c ++ y ∧ glob write p y := by
  rw [glob, if_neg hc, Bool.and_eq_true, List.isPrefixOf_iff_prefix]
  constructor
  · rintro ⟨⟨y, rfl⟩, h⟩
    rw [List.drop_left] at h
    exact ⟨y, rfl, h⟩
  · rintro ⟨y, rfl, h⟩
    rw [List.drop_left]
    exact ⟨List.prefix_append _ y, h⟩

theorem sublist_of_glob (h : glob write p text) : ((solid p).flatMap write).Sublist text := by
  induction p generalizing text with
  | nil =>
    rw [glob_nil.mp h]
    exact List.nil_sublist []
  | cons c p ih =>
    obtain rfl | hc := eq_or_ne c '*'
    · obtain ⟨x, y, rfl, hy⟩ := glob_star.mp h
      exact (ih hy).trans (List.sublist_append_right x y)
    · obtain ⟨y, rfl, hy⟩ := (glob_char hc).mp h
      rw [solid, List.filter_cons_of_pos (by simpa using hc), List.flatMap_cons]
      exact (ih hy).append_left (write c)

theorem glob_solid (p : List Char) : glob write p ((solid p).flatMap write) := by
  induction p with
  | nil => exact glob_nil.mpr rfl
  | cons c p ih =>
    obtain rfl | hc := eq_or_ne c '*'
    · exact glob_star.mpr ⟨[], _, rfl, ih⟩
    · rw [solid, List.filter_cons_of_pos (by simpa using hc), List.flatMap_cons]
      exact (glob_char hc).mpr ⟨_, rfl, ih⟩

theorem glob_star_fresh {bytes : List UInt8} (h : glob String.utf8EncodeChar ('*' :: p) bytes) :
    ∃ x y, bytes = x ++ y ∧ Fresh y ∧ glob String.utf8EncodeChar p y := by
  induction p generalizing bytes with
  | nil =>
    obtain ⟨x, y, rfl, hy⟩ := glob_star.mp h
    obtain rfl := glob_nil.mp hy
    exact ⟨x, [], rfl, nofun, hy⟩
  | cons c p ih =>
    obtain ⟨x, y, rfl, hy⟩ := glob_star.mp h
    obtain rfl | hc := eq_or_ne c '*'
    · obtain ⟨x', y', rfl, hfresh, hy'⟩ := ih hy
      exact ⟨x ++ x', y', (List.append_assoc x x' y').symm, hfresh, glob_star.mpr ⟨[], y', rfl, hy'⟩⟩
    · obtain ⟨rest, rfl, hrest⟩ := (glob_char hc).mp hy
      exact ⟨x, _, rfl, fresh_encodeChar c rest, hy⟩

theorem glob_lossy {bytes : List UInt8} (h : glob String.utf8EncodeChar p bytes) :
    glob (fun c => [c]) p (lossy bytes) := by
  induction p generalizing bytes with
  | nil =>
    rw [glob_nil.mp h, lossy]
    exact glob_nil.mpr rfl
  | cons c p ih =>
    obtain rfl | hc := eq_or_ne c '*'
    · obtain ⟨x, y, rfl, hfresh, hy⟩ := glob_star_fresh h
      exact glob_star.mpr ⟨lossy x, lossy y, lossy_append x hfresh, ih hy⟩
    · obtain ⟨rest, rfl, hrest⟩ := (glob_char hc).mp h
      exact (glob_char hc).mpr ⟨lossy rest, lossy_encodeChar c rest, ih hrest⟩

theorem glob_lossy_iff (hp : replacement ∉ p) {bytes : List UInt8} :
    glob (fun c => [c]) p (lossy bytes) ↔ glob String.utf8EncodeChar p bytes := by
  refine ⟨fun h => ?_, glob_lossy⟩
  induction p generalizing bytes with
  | nil =>
    rw [glob_nil] at h ⊢
    cases bytes with
    | nil => rfl
    | cons a rest =>
      rw [lossy] at h
      split at h <;> cases h
  | cons c p ih =>
    obtain ⟨hrep, hp'⟩ : replacement ≠ c ∧ replacement ∉ p := by simpa using hp
    obtain rfl | hc := eq_or_ne c '*'
    · obtain ⟨u, v, huv, hv⟩ := glob_star.mp h
      obtain ⟨x, y, rfl, rfl⟩ := lossy_suffix huv
      exact glob_star.mpr ⟨x, y, rfl, ih hp' hv⟩
    · obtain ⟨v, hv, hrest⟩ := (glob_char hc).mp h
      obtain ⟨rest, rfl, rfl⟩ := lossy_eq_cons hrep.symm hv
      exact (glob_char hc).mpr ⟨rest, rfl, ih hp' hrest⟩

end Rustils.Lib.Glob
