import Mathlib.Data.List.DropRight
import Rustils.Winargv.Groups

namespace Rustils.Winargv

open Platform

def DOT : UInt16 := 0x2E

def isPad (u : UInt16) : Bool := u == DOT || u == SPACE

def win32Name (name : Wide) : Wide := name.rdropWhile isPad

def BatchName (name : Wide) : Prop :=
  ∃ stem ext, name = stem ++ ext ∧ (ext.map lower = BAT ∨ ext.map lower = CMD)

theorem classify_batch_iff (program : Wide) : classify program = .batch ↔ BatchName program := by
  constructor
  · intro h
    rw [classify] at h
    split_ifs at h with hlen
    dsimp only at h
    split_ifs at h with hext
    exact ⟨_, _, (List.take_append_drop (program.length - 4) program).symm, hext⟩
  · rintro ⟨stem, ext, rfl, hext⟩
    have hlen : ext.length = 4 := by
      rcases hext with hext | hext <;> simpa [BAT, CMD] using congrArg List.length hext
    have hshort : ¬(stem ++ ext).length < 4 := by
      rw [List.length_append]
      omega
    have hdrop : (stem ++ ext).drop ((stem ++ ext).length - 4) = ext := by
      rw [List.length_append, hlen, Nat.add_sub_cancel]
      exact List.drop_left
    rw [classify, if_neg hshort, hdrop]
    exact if_pos hext

theorem win32Name_batchName {name : Wide} (h : BatchName name) : win32Name name = name := by
  obtain ⟨stem, ext, rfl, hext⟩ := h
  have hne : ext ≠ [] := by
    rintro rfl
    rcases hext with hext | hext <;> cases hext
  obtain ⟨front, u, rfl⟩ := List.eq_nil_or_concat ext |>.resolve_left hne
  have hlast : lower u = 0x74 ∨ lower u = 0x64 := by
    rcases hext with hext | hext
    · left
      have h := congrArg List.getLast? hext
      simpa [BAT] using h
    · right
      have h := congrArg List.getLast? hext
      simpa [CMD] using h
  have hpad : ¬isPad u = true := by
    intro hu
    rw [isPad, Bool.or_eq_true, beq_iff_eq, beq_iff_eq] at hu
    rcases hu with rfl | rfl <;> revert hlast <;> decide
  rw [List.concat_eq_append, ← List.append_assoc]
  exact List.rdropWhile_concat_neg isPad _ u hpad

theorem win32Name_append (p : Wide) {s : Wide} (hs : ∀ u ∈ s, isPad u = true) : win32Name (p ++ s) = win32Name p := by
  induction s using List.reverseRecOn with
  | nil => rw [List.append_nil]
  | append_singleton s u ih =>
    have hu := hs u (List.mem_append_right s (List.mem_singleton_self u))
    rw [← List.append_assoc]
    exact (List.rdropWhile_concat_pos isPad _ u hu).trans (ih fun v hv => hs v (List.mem_append_left [u] hv))

theorem win32Name_eq_append {p s : Wide} (hs : ∀ u ∈ s, isPad u = true) (h : win32Name (p ++ s) = p ++ s) : s = [] := by
  rw [win32Name_append p hs] at h
  have hle := (List.rdropWhile_prefix isPad (l := p)).length_le
  have hlen := congrArg List.length h
  rw [List.length_append] at hlen
  rw [win32Name] at hlen
  exact List.eq_nil_of_length_eq_zero (by omega)

structure AliasSafe (p s : Wide) : Prop where
  same : classify (p ++ s) = classify p
  batch : BatchName (win32Name (p ++ s)) → classify (p ++ s) = .batch
  quoting : BatchName (win32Name (p ++ s)) → ∀ args line, buildCommandLineWide (p ++ s) args = .ok line →
    line = quoteArgInto (p ++ s) [] ++ args.flatMap batchToken

theorem build_batch_line {program line : Wide} {args : List Wide} (hc : classify program = .batch)
    (h : buildCommandLineWide program args = .ok line) :
    line = quoteArgInto program [] ++ args.flatMap batchToken := by
  have hnul : NUL ∉ program := by
    intro hmem
    rw [buildCommandLineWide, List.contains_iff_mem.mpr hmem, Bool.true_or, if_pos rfl] at h
    split_ifs at h
  exact ((build_batch hc hnul args line).mp h).2

theorem aliasSafe_iff (p s : Wide) (hs : ∀ u ∈ s, u = DOT ∨ u = SPACE) :
    AliasSafe p s ↔ (BatchName (win32Name p) → win32Name (p ++ s) = p ++ s) := by
  have hpad : ∀ u ∈ s, isPad u = true := by
    intro u hu
    rw [isPad, Bool.or_eq_true, beq_iff_eq, beq_iff_eq]
    exact hs u hu
  have hname := win32Name_append p hpad
  constructor
  · intro h hbatch
    rw [← hname] at hbatch
    exact win32Name_batchName ((classify_batch_iff _).mp (h.batch hbatch))
  · intro h
    have hbatch : BatchName (win32Name (p ++ s)) → classify (p ++ s) = .batch := by
      intro hb
      rw [classify_batch_iff, ← h (hname ▸ hb)]
      exact hb
    refine ⟨?_, hbatch, fun hb args line hline => build_batch_line (hbatch hb) hline⟩
    by_cases hb : BatchName (win32Name p)
    · rw [win32Name_eq_append hpad (h hb), List.append_nil]
    · -- neither name ends in an extension, since stripping would keep it
      have hnot : ∀ q, win32Name q = win32Name p → classify q = .executable := by
        intro q hq
        rcases hc : classify q with _ | _
        · rfl
        · have hqb := (classify_batch_iff q).mp hc
          rw [← hq, win32Name_batchName hqb] at hb
          exact absurd hqb hb
      rw [hnot p rfl, hnot (p ++ s) hname]

theorem aliasSafe_bat : AliasSafe [0x61, 0x2E, 0x62, 0x61, 0x74] [] :=
  (aliasSafe_iff [0x61, 0x2E, 0x62, 0x61, 0x74] [] nofun).mpr fun _ => by decide

theorem alias_quoted_for_msvcrt :
    BatchName (win32Name ([0x61, 0x2E, 0x62, 0x61, 0x74] ++ [SPACE])) ∧
      classify ([0x61, 0x2E, 0x62, 0x61, 0x74] ++ [SPACE]) ≠ classify [0x61, 0x2E, 0x62, 0x61, 0x74] ∧
      buildCommandLineWide ([0x61, 0x2E, 0x62, 0x61, 0x74] ++ [SPACE]) [[0x26, 0x63, 0x61, 0x6C, 0x63]] =
        .ok [0x22, 0x61, 0x2E, 0x62, 0x61, 0x74, 0x20, 0x22, 0x20, 0x26, 0x63, 0x61, 0x6C, 0x63] ∧
      ¬AliasSafe [0x61, 0x2E, 0x62, 0x61, 0x74] [SPACE] := by
  have hne : classify ([0x61, 0x2E, 0x62, 0x61, 0x74] ++ [SPACE]) ≠ classify [0x61, 0x2E, 0x62, 0x61, 0x74] := by
    decide
  refine ⟨⟨[0x61], [0x2E, 0x62, 0x61, 0x74], by decide, .inl rfl⟩, hne, rfl, fun h => hne h.same⟩

end Rustils.Winargv
