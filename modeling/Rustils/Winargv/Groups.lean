import Rustils.Winargv.Batch

namespace Rustils.Winargv

open Platform

def prepend (u : UInt16) : List Wide → List Wide
  | [] => [[u]]
  | g :: gs => (u :: g) :: gs

def cut : Bool → Wide → List Wide
  | _, [] => [[]]
  | inside, u :: us =>
    if u = SPACE ∧ inside = false then [] :: cut inside us else prepend u (cut (toggle inside u) us)

def groups (rest : Wide) : List Wide := (cut false rest).tail

def undouble : Wide → Wide
  | u :: v :: us => if u = QUOTE ∧ v = QUOTE then QUOTE :: undouble us else u :: undouble (v :: us)
  | us => us

def unwrap (g : Wide) : Option Wide :=
  match g with
  | [] => none
  | u :: body => if u = QUOTE ∧ body.getLast? = some QUOTE then some (undouble body.dropLast) else none

def Enclosed : Bool → Wide → Prop
  | _, [] => True
  | inside, u :: us => (u ≠ QUOTE → inside = true) ∧ Enclosed (toggle inside u) us

theorem enclosed_append (inside : Bool) (us vs : Wide) :
    Enclosed inside (us ++ vs) ↔ Enclosed inside us ∧ Enclosed (quoteState inside us) vs := by
  induction us generalizing inside with
  | nil => simp [Enclosed, quoteState]
  | cons u us ih => simp [Enclosed, quoteState, ih, and_assoc]

theorem Enclosed.at {inside : Bool} {us : Wide} (h : Enclosed inside us) {pre post : Wide} {u : UInt16}
    (hus : us = pre ++ u :: post) (hu : u ≠ QUOTE) : quoteState inside pre = true := by
  subst hus
  exact ((enclosed_append inside pre _).mp h).2.1 hu

theorem enclosed_doubled (arg : Wide) : Enclosed true (doubled arg) := by
  induction arg with
  | nil => trivial
  | cons u us ih =>
    have hsplit : doubled (u :: us) = (if u = QUOTE then [QUOTE, QUOTE] else [u]) ++ doubled us := by
      simp [doubled]
    rw [hsplit]
    split_ifs with hu
    · exact ⟨fun h => absurd rfl h, fun h => absurd rfl h, ih⟩
    · have htoggle : toggle true u = true := if_neg hu
      refine ⟨fun _ => rfl, ?_⟩
      rw [htoggle]
      exact ih

def group (arg : Wide) : Wide := QUOTE :: (doubled arg ++ [QUOTE])

theorem group_state (arg : Wide) : quoteState false (group arg) = false := by
  have hd := (metaQuoted_doubled true arg).2
  rw [group, (metaQuoted_wrapped false (doubled arg)).2, Bool.not_false, hd, Bool.not_true]

theorem enclosed_group (arg : Wide) : Enclosed false (group arg) := by
  refine ⟨fun h => absurd rfl h, ?_⟩
  rw [toggle_quote, Bool.not_false, enclosed_append]
  exact ⟨enclosed_doubled arg, fun h => absurd rfl h, trivial⟩

theorem undouble_doubled (arg : Wide) : undouble (doubled arg) = arg := by
  induction arg with
  | nil => rfl
  | cons u us ih =>
    have hsplit : doubled (u :: us) = (if u = QUOTE then [QUOTE, QUOTE] else [u]) ++ doubled us := by
      simp [doubled]
    rw [hsplit]
    split_ifs with hu
    · change undouble (QUOTE :: QUOTE :: doubled us) = _
      rw [undouble, if_pos ⟨rfl, rfl⟩, ih, hu]
    · change undouble (u :: doubled us) = _
      cases hus : doubled us with
      | nil =>
        rw [hus] at ih
        rw [← ih]
        rfl
      | cons v vs => rw [undouble, if_neg fun h => hu h.1, ← hus, ih]

theorem unwrap_group (arg : Wide) : unwrap (group arg) = some arg := by
  have hlast : (doubled arg ++ [QUOTE]).getLast? = some QUOTE := List.getLast?_concat
  rw [group, unwrap]
  rw [if_pos ⟨rfl, hlast⟩, List.dropLast_concat, undouble_doubled]

theorem cut_enclosed {inside : Bool} {us : Wide} (h : Enclosed inside us) (hend : quoteState inside us = false)
    (rest : Wide) : cut inside (us ++ SPACE :: rest) = us :: cut false rest ∧ cut inside us = [us] := by
  induction us generalizing inside with
  | nil =>
    obtain rfl : inside = false := hend
    exact ⟨if_pos ⟨rfl, rfl⟩, rfl⟩
  | cons u us ih =>
    have hu : ¬(u = SPACE ∧ inside = false) := by
      rintro ⟨rfl, rfl⟩
      exact absurd (h.1 (by decide)) (by decide)
    obtain ⟨hcut, hlast⟩ := ih h.2 hend
    rw [List.cons_append, cut, if_neg hu, hcut, cut, if_neg hu, hlast]
    exact ⟨rfl, rfl⟩

theorem cut_groups (args : List Wide) : cut false (args.flatMap batchToken) = [] :: args.map group := by
  have hafter : ∀ (arg : Wide) (args : List Wide),
      cut false (group arg ++ args.flatMap batchToken) = group arg :: args.map group := by
    intro arg args
    induction args generalizing arg with
    | nil => exact (List.append_nil (group arg)).symm ▸ (cut_enclosed (enclosed_group arg) (group_state arg) []).2
    | cons next args ih =>
      rw [List.flatMap_cons]
      change cut false (group arg ++ SPACE :: (group next ++ args.flatMap batchToken)) = _
      rw [(cut_enclosed (enclosed_group arg) (group_state arg) _).1, ih next]
      rfl
  cases args with
  | nil => rfl
  | cons arg args =>
    rw [List.flatMap_cons]
    change cut false (SPACE :: (group arg ++ args.flatMap batchToken)) = _
    rw [cut, if_pos ⟨rfl, rfl⟩, hafter]
    rfl

theorem groups_state (gs : List Wide) (h : ∀ g ∈ gs, quoteState false g = false) :
    quoteState false (gs.flatMap (SPACE :: ·)) = false := by
  induction gs with
  | nil => rfl
  | cons g gs ih =>
    rw [List.forall_mem_cons] at h
    have hsp : toggle false SPACE = false := if_neg (by decide)
    rw [List.flatMap_cons, quoteState_append]
    change quoteState (quoteState (toggle false SPACE) g) _ = false
    rw [hsp, h.1, ih h.2]

theorem build_batch {program : Wide} (hc : classify program = .batch) (hnul : NUL ∉ program) (args : List Wide)
    (line : Wide) :
    buildCommandLineWide program args = .ok line ↔
      (∀ a ∈ args, ∀ u ∈ a, isUnsafe u = false) ∧ line = quoteArgInto program [] ++ args.flatMap batchToken := by
  have hne : program.isEmpty = false := by
    cases program with
    | nil => cases hc
    | cons u us => rfl
  have hprogram : program.contains NUL = false := by
    rw [List.contains_eq_mem]
    exact decide_eq_false hnul
  rw [buildCommandLineWide, hne, hprogram, hc, Bool.false_or]
  simp only [Bool.false_eq_true, ↓reduceIte]
  split_ifs with hargs
  · rw [List.any_eq_true] at hargs
    obtain ⟨a, ha, hmem⟩ := hargs
    refine iff_of_false nofun ?_
    rintro ⟨hclean, -⟩
    have hfalse := hclean a ha NUL (List.contains_iff_mem.mp hmem)
    exact absurd hfalse (by decide)
  · exact appendArgs_batch args _ line

theorem batch_arguments_recovered (program : Wide) (args : List Wide) (hc : classify program = .batch)
    (hnul : NUL ∉ program) :
    ((∃ line, buildCommandLineWide program args = .ok line) ↔
      ∀ a ∈ args, NUL ∉ a ∧ CR ∉ a ∧ LF ∉ a ∧ PERCENT ∉ a) ∧
    ∀ line, buildCommandLineWide program args = .ok line →
      ∃ rest, line = quoteArgInto program [] ++ rest ∧ rest = (groups rest).flatMap (SPACE :: ·) ∧
        (groups rest).map unwrap = args.map some ∧
        (∀ g ∈ groups rest, ∀ pre u post, g = pre ++ u :: post → u ≠ QUOTE → quoteState false pre = true) ∧
        ∀ i, quoteState false (((groups rest).take i).flatMap (SPACE :: ·)) = false := by
  constructor
  · constructor
    · rintro ⟨line, hline⟩ a ha
      have hclean := ((build_batch hc hnul args line).mp hline).1 a ha
      refine ⟨fun h => ?_, fun h => ?_, fun h => ?_, fun h => ?_⟩ <;> exact absurd (hclean _ h) (by decide)
    · intro hclean
      refine ⟨_, (build_batch hc hnul args _).mpr ⟨?_, rfl⟩⟩
      intro a ha u hu
      obtain ⟨h₀, h₁, h₂, h₃⟩ := hclean a ha
      have hne : ∀ {x : UInt16}, x ∉ a → u ≠ x := fun hx heq => hx (heq ▸ hu)
      simp [isUnsafe, hne h₀, hne h₁, hne h₂, hne h₃]
  · intro line hline
    obtain ⟨-, rfl⟩ := (build_batch hc hnul args line).mp hline
    have hgroups : groups (args.flatMap batchToken) = args.map group := by rw [groups, cut_groups, List.tail_cons]
    refine ⟨_, rfl, ?_, ?_, ?_, ?_⟩
    · rw [hgroups, List.flatMap_map]
      rfl
    · rw [hgroups, List.map_map]
      exact List.map_congr_left fun a _ => unwrap_group a
    · intro g hg pre u post hsplit hu
      rw [hgroups] at hg
      obtain ⟨a, -, rfl⟩ := List.mem_map.mp hg
      exact (enclosed_group a).at hsplit hu
    · intro i
      apply groups_state
      intro g hg
      rw [hgroups] at hg
      obtain ⟨a, -, rfl⟩ := List.mem_map.mp (List.mem_of_mem_take hg)
      exact group_state a

theorem batch_arguments_recovered_quote :
    ∃ rest, (groups rest).map unwrap = [some [0x61, 0x22, 0x62], some [0x26]] ∧
      buildCommandLineWide [0x73, 0x2E, 0x62, 0x61, 0x74] [[0x61, 0x22, 0x62], [0x26]] =
        .ok (quoteArgInto [0x73, 0x2E, 0x62, 0x61, 0x74] [] ++ rest) := by
  have h := batch_arguments_recovered [0x73, 0x2E, 0x62, 0x61, 0x74] [[0x61, 0x22, 0x62], [0x26]] (by decide)
    (by decide)
  obtain ⟨rest, hline, -, hread, -⟩ := h.2 _ rfl
  exact ⟨rest, hread, congrArg Except.ok hline⟩

end Rustils.Winargv
