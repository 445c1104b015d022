import Mathlib.Data.Fintype.Card
import Mathlib.Data.Fintype.EquivFin
import Mathlib.Data.List.Nodup
import Mathlib.Logic.Relation

namespace Rustils.Lib.Walk

open Relation

variable {V E : Type} (entries : V → List E) (child : E → Option V)

def each (below : V → Option (List (List E))) : List E → Option (List (List E))
  | [] => some []
  | e :: es =>
    match child e with
    | none => (each below es).map ([e] :: ·)
    | some w => do
      let cs ← below w
      let rest ← each below es
      some (([e] :: cs.map (e :: ·)) ++ rest)

def walk : ℕ → V → Option (List (List E))
  | 0, _ => none
  | n + 1, v => each child (walk n) (entries v)

inductive Leads : V → List E → V → Prop
  | nil (v : V) : Leads v [] v
  | cons {v w u : V} {e : E} {c : List E} :
      e ∈ entries v → child e = some w → Leads w c u → Leads v (e :: c) u

def Below (v w : V) : Prop := ∃ e ∈ entries v, child e = some w

variable {entries child}

@[simp] theorem leads_nil {v u : V} : Leads entries child v [] u ↔ v = u := by
  constructor
  · rintro ⟨⟩
    rfl
  · rintro rfl
    exact .nil v

theorem leads_cons {v u : V} {e : E} {c : List E} :
    Leads entries child v (e :: c) u ↔
      e ∈ entries v ∧ ∃ w, child e = some w ∧ Leads entries child w c u := by
  constructor
  · intro h
    cases h with
    | cons he hw hc => exact ⟨he, _, hw, hc⟩
  · rintro ⟨he, w, hw, hc⟩
    exact .cons he hw hc

theorem leads_append {v u : V} {c d : List E} :
    Leads entries child v (c ++ d) u ↔
      ∃ w, Leads entries child v c w ∧ Leads entries child w d u := by
  induction c generalizing v with
  | nil => simp
  | cons e c ih =>
    simp only [List.cons_append, leads_cons, ih]
    constructor
    · rintro ⟨he, x, hx, w, hc, hd⟩
      exact ⟨w, ⟨he, x, hx, hc⟩, hd⟩
    · rintro ⟨w, ⟨he, x, hx, hc⟩, hd⟩
      exact ⟨he, x, hx, w, hc, hd⟩

theorem leads_concat {v u : V} {c : List E} {e : E} :
    Leads entries child v (c ++ [e]) u ↔
      ∃ w, Leads entries child v c w ∧ e ∈ entries w ∧ child e = some u := by
  simp only [leads_append, leads_cons, leads_nil, exists_eq_right]

theorem reaches_iff {v u : V} :
    ReflTransGen (Below entries child) v u ↔ ∃ c, Leads entries child v c u := by
  constructor
  · intro h
    induction h with
    | refl => exact ⟨[], .nil v⟩
    | tail _ hb ih =>
      obtain ⟨c, hc⟩ := ih
      obtain ⟨e, he, hw⟩ := hb
      exact ⟨c ++ [e], leads_concat.mpr ⟨_, hc, he, hw⟩⟩
  · rintro ⟨c, hc⟩
    induction hc with
    | nil => exact .refl
    | cons he hw _ ih => exact .head ⟨_, he, hw⟩ ih

section Each

variable {below below' : V → Option (List (List E))} {es : List E} {cs : List (List E)}

theorem mem_each (h : each child below es = some cs) (x : List E) :
    x ∈ cs ↔ ∃ e ∈ es, x = [e] ∨
      ∃ w ds y, child e = some w ∧ below w = some ds ∧ y ∈ ds ∧ x = e :: y := by
  induction es generalizing cs with
  | nil =>
    cases h
    simp
  | cons e es ih =>
    unfold each at h
    simp only [List.mem_cons, exists_eq_or_imp]
    cases hchild : child e with
    | none =>
      rw [hchild] at h
      obtain ⟨rest, hrest, rfl⟩ := Option.map_eq_some_iff.mp h
      rw [List.mem_cons, ih hrest]
      simp
    | some w =>
      rw [hchild] at h
      obtain ⟨ds, hds, h⟩ := Option.bind_eq_some_iff.mp h
      obtain ⟨rest, hrest, h⟩ := Option.bind_eq_some_iff.mp h
      obtain rfl := Option.some.inj h
      rw [List.mem_append, List.mem_cons, List.mem_map, ih hrest]
      apply or_congr_left
      apply or_congr_right
      constructor
      · rintro ⟨y, hy, rfl⟩
        exact ⟨w, ds, y, rfl, hds, hy, rfl⟩
      · rintro ⟨w', ds', y, hw', hds', hy, rfl⟩
        obtain rfl := Option.some.inj hw'
        obtain rfl := Option.some.inj (hds.symm.trans hds')
        exact ⟨y, hy, rfl⟩

theorem nodup_each (h : each child below es = some cs) (hes : es.Nodup)
    (hbelow : ∀ w ds, below w = some ds → ds.Nodup ∧ [] ∉ ds) : cs.Nodup := by
  induction es generalizing cs with
  | nil =>
    cases h
    exact List.nodup_nil
  | cons e es ih =>
    obtain ⟨he, hes⟩ := List.nodup_cons.mp hes
    -- what comes of the other entries begins otherwise
    have hother : ∀ {rest}, each child below es = some rest → ∀ y, e :: y ∉ rest := by
      intro rest hrest y hy
      obtain ⟨e', he', hx⟩ := (mem_each hrest _).mp hy
      obtain hx | ⟨_, _, _, _, _, _, hx⟩ := hx
      · exact he ((List.cons.inj hx).1 ▸ he')
      · exact he ((List.cons.inj hx).1 ▸ he')
    unfold each at h
    cases hchild : child e with
    | none =>
      rw [hchild] at h
      obtain ⟨rest, hrest, rfl⟩ := Option.map_eq_some_iff.mp h
      exact List.nodup_cons.mpr ⟨hother hrest [], ih hrest hes⟩
    | some w =>
      rw [hchild] at h
      obtain ⟨ds, hds, h⟩ := Option.bind_eq_some_iff.mp h
      obtain ⟨rest, hrest, h⟩ := Option.bind_eq_some_iff.mp h
      obtain rfl := Option.some.inj h
      obtain ⟨hnodup, hnil⟩ := hbelow w ds hds
      have hmap : (ds.map (e :: ·)).Nodup := hnodup.map (List.cons_injective)
      have hfirst : [e] ∉ ds.map (e :: ·) := by
        intro hm
        obtain ⟨y, hy, hye⟩ := List.mem_map.mp hm
        exact hnil ((List.cons.inj hye).2 ▸ hy)
      apply List.nodup_append.mpr
      refine ⟨List.nodup_cons.mpr ⟨hfirst, hmap⟩, ih hrest hes, ?_⟩
      rintro x hx z hz rfl
      obtain rfl | hx := List.mem_cons.mp hx
      · exact hother hrest [] hz
      · obtain ⟨y, -, rfl⟩ := List.mem_map.mp hx
        exact hother hrest y hz

theorem isSome_each :
    (each child below es).isSome ↔ ∀ e ∈ es, ∀ w, child e = some w → (below w).isSome := by
  induction es with
  | nil => simp [each]
  | cons e es ih =>
    unfold each
    rw [List.forall_mem_cons, ← ih]
    cases hchild : child e with
    | none => simp
    | some w => cases hbelow : below w <;> cases each child below es <;> simp [hbelow]

theorem each_mono (hbelow : ∀ w ds, below w = some ds → below' w = some ds)
    (h : each child below es = some cs) : each child below' es = some cs := by
  induction es generalizing cs with
  | nil => exact h
  | cons e es ih =>
    unfold each at h ⊢
    cases hchild : child e with
    | none =>
      rw [hchild] at h
      obtain ⟨rest, hrest, rfl⟩ := Option.map_eq_some_iff.mp h
      dsimp only
      rw [ih hrest, Option.map_some]
    | some w =>
      rw [hchild] at h
      obtain ⟨ds, hds, h⟩ := Option.bind_eq_some_iff.mp h
      obtain ⟨rest, hrest, h⟩ := Option.bind_eq_some_iff.mp h
      dsimp only
      rw [hbelow w ds hds, ih hrest, ← h]
      rfl

end Each

section Walk

variable {n : ℕ} {v : V} {cs : List (List E)}

theorem mem_walk (h : walk entries child n v = some cs) (x : List E) :
    x ∈ cs ↔ ∃ c w e, Leads entries child v c w ∧ e ∈ entries w ∧ x = c ++ [e] := by
  induction n generalizing v cs x with
  | zero => cases h
  | succ n ih =>
    rw [mem_each h]
    constructor
    · rintro ⟨e, he, rfl | ⟨w, ds, y, hw, hds, hy, rfl⟩⟩
      · exact ⟨[], v, e, .nil v, he, rfl⟩
      · obtain ⟨c, u, e', hc, he', rfl⟩ := (ih hds y).mp hy
        exact ⟨e :: c, u, e', .cons he hw hc, he', rfl⟩
    · rintro ⟨c, u, e, hc, he, rfl⟩
      cases hc with
      | nil => exact ⟨e, he, .inl rfl⟩
      | @cons _ w _ e' c he' hw hc =>
        refine ⟨e', he', .inr ?_⟩
        obtain ⟨ds, hds⟩ := Option.isSome_iff_exists.mp
          (isSome_each.mp (Option.isSome_iff_exists.mpr ⟨cs, h⟩) e' he' w hw)
        exact ⟨w, ds, c ++ [e], hw, hds, (ih hds _).mpr ⟨c, u, e, hc, he, rfl⟩, rfl⟩

theorem nodup_walk (hes : ∀ v, (entries v).Nodup) (h : walk entries child n v = some cs) :
    cs.Nodup ∧ [] ∉ cs := by
  have hnil : ∀ {n v cs}, walk entries child n v = some cs → [] ∉ cs := by
    intro n v cs h hm
    obtain ⟨c, w, e, -, -, hx⟩ := (mem_walk h []).mp hm
    exact List.append_ne_nil_of_right_ne_nil c (List.cons_ne_nil e []) hx.symm
  induction n generalizing v cs with
  | zero => cases h
  | succ n ih =>
    exact ⟨nodup_each h (hes v) fun w ds hds => ⟨(ih hds).1, hnil hds⟩, hnil h⟩

theorem walk_succ (h : walk entries child n v = some cs) : walk entries child (n + 1) v = some cs := by
  induction n generalizing v cs with
  | zero => cases h
  | succ n ih => exact each_mono (fun w ds hds => ih hds) h

theorem walk_mono {m : ℕ} (hmn : n ≤ m) (h : walk entries child n v = some cs) :
    walk entries child m v = some cs := by
  induction hmn with
  | refl => exact h
  | step _ ih => exact walk_succ ih

theorem walk_ends_iff_acc :
    (∃ n, (walk entries child n v).isSome) ↔ Acc (fun w v => Below entries child v w) v := by
  constructor
  · rintro ⟨n, h⟩
    induction n generalizing v with
    | zero => cases h
    | succ n ih =>
      apply Acc.intro
      rintro w ⟨e, he, hw⟩
      exact ih (isSome_each.mp h e he w hw)
  · intro h
    induction h with
    | intro v _ ih =>
      have hall : ∀ es : List E, (∀ e ∈ es, e ∈ entries v) →
          ∃ n, ∀ e ∈ es, ∀ w, child e = some w → (walk entries child n w).isSome := by
        intro es hes
        induction es with
        | nil => exact ⟨0, by simp⟩
        | cons e es ihes =>
          rw [List.forall_mem_cons] at hes
          obtain ⟨n, hn⟩ := ihes hes.2
          have hone : ∃ m, ∀ w, child e = some w → (walk entries child m w).isSome := by
            cases hchild : child e with
            | none => exact ⟨0, nofun⟩
            | some w =>
              obtain ⟨m, hm⟩ := ih w ⟨e, hes.1, hchild⟩
              refine ⟨m, ?_⟩
              rintro w ⟨⟩
              exact hm
          obtain ⟨m, hm⟩ := hone
          have hle : ∀ {k w}, k ≤ max m n → (walk entries child k w).isSome →
              (walk entries child (max m n) w).isSome := by
            intro k w hk hs
            obtain ⟨cs, hcs⟩ := Option.isSome_iff_exists.mp hs
            rw [walk_mono hk hcs]
            rfl
          refine ⟨max m n, List.forall_mem_cons.mpr ⟨fun w hw => ?_, fun e' he' w hw => ?_⟩⟩
          · exact hle (Nat.le_max_left m n) (hm w hw)
          · exact hle (Nat.le_max_right m n) (hn e' he' w hw)
      obtain ⟨n, hn⟩ := hall (entries v) fun _ he => he
      exact ⟨n + 1, isSome_each.mpr hn⟩

theorem acc_iff_no_cycle [Finite V] {r : V → V → Prop} :
    Acc (fun w v => r v w) v ↔ ∀ w, ReflTransGen r v w → ¬ TransGen r w w := by
  constructor
  · intro h
    induction h with
    | intro v _ ih =>
      have hbelow : ∀ u, r v u → ∀ w, ReflTransGen r u w → ¬ TransGen r w w := ih
      intro w hw hcycle
      rcases ReflTransGen.cases_head hw with rfl | ⟨u, hu, huw⟩
      · obtain ⟨u, hu, huv⟩ := TransGen.head'_iff.mp hcycle
        exact hbelow u hu v huv hcycle
      · exact hbelow u hu w huw hcycle
  · intro h
    -- on what can be reached the relation is irreflexive with all its compositions
    let s : {w // ReflTransGen r v w} → {w // ReflTransGen r v w} → Prop := fun a b => TransGen r b.1 a.1
    have htrans : IsTrans _ s := ⟨fun _ _ _ hab hbc => hbc.trans hab⟩
    have hirrefl : Std.Irrefl s := ⟨fun a ha => h a.1 a.2 ha⟩
    have hwf : WellFounded s := Finite.wellFounded_of_trans_of_irrefl s
    have hacc : ∀ a : {w // ReflTransGen r v w}, Acc (fun w v => r v w) a.1 := by
      intro a
      induction a using hwf.induction with
      | _ a ih =>
        apply Acc.intro
        intro w hw
        exact ih ⟨w, a.2.tail hw⟩ (.single hw)
    exact hacc ⟨v, .refl⟩

theorem countP_eq_one {α : Type} {l : List α} (hl : l.Nodup) (p : α → Bool) :
    l.countP p = 1 ↔ ∃! a, a ∈ l ∧ p a = true := by
  rw [List.countP_eq_length_filter, List.length_eq_one_iff]
  constructor
  · rintro ⟨a, ha⟩
    have hmem : ∀ b, b ∈ l ∧ p b = true ↔ b = a := by
      intro b
      rw [← List.mem_filter, ha, List.mem_singleton]
    exact ⟨a, (hmem a).mpr rfl, fun b hb => (hmem b).mp hb⟩
  · rintro ⟨a, ha, honly⟩
    refine ⟨a, List.perm_singleton.mp ?_⟩
    apply (List.perm_ext_iff_of_nodup (hl.filter p) (List.nodup_singleton a)).mpr
    intro b
    rw [List.mem_filter, List.mem_singleton]
    constructor
    · exact honly b
    · rintro rfl
      exact ha

theorem walk_ends_iff [Finite V] :
    (∃ n, (walk entries child n v).isSome) ↔
      ∀ w, ReflTransGen (Below entries child) v w → ¬ TransGen (Below entries child) w w := by
  rw [walk_ends_iff_acc, acc_iff_no_cycle]

end Walk

end Rustils.Lib.Walk
