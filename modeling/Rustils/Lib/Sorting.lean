import Mathlib.Data.List.Basic

namespace Rustils.Lib.Sorting

variable {α : Type} {cmp : α → α → Ordering} {l : List α}

structure TotalOn (cmp : α → α → Ordering) (l : List α) : Prop where
  refl : ∀ a ∈ l, cmp a a = .eq
  swap : ∀ a ∈ l, ∀ b ∈ l, cmp a b = (cmp b a).swap
  trans : ∀ a ∈ l, ∀ b ∈ l, ∀ c ∈ l, cmp a b = cmp b c → cmp a c = cmp a b

theorem totalOn_iff : TotalOn cmp l ↔ (∀ a ∈ l, cmp a a = .eq) ∧ (∀ a ∈ l, ∀ b ∈ l, cmp a b = (cmp b a).swap) ∧
    ∀ a ∈ l, ∀ b ∈ l, ∀ c ∈ l, cmp a b = cmp b c → cmp a c = cmp a b := by
  constructor
  · rintro ⟨h1, h2, h3⟩
    exact ⟨h1, h2, h3⟩
  · rintro ⟨h1, h2, h3⟩
    exact ⟨h1, h2, h3⟩

instance (cmp : α → α → Ordering) (l : List α) : Decidable (TotalOn cmp l) := decidable_of_iff' _ totalOn_iff

structure StableSort (cmp : α → α → Ordering) (l out : List α) : Prop where
  perm : out.Perm l
  sorted : out.Pairwise fun a b => cmp a b ≠ .gt
  stable : ∀ a ∈ l, out.filter (fun b => cmp a b = .eq) = l.filter fun b => cmp a b = .eq

theorem StableSort.eq_of_same {out : List α} (h : StableSort cmp l out) (hsame : ∀ a ∈ l, ∀ b ∈ l, cmp a b = .eq) :
    out = l := by
  cases l with
  | nil => exact List.perm_nil.mp h.perm
  | cons a l =>
    have hall : ∀ b ∈ a :: l, decide (cmp a b = .eq) = true :=
      fun b hb => decide_eq_true (hsame a List.mem_cons_self b hb)
    have hstable := h.stable a List.mem_cons_self
    rwa [List.filter_eq_self.mpr hall, List.filter_eq_self.mpr fun b hb => hall b (h.perm.mem_iff.mp hb)] at hstable

theorem TotalOn.le_trans (h : TotalOn cmp l) {a b c : α} (ha : a ∈ l) (hb : b ∈ l) (hc : c ∈ l)
    (hab : cmp a b ≠ .gt) (hbc : cmp b c ≠ .gt) : cmp a c ≠ .gt := by
  intro hac
  have hca : cmp c a = .lt := by rw [h.swap c hc a ha, hac]; rfl
  cases hab' : cmp a b with
  | gt => exact hab hab'
  | lt =>
    have hcb := h.trans c hc a ha b hb (hca.trans hab'.symm)
    apply hbc
    rw [h.swap b hb c hc, hcb, hca]
    rfl
  | eq =>
    cases hbc' : cmp b c with
    | gt => exact hbc hbc'
    | eq =>
      rw [h.trans a ha b hb c hc (hab'.trans hbc'.symm), hab'] at hac
      cases hac
    | lt =>
      rw [h.swap a ha b hb, h.trans b hb c hc a ha (hbc'.trans hca.symm), hbc'] at hab'
      cases hab'

theorem TotalOn.eq_trans (h : TotalOn cmp l) {a b c : α} (ha : a ∈ l) (hb : b ∈ l) (hc : c ∈ l)
    (hab : cmp a b = .eq) (hac : cmp a c = .eq) : cmp b c = .eq := by
  have hba : cmp b a = .eq := by rw [h.swap b hb a ha, hab]; rfl
  rw [h.trans b hb a ha c hc (hba.trans hac.symm), hba]

def byComparator (cmp : α → α → Ordering) (l : List α) : List α := l.mergeSort fun a b => cmp a b ≠ .gt

theorem stableSort_byComparator (h : TotalOn cmp l) : StableSort cmp l (byComparator cmp l) := by
  let le : { a // a ∈ l } → { a // a ∈ l } → Bool := fun a b => cmp a b ≠ .gt
  have htrans : ∀ a b c, le a b → le b c → le a c := by
    intro a b c hab hbc
    apply decide_eq_true
    exact h.le_trans a.2 b.2 c.2 (of_decide_eq_true hab) (of_decide_eq_true hbc)
  have htotal : ∀ a b, le a b || le b a := by
    intro a b
    have hswap := h.swap a.1 a.2 b.1 b.2
    simp only [le, ne_eq, decide_not, Bool.or_eq_true, Bool.not_eq_true', decide_eq_false_iff_not]
    cases hba : cmp b.1 a.1 <;> rw [hba] at hswap <;> simp [hswap]
  have hmap : (l.attach.mergeSort le).map Subtype.val = byComparator cmp l := by
    rw [List.map_mergeSort (s := fun a b => decide (cmp a b ≠ .gt)) fun _ _ _ _ => rfl, List.attach_map_subtype_val]
    rfl
  have hperm : (byComparator cmp l).Perm l := List.mergeSort_perm l _
  refine ⟨hperm, ?_, fun a ha => ?_⟩
  · rw [← hmap, List.pairwise_map]
    exact (List.pairwise_mergeSort htrans htotal l.attach).imp of_decide_eq_true
  · -- the items equal to `a` are in order in the input, so `mergeSort` leaves them in it
    have hclass : (l.attach.filter fun b => cmp a b.1 = .eq).Pairwise fun b c => le b c := by
      apply List.pairwise_of_forall_mem_list
      intro b hb c hc
      have hbc := h.eq_trans ha b.2 c.2 (by simpa using (List.mem_filter.mp hb).2) (by simpa using (List.mem_filter.mp hc).2)
      simp [le, hbc]
    have hsub : (l.filter fun b => cmp a b = .eq).Sublist (byComparator cmp l) := by
      have hattach := (List.sublist_mergeSort htrans htotal hclass List.filter_sublist).map Subtype.val
      rw [hmap] at hattach
      have hval : (l.attach.filter fun b => cmp a b.1 = .eq).map Subtype.val = l.filter fun b => cmp a b = .eq := by
        conv_rhs => rw [← List.attach_map_subtype_val l, List.filter_map]
        rfl
      rwa [hval] at hattach
    have hclasses := hsub.filter fun b => decide (cmp a b = .eq)
    rw [List.filter_filter] at hclasses
    simp only [Bool.and_self] at hclasses
    exact (hclasses.eq_of_length (hperm.filter _).length_eq.symm).symm

/-- `slice::sort_by`: what it does where the comparator is no total order on the items is not specified, and
it may panic there. -/
structure SortBy (α : Type) where
  sortBy : (α → α → Ordering) → List α → Option (List α)
  total : ∀ cmp l, TotalOn cmp l → ∃ out, sortBy cmp l = some out ∧ StableSort cmp l out

def SortBy.strict : SortBy α where
  sortBy cmp l := if TotalOn cmp l then some (byComparator cmp l) else none
  total cmp l h := ⟨byComparator cmp l, if_pos h, stableSort_byComparator h⟩

end Rustils.Lib.Sorting
