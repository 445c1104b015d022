import Mathlib.Data.List.Forall2
import Rustils.Lib.Ere

namespace Rustils.Lib.CaseFold

open Ere List

structure Letters where
  lower : Char → List Char
  variants : Char → List Char
  mem_variants : ∀ {c d}, d ∈ variants c ↔ lower c = lower d

def fold (L : Letters) : Expr → Expr
  | .char c => .oneOf false (L.variants c)
  | .oneOf negated cs =>
    if negated then .oneOf true (cs.filter fun c => (L.variants c).all (· ∈ cs)) else .oneOf false (cs.flatMap L.variants)
  | .group a => .group (fold L a)
  | .seq a b => .seq (fold L a) (fold L b)
  | .alt a b => .alt (fold L a) (fold L b)
  | .star a => .star (fold L a)
  | .plus a => .plus (fold L a)
  | .opt a => .opt (fold L a)
  | e => e

abbrev Placed := List Char → List Char → List Char → Prop

def InOrder (M N : Placed) : Placed := fun before w after =>
  ∃ u v, w = u ++ v ∧ M before u (v ++ after) ∧ N (before ++ u) v after

/-- Of what stands around a word only matters whether it is empty. -/
def Positional (M : Placed) : Prop :=
  ∀ ⦃before w after before' after'⦄, M before w after → (before = [] ↔ before' = []) → (after = [] ↔ after' = []) →
    M before' w after'

theorem append_nil_congr {u u' v v' : List Char} (hu : u = [] ↔ u' = []) (hv : v = [] ↔ v' = []) :
    u ++ v = [] ↔ u' ++ v' = [] := by
  rw [append_eq_nil_iff, append_eq_nil_iff, hu, hv]

section Positional

variable {M N : Placed} (hM : Positional M)

include hM

theorem Positional.inOrder (hN : Positional N) : Positional (InOrder M N) := by
  rintro before w after before' after' ⟨u, v, rfl, hu, hv⟩ hb ha
  exact ⟨u, v, rfl, hM hu hb (append_nil_congr Iff.rfl ha), hN hv (append_nil_congr hb Iff.rfl) ha⟩

theorem Positional.iterated : Positional (Iterated M) := by
  intro before w after before' after' h hb ha
  induction h generalizing before' with
  | nil => exact .nil _ _
  | cons h _ ih => exact .cons (hM h hb (append_nil_congr Iff.rfl ha)) (ih (append_nil_congr hb Iff.rfl) ha)

end Positional

theorem positional_matches (e : Expr) : Positional (Matches e) := by
  induction e with
  | empty => exact fun _ _ _ _ _ h _ _ => h
  | char c => exact fun _ _ _ _ _ h _ _ => h
  | any => exact fun _ _ _ _ _ h _ _ => h
  | oneOf negated cs => exact fun _ _ _ _ _ h _ _ => h
  | start => exact fun _ _ _ _ _ h hb _ => ⟨hb.mp h.1, h.2⟩
  | finish => exact fun _ _ _ _ _ h _ ha => ⟨h.1, ha.mp h.2⟩
  | group a ih => exact ih
  | seq a b iha ihb => exact iha.inOrder ihb
  | alt a b iha ihb => exact fun _ _ _ _ _ h hb ha => h.imp (iha · hb ha) (ihb · hb ha)
  | star a ih => exact ih.iterated
  | plus a ih => exact ih.inOrder ih.iterated
  | opt a ih => exact fun _ _ _ _ _ h hb ha => h.imp_right (ih · hb ha)

variable (L : Letters)

def Letters.Same (c d : Char) : Prop := L.lower c = L.lower d

abbrev Letters.SameText : List Char → List Char → Prop := Forall₂ L.Same

variable {L}

theorem Letters.SameText.refl (w : List Char) : L.SameText w w := forall₂_same.mpr fun _ _ => rfl

theorem Letters.SameText.symm {w w' : List Char} (h : L.SameText w w') : L.SameText w' w :=
  h.flip.imp fun _ _ => Eq.symm

theorem Letters.SameText.eq_nil {w w' : List Char} (h : L.SameText w w') : w = [] ↔ w' = [] := by
  cases h <;> simp

theorem Letters.SameText.append {u u' v v' : List Char} (h : L.SameText u u') (h' : L.SameText v v') :
    L.SameText (u ++ v) (u' ++ v') := rel_append h h'

theorem Letters.SameText.of_append {w u v : List Char} (h : L.SameText w (u ++ v)) :
    ∃ u' v', w = u' ++ v' ∧ L.SameText u' u ∧ L.SameText v' v :=
  ⟨_, _, (take_append_drop _ w).symm, forall₂_take_append _ _ _ h, forall₂_drop_append _ _ _ h⟩

variable (L) in
def Folds (F M : Placed) : Prop :=
  ∀ before w after, F before w after ↔ ∃ w', L.SameText w w' ∧ M before w' after

theorem folds_char {p q : Char → Prop} (h : ∀ c, q c ↔ ∃ d, L.Same c d ∧ p d) :
    Folds L (fun _ w _ => ∃ c, w = [c] ∧ q c) fun _ w _ => ∃ c, w = [c] ∧ p c := by
  intro before w after
  constructor
  · rintro ⟨c, rfl, hc⟩
    obtain ⟨d, hcd, hd⟩ := (h c).mp hc
    exact ⟨[d], .cons hcd .nil, d, rfl, hd⟩
  · rintro ⟨_, hw, d, rfl, hd⟩
    obtain ⟨c, _, hcd, hnil, rfl⟩ := forall₂_cons_right_iff.mp hw
    obtain rfl := forall₂_nil_right_iff.mp hnil
    exact ⟨c, rfl, (h c).mpr ⟨d, hcd, hd⟩⟩

theorem folds_nil {p : List Char → List Char → Prop} :
    Folds L (fun before w after => p before after ∧ w = []) fun before w after => p before after ∧ w = [] := by
  intro before w after
  constructor
  · rintro ⟨hp, rfl⟩
    exact ⟨[], .nil, hp, rfl⟩
  · rintro ⟨_, hw, hp, rfl⟩
    exact ⟨hp, forall₂_nil_right_iff.mp hw⟩

theorem folds_empty : Folds L (fun _ w _ => w = []) fun _ w _ => w = [] := by
  simpa using folds_nil (L := L) (p := fun _ _ => True)

section Folds

variable {F G M N : Placed} (hF : Folds L F M) (hM : Positional M)

include hF

theorem Folds.or (hG : Folds L G N) : Folds L (fun b w a => F b w a ∨ G b w a) fun b w a => M b w a ∨ N b w a := by
  intro before w after
  refine (or_congr (hF before w after) (hG before w after)).trans ?_
  rw [← exists_or]
  simp only [and_or_left]

include hM

theorem Folds.positional : Positional F := by
  intro before w after before' after' h hb ha
  obtain ⟨w', hw, hm⟩ := (hF _ _ _).mp h
  exact (hF _ _ _).mpr ⟨w', hw, hM hm hb ha⟩

theorem Folds.inOrder (hG : Folds L G N) (hN : Positional N) : Folds L (InOrder F G) (InOrder M N) := by
  intro before w after
  constructor
  · rintro ⟨u, v, rfl, hu, hv⟩
    obtain ⟨u', hsu, hmu⟩ := (hF _ _ _).mp hu
    obtain ⟨v', hsv, hnv⟩ := (hG _ _ _).mp hv
    refine ⟨u' ++ v', hsu.append hsv, u', v', rfl, hM hmu Iff.rfl ?_, hN hnv ?_ Iff.rfl⟩
    · exact append_nil_congr hsv.eq_nil Iff.rfl
    · exact append_nil_congr Iff.rfl hsu.eq_nil
  · rintro ⟨_, hw, u', v', rfl, hu, hv⟩
    obtain ⟨u, v, rfl, hsu, hsv⟩ := hw.of_append
    refine ⟨u, v, rfl, (hF _ _ _).mpr ⟨u', hsu, hM hu Iff.rfl ?_⟩, (hG _ _ _).mpr ⟨v', hsv, hN hv ?_ Iff.rfl⟩⟩
    · exact append_nil_congr hsv.eq_nil.symm Iff.rfl
    · exact append_nil_congr Iff.rfl hsu.eq_nil.symm

theorem Folds.iterated : Folds L (Iterated F) (Iterated M) := by
  have hFpos : Positional F := hF.positional hM
  intro before w after
  constructor
  · intro h
    induction h with
    | nil => exact ⟨[], .nil, .nil _ _⟩
    | cons hu _ ih =>
      obtain ⟨u', hsu, hmu⟩ := (hF _ _ _).mp hu
      obtain ⟨v', hsv, hiv⟩ := ih
      refine ⟨u' ++ v', hsu.append hsv, .cons (hM hmu Iff.rfl ?_) (hM.iterated hiv ?_ Iff.rfl)⟩
      · exact append_nil_congr hsv.eq_nil Iff.rfl
      · exact append_nil_congr Iff.rfl hsu.eq_nil
  · rintro ⟨w', hw, h⟩
    induction h generalizing w with
    | nil =>
      rw [forall₂_nil_right_iff.mp hw]
      exact .nil _ _
    | cons hu _ ih =>
      obtain ⟨u, v, rfl, hsu, hsv⟩ := hw.of_append
      refine .cons ((hF _ _ _).mpr ⟨_, hsu, hM hu Iff.rfl ?_⟩) (hFpos.iterated (ih v hsv) ?_ Iff.rfl)
      · exact append_nil_congr hsv.eq_nil.symm Iff.rfl
      · exact append_nil_congr Iff.rfl hsu.eq_nil.symm

end Folds

theorem folds_any : Folds L (Matches .any) (Matches .any) := by
  have h := folds_char (L := L) (p := fun _ => True) (q := fun _ => True) fun c => by simpa using ⟨c, rfl⟩
  simpa [Matches] using h

theorem folds_finish : Folds L (Matches .finish) (Matches .finish) := by
  simpa [Matches, and_comm] using folds_nil (L := L) (p := fun _ after => after = [])

theorem folds_matches (e : Expr) : Folds L (Matches (fold L e)) (Matches e) := by
  induction e with
  | empty => exact folds_empty
  | char c =>
    have h := folds_char (L := L) (p := (· = c)) (q := (· ∈ L.variants c)) fun d => by simp [Letters.Same, L.mem_variants, eq_comm]
    simpa [fold, Matches] using h
  | any => exact folds_any
  | oneOf negated cs =>
    have hmem {c d : Char} : c ∈ L.variants d ↔ L.Same c d := L.mem_variants.trans eq_comm
    cases negated with
    | false =>
      apply folds_char
      intro c
      simp [hmem, and_comm]
    | true =>
      apply folds_char
      intro c
      simp only [mem_filter, all_eq_true, decide_eq_true_eq, hmem, Bool.true_eq_false, iff_false]
      constructor
      · intro h
        by_contra hno
        push Not at hno
        exact h ⟨hno c rfl, fun d hd => hno d hd.symm⟩
      · rintro ⟨d, hd, hnot⟩ ⟨-, hall⟩
        exact hnot (hall d hd.symm)
  | start => exact folds_nil
  | finish => exact folds_finish
  | group a ih => exact ih
  | seq a b iha ihb => exact iha.inOrder (positional_matches a) ihb (positional_matches b)
  | alt a b iha ihb => exact iha.or ihb
  | star a ih => exact ih.iterated (positional_matches a)
  | plus a ih => exact ih.inOrder (positional_matches a) (ih.iterated (positional_matches a)) (positional_matches a).iterated
  | opt a ih => exact folds_empty.or ih

theorem search_fold {e : Expr} {text : List Char} :
    Search (fold L e) text ↔ ∃ text', L.SameText text text' ∧ Search e text' := by
  constructor
  · rintro ⟨before, w, after, rfl, h⟩
    obtain ⟨w', hw, hm⟩ := (folds_matches e _ _ _).mp h
    exact ⟨before ++ w' ++ after, ((Letters.SameText.refl _).append hw).append (.refl _), before, w', after, rfl, hm⟩
  · rintro ⟨_, ht, before, w, after, rfl, h⟩
    obtain ⟨_, after', rfl, hfront, hafter⟩ := ht.of_append
    obtain ⟨before', w', rfl, hbefore, hw⟩ := hfront.of_append
    refine ⟨before', w', after', rfl, (folds_matches e _ _ _).mpr ⟨w, hw, ?_⟩⟩
    exact positional_matches e h hbefore.eq_nil.symm hafter.eq_nil.symm

theorem closed_iff_fold {e : Expr} {T : List Char → Prop} (hT : ∀ {text text'}, L.SameText text text' → T text → T text') :
    (∀ text text', T text → T text' → L.SameText text text' → Search e text' → Search e text) ↔
      ∀ text, T text → Search (fold L e) text → Search e text := by
  simp only [search_fold]
  constructor
  · rintro h text ht ⟨text', hs, hf⟩
    exact h text text' ht (hT hs ht) hs hf
  · intro h text text' ht _ hs hf
    exact h text ht ⟨text', hs, hf⟩

variable (L) in
def Blind : Expr → Prop
  | .char c => ∀ d, L.Same c d → d = c
  | .oneOf _ cs => ∀ c d, L.Same c d → c ∈ cs → d ∈ cs
  | .seq a b | .alt a b => Blind a ∧ Blind b
  | .group a | .star a | .plus a | .opt a => Blind a
  | _ => True

theorem folds_blind {e : Expr} (h : Blind L e) : Folds L (Matches e) (Matches e) := by
  induction e with
  | empty => exact folds_empty
  | char c =>
    have hchar := folds_char (L := L) (p := (· = c)) (q := (· = c)) fun d => by
      constructor
      · rintro rfl
        exact ⟨d, rfl, rfl⟩
      · rintro ⟨_, hd, rfl⟩
        exact h d hd.symm
    simpa [Matches] using hchar
  | any => exact folds_any
  | oneOf negated cs =>
    apply folds_char
    intro c
    constructor
    · intro hc
      exact ⟨c, rfl, hc⟩
    · rintro ⟨d, hcd, hd⟩
      rw [← hd]
      exact ⟨h c d hcd, h d c hcd.symm⟩
  | start => exact folds_nil
  | finish => exact folds_finish
  | group a ih => exact ih h
  | seq a b iha ihb => exact (iha h.1).inOrder (positional_matches a) (ihb h.2) (positional_matches b)
  | alt a b iha ihb => exact (iha h.1).or (ihb h.2)
  | star a ih => exact (ih h).iterated (positional_matches a)
  | plus a ih =>
    exact (ih h).inOrder (positional_matches a) ((ih h).iterated (positional_matches a)) (positional_matches a).iterated
  | opt a ih => exact folds_empty.or (ih h)

theorem search_blind {e : Expr} (h : Blind L e) {text : List Char} (hfound : Search (fold L e) text) : Search e text := by
  obtain ⟨before, w, after, rfl, hm⟩ := hfound
  obtain ⟨w', hw, hm⟩ := (folds_matches e _ _ _).mp hm
  exact ⟨before, w, after, rfl, (folds_blind h _ _ _).mpr ⟨w', hw, hm⟩⟩

theorem blind_single {e : Expr} (he : e.single = true) :
    Blind L e ↔ ∀ c d, L.Same c d → Takes e c → Takes e d := by
  cases e with
  | char c =>
    constructor
    · intro h d d' hd hc
      obtain rfl : d = c := by simpa [Takes, Matches] using hc
      exact congrArg (fun x => [x]) (h d' hd)
    · intro h d hd
      simpa [Takes, Matches] using h c d hd rfl
  | any => exact iff_of_true trivial fun _ d _ _ => ⟨d, rfl⟩
  | oneOf negated cs =>
    cases negated with
    | false => simp [Blind, Takes, Matches]
    | true =>
      simp only [Blind, Takes, Matches, List.cons.injEq, and_true, exists_eq_left', Bool.true_eq_false, iff_false]
      constructor
      · exact fun h c d hd hc hdc => hc (h d c hd.symm hdc)
      · exact fun h c d hd hc => not_not.mp fun hdc => h d c hd.symm hdc hc
  | _ => cases he

theorem exists_taken {es : List Expr} {ok : Char → Prop} (h : ∀ e ∈ es, ∃ c, ok c ∧ Takes e c) :
    ∃ w, (∀ c ∈ w, ok c) ∧ Forall₂ Takes es w := by
  induction es with
  | nil => exact ⟨[], nofun, .nil⟩
  | cons e es ih =>
    obtain ⟨⟨c, hc, hce⟩, h⟩ := forall_mem_cons.mp h
    obtain ⟨w, hw, hes⟩ := ih h
    exact ⟨c :: w, forall_mem_cons.mpr ⟨hc, hw⟩, .cons hce hes⟩

theorem blind_of_fold {a es b : List Expr} (ha : a = [] ∨ a = [.start]) (hb : b = [] ∨ b = [.finish])
    (hes : ∀ e ∈ es, e.single = true) {ok : Char → Prop} (hok : ∀ {c d}, L.Same c d → c ≠ d → ok c)
    (hoffer : ∀ e ∈ es, ∃ c, ok c ∧ Takes e c)
    (h : ∀ text, (∀ c ∈ text, ok c) → Search (fold L (inSequence (a ++ es ++ b))) text → Search (inSequence (a ++ es ++ b)) text) :
    ∀ e ∈ es, Blind L e := by
  intro e he
  apply (blind_single (hes e he)).mpr
  intro c d hcd hc
  by_cases hne : c = d
  · rwa [← hne]
  obtain ⟨x, y, rfl⟩ := append_of_mem he
  simp only [forall_mem_append, forall_mem_cons] at hoffer
  obtain ⟨u, hu, hx⟩ := exists_taken hoffer.1
  obtain ⟨v, hv, hy⟩ := exists_taken hoffer.2.2
  have hlen (k : Char) : (u ++ k :: v).length = (x ++ e :: y).length := by
    simp [hx.length_eq, hy.length_eq]
  have hsame : L.SameText (u ++ d :: v) (u ++ c :: v) :=
    (Letters.SameText.refl u).append (.cons hcd.symm (Letters.SameText.refl v))
  have hfound : Search (inSequence (a ++ (x ++ e :: y) ++ b)) (u ++ c :: v) :=
    (search_items ha hb hes (hlen c)).mpr (rel_append hx (.cons hc hy))
  have hline : ∀ k ∈ u ++ d :: v, ok k :=
    forall_mem_append.mpr ⟨hu, forall_mem_cons.mpr ⟨hok hcd.symm (Ne.symm hne), hv⟩⟩
  have hplaces := (search_items ha hb hes (hlen d)).mp (h _ hline (search_fold.mpr ⟨_, hsame, hfound⟩))
  have hrest := forall₂_drop_append _ _ _ hplaces
  rw [← hx.length_eq, drop_left] at hrest
  exact (forall₂_cons.mp hrest).1

theorem blind_inSequence {es : List Expr} : Blind L (inSequence es) ↔ ∀ e ∈ es, Blind L e := by
  induction es with
  | nil => simp [inSequence, Blind]
  | cons e es ih => simp [inSequence, Blind, ih]

end Rustils.Lib.CaseFold
