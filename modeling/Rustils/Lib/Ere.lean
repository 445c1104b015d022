import Mathlib.Algebra.BigOperators.Group.List.Basic
import Mathlib.Algebra.GroupWithZero.Nat
import Mathlib.Data.List.MinMax

namespace Rustils.Lib.Ere

inductive Expr
  | empty
  | char (c : Char)
  | any
  | oneOf (negated : Bool) (cs : List Char)
  | start
  | finish
  | group (a : Expr)
  | seq (a b : Expr)
  | alt (a b : Expr)
  | star (a : Expr)
  | plus (a : Expr)
  | opt (a : Expr)
  deriving DecidableEq

inductive Iterated (matched : List Char → List Char → List Char → Prop) :
    List Char → List Char → List Char → Prop
  | nil (before after : List Char) : Iterated matched before [] after
  | cons {before u v after : List Char} (h : matched before u (v ++ after))
      (rest : Iterated matched (before ++ u) v after) : Iterated matched before (u ++ v) after

def Matches : Expr → List Char → List Char → List Char → Prop
  | .empty, _, w, _ => w = []
  | .char c, _, w, _ => w = [c]
  | .any, _, w, _ => ∃ c, w = [c]
  | .oneOf negated cs, _, w, _ => ∃ c, w = [c] ∧ (c ∈ cs ↔ negated = false)
  | .start, before, w, _ => before = [] ∧ w = []
  | .finish, _, w, after => w = [] ∧ after = []
  | .group a, before, w, after => Matches a before w after
  | .seq a b, before, w, after =>
    ∃ u v, w = u ++ v ∧ Matches a before u (v ++ after) ∧ Matches b (before ++ u) v after
  | .alt a b, before, w, after => Matches a before w after ∨ Matches b before w after
  | .star a, before, w, after => Iterated (Matches a) before w after
  | .plus a, before, w, after =>
    ∃ u v, w = u ++ v ∧ Matches a before u (v ++ after) ∧ Iterated (Matches a) (before ++ u) v after
  | .opt a, before, w, after => w = [] ∨ Matches a before w after

def Search (e : Expr) (text : List Char) : Prop :=
  ∃ before w after, text = before ++ w ++ after ∧ Matches e before w after

section Decide

def splits : List Char → List (List Char × List Char)
  | [] => [([], [])]
  | c :: w => ([], c :: w) :: (splits w).map fun (u, v) => (c :: u, v)

def anySplit (p : List Char → List Char → Bool) (w : List Char) : Bool := (splits w).any fun s => p s.1 s.2

def iterates (matched : List Char → List Char → List Char → Bool) : ℕ → List Char → List Char → List Char → Bool
  | 0, _, w, _ => w.isEmpty
  | n + 1, before, w, after =>
    w.isEmpty || anySplit (fun u v =>
      !u.isEmpty && matched before u (v ++ after) && iterates matched n (before ++ u) v after) w

def isMatch : Expr → List Char → List Char → List Char → Bool
  | .empty, _, w, _ => w.isEmpty
  | .char c, _, w, _ => w = [c]
  | .any, _, w, _ => w.length = 1
  | .oneOf negated cs, _, w, _ =>
    match w with
    | [c] => cs.contains c != negated
    | _ => false
  | .start, before, w, _ => before.isEmpty && w.isEmpty
  | .finish, _, w, after => w.isEmpty && after.isEmpty
  | .group a, before, w, after => isMatch a before w after
  | .seq a b, before, w, after =>
    anySplit (fun u v => isMatch a before u (v ++ after) && isMatch b (before ++ u) v after) w
  | .alt a b, before, w, after => isMatch a before w after || isMatch b before w after
  | .star a, before, w, after => iterates (isMatch a) w.length before w after
  | .plus a, before, w, after =>
    anySplit (fun u v =>
      isMatch a before u (v ++ after) && iterates (isMatch a) v.length (before ++ u) v after) w
  | .opt a, before, w, after => w.isEmpty || isMatch a before w after

variable {u v w before after : List Char}

theorem mem_splits : (u, v) ∈ splits w ↔ w = u ++ v := by
  induction w generalizing u with
  | nil => simp [splits, eq_comm]
  | cons c w ih =>
    rw [splits, List.mem_cons, List.mem_map]
    constructor
    · rintro (h | ⟨⟨u', v'⟩, hmem, h⟩)
      · obtain ⟨rfl, rfl⟩ := Prod.mk.inj h
        rfl
      · obtain ⟨rfl, rfl⟩ := Prod.mk.inj h
        rw [ih.mp hmem, List.cons_append]
    · intro h
      cases u with
      | nil => exact .inl (by rw [h]; rfl)
      | cons d u =>
        obtain ⟨rfl, hw⟩ := List.cons.inj h
        exact .inr ⟨(u, v), ih.mpr hw, rfl⟩

theorem anySplit_iff {p : List Char → List Char → Bool} : anySplit p w ↔ ∃ u v, w = u ++ v ∧ p u v := by
  rw [anySplit, List.any_eq_true]
  constructor
  · rintro ⟨⟨u, v⟩, hmem, h⟩
    exact ⟨u, v, mem_splits.mp hmem, h⟩
  · rintro ⟨u, v, hw, h⟩
    exact ⟨(u, v), mem_splits.mpr hw, h⟩

theorem iterates_iff {matched : List Char → List Char → List Char → Bool} {n : ℕ} (hn : w.length ≤ n) :
    iterates matched n before w after ↔ Iterated (fun b u a => matched b u a) before w after := by
  constructor
  · intro h
    induction n generalizing before w with
    | zero =>
      obtain rfl := List.isEmpty_iff.mp h
      exact .nil before after
    | succ n ih =>
      rw [iterates, Bool.or_eq_true, anySplit_iff] at h
      obtain hnil | ⟨u, v, rfl, h⟩ := h
      · obtain rfl := List.isEmpty_iff.mp hnil
        exact .nil before after
      · simp only [Bool.and_eq_true, Bool.not_eq_true', List.isEmpty_eq_false_iff] at h
        obtain ⟨⟨hu, hm⟩, hrest⟩ := h
        have hpos := List.length_pos_of_ne_nil hu
        rw [List.length_append] at hn
        exact .cons hm (ih (by omega) hrest)
  · intro h
    induction h generalizing n with
    | nil => cases n <;> rfl
    | @cons before u v after hm rest ih =>
      obtain rfl | hu := eq_or_ne u []
      · rw [List.append_nil] at ih
        exact ih hn
      · have hpos := List.length_pos_of_ne_nil hu
        rw [List.length_append] at hn
        obtain ⟨n, rfl⟩ : ∃ m, n = m + 1 := ⟨n - 1, by omega⟩
        rw [iterates, Bool.or_eq_true, anySplit_iff]
        refine .inr ⟨u, v, rfl, ?_⟩
        simp only [Bool.and_eq_true, Bool.not_eq_true', List.isEmpty_eq_false_iff]
        exact ⟨⟨hu, hm⟩, ih (by omega)⟩

theorem isMatch_iff {e : Expr} : isMatch e before w after ↔ Matches e before w after := by
  induction e generalizing before w after with
  | empty => exact List.isEmpty_iff
  | char c => exact decide_eq_true_iff
  | any => rw [isMatch, decide_eq_true_iff, List.length_eq_one_iff, Matches]
  | oneOf negated cs =>
    unfold isMatch
    split
    · next c => cases negated <;> simp [Matches]
    · next h =>
      refine iff_of_false Bool.false_ne_true ?_
      rintro ⟨c, rfl, -⟩
      exact h c rfl
  | start => simp [isMatch, Matches]
  | finish => simp [isMatch, Matches]
  | group a ih => exact ih
  | seq a b iha ihb =>
    rw [isMatch, anySplit_iff, Matches]
    simp only [Bool.and_eq_true, iha, ihb]
  | alt a b iha ihb => rw [isMatch, Bool.or_eq_true, iha, ihb, Matches]
  | star a ih =>
    rw [isMatch, iterates_iff (Nat.le_refl _), Matches]
    simp only [ih]
  | plus a ih =>
    rw [isMatch, anySplit_iff, Matches]
    simp only [Bool.and_eq_true, iterates_iff (Nat.le_refl _), ih]
  | opt a ih => rw [isMatch, Bool.or_eq_true, ih, List.isEmpty_iff, Matches]

instance (e : Expr) (before w after : List Char) : Decidable (Matches e before w after) :=
  decidable_of_iff _ isMatch_iff

instance (e : Expr) (text : List Char) : Decidable (Search e text) :=
  decidable_of_iff (anySplit (fun before rest =>
      anySplit (fun w after => decide (Matches e before w after)) rest) text) <| by
    simp only [anySplit_iff, decide_eq_true_eq, Search]
    constructor
    · rintro ⟨before, _, rfl, w, after, rfl, h⟩
      exact ⟨before, w, after, (List.append_assoc before w after).symm, h⟩
    · rintro ⟨before, w, after, rfl, h⟩
      exact ⟨before, w ++ after, List.append_assoc before w after, w, after, rfl, h⟩

end Decide

def inSequence : List Expr → Expr
  | [] => .empty
  | e :: es => .seq e (inSequence es)

def alternatives : Expr → List Expr → Expr
  | e, [] => e
  | e, e' :: es => .alt (alternatives e' es) e

def Expr.repeatable : Expr → Bool
  | .start | .finish | .star _ | .plus _ | .opt _ => false
  | _ => true

def atom (c : Char) : Option Expr :=
  if c = '.' then some .any else if c = '^' then some .start else if c = '$' then some .finish else none

def repetition (c : Char) : Option (Expr → Expr) :=
  if c = '*' then some .star else if c = '+' then some .plus else if c = '?' then some .opt else none

structure Frame where
  alts : List Expr
  pieces : List Expr
  deriving DecidableEq

namespace Frame

def push (f : Frame) (e : Expr) : Frame := ⟨f.alts, e :: f.pieces⟩

def branch (f : Frame) : Option Expr := if f.pieces = [] then none else some (inSequence f.pieces.reverse)

def next (f : Frame) : Option Frame := f.branch.map fun e => ⟨e :: f.alts, []⟩

def close (f : Frame) : Option Expr := f.branch.map fun e => alternatives e f.alts

def repeated (f : Frame) (op : Expr → Expr) : Option Frame :=
  match f.pieces with
  | [] => none
  | e :: es => if e.repeatable then some ⟨f.alts, op e :: es⟩ else none

end Frame

inductive Mode
  | plain
  | escaped
  | bracket (negated : Bool) (cs : List Char)
  deriving DecidableEq

structure State where
  mode : Mode
  top : Frame
  around : List Frame
  deriving DecidableEq

def specials : List Char := ['^', '.', '[', '$', '(', ')', '|', '*', '+', '?', '{', '\\']

namespace State

def push (s : State) (e : Expr) : State := ⟨.plain, s.top.push e, s.around⟩

def withTop (s : State) (top : Option Frame) : Option State := top.map fun f => ⟨.plain, f, s.around⟩

def close (s : State) : Option State :=
  match s.around with
  | [] => some (s.push (.char ')'))
  | f :: fs => s.top.close.map fun e => ⟨.plain, f.push (.group e), fs⟩

def plain (s : State) (c : Char) : Option State :=
  match atom c, repetition c with
  | some e, _ => some (s.push e)
  | none, some op => s.withTop (s.top.repeated op)
  | none, none =>
    if c = '\\' then some ⟨.escaped, s.top, s.around⟩
    else if c = '[' then some ⟨.bracket false [], s.top, s.around⟩
    else if c = '|' then s.withTop s.top.next
    else if c = '(' then some ⟨.plain, ⟨[], []⟩, s.top :: s.around⟩
    else if c = ')' then s.close
    else if c = '{' then none
    else some (s.push (.char c))

def bracket (s : State) (negated : Bool) (cs : List Char) (c : Char) : Option State :=
  if c = ']' ∧ cs ≠ [] then some (s.push (.oneOf negated cs))
  else if c = '^' ∧ cs = [] ∧ negated = false then some ⟨.bracket true [], s.top, s.around⟩
  else if c = '-' ∨ c = '[' then none
  else some ⟨.bracket negated (c :: cs), s.top, s.around⟩

def step (s : State) (c : Char) : Option State :=
  match s.mode with
  | .plain => s.plain c
  | .escaped => if c ∈ specials then some (s.push (.char c)) else none
  | .bracket negated cs => s.bracket negated cs c

def steps : State → List Char → Option State
  | s, [] => some s
  | s, c :: cs => (s.step c).bind (steps · cs)

def result (s : State) : Option Expr := if s.mode = .plain ∧ s.around = [] then s.top.close else none

end State

def read (text : List Char) : Option Expr := ((⟨.plain, ⟨[], []⟩, []⟩ : State).steps text).bind State.result

example : read "^(a|.)+b$".toList = some (.seq .start (.seq (.plus (.group (.alt (.seq (.char 'a') .empty) (.seq .any .empty))))
    (.seq (.char 'b') (.seq .finish .empty)))) := by decide

section Shrink

variable (weigh : Char → ℕ) (top : ℕ)

def heaviest (cs : List Char) : ℕ := (cs.map weigh).foldr max 0

def Expr.weight : Expr → ℕ
  | .char c => weigh c
  | .oneOf negated cs => if negated then top else heaviest weigh cs
  | .group a => a.weight
  | .seq a b => a.weight + b.weight
  | .alt a b => a.weight + b.weight
  | .star a => a.weight
  | .plus a => a.weight
  | .opt a => a.weight
  | _ => 0

structure Shrinks (z : Char) (kept : Char → Prop) (w w' : List Char) : Prop where
  nil : w' = [] ↔ w = []
  kept : (∃ c ∈ w, kept c) → ∃ c ∈ w', kept c
  mem : ∀ c ∈ w', c ∈ w ∨ c = z

variable {z : Char} {kept : Char → Prop} {w w' before after : List Char}

theorem Shrinks.refl (w : List Char) : Shrinks z kept w w := ⟨Iff.rfl, id, fun _ => .inl⟩

theorem Shrinks.append {v v' : List Char} (h : Shrinks z kept w w') (h' : Shrinks z kept v v') :
    Shrinks z kept (w ++ v) (w' ++ v') := by
  constructor
  · rw [List.append_eq_nil_iff, List.append_eq_nil_iff, h.nil, h'.nil]
  · rintro ⟨c, hc, hk⟩
    obtain hc | hc := List.mem_append.mp hc
    · obtain ⟨d, hd, hdk⟩ := h.kept ⟨c, hc, hk⟩
      exact ⟨d, List.mem_append_left v' hd, hdk⟩
    · obtain ⟨d, hd, hdk⟩ := h'.kept ⟨c, hc, hk⟩
      exact ⟨d, List.mem_append_right w' hd, hdk⟩
  · intro c hc
    obtain hc | hc := List.mem_append.mp hc
    · exact (h.mem c hc).imp_left (List.mem_append_left v)
    · exact (h'.mem c hc).imp_left (List.mem_append_right w)

theorem Shrinks.replaced (hz : kept z) (hw : w ≠ []) : Shrinks z kept w [z] :=
  ⟨iff_of_false (List.cons_ne_nil z []) hw, fun _ => ⟨z, List.mem_singleton_self z, hz⟩,
    fun _ hc => .inr (List.mem_singleton.mp hc)⟩

theorem Shrinks.of_pick {x y : List Char} {u : List Char} (h : Shrinks z kept u w') (hne : u ≠ [])
    (hk : (∃ c ∈ x ++ u ++ y, kept c) → ∃ c ∈ u, kept c) : Shrinks z kept (x ++ u ++ y) w' := by
  constructor
  · rw [h.nil]
    exact iff_of_false hne (by simp [hne])
  · exact fun hex => h.kept (hk hex)
  · intro c hc
    exact (h.mem c hc).imp_left fun hu => List.mem_append_left y (List.mem_append_right x hu)

theorem Iterated.pick (kept : Char → Prop) {matched : List Char → List Char → List Char → Prop} (h : Iterated matched before w after) :
    w = [] ∨ ∃ x u y, w = x ++ u ++ y ∧ matched (before ++ x) u (y ++ after) ∧ u ≠ [] ∧
      ((∃ c ∈ w, kept c) → ∃ c ∈ u, kept c) := by
  induction h with
  | nil => exact .inl rfl
  | @cons before u v after h rest ih =>
    have hfirst : matched (before ++ []) u (v ++ after) := by rwa [List.append_nil]
    by_cases hu : ∃ c ∈ u, kept c
    · obtain ⟨c, hc, hck⟩ := hu
      exact .inr ⟨[], u, v, rfl, hfirst, List.ne_nil_of_mem hc, fun _ => ⟨c, hc, hck⟩⟩
    · obtain rfl | ⟨x, u', y, rfl, hm, hne, hk⟩ := ih
      · rw [List.append_nil]
        by_cases hnil : u = []
        · exact .inl hnil
        · exact .inr ⟨[], u, [], by simp, hfirst, hnil, id⟩
      · refine .inr ⟨u ++ x, u', y, by simp, by rwa [← List.append_assoc], hne, ?_⟩
        rintro ⟨c, hc, hck⟩
        obtain hc | hc := List.mem_append.mp hc
        · exact absurd ⟨c, hc, hck⟩ hu
        · exact hk ⟨c, hc, hck⟩

theorem exists_small (hz : weigh z = 0) (hzk : kept z) (htop : ∀ c, weigh c ≤ top) {e : Expr}
    (h : Matches e before w after) :
    ∃ w', Shrinks z kept w w' ∧ (w'.map weigh).sum ≤ e.weight weigh top ∧
      ∀ before' after', (before = [] → before' = []) → (after = [] → after' = []) →
        Matches e before' w' after' := by
  induction e generalizing before w after with
  | empty =>
    obtain rfl : w = [] := h
    exact ⟨[], .refl [], Nat.le_refl _, fun _ _ _ _ => rfl⟩
  | char c =>
    obtain rfl : w = [c] := h
    exact ⟨[c], .refl [c], Nat.le_refl _, fun _ _ _ _ => rfl⟩
  | any =>
    obtain ⟨c, rfl⟩ := h
    exact ⟨[z], .replaced hzk (List.cons_ne_nil c []), by simp [hz], fun _ _ _ _ => ⟨z, rfl⟩⟩
  | oneOf negated cs =>
    obtain ⟨c, rfl, hc⟩ := h
    refine ⟨[c], .refl [c], ?_, fun _ _ _ _ => ⟨c, rfl, hc⟩⟩
    rw [List.map_singleton, List.sum_singleton, Expr.weight]
    split_ifs with hneg
    · exact htop c
    · have hmem : c ∈ cs := hc.mpr (Bool.eq_false_iff.mpr hneg)
      exact List.le_max_of_le' 0 (List.mem_map_of_mem hmem) (Nat.le_refl _)
  | start =>
    obtain ⟨rfl, rfl⟩ := h
    exact ⟨[], .refl [], Nat.le_refl _, fun _ _ hb _ => ⟨hb rfl, rfl⟩⟩
  | finish =>
    obtain ⟨rfl, rfl⟩ := h
    exact ⟨[], .refl [], Nat.le_refl _, fun _ _ _ ha => ⟨rfl, ha rfl⟩⟩
  | group a ih => exact ih h
  | seq a b iha ihb =>
    obtain ⟨u, v, rfl, hu, hv⟩ := h
    obtain ⟨u', hsu, hwu, hmu⟩ := iha hu
    obtain ⟨v', hsv, hwv, hmv⟩ := ihb hv
    refine ⟨u' ++ v', hsu.append hsv, ?_, fun before' after' hb ha => ⟨u', v', rfl, ?_, ?_⟩⟩
    · rw [List.map_append, List.sum_append]
      exact Nat.add_le_add hwu hwv
    · apply hmu before' _ hb
      rw [List.append_eq_nil_iff, List.append_eq_nil_iff, hsv.nil]
      exact And.imp_right ha
    · apply hmv _ after' _ ha
      rw [List.append_eq_nil_iff, List.append_eq_nil_iff, hsu.nil]
      exact And.imp_left hb
  | alt a b iha ihb =>
    obtain h | h := h
    · obtain ⟨w', hs, hw, hm⟩ := iha h
      exact ⟨w', hs, Nat.le_add_right_of_le hw, fun before' after' hb ha => .inl (hm before' after' hb ha)⟩
    · obtain ⟨w', hs, hw, hm⟩ := ihb h
      exact ⟨w', hs, Nat.le_add_left_of_le hw, fun before' after' hb ha => .inr (hm before' after' hb ha)⟩
  | star a ih =>
    obtain rfl | ⟨x, u, y, rfl, hu, hne, hk⟩ := Iterated.pick kept h
    · exact ⟨[], .refl [], Nat.zero_le _, fun before' after' _ _ => .nil before' after'⟩
    · obtain ⟨u', hs, hw, hm⟩ := ih hu
      refine ⟨u', hs.of_pick hne hk, hw, fun before' after' hb ha => ?_⟩
      rw [← List.append_nil u']
      apply Iterated.cons _ (.nil _ after')
      exact hm before' _ (fun h => hb (List.append_eq_nil_iff.mp h).1) fun h => ha (List.append_eq_nil_iff.mp h).2
  | plus a ih =>
    obtain ⟨u, v, rfl, hu, hv⟩ := h
    obtain hnil | ⟨x, u₁, y, hxy, hu₁, hne, hk⟩ := Iterated.pick kept (.cons hu hv)
    · obtain ⟨rfl, rfl⟩ := List.append_eq_nil_iff.mp hnil
      obtain ⟨u', hs, hw, hm⟩ := ih hu
      obtain rfl := hs.nil.mpr rfl
      exact ⟨[], .refl [], hw, fun before' after' hb ha => ⟨[], [], rfl, hm before' after' hb ha, .nil _ after'⟩⟩
    · obtain ⟨u', hs, hw, hm⟩ := ih hu₁
      rw [hxy] at hk ⊢
      refine ⟨u', hs.of_pick hne hk, hw, fun before' after' hb ha => ⟨u', [], by simp, ?_, .nil _ after'⟩⟩
      exact hm before' _ (fun h => hb (List.append_eq_nil_iff.mp h).1) fun h => ha (List.append_eq_nil_iff.mp h).2
  | opt a ih =>
    obtain rfl | h := h
    · exact ⟨[], .refl [], Nat.zero_le _, fun _ _ _ _ => .inl rfl⟩
    · obtain ⟨w', hs, hw, hm⟩ := ih h
      exact ⟨w', hs, hw, fun before' after' hb ha => .inr (hm before' after' hb ha)⟩

theorem search_small (hz : weigh z = 0) (hzk : kept z) (htop : ∀ c, weigh c ≤ top) {e : Expr} {text : List Char}
    (h : Search e text) :
    ∃ text', Shrinks z kept text text' ∧ (text'.map weigh).sum ≤ e.weight weigh top ∧ Search e text' := by
  obtain ⟨before, w, after, rfl, hm⟩ := h
  obtain ⟨w', hs, hw, hm'⟩ := exists_small weigh top hz hzk htop hm
  have hside : ∀ side : List Char, ∃ side', Shrinks z kept side side' ∧ (side'.map weigh).sum = 0 := by
    intro side
    obtain rfl | hside := eq_or_ne side []
    · exact ⟨[], .refl [], rfl⟩
    · exact ⟨[z], .replaced hzk hside, by simp [hz]⟩
  obtain ⟨before', hb, hbw⟩ := hside before
  obtain ⟨after', ha, haw⟩ := hside after
  refine ⟨before' ++ w' ++ after', (hb.append hs).append ha, ?_, before', w', after', rfl, ?_⟩
  · simp only [List.map_append, List.sum_append, hbw, haw]
    omega
  · exact hm' before' after' hb.nil.mpr ha.nil.mpr

end Shrink

section Steps

variable {s s' s'' : State} {c : Char} {cs text : List Char} {negated : Bool}

@[simp] theorem steps_nil : s.steps [] = some s := rfl

@[simp] theorem steps_cons : s.steps (c :: cs) = (s.step c).bind (State.steps · cs) := rfl

theorem steps_append : s.steps (cs ++ text) = (s.steps cs).bind (State.steps · text) := by
  induction cs generalizing s with
  | nil => rfl
  | cons c cs ih =>
    rw [List.cons_append, steps_cons, steps_cons, Option.bind_assoc]
    exact congrArg _ (funext fun s => ih)

theorem bracket_cases (h : s.bracket negated cs c = some s') :
    c = ']' ∧ s' = s.push (.oneOf negated cs) ∨
      c = '^' ∧ cs = [] ∧ negated = false ∧ s' = ⟨.bracket true [], s.top, s.around⟩ ∨
      s' = ⟨.bracket negated (c :: cs), s.top, s.around⟩ := by
  unfold State.bracket at h
  split_ifs at h with hclose hnot
  · exact .inl ⟨hclose.1, (Option.some.inj h).symm⟩
  · exact .inr (.inl ⟨hnot.1, hnot.2.1, hnot.2.2, (Option.some.inj h).symm⟩)
  · exact .inr (.inr (Option.some.inj h).symm)

theorem plain_ordinary (hc : c ∉ specials) : s.plain c = some (s.push (.char c)) := by
  have hne : ∀ d ∈ specials, c ≠ d := fun d hd h => hc (h ▸ hd)
  simp only [specials, List.forall_mem_cons] at hne
  simp [State.plain, atom, repetition, hne]

theorem iterated_any (before w after : List Char) : Iterated (Matches .any) before w after := by
  induction w generalizing before with
  | nil => exact .nil before after
  | cons c w ih => exact @Iterated.cons _ before [c] w after ⟨c, rfl⟩ (ih (before ++ [c]))

end Steps

section Items

variable {es es' : List Expr} {e : Expr} {before w after text : List Char}

def Expr.single : Expr → Bool
  | .char _ | .any | .oneOf _ _ => true
  | _ => false

def Takes (e : Expr) (c : Char) : Prop := Matches e [] [c] []

theorem matches_single (he : e.single = true) : Matches e before w after ↔ ∃ c, w = [c] ∧ Takes e c := by
  cases e with
  | char a =>
    constructor
    · rintro rfl
      exact ⟨a, rfl, rfl⟩
    · rintro ⟨c, rfl, h⟩
      exact h
  | any =>
    constructor
    · rintro ⟨c, rfl⟩
      exact ⟨c, rfl, c, rfl⟩
    · rintro ⟨c, rfl, -⟩
      exact ⟨c, rfl⟩
  | oneOf negated cs =>
    constructor
    · rintro ⟨c, rfl, h⟩
      exact ⟨c, rfl, c, rfl, h⟩
    · rintro ⟨c, rfl, c', hc, h⟩
      cases hc
      exact ⟨c, rfl, h⟩
  | _ => cases he

theorem matches_append : Matches (inSequence (es ++ es')) before w after ↔
    ∃ u v, w = u ++ v ∧ Matches (inSequence es) before u (v ++ after) ∧ Matches (inSequence es') (before ++ u) v after := by
  induction es generalizing before w with
  | nil =>
    constructor
    · intro h
      exact ⟨[], w, rfl, rfl, by rwa [List.append_nil]⟩
    · rintro ⟨_, v, rfl, rfl, h⟩
      rwa [List.append_nil] at h
  | cons e es ih =>
    simp only [List.cons_append, inSequence, Matches, ih]
    constructor
    · rintro ⟨u, _, rfl, hu, v, v', rfl, hv, hv'⟩
      refine ⟨u ++ v, v', (List.append_assoc u v v').symm, ⟨u, v, rfl, ?_, hv⟩, ?_⟩
      · rwa [List.append_assoc] at hu
      · rwa [← List.append_assoc]
    · rintro ⟨_, v', rfl, ⟨u, v, rfl, hu, hv⟩, hv'⟩
      refine ⟨u, v ++ v', List.append_assoc u v v', ?_, v, v', rfl, hv, ?_⟩
      · rwa [List.append_assoc]
      · rwa [List.append_assoc]

theorem matches_items (hes : ∀ e ∈ es, e.single = true) :
    Matches (inSequence es) before w after ↔ List.Forall₂ Takes es w := by
  induction es generalizing before w with
  | nil => exact List.forall₂_nil_left_iff.symm
  | cons e es ih =>
    obtain ⟨he, hes⟩ := List.forall_mem_cons.mp hes
    simp only [inSequence, Matches, matches_single he, ih hes]
    rw [List.forall₂_cons_left_iff]
    constructor
    · rintro ⟨_, v, rfl, ⟨c, rfl, hc⟩, hv⟩
      exact ⟨c, v, hc, hv, rfl⟩
    · rintro ⟨c, v, hc, hv, rfl⟩
      exact ⟨[c], v, rfl, ⟨c, rfl, hc⟩, hv⟩

theorem search_items {a b : List Expr} (ha : a = [] ∨ a = [.start]) (hb : b = [] ∨ b = [.finish])
    (hes : ∀ e ∈ es, e.single = true) (hlen : text.length = es.length) :
    Search (inSequence (a ++ es ++ b)) text ↔ List.Forall₂ Takes es text := by
  constructor
  · rintro ⟨before, w, after, rfl, h⟩
    obtain ⟨_, v, rfl, h, -⟩ := matches_append.mp h
    obtain ⟨x, u, rfl, -, h⟩ := matches_append.mp h
    have hu := (matches_items hes).mp h
    have hlen' := hu.length_eq
    simp only [List.length_append] at hlen
    have hnil {l : List Char} (hl : l.length = 0) : l = [] := List.length_eq_zero_iff.mp hl
    rw [hnil (show before.length = 0 by omega), hnil (show x.length = 0 by omega), hnil (show v.length = 0 by omega),
      hnil (show after.length = 0 by omega)]
    simpa using hu
  · intro h
    refine ⟨[], text, [], by simp, matches_append.mpr ⟨text, [], by simp, ?_, ?_⟩⟩
    · refine matches_append.mpr ⟨[], text, rfl, ?_, (matches_items hes).mpr h⟩
      obtain rfl | rfl := ha
      · rfl
      · exact ⟨[], [], rfl, ⟨rfl, rfl⟩, rfl⟩
    · obtain rfl | rfl := hb
      · rfl
      · exact ⟨[], [], rfl, ⟨rfl, rfl⟩, rfl⟩

end Items

section Weight

variable (weigh : Char → ℕ) (top : ℕ)

def Frame.weight (f : Frame) : ℕ :=
  (f.alts.map (Expr.weight weigh top)).sum + (f.pieces.map (Expr.weight weigh top)).sum

def State.weight (s : State) : ℕ := s.top.weight weigh top + (s.around.map (Frame.weight weigh top)).sum

variable {weigh top} {f f' : Frame} {s s' : State} {e : Expr} {c : Char}

theorem inSequence_weight (es : List Expr) :
    (inSequence es).weight weigh top = (es.map (Expr.weight weigh top)).sum := by
  induction es with
  | nil => rfl
  | cons e es ih => rw [inSequence, Expr.weight, ih, List.map_cons, List.sum_cons]

theorem alternatives_weight (e : Expr) (es : List Expr) :
    (alternatives e es).weight weigh top = (es.map (Expr.weight weigh top)).sum + e.weight weigh top := by
  induction es generalizing e with
  | nil => exact (Nat.zero_add _).symm
  | cons e' es ih =>
    rw [alternatives, Expr.weight, ih, List.map_cons, List.sum_cons]
    omega

theorem branch_weight (h : f.branch = some e) :
    e.weight weigh top = (f.pieces.map (Expr.weight weigh top)).sum := by
  unfold Frame.branch at h
  split_ifs at h
  rw [← Option.some.inj h, inSequence_weight, List.map_reverse, List.sum_reverse]

theorem frame_close_weight (h : f.close = some e) : e.weight weigh top = f.weight weigh top := by
  obtain ⟨e', he', rfl⟩ := Option.map_eq_some_iff.mp h
  rw [alternatives_weight, branch_weight he', Frame.weight]

theorem next_weight (h : f.next = some f') : f'.weight weigh top = f.weight weigh top := by
  obtain ⟨e, he, rfl⟩ := Option.map_eq_some_iff.mp h
  simp only [Frame.weight, List.map_cons, List.sum_cons, List.map_nil, List.sum_nil, branch_weight he]
  omega

theorem repeated_weight {op : Expr → Expr} (hop : ∀ e, (op e).weight weigh top = e.weight weigh top)
    (h : f.repeated op = some f') : f'.weight weigh top = f.weight weigh top := by
  unfold Frame.repeated at h
  split at h
  · cases h
  · next e es hpieces =>
    split_ifs at h
    rw [← Option.some.inj h, Frame.weight, Frame.weight, hpieces, List.map_cons, List.map_cons, hop]

theorem push_weight (s : State) (e : Expr) :
    (s.push e).weight weigh top = s.weight weigh top + e.weight weigh top := by
  simp only [State.weight, State.push, Frame.push, Frame.weight, List.map_cons, List.sum_cons]
  omega

theorem close_mode (h : s.close = some s') : s'.mode = .plain := by
  unfold State.close at h
  split at h
  · rw [← Option.some.inj h]
    rfl
  · obtain ⟨e, -, rfl⟩ := Option.map_eq_some_iff.mp h
    rfl

theorem close_weight (h : s.close = some s') : s'.weight weigh top ≤ s.weight weigh top + weigh ')' := by
  unfold State.close at h
  split at h
  · obtain rfl := Option.some.inj h
    exact (push_weight s _).le
  · next g gs haround =>
    obtain ⟨e, he, rfl⟩ := Option.map_eq_some_iff.mp h
    simp only [State.weight, Frame.push, Frame.weight, haround, List.map_cons, List.sum_cons, Expr.weight,
      frame_close_weight he]
    omega

theorem atom_weight (h : atom c = some e) : e.weight weigh top = 0 := by
  unfold atom at h
  split_ifs at h <;> rw [← Option.some.inj h] <;> rfl

theorem repetition_weight {op : Expr → Expr} (h : repetition c = some op) (e : Expr) :
    (op e).weight weigh top = e.weight weigh top := by
  unfold repetition at h
  split_ifs at h <;> rw [← Option.some.inj h] <;> rfl

theorem specials_read : ∀ c ∈ specials, (atom c).isSome ∨ (repetition c).isSome ∨ c = '\\' ∨ c = '[' ∨ c = '|' ∨
    c = '(' ∨ c = ')' ∨ c = '{' := by
  simp [specials, atom, repetition]

theorem plain_weight (h : s.plain c = some s') :
    c = '\\' ∧ s' = ⟨.escaped, s.top, s.around⟩ ∨ c = '[' ∧ s' = ⟨.bracket false [], s.top, s.around⟩ ∨
      s'.mode = .plain ∧
        s'.weight weigh top ≤ s.weight weigh top + if c ∈ specials ∧ c ≠ ')' then 0 else weigh c := by
  unfold State.plain at h
  split at h
  · next e _ hatom =>
    obtain rfl := Option.some.inj h
    refine .inr (.inr ⟨rfl, ?_⟩)
    rw [push_weight, atom_weight hatom]
    exact Nat.le_add_right _ _
  · next op _ hop =>
    obtain ⟨f, hf, rfl⟩ := Option.map_eq_some_iff.mp h
    refine .inr (.inr ⟨rfl, ?_⟩)
    have hweight : f.weight weigh top = s.top.weight weigh top := repeated_weight (repetition_weight hop) hf
    exact Nat.le_add_right_of_le (Nat.add_le_add_right hweight.le _)
  · next hatom hop =>
    split_ifs at h with h₁ h₂ h₃ h₄ h₅ h₆
    · exact .inl ⟨h₁, (Option.some.inj h).symm⟩
    · exact .inr (.inl ⟨h₂, (Option.some.inj h).symm⟩)
    · obtain ⟨f, hf, rfl⟩ := Option.map_eq_some_iff.mp h
      refine .inr (.inr ⟨rfl, ?_⟩)
      exact Nat.le_add_right_of_le (Nat.add_le_add_right (next_weight hf).le _)
    · obtain rfl := Option.some.inj h
      refine .inr (.inr ⟨rfl, ?_⟩)
      simp [State.weight, Frame.weight]
    · refine .inr (.inr ⟨(close_mode h), ?_⟩)
      rw [if_neg (by simp [h₅]), h₅]
      exact close_weight h
    · obtain rfl := Option.some.inj h
      refine .inr (.inr ⟨rfl, ?_⟩)
      rw [push_weight, Expr.weight, if_neg]
      rintro ⟨hc, -⟩
      have hspecial := specials_read c hc
      simp [hatom, hop, h₁, h₂, h₃, h₄, h₅, h₆] at hspecial

end Weight

end Rustils.Lib.Ere
