import Rustils.MockFs.Forest

namespace Rustils.MockFs

open Platform Lib.Trace

inductive Kind
  | other
  | dir (empty : Bool)
  deriving DecidableEq

def kindOf (nodes : Nodes) (a : Addr) : Kind :=
  match nodes a with
  | some (.dir entries) => .dir entries.isEmpty
  | _ => .other

abbrev Names := Name → Option Addr

def namesOf (nodes : Nodes) (dir : Addr) : Names :=
  match nodes dir with
  | some (.dir entries) => fun n => entries[n]?
  | _ => fun _ => none

def Kind.refusal : Kind → Kind → Option ErrorKind
  | .other, .other => none
  | .dir _, .dir true => none
  | .dir _, .dir false => some .directoryNotEmpty
  | .dir _, .other => some .notADirectory
  | .other, .dir _ => some .isADirectory

def moved (names : Names) (src dst : Name) (a : Addr) : Names :=
  Function.update (Function.update names src none) dst (some a)

def posixRename (nodes : Nodes) (names : Names) (src dst : Name) : Option ErrorKind × Names :=
  match names src, names dst with
  | none, _ => (some .notFound, names)
  | some a, none => (none, moved names src dst a)
  | some a, some b =>
    if a = b then (none, names)
    else
      match (kindOf nodes a).refusal (kindOf nodes b) with
      | some e => (some e, names)
      | none => (none, moved names src dst a)

def refusalOf : Result Unit → Option ErrorKind
  | .ok () => none
  | .error e => some e.kind

structure RenamesAsPosix (d : MockDir) (nodes : Nodes) (src dst : Name) : Prop where
  same : (refusalOf (d.rename nodes src dst).1, namesOf (d.rename nodes src dst).2 d.node) =
    posixRename nodes (namesOf nodes d.node) src dst
  others : ∀ a, a ≠ d.node → (d.rename nodes src dst).2 a = nodes a
  failed : ∀ e, (d.rename nodes src dst).1 = .error e → (d.rename nodes src dst).2 = nodes
  kept : ∀ n a, namesOf nodes d.node n = some a → kindOf nodes a = .dir false →
    ∃ n', namesOf (d.rename nodes src dst).2 d.node n' = some a

def GivesWay (nodes : Nodes) (names : Names) (src dst : Name) : Prop :=
  ∀ a b, names src = some a → names dst = some b →
    kindOf nodes a = .other ∧ kindOf nodes b = .other ∨ (∃ empty, kindOf nodes a = .dir empty) ∧ kindOf nodes b = .dir true

theorem namesOf_dir {nodes : Nodes} {d : Addr} {entries : Entries} (h : nodes d = some (.dir entries)) (n : Name) :
    namesOf nodes d n = entries[n]? := by
  rw [namesOf, h]

theorem refusal_none {k l : Kind} :
    k.refusal l = none ↔ k = .other ∧ l = .other ∨ (∃ empty, k = .dir empty) ∧ l = .dir true := by
  rcases k with _ | _ <;> rcases l with _ | (_ | _) <;> simp [Kind.refusal]

section Dir

variable {self : MockDir} {nodes : Nodes} {entries : Entries} (hd : nodes self.node = some (.dir entries))
  {src dst : Name}

include hd

theorem rename_absent (h : entries[src]? = none) :
    self.rename nodes src dst = (.error (err .notFound "rename" src), nodes) := by
  simp only [MockDir.rename, MockDir.renameImpl, hd, h]

theorem rename_present {a : Addr} (h : entries[src]? = some a) :
    self.rename nodes src dst =
      (.ok (), Function.update nodes self.node (some (.dir ((entries.erase src).insert dst a)))) := by
  simp only [MockDir.rename, MockDir.renameImpl, hd, h, Bool.not_true, Bool.false_and, Bool.false_eq_true, ↓reduceIte]

theorem namesOf_rename {a : Addr} (h : entries[src]? = some a) :
    namesOf (self.rename nodes src dst).2 self.node = moved (namesOf nodes self.node) src dst a := by
  funext n
  rw [rename_present hd h, namesOf_dir (Function.update_self ..), moved, Function.update_apply, Function.update_apply,
    namesOf_dir hd]
  refine Option.ext fun b => ?_
  rw [getElem?_insert, getElem?_erase]
  split_ifs with hdst hsrc
  · simp [hdst, eq_comm]
  · simp only [hsrc, ne_eq, not_true_eq_false, false_and, and_false, or_false, iff_false, not_and]
    exact fun heq => absurd (hsrc.trans heq) hdst
  · simp [hdst, hsrc]

theorem rename_kept {a : Addr} (h : entries[src]? = some a)
    (hdst : ∀ b : Addr, dst ≠ src → entries[dst]? = some b → kindOf nodes b ≠ .dir false) (n : Name) (c : Addr)
    (hn : namesOf nodes self.node n = some c) (hc : kindOf nodes c = .dir false) :
    ∃ n', namesOf (self.rename nodes src dst).2 self.node n' = some c := by
  rw [namesOf_rename hd h]
  by_cases hsrc : n = src
  · subst hsrc
    refine ⟨dst, ?_⟩
    rw [moved, Function.update_self, ← hn, namesOf_dir hd, h]
  · have hne : n ≠ dst := by
      rintro rfl
      exact hdst c hsrc ((namesOf_dir hd n).symm.trans hn) hc
    refine ⟨n, ?_⟩
    rw [moved, Function.update_of_ne hne, Function.update_of_ne hsrc]
    exact hn

theorem renamesAsPosix_of_same {a : Addr} (h : entries[src]? = some a)
    (hdst : ∀ b : Addr, dst ≠ src → entries[dst]? = some b → kindOf nodes b ≠ .dir false)
    (hposix : posixRename nodes (namesOf nodes self.node) src dst = (none, moved (namesOf nodes self.node) src dst a)) :
    RenamesAsPosix self nodes src dst where
  same := by rw [namesOf_rename hd h, rename_present hd h, hposix, refusalOf]
  others := by
    intro b hb
    rw [rename_present hd h]
    exact Function.update_of_ne hb _ _
  failed := by
    intro e he
    rw [rename_present hd h] at he
    cases he
  kept := rename_kept hd h hdst

theorem renamesAsPosix_dir (hinj : ∀ (n n' : Name) (a : Addr), entries[n]? = some a → entries[n']? = some a → n = n') :
    RenamesAsPosix self nodes src dst ↔ src = dst ∨ GivesWay nodes (namesOf nodes self.node) src dst := by
  rcases ha : entries[src]? with _ | a <;> have hsrc := (namesOf_dir hd src).trans ha
  · -- nothing to rename
    refine iff_of_true ⟨?_, ?_, ?_, ?_⟩ (.inr fun a b h => ?_)
    · rw [rename_absent hd ha, posixRename, hsrc]
      rfl
    · intro b _
      rw [rename_absent hd ha]
    · intro e _
      rw [rename_absent hd ha]
    · intro n b hn _
      rw [rename_absent hd ha]
      exact ⟨n, hn⟩
    · cases hsrc.symm.trans h
  rcases hb : entries[dst]? with _ | b <;> have hdst := (namesOf_dir hd dst).trans hb
  · refine iff_of_true (renamesAsPosix_of_same hd ha ?_ ?_) (.inr fun a' b' _ h => ?_)
    · intro b' _ h
      cases hb.symm.trans h
    · rw [posixRename, hsrc, hdst]
    · cases hdst.symm.trans h
  by_cases heq : src = dst
  · subst heq
    cases ha.symm.trans hb
    refine iff_of_true (renamesAsPosix_of_same hd ha (fun _ hne => absurd rfl hne) ?_) (.inl rfl)
    rw [posixRename, hsrc]
    simp only [↓reduceIte, moved, Function.update_idem, Prod.mk.injEq, true_and]
    rw [← hsrc, Function.update_eq_self]
  -- two entries: the mock moves, whatever stands in the way
  have hab : a ≠ b := by
    rintro rfl
    exact heq (hinj src dst a ha hb)
  have hway : GivesWay nodes (namesOf nodes self.node) src dst ↔ (kindOf nodes a).refusal (kindOf nodes b) = none := by
    rw [refusal_none]
    constructor
    · intro h
      exact h a b hsrc hdst
    · intro h a' b' ha' hb'
      cases hsrc.symm.trans ha'
      cases hdst.symm.trans hb'
      exact h
  rw [or_iff_right heq, hway]
  constructor
  · intro h
    have hsame := congrArg Prod.fst h.same
    rw [rename_present hd ha, posixRename, hsrc, hdst] at hsame
    simp only [refusalOf, if_neg hab] at hsame
    cases hr : (kindOf nodes a).refusal (kindOf nodes b) with
    | none => rfl
    | some e =>
      rw [hr] at hsame
      cases hsame
  · intro hr
    refine renamesAsPosix_of_same hd ha ?_ ?_
    · intro b' _ hb'
      cases hb.symm.trans hb'
      rcases refusal_none.mp hr with ⟨-, h⟩ | ⟨-, h⟩ <;> rw [h] <;> nofun
    · rw [posixRename, hsrc, hdst]
      simp only [if_neg hab, hr]

end Dir

theorem renamesAsPosix_iff (r : Addr) (tr : List Event) (w : World) (hrun : Run Step (.root r) tr w) (h : Handle)
    (d : MockDir) (hd : w.dirs h = some d) (src dst : Name) :
    RenamesAsPosix d w.nodes src dst ↔ src = dst ∨ GivesWay w.nodes (namesOf w.nodes d.node) src dst := by
  have hinv := inv_of_run hrun
  obtain ⟨entries, hentries⟩ := hinv.dirs h d hd
  refine renamesAsPosix_dir hentries fun n n' a hn hn' => ?_
  exact (hinv.sound.forest.parent _ _ _ _ _ ((edge_iff hentries).mpr hn) ((edge_iff hentries).mpr hn')).2

theorem renamesAsPosix_file :
    ∃ tr w, Run Step (.root 0) tr w ∧ RenamesAsPosix ⟨0⟩ w.nodes [97] [98] ∧
      (MockDir.rename ⟨0⟩ w.nodes [97] [98]).1 = .ok () := by
  have h₀ : Run Step (.root 0) [] (.root 0) := .refl
  have h₁ := run_dir h₀ 0 (.withFile [97] [1]) ⟨1, 0, 1⟩ rfl rfl rfl rfl rfl
  have h₂ := run_dir h₁ 0 (.withFile [98] [2]) ⟨2, 0, 1⟩ rfl rfl rfl rfl rfl
  refine ⟨_, _, h₂, (renamesAsPosix_iff 0 _ _ h₂ 0 ⟨0⟩ rfl [97] [98]).mpr (.inr ?_), rfl⟩
  rintro a b ⟨⟩ ⟨⟩
  exact .inl ⟨rfl, rfl⟩

theorem rename_destroys_directory :
    ∃ tr w, Run Step (.root 0) tr w ∧ (MockDir.rename ⟨0⟩ w.nodes [97] [100]).1 = .ok () ∧
      kindOf w.nodes 1 = .dir false ∧ namesOf w.nodes 0 [100] = some 1 ∧ kindOf w.nodes 3 = .other ∧
      (posixRename w.nodes (namesOf w.nodes 0) [97] [100]).1 = some .isADirectory ∧
      ¬RenamesAsPosix ⟨0⟩ w.nodes [97] [100] := by
  have h₀ : Run Step (.root 0) [] (.root 0) := .refl
  have h₁ := run_dir h₀ 0 (.createDir [100]) ⟨1, 0, 1⟩ rfl rfl rfl rfl rfl
  have h₂ := run_dir h₁ 0 (.openDir [100]) ⟨2, 0, 1⟩ rfl rfl rfl rfl rfl
  have h₃ := run_dir h₂ 1 (.withFile [98] [2]) ⟨2, 0, 2⟩ rfl rfl rfl rfl rfl
  have h₄ := run_dir h₃ 0 (.withFile [97] [1]) ⟨3, 0, 2⟩ rfl rfl rfl rfl rfl
  refine ⟨_, _, h₄, rfl, rfl, rfl, rfl, rfl, fun h => ?_⟩
  cases congrArg Prod.fst h.same

end Rustils.MockFs
