import Rustils.Lib.Trace
import Rustils.Security.Sandbox

namespace Rustils.Security.Sandbox

open Platform Lib.Program Lib.Trace

variable {Node : Type} {files : Files Node} {t t₀ : Thread Node} {α : Type}

abbrev Ensures (files : Files Node) (Q : α → Thread Node → Prop) (p : Prog Answer α) (t : Thread Node) : Prop :=
  Safe (kernel files) (fun _ _ => True) Q p t

structure Building (t₀ : Thread Node) (ruleset : Fd) (rules : List (Node × UInt64)) (t : Thread Node) : Prop where
  free : t₀.fds ruleset = none
  fds : t.fds = Function.update t₀.fds ruleset (some (.ruleset ⟨ABI_V1_ALL_ACCESS, rules⟩))
  domain : t.domain = t₀.domain
  filters : t.filters = t₀.filters

def RulesFor (files : Files Node) (allowed : UInt64) (roots : List Path) (rules : List (Node × UInt64)) : Prop :=
  ∃ nodes : List Node, roots.map files.lookup = nodes.map some ∧ (∀ n ∈ nodes, files.isDir n = true) ∧
    rules = nodes.map fun n => (n, allowed)

theorem Building.ruleset {ruleset : Fd} {rules : List (Node × UInt64)} (h : Building t₀ ruleset rules t) :
    t.fds ruleset = some (.ruleset ⟨ABI_V1_ALL_ACCESS, rules⟩) := by
  rw [h.fds, Function.update_self]

theorem put_put (fds : Fd → Option (Obj Node)) {fd : Fd} (h : fds fd = none) (o : Option (Obj Node)) :
    Function.update (Function.update fds fd o) fd none = fds := by
  rw [Function.update_idem, ← h, Function.update_eq_self]

theorem ensures_addRule {ruleset : Fd} {rules : List (Node × UInt64)} (h : Building t₀ ruleset rules t) (path : Path)
    {allowed : UInt64} (hdir : allowed ||| ACCESS_FILE ≠ ACCESS_FILE) :
    Ensures files (fun r t' => match r with
      | .error _ => Building t₀ ruleset rules t'
      | .ok _ => ∃ n, files.lookup path = some n ∧ files.isDir n = true ∧ Building t₀ ruleset (rules ++ [(n, allowed)]) t')
      (addRule ruleset path allowed) t := by
  unfold addRule openPathFd
  split_ifs with hnul
  · exact h
  · refine ⟨trivial, ?_⟩
    rintro (code | fd) t₁ he
    · cases he
      exact h
    · obtain ⟨hfree, n, hlookup, rfl⟩ := he
      have hne : ruleset ≠ fd := by
        rintro rfl
        cases hfree.symm.trans h.ruleset
      refine ⟨trivial, ?_⟩
      rintro (code | ⟨⟩) t₂ he
      · cases he
        refine ⟨trivial, ?_⟩
        rintro ⟨⟩ t₃ rfl
        exact ⟨h.free, (put_put t.fds hfree _).trans h.fds, h.domain, h.filters⟩
      · obtain ⟨layer, n', hruleset, hparent, hallowed, rfl⟩ := he
        have hlayer : layer = ⟨ABI_V1_ALL_ACCESS, rules⟩ := by
          have hold : (t.put fd (some (.path n))).fds ruleset = some (.ruleset ⟨ABI_V1_ALL_ACCESS, rules⟩) :=
            (Function.update_of_ne hne ..).trans h.ruleset
          cases hruleset.symm.trans hold
          rfl
        have hnode : n' = n := by
          have hnew : (t.put fd (some (.path n))).fds fd = some (.path n) := Function.update_self ..
          cases hparent.symm.trans hnew
          rfl
        subst hlayer hnode
        refine ⟨trivial, ?_⟩
        rintro ⟨⟩ t₃ rfl
        refine ⟨n', hlookup, hallowed.resolve_right hdir, h.free, ?_, h.domain, h.filters⟩
        change Function.update (Function.update (Function.update t.fds fd _) ruleset _) fd none = _
        rw [Function.update_comm hne.symm, put_put _ (by rw [Function.update_of_ne hne.symm]; exact hfree), h.fds,
          Function.update_idem]

theorem ensures_addRules {ruleset : Fd} {allowed : UInt64} (hdir : allowed ||| ACCESS_FILE ≠ ACCESS_FILE)
    (roots : List Path) {rules : List (Node × UInt64)} (h : Building t₀ ruleset rules t) :
    Ensures files (fun r t' => match r with
      | .error _ => ∃ rules', Building t₀ ruleset rules' t'
      | .ok _ => ∃ added, RulesFor files allowed roots added ∧ Building t₀ ruleset (rules ++ added) t')
      (addRules ruleset allowed roots) t := by
  induction roots generalizing t rules with
  | nil => exact ⟨[], ⟨[], rfl, by simp, rfl⟩, by rwa [List.append_nil]⟩
  | cons root roots ih =>
    refine (ensures_addRule h root hdir).bind ?_
    rintro (e | ⟨⟩) t₁ h₁
    · exact ⟨rules, h₁⟩
    · obtain ⟨n, hlookup, hn, h₁⟩ := h₁
      refine (ih h₁).mono ?_
      rintro (e | ⟨⟩) t₂ h₂
      · exact h₂
      · obtain ⟨added, ⟨nodes, hnodes, hdirs, rfl⟩, h₂⟩ := h₂
        refine ⟨(n, allowed) :: nodes.map fun n => (n, allowed), ⟨n :: nodes, ?_, ?_, rfl⟩, by simpa using h₂⟩
        · rw [List.map_cons, List.map_cons, hlookup, hnodes]
        · exact List.forall_mem_cons.mpr ⟨hn, hdirs⟩

def LayerFor (files : Files Node) (readableRoots writableRoots : List Path) (layer : Layer Node) : Prop :=
  ∃ readable writable, RulesFor files READ_ONLY_ACCESS readableRoots readable ∧
    RulesFor files ABI_V1_ALL_ACCESS writableRoots writable ∧ layer = ⟨ABI_V1_ALL_ACCESS, readable ++ writable⟩

theorem ensures_restrict {ruleset : Fd} (readableRoots writableRoots : List Path) (h : Building t₀ ruleset [] t) :
    Ensures files (fun r t' => t'.fds ruleset ≠ none ∧ (∀ fd ≠ ruleset, t'.fds fd = t₀.fds fd) ∧ t'.filters = t₀.filters ∧
      match r with
      | .error _ => t'.domain = t₀.domain
      | .ok _ => ∃ layer, LayerFor files readableRoots writableRoots layer ∧ t'.domain = t₀.domain ++ [layer])
      (restrict ruleset readableRoots writableRoots) t := by
  have still {rules : List (Node × UInt64)} {t' : Thread Node} (h : Building t₀ ruleset rules t') :
      t'.fds ruleset ≠ none ∧ (∀ fd ≠ ruleset, t'.fds fd = t₀.fds fd) ∧ t'.filters = t₀.filters := by
    refine ⟨by rw [h.ruleset]; simp, fun fd hfd => ?_, h.filters⟩
    rw [h.fds, Function.update_of_ne hfd]
  have failed {rules : List (Node × UInt64)} {t' : Thread Node} (h : Building t₀ ruleset rules t') :
      t'.fds ruleset ≠ none ∧ (∀ fd ≠ ruleset, t'.fds fd = t₀.fds fd) ∧ t'.filters = t₀.filters ∧ t'.domain = t₀.domain :=
    ⟨(still h).1, (still h).2.1, (still h).2.2, h.domain⟩
  refine (ensures_addRules (by decide) readableRoots h).bind ?_
  rintro (e | ⟨⟩) t₁ h₁
  · exact failed h₁.choose_spec
  · obtain ⟨readable, hreadable, h₁⟩ := h₁
    refine (ensures_addRules (by decide) writableRoots h₁).bind ?_
    rintro (e | ⟨⟩) t₂ h₂
    · exact failed h₂.choose_spec
    · obtain ⟨writable, hwritable, h₂⟩ := h₂
      refine ⟨trivial, ?_⟩
      rintro (code | ⟨⟩) t₃ he
      · cases he
        exact failed h₂
      · cases he
        have h₃ : Building t₀ ruleset ([] ++ readable ++ writable) { t₂ with noNewPrivs := true } :=
          ⟨h₂.free, h₂.fds, h₂.domain, h₂.filters⟩
        refine ⟨trivial, ?_⟩
        rintro (code | ⟨⟩) t₄ he
        · cases he
          exact failed h₃
        · obtain ⟨-, -, layer, hlayer, rfl⟩ := he
          cases hlayer.symm.trans h₃.ruleset
          obtain ⟨hset, hfds, hfilters⟩ := still h₃
          exact ⟨hset, hfds, hfilters, _, ⟨readable, writable, hreadable, hwritable, rfl⟩, congrArg (· ++ _) h₃.domain⟩

theorem ensures_confineFilesystem (readableRoots writableRoots : List Path) (t : Thread Node) :
    Ensures files (fun r t' => t'.fds = t.fds ∧ t'.filters = t.filters ∧
      if r = .ok .enforced then ∃ layer, LayerFor files readableRoots writableRoots layer ∧ t'.domain = t.domain ++ [layer]
      else t'.domain = t.domain) (confineFilesystem readableRoots writableRoots) t := by
  refine ⟨trivial, ?_⟩
  rintro (code | ruleset) t₁ he
  · cases he
    by_cases hcode : code = ENOSYS ∨ code = EOPNOTSUPP <;> simp only [hcode, ↓reduceIte] <;>
      exact ⟨rfl, rfl, by rw [if_neg (by simp)]⟩
  · obtain ⟨hfree, rfl⟩ := he
    have hbuilding : Building t ruleset [] (t.put ruleset (some (.ruleset ⟨ABI_V1_ALL_ACCESS, []⟩))) :=
      ⟨hfree, rfl, rfl, rfl⟩
    refine (ensures_restrict readableRoots writableRoots hbuilding).bind ?_
    rintro r t₂ ⟨_, hfds, hfilters, hr⟩
    refine ⟨trivial, ?_⟩
    rintro ⟨⟩ t₃ rfl
    refine ⟨?_, hfilters, ?_⟩
    · funext fd
      by_cases hfd : fd = ruleset
      · subst hfd
        exact (Function.update_self ..).trans hfree.symm
      · exact (Function.update_of_ne hfd ..).trans (hfds fd hfd)
    · rcases r with e | ⟨⟩
      · rw [if_neg (fun h => nomatch h)]
        exact hr
      · exact (if_pos rfl).mpr hr

theorem ensures_blockInetSockets (t : Thread Node) :
    Ensures files (fun r t' => t'.fds = t.fds ∧ t'.domain = t.domain ∧
      t'.filters = t.filters ++ if r = .ok .enforced then [buildSeccompProgram] else []) blockInetSockets t := by
  refine ⟨trivial, ?_⟩
  rintro (code | ⟨⟩) t₁ he
  · cases he
    exact ⟨rfl, rfl, by rw [if_neg (fun h => nomatch h), List.append_nil]⟩
  · cases he
    refine ⟨trivial, ?_⟩
    rintro (code | ⟨⟩) t₂ he
    · cases he
      by_cases hcode : code = ENOSYS <;> simp only [hcode, ↓reduceIte] <;>
        exact ⟨rfl, rfl, by rw [if_neg (by simp), List.append_nil]⟩
    · obtain ⟨-, rfl⟩ := he
      exact ⟨rfl, rfl, by rw [if_pos rfl]⟩

inductive Event
  | confine (readableRoots writableRoots : List Path) (r : Result SandboxStatus)
  | block (r : Result SandboxStatus)
  deriving DecidableEq

inductive Step (files : Files Node) (t : Thread Node) : Event → Thread Node → Prop
  | confine {readableRoots writableRoots : List Path} {r : Result SandboxStatus} {t' : Thread Node}
    (h : Reaches (kernel files) (confineFilesystem readableRoots writableRoots, t) (.ret r, t')) :
    Step files t (.confine readableRoots writableRoots r) t'
  | block {r : Result SandboxStatus} {t' : Thread Node}
    (h : Reaches (kernel files) (blockInetSockets, t) (.ret r, t')) : Step files t (.block r) t'

def Beneath (files : Files Node) (roots : List Path) (n : Node) : Prop :=
  ∃ root ∈ roots, ∃ m, files.lookup root = some m ∧ files.beneath n m

def Granted (files : Files Node) (readableRoots writableRoots : List Path) (n : Node) (right : Right) : Prop :=
  Beneath files writableRoots n ∨ right ∈ [.execute, .readFile, .readDir] ∧ Beneath files readableRoots n

theorem has_readOnly : ∀ right, has READ_ONLY_ACCESS right ↔ right ∈ [.execute, .readFile, .readDir] := by
  rintro (_ | _) <;> decide

theorem has_all : ∀ right, has ABI_V1_ALL_ACCESS right := by
  rintro (_ | _) <;> decide

theorem RulesFor.allows {allowed : UInt64} {roots : List Path} {rules : List (Node × UInt64)}
    (h : RulesFor files allowed roots rules) (n : Node) (right : Right) :
    (∃ rule ∈ rules, files.beneath n rule.1 ∧ has rule.2 right) ↔ has allowed right ∧ Beneath files roots n := by
  obtain ⟨nodes, hnodes, _, rfl⟩ := h
  constructor
  · rintro ⟨_, hrule, hbeneath, hright⟩
    obtain ⟨m, hm, rfl⟩ := List.mem_map.mp hrule
    have hmem : some m ∈ roots.map files.lookup := hnodes ▸ List.mem_map_of_mem hm
    obtain ⟨root, hroot, hlookup⟩ := List.mem_map.mp hmem
    exact ⟨hright, root, hroot, m, hlookup, hbeneath⟩
  · rintro ⟨hright, root, hroot, m, hlookup, hbeneath⟩
    have hmem : some m ∈ nodes.map some := hnodes ▸ hlookup ▸ List.mem_map_of_mem hroot
    obtain ⟨m', hm, hm'⟩ := List.mem_map.mp hmem
    cases hm'
    exact ⟨(m, allowed), List.mem_map_of_mem hm, hbeneath, hright⟩

theorem RulesFor.dirs {allowed : UInt64} {roots : List Path} {rules : List (Node × UInt64)}
    (h : RulesFor files allowed roots rules) : ∀ root ∈ roots, ∃ m, files.lookup root = some m ∧ files.isDir m = true := by
  obtain ⟨nodes, hnodes, hdirs, _⟩ := h
  intro root hroot
  have hmem : files.lookup root ∈ nodes.map some := hnodes ▸ List.mem_map_of_mem hroot
  obtain ⟨m, hm, hlookup⟩ := List.mem_map.mp hmem
  exact ⟨m, hlookup.symm, hdirs m hm⟩

variable {readableRoots writableRoots : List Path} {layer : Layer Node}

theorem LayerFor.allows (h : LayerFor files readableRoots writableRoots layer) (n : Node) (right : Right) :
    layer.Allows files n right ↔ Granted files readableRoots writableRoots n right := by
  obtain ⟨readable, writable, hreadable, hwritable, rfl⟩ := h
  rw [Layer.Allows, Granted, ← has_readOnly, ← hreadable.allows]
  constructor
  · intro hall
    obtain ⟨rule, hrule, hbeneath, hright⟩ := hall (has_all right)
    rcases List.mem_append.mp hrule with hrule | hrule
    · exact .inr ⟨rule, hrule, hbeneath, hright⟩
    · exact .inl ((hwritable.allows n right).mp ⟨rule, hrule, hbeneath, hright⟩).2
  · rintro (hbeneath | ⟨rule, hrule, hr⟩) _
    · obtain ⟨rule, hrule, hr⟩ := (hwritable.allows n right).mpr ⟨has_all right, hbeneath⟩
      exact ⟨rule, List.mem_append_right _ hrule, hr⟩
    · exact ⟨rule, List.mem_append_left _ hrule, hr⟩

theorem LayerFor.dirs (h : LayerFor files readableRoots writableRoots layer) :
    ∀ root ∈ readableRoots ++ writableRoots, ∃ m, files.lookup root = some m ∧ files.isDir m = true := by
  obtain ⟨readable, writable, hreadable, hwritable, rfl⟩ := h
  exact List.forall_mem_append.mpr ⟨hreadable.dirs, hwritable.dirs⟩

structure Confined (files : Files Node) (t₀ : Thread Node) (tr : List Event) (t : Thread Node) : Prop where
  fds : t.fds = t₀.fds
  allows : ∀ n right, t.Allows files n right ↔ t₀.Allows files n right ∧
    ∀ readableRoots writableRoots, .confine readableRoots writableRoots (.ok .enforced) ∈ tr →
      Granted files readableRoots writableRoots n right
  dirs : ∀ readableRoots writableRoots, .confine readableRoots writableRoots (.ok .enforced) ∈ tr →
    ∀ root ∈ readableRoots ++ writableRoots, ∃ m, files.lookup root = some m ∧ files.isDir m = true
  filters : t.filters = t₀.filters ++ List.replicate (tr.count (.block (.ok .enforced))) buildSeccompProgram

theorem confined_exactly {tr : List Event} (h : Run (Step files) t₀ tr t) : Confined files t₀ tr t := by
  induction h with
  | refl => exact ⟨rfl, by simp, by simp, by simp⟩
  | @tail tr t t' e h hs ih =>
    cases hs with
    | @block r _ hr =>
      obtain ⟨hfds, hdomain, hfilters⟩ := (ensures_blockInetSockets t).reaches hr
      refine ⟨hfds.trans ih.fds, fun n right => ?_, fun readableRoots writableRoots hmem => ?_, ?_⟩
      · have hsame : t'.Allows files n right ↔ t.Allows files n right := by rw [Thread.Allows, hdomain, Thread.Allows]
        rw [hsame, ih.allows]
        simp
      · exact ih.dirs readableRoots writableRoots (by simpa using hmem)
      · dsimp only at hfilters
        rw [hfilters, ih.filters, List.count_append, List.replicate_add, List.append_assoc]
        by_cases hr : r = .ok .enforced <;> simp [hr]
    | @confine readable writable r _ hr =>
      obtain ⟨hfds, hfilters, hdomain⟩ := (ensures_confineFilesystem _ _ t).reaches hr
      have hfilters : t'.filters = t₀.filters ++
          List.replicate ((tr ++ [Event.confine readable writable r]).count (.block (.ok .enforced)))
            buildSeccompProgram := by
        rw [List.count_append, List.count_singleton]
        simpa using hfilters.trans ih.filters
      dsimp only at hdomain
      split_ifs at hdomain with hr
      · subst hr
        obtain ⟨layer, hlayer, hdomain⟩ := hdomain
        refine ⟨hfds.trans ih.fds, fun n right => ?_, fun readableRoots writableRoots hmem => ?_, hfilters⟩
        · have hsplit : t'.Allows files n right ↔ t.Allows files n right ∧ layer.Allows files n right := by
            rw [Thread.Allows, hdomain, List.forall_mem_append, List.forall_mem_singleton, Thread.Allows]
          rw [hsplit, ih.allows, hlayer.allows]
          simp [or_imp, forall_and, and_assoc]
        · rcases List.mem_append.mp hmem with hmem | hmem
          · exact ih.dirs readableRoots writableRoots hmem
          · cases List.mem_singleton.mp hmem
            exact hlayer.dirs
      · have hold {readableRoots writableRoots : List Path} :
            .confine readableRoots writableRoots (.ok .enforced) ∈ tr ++ [.confine readable writable r] ↔
              .confine readableRoots writableRoots (.ok .enforced) ∈ tr := by
          simpa using fun _ _ h => absurd h.symm hr
        refine ⟨hfds.trans ih.fds, fun n right => ?_, fun readableRoots writableRoots hmem => ?_, hfilters⟩
        · have hsame : t'.Allows files n right ↔ t.Allows files n right := by rw [Thread.Allows, hdomain, Thread.Allows]
          rw [hsame, ih.allows]
          simp only [hold]
        · exact ih.dirs readableRoots writableRoots (hold.mp hmem)

theorem reaches_call {o : Call} {rest : Answer o → Prog Answer α} {t' : Thread Node} {d : Prog Answer α × Thread Node}
    (r : Answer o) (he : kernel files t o r t') (h : Reaches (kernel files) (rest r, t') d) :
    Reaches (kernel files) (.op o rest, t) d :=
  .head (.op rest he) h

def disk : Files ℕ where
  lookup path := if path = [100] then some 1 else none
  isDir _ := true
  beneath n m := n = m ∨ m = 0

def unconfined : Thread ℕ := ⟨fun _ => none, [], [], false⟩

theorem confined_exactly_readable : ∃ t, Run (Step disk) unconfined [.confine [[100]] [] (.ok .enforced)] t ∧
    t.Allows disk 1 .readFile ∧ ¬t.Allows disk 1 .writeFile ∧ ¬t.Allows disk 0 .readFile := by
  have hstep : Step disk unconfined (.confine [[100]] [] (.ok .enforced)) _ := .confine <|
    reaches_call (.ok 0) ⟨rfl, rfl⟩ <| reaches_call (.ok 1) ⟨rfl, 1, rfl, rfl⟩ <|
    reaches_call (.ok ()) ⟨_, 1, rfl, rfl, .inl rfl, rfl⟩ <| reaches_call () rfl <| reaches_call (.ok ()) rfl <|
    reaches_call (.ok ()) ⟨rfl, by decide, _, rfl, rfl⟩ <| reaches_call () rfl .refl
  have hrun := Run.tail .refl hstep
  have hall := (confined_exactly hrun).allows
  refine ⟨_, hrun, (hall 1 .readFile).mpr ⟨by simp [Thread.Allows, unconfined], ?_⟩, fun h => ?_, fun h => ?_⟩
  · intro readable writable hmem
    cases List.mem_singleton.mp hmem
    exact .inr ⟨by simp, [100], by simp, 1, rfl, .inl rfl⟩
  · rcases ((hall 1 .writeFile).mp h).2 [[100]] [] (by simp) with ⟨root, hroot, _⟩ | ⟨hright, _⟩
    · simp at hroot
    · simp at hright
  · rcases ((hall 0 .readFile).mp h).2 [[100]] [] (by simp) with ⟨root, hroot, _⟩ | ⟨_, root, hroot, m, hm, hbeneath⟩
    · simp at hroot
    · cases List.mem_singleton.mp hroot
      cases hm
      rcases hbeneath with h | h <;> cases h

end Rustils.Security.Sandbox
