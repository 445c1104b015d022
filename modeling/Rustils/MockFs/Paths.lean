import Rustils.MockFs.Description

namespace Rustils.MockFs

open Platform Lib.Trace

inductive PathOp
  | open (opts : OpenOptions)
  | createDir
  | metadata
  | fileId
  | symlink (target : Name)
  | removeFile
  | removeDir
  | rename (dst : Name)

inductive Found
  | node (a : Addr)
  | done
  | metadata (m : Metadata)
  | fileId (id : FileId)

/-- `path` is how the directory is told a name. No result where the source panics. -/
def PathOp.perform (self : MockDir) (nodes : Nodes) (path : Name → Name) (b : Name) (fresh : Addr) :
    PathOp → Option (Result Found × Nodes)
  | .open opts =>
    let r := self.open' nodes (path b) opts fresh
    some (r.1.map .node, r.2)
  | .createDir =>
    let r := self.createDir nodes (path b) fresh
    some (r.1.map fun _ => .done, r.2)
  | .metadata => (self.metadata nodes (path b)).map fun r => (r.map .metadata, nodes)
  | .fileId => some ((self.fileId nodes (path b)).map .fileId, nodes)
  | .symlink target =>
    let r := self.symlink nodes target (path b) fresh
    some (r.1.map fun _ => .done, r.2)
  | .removeFile =>
    let r := self.removeFile nodes (path b)
    some (r.1.map fun _ => .done, r.2)
  | .removeDir =>
    let r := self.removeDir nodes (path b)
    some (r.1.map fun _ => .done, r.2)
  | .rename dst =>
    let r := self.rename nodes (path b) (path dst)
    some (r.1.map fun _ => .done, r.2)

def within (a n : Name) : Name := a ++ 0x2F :: n

def SameNode : Option Node → Option Node → Prop
  | some (.dir entries), some (.dir entries') => ∀ n : Name, entries[n]? = entries'[n]?
  | x, y => x = y

def report (r : Result Found × Nodes) : Except ErrorKind Found × Nodes := (r.1.mapError (·.kind), r.2)

structure Agree (r r' : Except ErrorKind Found × Nodes) : Prop where
  result : r.1 = r'.1
  effect : ∀ a, SameNode (r.2 a) (r'.2 a)

def Resolves (d sub : MockDir) (nodes : Nodes) (a b : Name) (fresh : Addr) (op : PathOp) : Prop :=
  ∃ r r', op.perform d nodes (within a) b fresh = some r ∧ op.perform sub nodes id b fresh = some r' ∧
    Agree (report r) (report r')

def PathOp.creates : PathOp → Bool
  | .open opts => opts.create || opts.createNew
  | .createDir | .symlink _ => true
  | _ => false

def extent : Option Node → FileType × UInt64
  | some (.file data) => (.file, .ofNat data.length)
  | some (.symlink target) => (.symlink, .ofNat target.length)
  | _ => (.dir, 0)

def PathOp.Alike (nodes : Nodes) (b : Name) (x y : Addr) : PathOp → Prop
  | .open opts => opts.createNew = true
  | .createDir | .symlink _ => True
  | .metadata => extent (nodes x) = extent (nodes y)
  | .fileId => False
  | .removeFile => kindOf nodes x ≠ .other ∧ kindOf nodes y ≠ .other
  | .removeDir => kindOf nodes x = kindOf nodes y ∧ kindOf nodes x ≠ .dir true
  | .rename dst => dst = b

def PathOp.Blind (nodes : Nodes) (b : Name) (op : PathOp) : Option Addr → Option Addr → Prop
  | none, none => op.creates = false
  | some x, some y => op.Alike nodes b x y
  | _, _ => False

def PathOp.onAbsent (nodes : Nodes) (dir : Addr) (entries : Entries) (rel : Name) (fresh : Addr) :
    PathOp → Except ErrorKind Found × Nodes
  | .open opts =>
    if opts.create || opts.createNew then (.ok (.node fresh), link nodes dir entries rel fresh (.file []))
    else (.error .notFound, nodes)
  | .createDir => (.ok .done, link nodes dir entries rel fresh (.dir ∅))
  | .symlink target => (.ok .done, link nodes dir entries rel fresh (.symlink target))
  | _ => (.error .notFound, nodes)

def PathOp.onPresent (nodes : Nodes) (dir : Addr) (entries : Entries) (path : Name → Name) (b : Name) (x : Addr) :
    PathOp → Except ErrorKind Found × Nodes
  | .open opts =>
    if opts.createNew then (.error .alreadyExists, nodes)
    else (.ok (.node x), if opts.truncate then clear nodes x else nodes)
  | .createDir | .symlink _ => (.error .alreadyExists, nodes)
  | .metadata => (.ok (.metadata ⟨(extent (nodes x)).1, (extent (nodes x)).2, 1⟩), nodes)
  | .fileId => (.ok (.fileId ⟨0, x⟩), nodes)
  | .removeFile =>
    match kindOf nodes x with
    | .dir _ => (.error .isADirectory, nodes)
    | .other => (.ok .done, Function.update nodes dir (some (.dir (entries.erase (path b)))))
  | .removeDir =>
    match kindOf nodes x with
    | .other => (.error .notADirectory, nodes)
    | .dir false => (.error .directoryNotEmpty, nodes)
    | .dir true => (.ok .done, Function.update nodes dir (some (.dir (entries.erase (path b)))))
  | .rename dst =>
    (.ok .done, Function.update nodes dir (some (.dir ((entries.erase (path b)).insert (path dst) x))))

section Tables

variable {self : MockDir} {nodes : Nodes} {entries : Entries} (hd : nodes self.node = some (.dir entries))
  (path : Name → Name) {b : Name} (fresh : Addr) (op : PathOp)

include hd

theorem perform_absent (h : entries[path b]? = none) :
    ∃ r, op.perform self nodes path b fresh = some r ∧ report r = op.onAbsent nodes self.node entries (path b) fresh := by
  have hmem : entries.contains (path b) = false := by
    rw [Std.TreeMap.contains_eq_isSome_getElem?, h]
    rfl
  cases op with
  | «open» opts =>
    refine ⟨_, rfl, ?_⟩
    rw [open'_absent hd h, PathOp.onAbsent]
    split_ifs <;> rfl
  | createDir =>
    refine ⟨_, rfl, ?_⟩
    simp only [MockDir.createDir, MockDir.make, hd, hmem, Bool.false_eq_true, ↓reduceIte]
    rfl
  | symlink target =>
    refine ⟨_, rfl, ?_⟩
    simp only [MockDir.symlink, MockDir.make, hd, hmem, Bool.false_eq_true, ↓reduceIte]
    rfl
  | metadata =>
    refine ⟨(.error (err .notFound "metadata" (path b)), nodes), ?_, rfl⟩
    simp only [PathOp.perform, MockDir.metadata, MockDir.child, hd, h]
    rfl
  | fileId =>
    refine ⟨_, rfl, ?_⟩
    simp only [MockDir.fileId, MockDir.child, hd, h]
    rfl
  | removeFile =>
    refine ⟨_, rfl, ?_⟩
    simp only [MockDir.removeFile, MockDir.remove, hd, h]
    rfl
  | removeDir =>
    refine ⟨_, rfl, ?_⟩
    simp only [MockDir.removeDir, MockDir.remove, hd, h]
    rfl
  | rename dst =>
    refine ⟨_, rfl, ?_⟩
    rw [rename_absent hd h]
    rfl

theorem perform_present {x : Addr} (h : entries[path b]? = some x) (hx : nodes x ≠ none)
    (hknown : nodes x ≠ some .unreachable) :
    ∃ r, op.perform self nodes path b fresh = some r ∧ report r = op.onPresent nodes self.node entries path b x := by
  have hmem : entries.contains (path b) = true := by
    rw [Std.TreeMap.contains_eq_isSome_getElem?, h]
    rfl
  cases op with
  | «open» opts =>
    refine ⟨_, rfl, ?_⟩
    rw [open'_present hd h, PathOp.onPresent]
    split_ifs <;> rfl
  | createDir =>
    refine ⟨_, rfl, ?_⟩
    simp only [MockDir.createDir, MockDir.make, hd, hmem, ↓reduceIte]
    rfl
  | symlink target =>
    refine ⟨_, rfl, ?_⟩
    simp only [MockDir.symlink, MockDir.make, hd, hmem, ↓reduceIte]
    rfl
  | metadata =>
    refine ⟨(.ok (.metadata ⟨(extent (nodes x)).1, (extent (nodes x)).2, 1⟩), nodes), ?_, rfl⟩
    simp only [PathOp.perform, MockDir.metadata, MockDir.child, hd, h]
    rcases hn : nodes x with _ | _ | data | sub | target
    · exact absurd hn hx
    · exact absurd hn hknown
    · rfl
    · rfl
    · rfl
  | fileId =>
    refine ⟨_, rfl, ?_⟩
    simp only [MockDir.fileId, MockDir.child, hd, h]
    rfl
  | removeFile =>
    refine ⟨_, rfl, ?_⟩
    simp only [MockDir.removeFile, MockDir.remove, hd, h, PathOp.onPresent, kindOf]
    rcases hn : nodes x with _ | _ | data | sub | target
    · exact absurd hn hx
    · exact absurd hn hknown
    · rfl
    · rfl
    · rfl
  | removeDir =>
    refine ⟨_, rfl, ?_⟩
    simp only [MockDir.removeDir, MockDir.remove, hd, h, PathOp.onPresent, kindOf]
    rcases hn : nodes x with _ | _ | data | sub | target
    · exact absurd hn hx
    · exact absurd hn hknown
    · rfl
    · dsimp only
      cases sub.isEmpty <;> rfl
    · rfl
  | rename dst =>
    refine ⟨_, rfl, ?_⟩
    rw [rename_present hd h]
    rfl

end Tables

theorem SameNode.refl (o : Option Node) : SameNode o o := by
  rcases o with _ | _ | _ | _ | _
  case some.dir => exact fun _ => rfl
  all_goals rfl

theorem agree_same (e : Except ErrorKind Found) (nodes : Nodes) : Agree (e, nodes) (e, nodes) :=
  ⟨rfl, fun a => .refl (nodes a)⟩

theorem getElem?_reinsert {entries : Entries} {rel : Name} {x : Addr} (h : entries[rel]? = some x) (n : Name) :
    ((entries.erase rel).insert rel x)[n]? = entries[n]? := by
  refine Option.ext fun c => ?_
  rw [getElem?_insert, getElem?_erase]
  by_cases hn : n = rel
  · simp [hn, h, eq_comm]
  · simp [hn]

section Compare

variable {d sub : MockDir} {nodes : Nodes} {E S : Entries} (hd : nodes d.node = some (.dir E))
  (hs : nodes sub.node = some (.dir S)) (hne : sub.node ≠ d.node) {op : PathOp} {fresh : Addr}

include hd

theorem not_agree_of_entry (n : Name) {e e' : Except ErrorKind Found} {nodes₁ nodes₂ : Nodes} {E' : Entries}
    (h₁ : nodes₁ d.node = some (.dir E')) (h₂ : nodes₂ d.node = nodes d.node) (hn : E'[n]? ≠ E[n]?) :
    ¬Agree (e, nodes₁) (e', nodes₂) := by
  intro h
  have hsame := h.effect d.node
  dsimp only at hsame
  rw [h₁, h₂, hd] at hsame
  exact hn (hsame n)

omit hd in
theorem onAbsent_quiet (h : op.creates = false) (dir : Addr) (entries : Entries) (rel : Name) :
    op.onAbsent nodes dir entries rel fresh = (.error .notFound, nodes) := by
  cases op with
  | «open» opts => exact if_neg (by simpa [PathOp.creates] using h)
  | createDir => cases h
  | symlink target => cases h
  | _ => rfl

omit hd in
theorem onAbsent_creates (h : op.creates = true) (nodes : Nodes) (dir : Addr) (entries : Entries) (rel : Name)
    (fresh : Addr) :
    ∃ found leaf, op.onAbsent nodes dir entries rel fresh = (.ok found, link nodes dir entries rel fresh leaf) := by
  cases op with
  | «open» opts => exact ⟨_, _, if_pos h⟩
  | createDir => exact ⟨_, _, rfl⟩
  | symlink target => exact ⟨_, _, rfl⟩
  | _ => cases h

omit hd in
theorem onAbsent_ne_onPresent {dir dir' x : Addr} {entries entries' : Entries} {rel b : Name} {path : Name → Name}
    (hx : fresh ≠ x) :
    (op.onAbsent nodes dir entries rel fresh).1 ≠ (op.onPresent nodes dir' entries' path b x).1 := by
  cases op with
  | «open» opts =>
    rw [PathOp.onAbsent, PathOp.onPresent]
    cases hnew : opts.createNew with
    | true =>
      rw [Bool.or_true, if_pos rfl, if_pos rfl]
      nofun
    | false =>
      rw [Bool.or_false, if_neg (c := false = true) Bool.false_ne_true]
      cases opts.create with
      | false => nofun
      | true =>
        intro h
        cases h
        exact hx rfl
  | removeFile =>
    rw [PathOp.onAbsent, PathOp.onPresent]
    · split <;> nofun
    all_goals nofun
  | removeDir =>
    rw [PathOp.onAbsent, PathOp.onPresent]
    · split <;> nofun
    all_goals nofun
  | _ => nofun

include hne

theorem agree_absent_iff {a b : Name} (hf : nodes fresh = none) (hx : E[within a b]? = none) :
    Agree (op.onAbsent nodes d.node E (within a b) fresh) (op.onAbsent nodes sub.node S b fresh) ↔
      op.creates = false := by
  cases hc : op.creates with
  | false =>
    rw [onAbsent_quiet hc, onAbsent_quiet hc]
    exact iff_of_true (agree_same _ _) rfl
  | true =>
    obtain ⟨found, leaf, h₁⟩ := onAbsent_creates hc nodes d.node E (within a b) fresh
    obtain ⟨found', leaf', h₂⟩ := onAbsent_creates hc nodes sub.node S b fresh
    rw [h₁, h₂]
    refine iff_of_false (not_agree_of_entry hd (within a b) (Function.update_self ..) ?_ ?_) (fun h => by cases h)
    · have hfd : fresh ≠ d.node := by
        rintro rfl
        cases hd.symm.trans hf
      rw [link, Function.update_of_ne hne.symm, Function.update_of_ne hfd.symm]
    · rw [Std.TreeMap.getElem?_insert_self, hx]
      exact Option.some_ne_none _

include hs

theorem agree_present_iff {a b : Name} {x y : Addr} (hx : E[within a b]? = some x) (hy : S[b]? = some y) (hxy : x ≠ y) :
    Agree (op.onPresent nodes d.node E (within a) b x) (op.onPresent nodes sub.node S id b y) ↔
      op.Alike nodes b x y := by
  have hremoved (e e' : Except ErrorKind Found) : ¬Agree
      (e, Function.update nodes d.node (some (.dir (E.erase (within a b)))))
      (e', Function.update nodes sub.node (some (.dir (S.erase b)))) := by
    refine not_agree_of_entry hd (within a b) (Function.update_self ..) (Function.update_of_ne hne.symm _ _) ?_
    rw [Std.TreeMap.getElem?_erase_self, hx]
    nofun
  cases op with
  | «open» opts =>
    simp only [PathOp.onPresent, PathOp.Alike]
    cases opts.createNew with
    | true => exact iff_of_true (agree_same _ _) rfl
    | false =>
      refine iff_of_false (fun h => ?_) nofun
      cases h.result
      exact hxy rfl
  | createDir => exact iff_of_true (agree_same _ _) trivial
  | symlink target => exact iff_of_true (agree_same _ _) trivial
  | metadata =>
    simp only [PathOp.onPresent, PathOp.Alike]
    constructor
    · intro h
      have hm := h.result
      simp only [Except.ok.injEq, Found.metadata.injEq, Metadata.mk.injEq, and_true] at hm
      exact Prod.ext hm.1 hm.2
    · intro h
      rw [h]
      exact agree_same _ _
  | fileId =>
    refine iff_of_false (fun h => ?_) id
    cases h.result
    exact hxy rfl
  | removeFile =>
    simp only [PathOp.onPresent, PathOp.Alike]
    rcases kindOf nodes x with _ | _ <;> rcases kindOf nodes y with _ | _
    · exact iff_of_false (hremoved _ _) fun h => h.1 rfl
    · exact iff_of_false (fun h => nomatch h.result) fun h => h.1 rfl
    · exact iff_of_false (fun h => nomatch h.result) fun h => h.2 rfl
    · exact iff_of_true (agree_same _ _) ⟨nofun, nofun⟩
  | removeDir =>
    simp only [PathOp.onPresent, PathOp.Alike]
    rcases kindOf nodes x with _ | (_ | _) <;> rcases kindOf nodes y with _ | (_ | _)
    · exact iff_of_true (agree_same _ _) ⟨rfl, nofun⟩
    · exact iff_of_false (fun h => nomatch h.result) fun h => nomatch h.1
    · exact iff_of_false (fun h => nomatch h.result) fun h => nomatch h.1
    · exact iff_of_false (fun h => nomatch h.result) fun h => nomatch h.1
    · exact iff_of_true (agree_same _ _) ⟨rfl, nofun⟩
    · exact iff_of_false (fun h => nomatch h.result) fun h => nomatch h.1
    · exact iff_of_false (fun h => nomatch h.result) fun h => nomatch h.1
    · exact iff_of_false (fun h => nomatch h.result) fun h => nomatch h.1
    · exact iff_of_false (hremoved _ _) fun h => h.2 rfl
  | rename dst =>
    simp only [PathOp.onPresent, PathOp.Alike]
    by_cases hdst : dst = b
    · subst hdst
      refine iff_of_true ⟨rfl, fun c => ?_⟩ rfl
      dsimp only
      by_cases hc : c = d.node
      · rw [hc, Function.update_self, Function.update_of_ne hne.symm, hd]
        exact getElem?_reinsert hx
      rw [Function.update_of_ne hc]
      by_cases hc' : c = sub.node
      · rw [hc', Function.update_self, hs]
        exact fun n => (getElem?_reinsert hy n).symm
      · rw [Function.update_of_ne hc']
        exact .refl _
    · refine iff_of_false (not_agree_of_entry hd (within a b) (Function.update_self ..)
        (Function.update_of_ne hne.symm _ _) ?_) hdst
      have hpath : within a dst ≠ within a b := fun h => hdst (List.cons.inj (List.append_cancel_left h)).2
      rw [hx]
      intro h
      rcases getElem?_insert.mp h with ⟨heq, -⟩ | ⟨-, h⟩
      · exact hpath heq.symm
      · exact (getElem?_erase.mp h).1 rfl

end Compare

theorem openDir_edge {d sub : MockDir} {nodes : Nodes} {a : Name} (h : d.openDir nodes a = .ok sub) :
    edge nodes d.node a sub.node := by
  unfold MockDir.openDir at h
  split at h
  · cases h
  · rename_i node hc
    split at h
    · cases h
      exact d.child_ok hc
    · cases h

theorem resolves_report {d sub : MockDir} {nodes : Nodes} {a b : Name} {fresh : Addr} {op : PathOp}
    {t t' : Except ErrorKind Found × Nodes}
    (ht : ∃ r, op.perform d nodes (within a) b fresh = some r ∧ report r = t)
    (ht' : ∃ r, op.perform sub nodes id b fresh = some r ∧ report r = t') :
    Resolves d sub nodes a b fresh op ↔ Agree t t' := by
  obtain ⟨r, hr, rfl⟩ := ht
  obtain ⟨r', hr', rfl⟩ := ht'
  constructor
  · rintro ⟨s, s', hs, hs', h⟩
    cases hr.symm.trans hs
    cases hr'.symm.trans hs'
    exact h
  · intro h
    exact ⟨r, r', hr, hr', h⟩

theorem resolves_iff {w : World} (hinv : Inv w) {h : Handle} {d sub : MockDir} (hd : w.dirs h = some d) {a : Name}
    (hsub : d.openDir w.nodes a = .ok sub) {fresh : Addr} (hf : w.nodes fresh = none) (b : Name) (op : PathOp) :
    Resolves d sub w.nodes a b fresh op ↔
      op.Blind w.nodes b (namesOf w.nodes d.node (within a b)) (namesOf w.nodes sub.node b) := by
  obtain ⟨E, hE⟩ := hinv.dirs h d hd
  obtain ⟨S, hS⟩ := d.openDir_ok hsub
  have hedge := openDir_edge hsub
  have hne : sub.node ≠ d.node := by
    intro heq
    rw [heq] at hedge
    exact hinv.sound.forest.acyclic _ (.single ⟨a, hedge⟩)
  have hclosed {dir x : Addr} {n : Name} (he : edge w.nodes dir n x) :
      w.nodes x ≠ none ∧ w.nodes x ≠ some .unreachable := ⟨hinv.sound.closed _ _ _ he, hinv.sound.known x⟩
  have hfresh {dir x : Addr} {n : Name} (he : edge w.nodes dir n x) : fresh ≠ x := by
    rintro rfl
    exact (hclosed he).1 hf
  rw [namesOf_dir hE, namesOf_dir hS]
  rcases hx : E[within a b]? with _ | x <;> rcases hy : S[b]? with _ | y
  · rw [resolves_report (perform_absent hE (within a) fresh op hx) (perform_absent hS id fresh op hy)]
    exact agree_absent_iff hE hne hf hx
  · have hey := (edge_iff hS).mpr hy
    rw [resolves_report (perform_absent hE (within a) fresh op hx)
      (perform_present hS id fresh op hy (hclosed hey).1 (hclosed hey).2)]
    exact iff_of_false (fun h => onAbsent_ne_onPresent (hfresh hey) h.result) id
  · have hex := (edge_iff hE).mpr hx
    rw [resolves_report (perform_present hE (within a) fresh op hx (hclosed hex).1 (hclosed hex).2)
      (perform_absent hS id fresh op hy)]
    exact iff_of_false (fun h => onAbsent_ne_onPresent (hfresh hex) h.result.symm) id
  · have hex := (edge_iff hE).mpr hx
    have hey := (edge_iff hS).mpr hy
    have hxy : x ≠ y := by
      rintro rfl
      exact hne (hinv.sound.forest.parent _ _ _ _ _ hey hex).1
    rw [resolves_report (perform_present hE (within a) fresh op hx (hclosed hex).1 (hclosed hex).2)
      (perform_present hS id fresh op hy (hclosed hey).1 (hclosed hey).2)]
    exact agree_present_iff hE hS hne hx hy hxy

def Single (n : Name) : Prop := n ≠ [] ∧ 0x2F ∉ n

def Event.named : Event → List Name
  | .dir _ (.withFile name _) _ => [name]
  | .dir _ (.open rel opts) _ => if opts.create || opts.createNew then [rel] else []
  | .dir _ (.createDir rel) _ => [rel]
  | .dir _ (.symlink _ linkName) _ => [linkName]
  | .dir _ (.rename _ dst) _ | .dir _ (.renameNoReplace _ dst) _ => [dst]
  | _ => []

def Named (nodes : Nodes) (n : Name) : Prop := ∃ d x, edge nodes d n x

section Named

variable {nodes : Nodes} {n rel : Name} {d fresh x : Addr} {entries : Entries}

theorem named_link {leaf : Node} (hleaf : leaf.Leaf) (hd : nodes d = some (.dir entries))
    (h : Named (link nodes d entries rel fresh leaf) n) : Named nodes n ∨ n = rel := by
  obtain ⟨a, y, he⟩ := h
  rcases edge_link hleaf hd he with he | ⟨-, rfl, -⟩
  · exact .inl ⟨a, y, he⟩
  · exact .inr rfl

theorem named_update {entries' : Entries} (hd : nodes d = some (.dir entries))
    (hsub : ∀ y : Addr, entries'[n]? = some y → n = rel ∨ ∃ z, entries[n]? = some z)
    (h : Named (Function.update nodes d (some (.dir entries'))) n) : Named nodes n ∨ n = rel := by
  obtain ⟨a, y, he⟩ := h
  rcases edge_update_dir.mp he with ⟨rfl, hy⟩ | ⟨-, he⟩
  · rcases hsub y hy with rfl | ⟨z, hz⟩
    · exact .inr rfl
    · exact .inl ⟨a, z, (edge_iff hd).mpr hz⟩
  · exact .inl ⟨a, y, he⟩

theorem named_other {o : Option Node} (ho : ∀ es, o ≠ some (.dir es)) (h : Named (Function.update nodes d o) n) :
    Named nodes n := by
  obtain ⟨a, y, he⟩ := h
  exact ⟨a, y, edge_update_other ho he⟩

theorem named_make {self : MockDir} {op : String} {leaf : Node} (hleaf : leaf.Leaf)
    (h : Named (self.make nodes rel op fresh leaf).2 n) : Named nodes n ∨ n = rel := by
  unfold MockDir.make at h
  split at h
  · split_ifs at h
    · exact .inl h
    · exact named_link hleaf ‹_› h
  · exact .inl h

theorem named_open {self : MockDir} {opts : OpenOptions} (h : Named (self.open' nodes rel opts fresh).2 n) :
    Named nodes n ∨ (opts.create || opts.createNew) = true ∧ n = rel := by
  unfold MockDir.open' at h
  split at h
  · split_ifs at h with hnew htrunc
    · exact .inl h
    · unfold clear at h
      split at h
      · exact .inl (named_other (by rintro es ⟨⟩) h)
      · exact .inl h
    · exact .inl h
  · split_ifs at h with hcreate
    · unfold insertFile at h
      split at h
      · have hleaf : (Node.file []).Leaf := trivial
        exact (named_link hleaf ‹_› h).imp id fun hn => ⟨hcreate, hn⟩
      · exact .inl h
    · exact .inl h

theorem named_remove {self : MockDir} {wantDir : Bool} {op : String}
    (h : Named (self.remove nodes rel wantDir op).2 n) : Named nodes n := by
  unfold MockDir.remove at h
  split at h
  case h_2 => exact h
  rename_i entries hd
  have hgone (h : Named (Function.update nodes self.node (some (.dir (entries.erase rel)))) n) : Named nodes n := by
    obtain ⟨a, y, he⟩ := h
    rcases edge_update_dir.mp he with ⟨rfl, hy⟩ | ⟨-, he⟩
    · exact ⟨_, y, (edge_iff hd).mpr (getElem?_erase.mp hy).2⟩
    · exact ⟨a, y, he⟩
  split at h
  · exact h
  · dsimp only at h
    split at h
    · exact h
    · exact h
    · exact h
    · split_ifs at h
      · exact hgone h
      · exact h
    · exact hgone h

theorem named_rename {self : MockDir} {src dst : Name} {replace : Bool}
    (h : Named (self.renameImpl nodes src dst replace).2 n) : Named nodes n ∨ n = dst := by
  unfold MockDir.renameImpl at h
  split at h
  case h_2 => exact .inl h
  rename_i entries hd
  split at h
  · exact .inl h
  · split_ifs at h
    · exact .inl h
    · refine named_update hd (fun y hy => ?_) h
      rcases getElem?_insert.mp hy with ⟨hn, -⟩ | ⟨-, hy⟩
      · exact .inl hn
      · exact .inr ⟨y, (getElem?_erase.mp hy).2⟩

end Named

theorem opens_nodes (w : World) (fresh : Fresh) (opts : OpenOptions) (r : Result Addr × Nodes) :
    (w.opens fresh opts r).2.nodes = r.2 := by
  rcases r with ⟨_ | a, nodes⟩ <;> rfl

theorem MockDir.exec_named {self : MockDir} {w w' : World} {fresh : Fresh} {op : DirOp} {r : Result Reply} {n : Name}
    (i : Handle) (hr : self.exec w fresh op = some (r, w')) (h : Named w'.nodes n) :
    Named w.nodes n ∨ n ∈ (Event.dir i op r).named := by
  have hw {s : Result Reply × World} (hs : some s = some (r, w')) : s.2 = w' := congrArg Prod.snd (Option.some.inj hs)
  have hlooks {α : Type} {x : Option (Result α)} {reply : α → Reply} (hs : x.map (w.looks reply) = some (r, w')) :
      Named w.nodes n := by
    obtain ⟨y, -, hy⟩ := Option.map_eq_some_iff.mp hs
    have hw' : w = w' := congrArg Prod.snd hy
    rw [hw']
    exact h
  cases op with
  | clone =>
    rw [← hw hr] at h
    exact .inl h
  | withFile name contents =>
    obtain ⟨nodes, hnodes, hr⟩ := Option.map_eq_some_iff.mp hr
    unfold MockDir.withFile at hnodes
    split at hnodes
    · cases hnodes
      cases hr
      have hleaf : (Node.file contents).Leaf := trivial
      exact (named_link hleaf ‹_› h).imp id List.mem_singleton.mpr
    · cases hnodes
  | «open» rel opts =>
    rw [← hw hr, opens_nodes] at h
    refine (named_open h).imp id ?_
    rintro ⟨hcreate, rfl⟩
    rw [Event.named, if_pos hcreate]
    exact List.mem_singleton_self n
  | openDir rel =>
    rw [← hw hr] at h
    rcases hopen : self.openDir w.nodes rel with e | d <;> rw [hopen] at h <;> exact .inl h
  | createDir rel =>
    rw [← hw hr] at h
    have hleaf : (Node.dir ∅).Leaf := fun _ => Std.TreeMap.getElem?_emptyc
    exact (named_make hleaf h).imp id List.mem_singleton.mpr
  | metadata rel => exact .inl (hlooks hr)
  | access rel mode =>
    rw [← hw hr] at h
    exact .inl h
  | unixMode rel =>
    rw [← hw hr] at h
    exact .inl h
  | setUnixMode rel mode =>
    rw [← hw hr] at h
    exact .inl h
  | fileId rel =>
    rw [← hw hr] at h
    exact .inl h
  | readDir => exact .inl (hlooks hr)
  | removeFile rel =>
    rw [← hw hr] at h
    exact .inl (named_remove h)
  | removeDir rel =>
    rw [← hw hr] at h
    exact .inl (named_remove h)
  | symlink target linkName =>
    rw [← hw hr] at h
    have hleaf : (Node.symlink target).Leaf := trivial
    exact (named_make hleaf h).imp id List.mem_singleton.mpr
  | readLink rel =>
    rw [← hw hr] at h
    exact .inl h
  | rename src dst =>
    rw [← hw hr] at h
    exact (named_rename h).imp id List.mem_singleton.mpr
  | renameNoReplace src dst =>
    rw [← hw hr] at h
    exact (named_rename h).imp id List.mem_singleton.mpr

theorem Step.named {w w' : World} {ev : Event} {n : Name} (hs : Step w ev w') (h : Named w'.nodes n) :
    Named w.nodes n ∨ n ∈ ev.named := by
  cases hs with
  | @dir i d op r _ fresh hd hf hr => exact d.exec_named i hr h
  | @file i f op r _ fresh hd hf hr =>
    have hw : (f.exec w fresh op).2 = w' := congrArg Prod.snd hr
    rw [← hw] at h
    cases op with
    | write buf =>
      simp only [MockFile.exec, World.acts, MockFile.write] at h
      split_ifs at h
      · exact .inl h
      · split at h
        · exact .inl (named_other (by rintro es ⟨⟩) h)
        · exact .inl h
    | _ => exact .inl h
  | dropDir i => exact .inl h
  | dropFile i => exact .inl h
  | free hg => exact .inl (named_other (by rintro es ⟨⟩) h)

theorem mem_mapM {α β : Type} {f : α → Option β} {l : List α} {ys : List β} (h : l.mapM f = some ys) {y : β}
    (hy : y ∈ ys) : ∃ x ∈ l, f x = some y := by
  induction l generalizing ys with
  | nil =>
    cases h
    cases hy
  | cons x l ih =>
    simp only [List.mapM_cons, Option.bind_eq_bind, Option.bind_eq_some_iff] at h
    obtain ⟨z, hz, zs, hzs, heq⟩ := h
    cases heq
    rcases List.mem_cons.mp hy with rfl | hy
    · exact ⟨x, List.mem_cons_self, hz⟩
    · obtain ⟨x', hx', hfx⟩ := ih hzs hy
      exact ⟨x', List.mem_cons_of_mem x hx', hfx⟩

theorem readDir_named {d : MockDir} {nodes : Nodes} {es : List DirEntry} (h : d.readDir nodes = some (.ok es))
    {e : DirEntry} (he : e ∈ es) : Named nodes e.name := by
  unfold MockDir.readDir at h
  split at h
  · rename_i entries hd
    obtain ⟨es', hes, heq⟩ := Option.map_eq_some_iff.mp h
    cases heq
    obtain ⟨⟨name, x⟩, hx, hfx⟩ := mem_mapM hes he
    obtain ⟨t, -, rfl⟩ := Option.map_eq_some_iff.mp hfx
    exact ⟨d.node, x, (edge_iff hd).mpr (Std.TreeMap.mem_toList_iff_getElem?_eq_some.mp hx)⟩
  · cases h

theorem single_of_run {r : Addr} {tr : List Event} {w : World} (h : Run Step (.root r) tr w)
    (hsingle : ∀ ev ∈ tr, ∀ n ∈ ev.named, Single n) {n : Name} (hn : Named w.nodes n) : Single n := by
  induction h generalizing n with
  | refl =>
    obtain ⟨d, x, he⟩ := hn
    exact absurd he root_edge
  | tail _ hs ih =>
    rcases hs.named hn with hn | hn
    · exact ih (fun ev hev => hsingle ev (List.mem_append_left _ hev)) hn
    · exact hsingle _ (List.mem_append_right _ (List.mem_singleton_self _)) n hn

theorem paths_resolve_iff (r : Addr) (tr : List Event) (w : World) (hrun : Run Step (.root r) tr w) (h : Handle)
    (d : MockDir) (hd : w.dirs h = some d) :
    (∀ a sub fresh b op, d.openDir w.nodes a = .ok sub → w.nodes fresh = none →
      (Resolves d sub w.nodes a b fresh op ↔
        op.Blind w.nodes b (namesOf w.nodes d.node (within a b)) (namesOf w.nodes sub.node b))) ∧
    ((∀ ev ∈ tr, ∀ n ∈ ev.named, Single n) →
      ∀ es, d.readDir w.nodes = some (.ok es) → ∀ e ∈ es, Single e.name) := by
  refine ⟨fun a sub fresh b op hsub hf => ?_, fun hsingle es hes e he => ?_⟩
  · exact resolves_iff (inv_of_run hrun) hd hsub hf b op
  · exact single_of_run hrun hsingle (readDir_named hes he)

theorem paths_resolve_metadata :
    ∃ tr w, Run Step (.root 0) tr w ∧ Resolves ⟨0⟩ ⟨1⟩ w.nodes [97] [98] 2 .metadata ∧
      ∀ es, MockDir.readDir ⟨0⟩ w.nodes = some (.ok es) → ∀ e ∈ es, Single e.name := by
  have h₀ : Run Step (.root 0) [] (.root 0) := .refl
  have h₁ := run_dir h₀ 0 (.createDir [97]) ⟨1, 0, 1⟩ rfl rfl rfl rfl rfl
  have h := paths_resolve_iff 0 _ _ h₁ 0 ⟨0⟩ rfl
  refine ⟨_, _, h₁, (h.1 [97] ⟨1⟩ 2 [98] .metadata rfl rfl).mpr rfl, h.2 ?_⟩
  intro ev hev n hn
  cases List.mem_singleton.mp hev
  cases List.mem_singleton.mp hn
  exact ⟨nofun, by decide⟩

theorem path_is_one_name :
    ∃ tr w, Run Step (.root 0) tr w ∧ MockDir.openDir ⟨0⟩ w.nodes [97] = .ok ⟨1⟩ ∧
      ¬Resolves ⟨0⟩ ⟨1⟩ w.nodes [97] [98] 2 .createDir ∧
      ∃ tr' w' es e, Run Step (.root 0) tr' w' ∧ MockDir.readDir ⟨0⟩ w'.nodes = some (.ok es) ∧ e ∈ es ∧
        ¬Single e.name := by
  have h₀ : Run Step (.root 0) [] (.root 0) := .refl
  have h₁ := run_dir h₀ 0 (.createDir [97]) ⟨1, 0, 1⟩ rfl rfl rfl rfl rfl
  have h₂ := run_dir h₁ 0 (.createDir (within [97] [98])) ⟨2, 0, 1⟩ rfl rfl rfl rfl rfl
  refine ⟨_, _, h₁, rfl, ?_, _, _, _, ⟨within [97] [98], .dir⟩, h₂, rfl, ?_, fun h => h.2 (by decide)⟩
  · rintro ⟨r, r', ⟨⟩, ⟨⟩, h⟩
    cases h.effect 0 (within [97] [98])
  · exact List.mem_cons_of_mem _ (List.mem_singleton_self _)

end Rustils.MockFs
