import Rustils.Lib.Graph
import Rustils.MockFs.World

namespace Rustils.MockFs

open Platform Lib.Graph Lib.Trace

def Node.Leaf : Node → Prop
  | .unreachable => False
  | .dir entries => ∀ name : Name, entries[name]? = none
  | _ => True

inductive Change (nodes : Nodes) : Nodes → Prop
  | same : Change nodes nodes
  | data {a : Addr} {old : List UInt8} (new : List UInt8) (h : nodes a = some (.file old)) :
      Change nodes (Function.update nodes a (some (.file new)))
  | link {d fresh : Addr} {entries : Entries} (rel : Name) {node : Node}
      (h : nodes d = some (.dir entries)) (hf : nodes fresh = none) (hn : node.Leaf) :
      Change nodes (link nodes d entries rel fresh node)
  | unlink {d : Addr} {entries : Entries} (rel : Name) (h : nodes d = some (.dir entries)) :
      Change nodes (Function.update nodes d (some (.dir (entries.erase rel))))
  | move {d node : Addr} {entries : Entries} {src : Name} (dst : Name)
      (h : nodes d = some (.dir entries)) (hs : entries[src]? = some node) :
      Change nodes (Function.update nodes d (some (.dir ((entries.erase src).insert dst node))))

section Edges

variable {nodes nodes' : Nodes} {d a b fresh node : Addr} {entries : Entries} {n rel : Name}
  {leaf : Node}

theorem edge_iff (h : nodes d = some (.dir entries)) :
    edge nodes d n b ↔ entries[n]? = some b := by
  constructor
  · rintro ⟨es, hes, hn⟩
    rw [h] at hes
    cases hes
    exact hn
  · intro hn
    exact ⟨entries, h, hn⟩

theorem edge_congr (h : nodes' a = nodes a) : edge nodes' a n b ↔ edge nodes a n b := by
  rw [edge, edge, h]

theorem edge_update_dir :
    edge (Function.update nodes d (some (.dir entries))) a n b ↔
      a = d ∧ entries[n]? = some b ∨ a ≠ d ∧ edge nodes a n b := by
  by_cases ha : a = d
  · subst ha
    rw [edge_iff (Function.update_self ..)]
    simp
  · rw [edge_congr (Function.update_of_ne ha _ _)]
    simp [ha]

theorem edge_update_other {o : Option Node} (ho : ∀ es, o ≠ some (.dir es))
    (h : edge (Function.update nodes d o) a n b) : edge nodes a n b := by
  by_cases ha : a = d
  · obtain ⟨es, hes, -⟩ := h
    rw [ha, Function.update_self] at hes
    exact absurd hes (ho es)
  · exact (edge_congr (Function.update_of_ne ha _ _)).mp h

theorem getElem?_insert : (entries.insert rel node)[n]? = some b ↔
    n = rel ∧ b = node ∨ n ≠ rel ∧ entries[n]? = some b := by
  rw [Std.TreeMap.getElem?_insert]
  by_cases hn : n = rel
  · subst hn
    simp [eq_comm]
  · simp [hn, Ne.symm hn]

theorem getElem?_erase : (entries.erase rel)[n]? = some b ↔ n ≠ rel ∧ entries[n]? = some b := by
  rw [Std.TreeMap.getElem?_erase]
  by_cases hn : n = rel
  · subst hn
    simp
  · simp [hn, Ne.symm hn]

theorem edge_link (hn : leaf.Leaf) (he : nodes d = some (.dir entries))
    (h : edge (link nodes d entries rel fresh leaf) a n b) :
    edge nodes a n b ∨ a = d ∧ n = rel ∧ b = fresh := by
  rw [link, edge_update_dir, getElem?_insert] at h
  rcases h with ⟨rfl, ⟨rfl, rfl⟩ | ⟨-, h⟩⟩ | ⟨-, h⟩
  · exact .inr ⟨rfl, rfl, rfl⟩
  · exact .inl ((edge_iff he).mpr h)
  · by_cases ha : a = fresh
    · obtain ⟨es, hes, h⟩ := h
      rw [ha, Function.update_self] at hes
      cases hes
      cases (hn n).symm.trans h
    · exact .inl ((edge_congr (Function.update_of_ne ha _ _)).mp h)

end Edges

structure Sound (nodes : Nodes) : Prop where
  forest : Forest (edge nodes)
  closed : ∀ d n a, edge nodes d n a → nodes a ≠ none
  known : ∀ a, nodes a ≠ some .unreachable

inductive Kept : Option Node → Option Node → Prop
  | same (o : Option Node) : Kept o o
  | file (old new : List UInt8) : Kept (some (.file old)) (some (.file new))
  | dir (old new : Entries) : Kept (some (.dir old)) (some (.dir new))
  | new {node : Node} (h : node.Leaf) : Kept none (some node)

section Change

variable {nodes nodes' : Nodes} {a d : Addr} {n : Name}

theorem kept_update {o : Option Node} (h : Kept (nodes d) o) :
    Kept (nodes a) (Function.update nodes d o a) := by
  by_cases ha : a = d
  · subst ha
    rwa [Function.update_self]
  · rw [Function.update_of_ne ha]
    exact .same _

theorem Change.kept (h : Change nodes nodes') (a : Addr) : Kept (nodes a) (nodes' a) := by
  cases h with
  | same => exact .same _
  | data new h =>
    apply kept_update
    rw [h]
    exact .file _ new
  | @link d fresh _ _ _ h hf hn =>
    by_cases ha : a = d
    · subst ha
      rw [MockFs.link, Function.update_self, h]
      exact .dir _ _
    · rw [MockFs.link, Function.update_of_ne ha]
      apply kept_update
      rw [hf]
      exact .new hn
  | unlink rel h =>
    apply kept_update
    rw [h]
    exact .dir _ _
  | move dst h hs =>
    apply kept_update
    rw [h]
    exact .dir _ _

theorem Change.allocated (h : Change nodes nodes') (ha : nodes a ≠ none) : nodes' a ≠ none := by
  have hk := h.kept a
  generalize nodes a = o, nodes' a = o' at ha hk
  cases hk with
  | same => exact ha
  | file old new => exact Option.some_ne_none _
  | dir old new => exact Option.some_ne_none _
  | new h => exact Option.some_ne_none _

theorem Change.dir (h : Change nodes nodes') (ha : ∃ entries, nodes a = some (.dir entries)) :
    ∃ entries, nodes' a = some (.dir entries) := by
  obtain ⟨entries, ha⟩ := ha
  have hk := h.kept a
  rw [ha] at hk
  generalize nodes' a = o' at hk
  cases hk with
  | same => exact ⟨entries, rfl⟩
  | dir old new => exact ⟨new, rfl⟩

theorem Change.known (h : Change nodes nodes') (ha : nodes a ≠ some .unreachable) :
    nodes' a ≠ some .unreachable := by
  rintro ha'
  have hk := h.kept a
  rw [ha'] at hk
  generalize nodes a = o at ha hk
  cases hk with
  | same => exact ha rfl
  | new h => exact h

theorem Change.forest (h : Change nodes nodes') (hs : Sound nodes) : Forest (edge nodes') := by
  cases h with
  | same => exact hs.forest
  | data new h =>
    apply hs.forest.mono
    intro v l u
    apply edge_update_other
    rintro es ⟨⟩
  | @link d fresh entries rel node h hf hn =>
    apply hs.forest.graft d fresh rel
    · rintro rfl
      rw [h] at hf
      cases hf
    · intro w k he
      exact hs.closed w k fresh he hf
    · rintro k w ⟨es, hes, -⟩
      rw [hf] at hes
      cases hes
    · intro a k b he
      exact edge_link hn h he
  | unlink rel h =>
    apply hs.forest.mono
    intro v l u he
    rw [edge_update_dir, getElem?_erase] at he
    rcases he with ⟨rfl, -, he⟩ | ⟨-, he⟩
    · exact (edge_iff h).mpr he
    · exact he
  | @move d node entries src dst h hsrc =>
    have hmove : ∀ l u, ((entries.erase src).insert dst node)[l]? = some u →
        l = dst ∧ u = node ∨ l ≠ dst ∧ l ≠ src ∧ edge nodes d l u := by
      intro l u
      rw [getElem?_insert, getElem?_erase, edge_iff h]
      exact id
    have hnode : edge nodes d src node := (edge_iff h).mpr hsrc
    -- the node that moves had no other name
    have hname : ∀ l, edge nodes d l node → l = src := by
      intro l he
      exact (hs.forest.parent d d l src node he hnode).2
    apply hs.forest.shrink
    · intro v l u he
      rw [edge_update_dir] at he
      rcases he with ⟨rfl, he⟩ | ⟨-, he⟩
      · rcases hmove l u he with ⟨-, rfl⟩ | ⟨-, -, he⟩
        · exact ⟨src, hnode⟩
        · exact ⟨l, he⟩
      · exact ⟨l, he⟩
    · intro v l l' u he he'
      rw [edge_update_dir] at he he'
      rcases he with ⟨rfl, he⟩ | ⟨hv, he⟩
      · have he' := (he'.resolve_right fun h' => h'.1 rfl).2
        rcases hmove l u he with ⟨rfl, rfl⟩ | ⟨-, hl, hk⟩
        · rcases hmove l' u he' with ⟨rfl, -⟩ | ⟨-, hl', hk'⟩
          · rfl
          · exact absurd (hname l' hk') hl'
        · rcases hmove l' u he' with ⟨-, rfl⟩ | ⟨-, -, hk'⟩
          · exact absurd (hname l hk) hl
          · exact (hs.forest.parent v v l l' u hk hk').2
      · exact (hs.forest.parent v v l l' u he (he'.resolve_left fun h' => hv h'.1).2).2

theorem Change.closed (h : Change nodes nodes') (hs : Sound nodes) (he : edge nodes' d n a) :
    nodes' a ≠ none := by
  have hold : ∀ k, edge nodes d k a → nodes' a ≠ none := by
    intro k hk
    exact h.allocated (hs.closed d k a hk)
  cases h with
  | same => exact hold n he
  | data new h =>
    apply hold n
    refine edge_update_other ?_ he
    rintro es ⟨⟩
  | @link d fresh entries rel node h hf hn =>
    rcases edge_link hn h he with he | ⟨-, -, ha⟩
    · exact hold n he
    · have hne : fresh ≠ d := by
        rintro rfl
        rw [h] at hf
        cases hf
      rw [ha, MockFs.link, Function.update_of_ne hne, Function.update_self]
      exact Option.some_ne_none _
  | unlink rel h =>
    rw [edge_update_dir, getElem?_erase] at he
    rcases he with ⟨rfl, -, he⟩ | ⟨-, he⟩
    · exact hold n ((edge_iff h).mpr he)
    · exact hold n he
  | move dst h hsrc =>
    rw [edge_update_dir, getElem?_insert, getElem?_erase] at he
    rcases he with ⟨rfl, ⟨-, rfl⟩ | ⟨-, -, he⟩⟩ | ⟨-, he⟩
    · exact hold _ ((edge_iff h).mpr hsrc)
    · exact hold n ((edge_iff h).mpr he)
    · exact hold n he

theorem Change.sound (h : Change nodes nodes') (hs : Sound nodes) : Sound nodes' where
  forest := h.forest hs
  closed := fun _ _ _ => h.closed hs
  known := fun a => h.known (hs.known a)

theorem Sound.free (h : Sound nodes) (ha : ∀ d n, ¬edge nodes d n a) :
    Sound (Function.update nodes a none) := by
  have hedge : ∀ d n b, edge (Function.update nodes a none) d n b → edge nodes d n b := by
    intro d n b
    apply edge_update_other
    rintro es ⟨⟩
  refine ⟨h.forest.mono hedge, ?_, ?_⟩
  · intro d n b he
    have hb : b ≠ a := by
      rintro rfl
      exact ha d n (hedge d n b he)
    rw [Function.update_of_ne hb]
    exact h.closed d n b (hedge d n b he)
  · intro b
    by_cases hb : b = a
    · rw [hb, Function.update_self]
      exact (Option.some_ne_none _).symm
    · rw [Function.update_of_ne hb]
      exact h.known b

end Change

structure Acts {α : Type} (nodes : Nodes) (r : Result α × Nodes) : Prop where
  change : Change nodes r.2
  failed : ∀ e, r.1 = .error e → r.2 = nodes

section Acts

variable {α : Type} {nodes : Nodes} {fresh : Addr}

theorem acts_error (e : PlatformError) : Acts nodes ((.error e, nodes) : Result α × Nodes) :=
  ⟨.same, fun _ _ => rfl⟩

theorem acts_ok {nodes' : Nodes} (a : α) (h : Change nodes nodes') :
    Acts nodes ((.ok a, nodes') : Result α × Nodes) := by
  refine ⟨h, ?_⟩
  rintro e ⟨⟩

theorem clear_change (a : Addr) : Change nodes (clear nodes a) := by
  unfold clear
  split
  · exact .data [] ‹_›
  · exact .same

theorem insertFile_acts (d : Addr) (rel : Name) (hf : nodes fresh = none) :
    Acts nodes (insertFile nodes d rel fresh) := by
  unfold insertFile
  split
  · exact acts_ok _ (.link rel ‹_› hf trivial)
  · exact acts_error _

namespace MockDir

variable (self : MockDir)

theorem open'_acts (rel : Name) (opts : OpenOptions) (hf : nodes fresh = none) :
    Acts nodes (self.open' nodes rel opts fresh) := by
  unfold open'
  split
  · split_ifs
    · exact acts_error _
    · exact acts_ok _ (clear_change _)
    · exact acts_ok _ .same
  · split_ifs
    · exact insertFile_acts _ rel hf
    · exact acts_error _

theorem make_acts (rel : Name) (op : String) {node : Node} (hf : nodes fresh = none)
    (hn : node.Leaf) : Acts nodes (self.make nodes rel op fresh node) := by
  unfold make
  split
  · split_ifs
    · exact acts_error _
    · exact acts_ok _ (.link rel ‹_› hf hn)
  · exact acts_error _

theorem remove_acts (rel : Name) (wantDir : Bool) (op : String) :
    Acts nodes (self.remove nodes rel wantDir op) := by
  unfold remove
  split
  · split
    · exact acts_error _
    · have hgone : Acts nodes ((.ok (), _) : Result Unit × Nodes) := acts_ok () (.unlink rel ‹_›)
      dsimp only
      split
      · exact acts_error _
      · exact acts_error _
      · exact acts_error _
      · split_ifs
        · exact hgone
        · exact acts_error _
      · exact hgone
  · exact acts_error _

theorem renameImpl_acts (src dst : Name) (replace : Bool) :
    Acts nodes (self.renameImpl nodes src dst replace) := by
  unfold renameImpl
  split
  · split
    · exact acts_error _
    · split_ifs
      · exact acts_error _
      · exact acts_ok _ (.move dst ‹_› ‹_›)
  · exact acts_error _

end MockDir

theorem MockFile.write_acts (self : MockFile) (buf : List UInt8) :
    Acts nodes (self.write nodes buf) := by
  unfold write
  split_ifs
  · exact acts_error _
  · split
    · exact acts_ok _ (.data _ ‹_›)
    · exact acts_error _

end Acts

namespace MockDir

variable {nodes : Nodes} {fresh a : Addr} {rel : Name}

theorem child_ok (self : MockDir) {op : String} (h : self.child nodes rel op = .ok a) :
    edge nodes self.node rel a := by
  unfold child at h
  split at h
  · rename_i entries hd
    split at h
    · rename_i node hn
      cases h
      exact ⟨entries, hd, hn⟩
    · cases h
  · cases h

theorem open'_ok (self : MockDir) {opts : OpenOptions} (hs : Sound nodes) (hf : nodes fresh = none)
    (h : (self.open' nodes rel opts fresh).1 = .ok a) : (self.open' nodes rel opts fresh).2 a ≠ none := by
  unfold open' at h ⊢
  split at h
  · rename_i node hc
    have hnode := hs.closed _ _ _ (self.child_ok hc)
    split_ifs at h ⊢
    · cases h
      exact (clear_change _).allocated hnode
    · cases h
      exact hnode
  · split_ifs at h ⊢
    unfold insertFile at h ⊢
    split at h
    · rename_i entries hd
      cases h
      have hne : fresh ≠ self.node := by
        rintro rfl
        rw [hf] at hd
        cases hd
      simp [link, hne]
    · cases h

theorem openDir_ok (self : MockDir) {d : MockDir} (h : self.openDir nodes rel = .ok d) :
    ∃ entries, nodes d.node = some (.dir entries) := by
  unfold openDir at h
  split at h
  · cases h
  · split at h
    · rename_i entries hn
      cases h
      exact ⟨entries, hn⟩
    · cases h

end MockDir

structure Inv (w : World) : Prop where
  sound : Sound w.nodes
  dirs : ∀ h d, w.dirs h = some d → ∃ entries, w.nodes d.node = some (.dir entries)
  files : ∀ h f, w.files h = some f → w.nodes f.node ≠ none

structure Proper (w : World) (r : Result Reply × World) : Prop where
  inv : Inv r.2
  failed : ∀ e, r.1 = .error e → r.2 = w

section World

variable {w : World} {fresh : Fresh} {α : Type}

theorem Inv.change {nodes : Nodes} (h : Inv w) (hc : Change w.nodes nodes) :
    Inv { w with nodes } where
  sound := hc.sound h.sound
  dirs := fun i d hd => hc.dir (h.dirs i d hd)
  files := fun i f hf => hc.allocated (h.files i f hf)

theorem Inv.addDir {d : MockDir} (h : Inv w) (hd : ∃ entries, w.nodes d.node = some (.dir entries)) :
    Inv (w.addDir fresh d) where
  sound := h.sound
  files := h.files
  dirs := by
    intro i d' hi
    by_cases hif : i = fresh.handle
    · simp only [World.addDir, hif, Function.update_self, Option.some.injEq] at hi
      rw [← hi]
      exact hd
    · simp only [World.addDir, Function.update_of_ne hif] at hi
      exact h.dirs i d' hi

theorem Inv.addFile {f : MockFile} (h : Inv w) (hf : w.nodes f.node ≠ none) :
    Inv (w.addFile fresh f) where
  sound := h.sound
  dirs := h.dirs
  files := by
    intro i f' hi
    by_cases hif : i = fresh.handle
    · simp only [World.addFile, hif, Function.update_self, Option.some.injEq] at hi
      rw [← hi]
      exact hf
    · simp only [World.addFile, Function.update_of_ne hif] at hi
      exact h.files i f' hi

theorem Inv.positions (h : Inv w) (positions : Addr → ℕ) : Inv { w with positions } :=
  ⟨h.sound, h.dirs, h.files⟩

theorem looks_proper {reply : α → Reply} {r : Result α} (h : Inv w) : Proper w (w.looks reply r) :=
  ⟨h, fun _ _ => rfl⟩

theorem acts_proper {reply : α → Reply} {r : Result α × Nodes} (h : Inv w) (ha : Acts w.nodes r) :
    Proper w (w.acts reply r) := by
  refine ⟨h.change ha.change, ?_⟩
  intro e he
  obtain ⟨r | a, nodes⟩ := r
  · obtain rfl : nodes = w.nodes := ha.failed r rfl
    rfl
  · cases he

theorem opens_proper {opts : OpenOptions} {r : Result Addr × Nodes} (h : Inv w)
    (ha : Acts w.nodes r) (hr : ∀ a, r.1 = .ok a → r.2 a ≠ none) :
    Proper w (w.opens fresh opts r) := by
  obtain ⟨e | a, nodes⟩ := r
  · obtain rfl : nodes = w.nodes := ha.failed e rfl
    exact ⟨h, fun _ _ => rfl⟩
  · refine ⟨?_, ?_⟩
    · have hi : Inv (World.addFile { w with nodes } fresh (MockDir.fileOf a fresh.pos opts)) :=
        (h.change ha.change).addFile (hr a rfl)
      exact hi.positions _
    · rintro e ⟨⟩

theorem opensDir_proper {r : Result MockDir} (h : Inv w)
    (hr : ∀ d, r = .ok d → ∃ entries, w.nodes d.node = some (.dir entries)) :
    Proper w (w.opensDir fresh r) := by
  cases r with
  | error e => exact ⟨h, fun _ _ => rfl⟩
  | ok d =>
    refine ⟨h.addDir (hr d rfl), ?_⟩
    rintro e ⟨⟩

theorem MockDir.exec_proper (self : MockDir) {op : DirOp} {r : Result Reply × World} (h : Inv w)
    (hd : ∃ entries, w.nodes self.node = some (.dir entries)) (hf : w.nodes fresh.node = none)
    (hr : self.exec w fresh op = some r) : Proper w r := by
  cases op with
  | clone =>
    cases hr
    apply opensDir_proper h
    rintro d ⟨⟩
    exact hd
  | withFile name contents =>
    obtain ⟨entries, hd⟩ := hd
    simp only [MockDir.exec, MockDir.withFile, hd, Option.map_some, Option.some.injEq] at hr
    have hc : Change w.nodes (link w.nodes self.node entries name fresh.node (.file contents)) :=
      .link name hd hf trivial
    rw [← hr]
    refine ⟨h.change hc, ?_⟩
    rintro e ⟨⟩
  | «open» rel opts =>
    cases hr
    exact opens_proper h (self.open'_acts rel opts hf) fun a => self.open'_ok h.sound hf
  | openDir rel =>
    cases hr
    exact opensDir_proper h fun d => self.openDir_ok
  | createDir rel =>
    cases hr
    exact acts_proper h (self.make_acts rel _ hf fun _ => Std.TreeMap.getElem?_emptyc)
  | metadata rel =>
    obtain ⟨m, -, rfl⟩ := Option.map_eq_some_iff.mp hr
    exact looks_proper h
  | access rel mode =>
    cases hr
    exact looks_proper h
  | unixMode rel =>
    cases hr
    exact looks_proper h
  | setUnixMode rel mode =>
    cases hr
    exact looks_proper h
  | fileId rel =>
    cases hr
    exact looks_proper h
  | readDir =>
    obtain ⟨es, -, rfl⟩ := Option.map_eq_some_iff.mp hr
    exact looks_proper h
  | removeFile rel =>
    cases hr
    exact acts_proper h (self.remove_acts rel false _)
  | removeDir rel =>
    cases hr
    exact acts_proper h (self.remove_acts rel true _)
  | symlink target linkName =>
    cases hr
    exact acts_proper h (self.make_acts linkName _ hf trivial)
  | readLink rel =>
    cases hr
    exact looks_proper h
  | rename src dst =>
    cases hr
    exact acts_proper h (self.renameImpl_acts src dst true)
  | renameNoReplace src dst =>
    cases hr
    exact acts_proper h (self.renameImpl_acts src dst false)

theorem MockFile.read_failed (self : MockFile) {nodes : Nodes} {pos len : ℕ} {e : PlatformError}
    (h : (self.read nodes pos len).1 = .error e) : (self.read nodes pos len).2 = pos := by
  unfold read at h ⊢
  split_ifs at h ⊢
  · rfl
  · split at h
    · cases h
    · rfl

theorem MockFile.exec_proper (self : MockFile) {op : FileOp} (h : Inv w)
    (hf : w.nodes self.node ≠ none) : Proper w (self.exec w fresh op) := by
  cases op with
  | read len =>
    refine ⟨h.positions _, ?_⟩
    intro e he
    cases hr : (self.read w.nodes (w.positions self.pos) len).1 with
    | error e' =>
      have hpos := self.read_failed hr
      simp [MockFile.exec, hpos]
    | ok bytes => simp [MockFile.exec, hr, Except.map] at he
  | write buf => exact acts_proper h (self.write_acts buf)
  | flush => exact ⟨h, fun _ _ => rfl⟩
  | syncAll => exact ⟨h, fun _ _ => rfl⟩
  | tryClone =>
    refine ⟨h.addFile hf, ?_⟩
    rintro e ⟨⟩

theorem Inv.free {a : Addr} (h : Inv w) (hg : w.Garbage a) :
    Inv { w with nodes := Function.update w.nodes a none } where
  sound := h.sound.free hg.entry
  dirs := by
    intro i d hd
    simp only [Function.update_of_ne (hg.dir i d hd)]
    exact h.dirs i d hd
  files := by
    intro i f hf
    simp only [Function.update_of_ne (hg.file i f hf)]
    exact h.files i f hf

theorem Inv.step {w' : World} {ev : Event} (h : Inv w) (hs : Step w ev w') :
    Inv w' ∧ ∀ e, ev.error? = some e → w' = w := by
  cases hs with
  | @dir i d op r _ fresh hd hf hr =>
    have hp := d.exec_proper h (h.dirs i d hd) hf.node hr
    refine ⟨hp.inv, ?_⟩
    intro e he
    cases r with
    | error e' => exact hp.failed e' rfl
    | ok reply => cases he
  | @file i f op r _ fresh hd hf hr =>
    have hp : Proper w (r, w') := hr ▸ f.exec_proper h (h.files i f hd)
    refine ⟨hp.inv, ?_⟩
    intro e he
    cases r with
    | error e' => exact hp.failed e' rfl
    | ok reply => cases he
  | dropDir i =>
    refine ⟨⟨h.sound, ?_, h.files⟩, ?_⟩
    · intro j d hd
      by_cases hj : j = i
      · simp [hj] at hd
      · simp only [Function.update_of_ne hj] at hd
        exact h.dirs j d hd
    · rintro e ⟨⟩
  | dropFile i =>
    refine ⟨⟨h.sound, h.dirs, ?_⟩, ?_⟩
    · intro j f hf
      by_cases hj : j = i
      · simp [hj] at hf
      · simp only [Function.update_of_ne hj] at hf
        exact h.files j f hf
    · rintro e ⟨⟩
  | free hg =>
    refine ⟨h.free hg, ?_⟩
    rintro e ⟨⟩

theorem root_edge {r d a : Addr} {n : Name} : ¬edge (World.root r).nodes d n a := by
  rintro ⟨es, hes, he⟩
  by_cases hd : d = r
  · simp only [World.root, hd, Function.update_self, Option.some.injEq, Node.dir.injEq] at hes
    rw [← hes, Std.TreeMap.getElem?_emptyc] at he
    cases he
  · simp [World.root, hd] at hes

theorem inv_root (r : Addr) : Inv (.root r) := by
  refine ⟨⟨⟨?_, ?_⟩, ?_, ?_⟩, ?_, ?_⟩
  · intro v v' l l' u he
    exact absurd he root_edge
  · intro v hv
    obtain ⟨b, ⟨l, he⟩, -⟩ := Relation.TransGen.head'_iff.mp hv
    exact root_edge he
  · intro d n a he
    exact absurd he root_edge
  · intro a
    by_cases ha : a = r <;> simp [World.root, ha]
  · intro i d hd
    by_cases hi : i = 0
    · simp only [World.root, hi, Function.update_self, Option.some.injEq] at hd
      refine ⟨∅, ?_⟩
      simp [World.root, ← hd]
    · simp [World.root, hi] at hd
  · rintro i f ⟨⟩

theorem inv_of_run {r : Addr} {tr : List Event} (h : Run Step (.root r) tr w) : Inv w := by
  induction h with
  | refl => exact inv_root r
  | tail _ hs ih => exact (ih.step hs).1

end World

theorem fileId_ok {d : MockDir} {nodes : Nodes} {n : Name} {id : FileId}
    (h : d.fileId nodes n = .ok id) : edge nodes d.node n id.ino := by
  unfold MockDir.fileId at h
  cases hc : d.child nodes n "file_id" with
  | error e =>
    rw [hc] at h
    cases h
  | ok a =>
    rw [hc] at h
    cases h
    exact d.child_ok hc

theorem nodes_form_forest (r : Addr) (tr : List Event) (w : World) (h : Run Step (.root r) tr w) :
    (∀ d, ¬Relation.TransGen (Child (edge w.nodes)) d d) ∧
    (∀ d d' n n' a, edge w.nodes d n a → edge w.nodes d' n' a → d = d' ∧ n = n') ∧
    (∀ (d d' : MockDir) n n' id, d.fileId w.nodes n = .ok id → d'.fileId w.nodes n' = .ok id →
      d.node = d'.node ∧ n = n') ∧
    ∀ ev w' e, Step w ev w' → ev.error? = some e → w' = w := by
  have hi := inv_of_run h
  refine ⟨hi.sound.forest.acyclic, hi.sound.forest.parent, ?_, ?_⟩
  · intro d d' n n' id hd hd'
    exact hi.sound.forest.parent _ _ _ _ _ (fileId_ok hd) (fileId_ok hd')
  · intro ev w' e hs
    exact (hi.step hs).2 e

theorem run_dir {w₀ w w' : World} {tr : List Event} {d : MockDir} {r : Result Reply}
    (h : Run Step w₀ tr w) (i : Handle) (op : DirOp) (fresh : Fresh) (hd : w.dirs i = some d)
    (hn : w.nodes fresh.node = none) (hh : w.dirs fresh.handle = none)
    (hw : w.files = fun _ => none) (hr : d.exec w fresh op = some (r, w')) :
    Run Step w₀ (tr ++ [.dir i op r]) w' := by
  have hf : w.Unused fresh := by
    refine ⟨hn, ?_, hh, ?_⟩
    · rw [hw]
      rintro i f ⟨⟩
    · rw [hw]
  exact h.tail (.dir fresh hd hf hr)

theorem removed_dir_stays_in_forest :
    ∃ tr w, Run Step (.root 0) tr w ∧ (∀ d, ¬Relation.TransGen (Child (edge w.nodes)) d d) ∧
      edge w.nodes 1 [101] 2 ∧ ¬edge w.nodes 0 [100] 1 := by
  have h₀ : Run Step (.root 0) [] (.root 0) := .refl
  have h₁ := run_dir h₀ 0 (.createDir [100]) ⟨1, 0, 1⟩ rfl rfl rfl rfl rfl
  have h₂ := run_dir h₁ 0 (.openDir [100]) ⟨2, 0, 1⟩ rfl rfl rfl rfl rfl
  have h₃ := run_dir h₂ 0 (.removeDir [100]) ⟨2, 0, 2⟩ rfl rfl rfl rfl rfl
  have h₄ := run_dir h₃ 1 (.createDir [101]) ⟨2, 0, 2⟩ rfl rfl rfl rfl rfl
  refine ⟨_, _, h₄, (nodes_form_forest _ _ _ h₄).1, ⟨_, rfl, rfl⟩, ?_⟩
  rintro ⟨es, hes, he⟩
  cases hes
  cases he

end Rustils.MockFs
