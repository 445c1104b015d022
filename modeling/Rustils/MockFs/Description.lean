import Rustils.MockFs.Rename

namespace Rustils.MockFs

open Platform Lib.Trace

structure Description where
  pos : ℕ
  readable : Bool
  writable : Bool
  append : Bool
  wrote : Bool

structure Posix where
  contents : Option (List UInt8)
  descriptions : Addr → Description
  handles : Handle → Option Addr

inductive Use
  | open (opts : OpenOptions)
  | clone (k : Handle)
  | read (k : Handle) (len : ℕ)
  | write (k : Handle) (buf : List UInt8)
  | drop (k : Handle)

/-- A gap between the end of the file and the position is filled with zeros. -/
def overwrite (data : List UInt8) (pos : ℕ) (buf : List UInt8) : List UInt8 :=
  data.take pos ++ List.replicate (pos - data.length) 0 ++ buf ++ data.drop (pos + buf.length)

namespace Posix

def start (contents : Option (List UInt8)) : Posix := ⟨contents, fun _ => ⟨0, false, false, false, false⟩, fun _ => none⟩

def opened (p : Posix) (fresh : Fresh) (opts : OpenOptions) (data : List UInt8) : Option Reply × Posix :=
  (some (.handle fresh.handle),
    { contents := some data
      descriptions := Function.update p.descriptions fresh.pos
        ⟨0, opts.read, opts.write || opts.append, opts.append, false⟩
      handles := Function.update p.handles fresh.handle (some fresh.pos) })

def describe (p : Posix) (i : Addr) (D : Description) : Posix :=
  { p with descriptions := Function.update p.descriptions i D }

def exec (p : Posix) (fresh : Fresh) : Use → Option Reply × Posix
  | .open opts =>
    match p.contents with
    | some data => if opts.createNew then (none, p) else p.opened fresh opts (if opts.truncate then [] else data)
    | none => if opts.create || opts.createNew then p.opened fresh opts [] else (none, p)
  | .clone k =>
    match p.handles k with
    | some i => (some (.handle fresh.handle), { p with handles := Function.update p.handles fresh.handle (some i) })
    | none => (none, p)
  | .read k len =>
    match p.handles k, p.contents with
    | some i, some data =>
      let D := p.descriptions i
      if D.readable then
        let bytes := (data.drop D.pos).take len
        (some (.bytes bytes), p.describe i { D with pos := D.pos + bytes.length })
      else (none, p)
    | _, _ => (none, p)
  | .write k buf =>
    match p.handles k, p.contents with
    | some i, some data =>
      let D := p.descriptions i
      if D.writable then
        if buf = [] then (some (.count 0), p)
        else
          let pos := if D.append then data.length else D.pos
          (some (.count buf.length),
            { p.describe i { D with pos := pos + buf.length, wrote := true } with
              contents := some (overwrite data pos buf) })
      else (none, p)
    | _, _ => (none, p)
  | .drop k => (some .done, { p with handles := Function.update p.handles k none })

end Posix

def World.use (w : World) (d : MockDir) (name : Name) (fresh : Fresh) : Use → Option (Result Reply × World)
  | .open opts => d.exec w fresh (.open name opts)
  | .clone k => (w.files k).map fun f => f.exec w fresh .tryClone
  | .read k len => (w.files k).map fun f => f.exec w fresh (.read len)
  | .write k buf => (w.files k).map fun f => f.exec w fresh (.write buf)
  | .drop k => some (.ok .done, { w with files := Function.update w.files k none })

def Use.Held (p : Posix) : Use → Prop
  | .open _ => True
  | .clone k | .read k _ | .write k _ | .drop k => p.handles k ≠ none

/-- The mock appends and leaves the position where it was. -/
def Use.Careful (p : Posix) : Use → Prop
  | .read k len => 0 < len → ∀ i, p.handles k = some i → (p.descriptions i).readable = true →
    (p.descriptions i).wrote = false
  | .write k buf => buf ≠ [] → ∀ i, p.handles k = some i → (p.descriptions i).writable = true →
    (p.descriptions i).append = false → ∀ data, p.contents = some data → (p.descriptions i).pos = data.length
  | _ => True

structure Seen where
  use : Use
  mock : Option Reply
  posix : Option Reply

structure Joint (d : MockDir) (name : Name) (s : World × Posix) (e : Seen) (s' : World × Posix) : Prop where
  held : e.use.Held s.2
  both : ∃ fresh r, s.1.Unused fresh ∧ s.1.use d name fresh e.use = some (r, s'.1) ∧ r.toOption = e.mock ∧
    s.2.exec fresh e.use = (e.posix, s'.2)

structure CarefulJoint (d : MockDir) (name : Name) (s : World × Posix) (e : Seen) (s' : World × Posix) : Prop
    extends Joint d name s e s' where
  careful : e.use.Careful s.2

def contentsOf (nodes : Nodes) (d : Addr) (name : Name) : Option (List UInt8) :=
  (namesOf nodes d name).bind fun a =>
    match nodes a with
    | some (.file data) => some data
    | _ => none

structure Sim (d : MockDir) (name : Name) (w : World) (p : Posix) : Prop where
  dir : ∃ entries, w.nodes d.node = some (.dir entries)
  file : ∀ a, namesOf w.nodes d.node name = some a → ∃ data, w.nodes a = some (.file data)
  contents : contentsOf w.nodes d.node name = p.contents
  handles : ∀ k i, p.handles k = some i → ∃ f, w.files k = some f ∧ namesOf w.nodes d.node name = some f.node ∧
    f.pos = i ∧ f.readable = (p.descriptions i).readable ∧ f.writable = (p.descriptions i).writable ∧
    ((p.descriptions i).wrote = false → w.positions i = (p.descriptions i).pos)

theorem namesOf_update {nodes : Nodes} {d a : Addr} (h : a ≠ d) (o : Option Node) :
    namesOf (Function.update nodes a o) d = namesOf nodes d := by
  rw [namesOf, Function.update_of_ne h.symm, namesOf]

section Sim

variable {d : MockDir} {name : Name} {w : World} {p : Posix}

theorem contentsOf_file {nodes : Nodes} {a : Addr} {data : List UInt8} (hn : namesOf nodes d.node name = some a)
    (ha : nodes a = some (.file data)) : contentsOf nodes d.node name = some data := by
  rw [contentsOf, hn, Option.bind_some, ha]

theorem Sim.file_iff (h : Sim d name w p) {data : List UInt8} :
    p.contents = some data ↔ ∃ a, namesOf w.nodes d.node name = some a ∧ w.nodes a = some (.file data) := by
  rw [← h.contents]
  constructor
  · intro hc
    rcases hn : namesOf w.nodes d.node name with _ | a
    · rw [contentsOf, hn] at hc
      cases hc
    · obtain ⟨old, ha⟩ := h.file a hn
      cases (contentsOf_file hn ha).symm.trans hc
      exact ⟨a, rfl, ha⟩
  · rintro ⟨a, hn, ha⟩
    exact contentsOf_file hn ha

theorem Sim.file_ne_dir (h : Sim d name w p) {a : Addr} (hn : namesOf w.nodes d.node name = some a) : a ≠ d.node := by
  rintro rfl
  obtain ⟨entries, hd⟩ := h.dir
  obtain ⟨data, ha⟩ := h.file _ hn
  cases hd.symm.trans ha

theorem Sim.rewrite (h : Sim d name w p) {a : Addr} (hn : namesOf w.nodes d.node name = some a) (data : List UInt8) :
    Sim d name { w with nodes := Function.update w.nodes a (some (.file data)) } { p with contents := some data } := by
  have hne := h.file_ne_dir hn
  have hnames : namesOf (Function.update w.nodes a (some (.file data))) d.node = namesOf w.nodes d.node :=
    namesOf_update hne _
  obtain ⟨entries, hd⟩ := h.dir
  refine ⟨⟨entries, ?_⟩, fun b hb => ⟨data, ?_⟩, contentsOf_file (hnames ▸ hn) (Function.update_self ..), ?_⟩
  · exact (Function.update_of_ne hne.symm _ _).trans hd
  · rw [hnames, hn] at hb
    cases hb
    exact Function.update_self ..
  · intro k i hk
    obtain ⟨f, hf, hfn, hrest⟩ := h.handles k i hk
    exact ⟨f, hf, hnames ▸ hfn, hrest⟩

theorem Sim.describe (h : Sim d name w p) (i : Addr) (pos : ℕ) (D : Description)
    (hr : D.readable = (p.descriptions i).readable) (hw : D.writable = (p.descriptions i).writable)
    (hpos : D.wrote = false → pos = D.pos) :
    Sim d name { w with positions := Function.update w.positions i pos } (p.describe i D) := by
  refine ⟨h.dir, h.file, h.contents, fun k j hk => ?_⟩
  obtain ⟨f, hf, hfn, rfl, hfr, hfw, hfp⟩ := h.handles k j hk
  refine ⟨f, hf, hfn, rfl, ?_⟩
  by_cases hj : f.pos = i
  · subst hj
    simp only [Posix.describe, Function.update_self]
    exact ⟨hfr.trans hr.symm, hfw.trans hw.symm, hpos⟩
  · simp only [Posix.describe, Function.update_of_ne hj]
    exact ⟨hfr, hfw, hfp⟩

theorem Sim.opened (h : Sim d name w p) {fresh : Fresh} (hf : ∀ k f, w.files k = some f → f.pos ≠ fresh.pos) {a : Addr}
    (hn : namesOf w.nodes d.node name = some a) (opts : OpenOptions) {data : List UInt8}
    (ha : w.nodes a = some (.file data)) :
    Sim d name { w.addFile fresh (MockDir.fileOf a fresh.pos opts) with
      positions := Function.update w.positions fresh.pos 0 } (p.opened fresh opts data).2 := by
  refine ⟨h.dir, h.file, contentsOf_file hn ha, fun k i hk => ?_⟩
  simp only [Posix.opened, World.addFile] at hk ⊢
  by_cases hkf : k = fresh.handle
  · subst hkf
    rw [Function.update_self] at hk
    cases hk
    rw [Function.update_self, Function.update_self, Function.update_self]
    exact ⟨_, rfl, hn, rfl, rfl, rfl, fun _ => rfl⟩
  · rw [Function.update_of_ne hkf] at hk ⊢
    obtain ⟨f, hkf', hfn, rfl, hrest⟩ := h.handles k i hk
    have hpos := hf k f hkf'
    rw [Function.update_of_ne hpos, Function.update_of_ne hpos]
    exact ⟨f, hkf', hfn, rfl, hrest⟩

theorem open'_present {nodes : Nodes} {entries : Entries} {fresh a : Addr} {opts : OpenOptions}
    (hd : nodes d.node = some (.dir entries)) (hn : entries[name]? = some a) :
    d.open' nodes name opts fresh =
      if opts.createNew then (.error (err .alreadyExists "open" name), nodes)
      else (.ok a, if opts.truncate then clear nodes a else nodes) := by
  simp only [MockDir.open', MockDir.child, hd, hn]

theorem open'_absent {nodes : Nodes} {entries : Entries} {fresh : Addr} {opts : OpenOptions}
    (hd : nodes d.node = some (.dir entries)) (hn : entries[name]? = none) :
    d.open' nodes name opts fresh =
      if opts.create || opts.createNew then (.ok fresh, link nodes d.node entries name fresh (.file []))
      else (.error (err .notFound "open" name), nodes) := by
  simp only [MockDir.open', MockDir.child, hd, hn, insertFile]

theorem Sim.created (h : Sim d name w p) {entries : Entries} (hd : w.nodes d.node = some (.dir entries))
    (hn : namesOf w.nodes d.node name = none) {fresh : Addr} (hf : w.nodes fresh = none) :
    let nodes := link w.nodes d.node entries name fresh (.file [])
    namesOf nodes d.node name = some fresh ∧ nodes fresh = some (.file []) ∧
      Sim d name { w with nodes } { p with contents := some [] } := by
  have hne : fresh ≠ d.node := by
    rintro rfl
    cases hd.symm.trans hf
  have hdir : link w.nodes d.node entries name fresh (.file []) d.node = some (.dir (entries.insert name fresh)) :=
    Function.update_self ..
  have hname : namesOf (link w.nodes d.node entries name fresh (.file [])) d.node name = some fresh := by
    rw [namesOf_dir hdir]
    exact Std.TreeMap.getElem?_insert_self
  have hfresh : link w.nodes d.node entries name fresh (.file []) fresh = some (.file []) := by
    rw [link, Function.update_of_ne hne, Function.update_self]
  refine ⟨hname, hfresh, ⟨_, hdir⟩, fun a ha => ⟨[], ?_⟩, contentsOf_file hname hfresh, fun k i hk => ?_⟩
  · cases hname.symm.trans ha
    exact hfresh
  · obtain ⟨f, -, hfn, -⟩ := h.handles k i hk
    cases hn.symm.trans hfn

theorem Sim.open (h : Sim d name w p) {fresh : Fresh} (hf : w.Unused fresh) (opts : OpenOptions) {r : Result Reply}
    {w' : World} (hr : w.use d name fresh (.open opts) = some (r, w')) :
    Sim d name w' (p.exec fresh (.open opts)).2 ∧ r.toOption = (p.exec fresh (.open opts)).1 := by
  obtain ⟨entries, hd⟩ := h.dir
  simp only [World.use, MockDir.exec, Option.some.injEq] at hr
  rcases hn : namesOf w.nodes d.node name with _ | a
  · have hc : p.contents = none := by
      rw [← h.contents, contentsOf, hn]
      rfl
    rw [open'_absent hd ((namesOf_dir hd name).symm.trans hn)] at hr
    simp only [Posix.exec, hc]
    split_ifs at hr ⊢ with hcreate
    · obtain ⟨hname, hfresh, hsim⟩ := h.created hd hn hf.node
      cases hr
      exact ⟨hsim.opened hf.pos hname opts hfresh, rfl⟩
    · cases hr
      exact ⟨h, rfl⟩
  · obtain ⟨data, ha⟩ := h.file a hn
    have hc := h.file_iff.mpr ⟨a, hn, ha⟩
    rw [open'_present hd ((namesOf_dir hd name).symm.trans hn)] at hr
    simp only [Posix.exec, hc]
    split_ifs at hr ⊢ with hnew htrunc
    · cases hr
      exact ⟨h, rfl⟩
    · have hsim := h.rewrite hn []
      have hclear : clear w.nodes a = Function.update w.nodes a (some (.file [])) := by rw [clear, ha]
      rw [hclear] at hr
      cases hr
      refine ⟨hsim.opened hf.pos ?_ opts (Function.update_self ..), rfl⟩
      rw [namesOf_update (h.file_ne_dir hn)]
      exact hn
    · cases hr
      exact ⟨h.opened hf.pos hn opts ha, rfl⟩

theorem Sim.clone (h : Sim d name w p) {fresh : Fresh} {k : Handle} (hk : p.handles k ≠ none) {r : Result Reply}
    {w' : World} (hr : w.use d name fresh (.clone k) = some (r, w')) :
    Sim d name w' (p.exec fresh (.clone k)).2 ∧ r.toOption = (p.exec fresh (.clone k)).1 := by
  obtain ⟨i, hi⟩ := Option.ne_none_iff_exists'.mp hk
  obtain ⟨f, hf, hrest⟩ := h.handles k i hi
  simp only [World.use, hf, Option.map_some, MockFile.exec, Option.some.injEq] at hr
  simp only [Posix.exec, hi]
  cases hr
  refine ⟨⟨h.dir, h.file, h.contents, fun k' j hj => ?_⟩, rfl⟩
  simp only [World.addFile] at hj ⊢
  by_cases hkf : k' = fresh.handle
  · subst hkf
    rw [Function.update_self] at hj ⊢
    cases hj
    exact ⟨f, rfl, hrest⟩
  · rw [Function.update_of_ne hkf] at hj ⊢
    exact h.handles k' j hj

theorem drop_min (data : List UInt8) (pos : ℕ) : data.drop (min pos data.length) = data.drop pos := by
  rcases Nat.le_total pos data.length with hle | hle
  · rw [Nat.min_eq_left hle]
  · rw [Nat.min_eq_right hle, List.drop_length, List.drop_eq_nil_of_le hle]

theorem Sim.read (h : Sim d name w p) {fresh : Fresh} {k : Handle} {len : ℕ} (hk : p.handles k ≠ none)
    (hc : (Use.read k len).Careful p) {r : Result Reply} {w' : World}
    (hr : w.use d name fresh (.read k len) = some (r, w')) :
    Sim d name w' (p.exec fresh (.read k len)).2 ∧ r.toOption = (p.exec fresh (.read k len)).1 := by
  obtain ⟨i, hi⟩ := Option.ne_none_iff_exists'.mp hk
  obtain ⟨f, hf, hfn, rfl, hfr, hfw, hpos⟩ := h.handles k i hi
  obtain ⟨data, ha⟩ := h.file _ hfn
  have hdata := h.file_iff.mpr ⟨_, hfn, ha⟩
  simp only [World.use, hf, Option.map_some, MockFile.exec, MockFile.read, Option.some.injEq] at hr
  simp only [Posix.exec, hi, hdata]
  rw [← hfr]
  cases hread : f.readable with
  | false =>
    simp only [hread, Bool.not_false, ↓reduceIte, Function.update_eq_self] at hr
    cases hr
    exact ⟨h, rfl⟩
  | true =>
    simp only [hread, Bool.not_true, Bool.false_eq_true, ↓reduceIte, ha, drop_min] at hr
    -- the bytes are those at the position of the model, or none were asked for
    have hbytes : (data.drop (w.positions f.pos)).take len = (data.drop (p.descriptions f.pos).pos).take len := by
      rcases Nat.eq_zero_or_pos len with rfl | hlen
      · rw [List.take_zero, List.take_zero]
      · rw [hpos (hc hlen f.pos hi (hfr.symm.trans hread))]
    rw [hbytes] at hr
    cases hr
    refine ⟨h.describe f.pos _ _ (hread.symm.trans hfr) rfl fun hw => ?_, rfl⟩
    rw [hpos hw]

theorem overwrite_end (data buf : List UInt8) : overwrite data data.length buf = data ++ buf := by
  rw [overwrite, List.take_length, Nat.sub_self, List.drop_eq_nil_of_le (Nat.le_add_right ..)]
  simp

theorem Sim.write (h : Sim d name w p) {fresh : Fresh} {k : Handle} {buf : List UInt8} (hk : p.handles k ≠ none)
    (hc : (Use.write k buf).Careful p) {r : Result Reply} {w' : World}
    (hr : w.use d name fresh (.write k buf) = some (r, w')) :
    Sim d name w' (p.exec fresh (.write k buf)).2 ∧ r.toOption = (p.exec fresh (.write k buf)).1 := by
  obtain ⟨i, hi⟩ := Option.ne_none_iff_exists'.mp hk
  obtain ⟨f, hf, hfn, rfl, hfr, hfw, hpos⟩ := h.handles k i hi
  obtain ⟨data, ha⟩ := h.file _ hfn
  have hdata := h.file_iff.mpr ⟨_, hfn, ha⟩
  simp only [World.use, hf, Option.map_some, MockFile.exec, MockFile.write, World.acts, Option.some.injEq] at hr
  simp only [Posix.exec, hi, hdata]
  rw [← hfw]
  cases hwrite : f.writable with
  | false =>
    simp only [hwrite, Bool.not_false, ↓reduceIte] at hr
    cases hr
    exact ⟨h, rfl⟩
  | true =>
    simp only [hwrite, Bool.not_true, Bool.false_eq_true, ↓reduceIte, ha] at hr ⊢
    by_cases hbuf : buf = []
    · subst hbuf
      rw [List.append_nil, ← ha, Function.update_eq_self] at hr
      cases hr
      exact ⟨h, rfl⟩
    · -- what POSIX writes at is the end of the file
      have hend : (if (p.descriptions f.pos).append = true then data.length else (p.descriptions f.pos).pos) =
          data.length := by
        split_ifs with happ
        · rfl
        · exact hc hbuf f.pos hi (hfw.symm.trans hwrite) (Bool.not_eq_true _ ▸ happ) data hdata
      rw [if_neg hbuf, hend, overwrite_end]
      cases hr
      have hsim := (h.describe f.pos (w.positions f.pos)
        { p.descriptions f.pos with pos := data.length + buf.length, writable := true, wrote := true } rfl
        (hwrite.symm.trans hfw) (fun h => by cases h)).rewrite hfn (data ++ buf)
      rw [Function.update_eq_self] at hsim
      exact ⟨hsim, rfl⟩

theorem Sim.drop (h : Sim d name w p) {fresh : Fresh} {k : Handle} {r : Result Reply} {w' : World}
    (hr : w.use d name fresh (.drop k) = some (r, w')) :
    Sim d name w' (p.exec fresh (.drop k)).2 ∧ r.toOption = (p.exec fresh (.drop k)).1 := by
  simp only [World.use, Option.some.injEq] at hr
  cases hr
  refine ⟨⟨h.dir, h.file, h.contents, fun k' i hi => ?_⟩, rfl⟩
  simp only [Posix.exec] at hi ⊢
  by_cases hkk : k' = k
  · rw [hkk, Function.update_self] at hi
    cases hi
  · rw [Function.update_of_ne hkk] at hi ⊢
    exact h.handles k' i hi

theorem Sim.returns (h : Sim d name w p) (fresh : Fresh) {u : Use} (hu : u.Held p) :
    ∃ r w', w.use d name fresh u = some (r, w') := by
  have hfile : ∀ k, p.handles k ≠ none → ∃ f, w.files k = some f := by
    intro k hk
    obtain ⟨i, hi⟩ := Option.ne_none_iff_exists'.mp hk
    obtain ⟨f, hf, -⟩ := h.handles k i hi
    exact ⟨f, hf⟩
  rcases u with opts | k | ⟨k, len⟩ | ⟨k, buf⟩ | k
  · exact ⟨_, _, rfl⟩
  · obtain ⟨f, hf⟩ := hfile k hu
    exact ⟨_, _, by rw [World.use, hf, Option.map_some]⟩
  · obtain ⟨f, hf⟩ := hfile k hu
    exact ⟨_, _, by rw [World.use, hf, Option.map_some]⟩
  · obtain ⟨f, hf⟩ := hfile k hu
    exact ⟨_, _, by rw [World.use, hf, Option.map_some]⟩
  · exact ⟨_, _, rfl⟩

theorem Sim.step {s s' : World × Posix} {e : Seen} (h : Sim d name s.1 s.2) (hs : CarefulJoint d name s e s') :
    Sim d name s'.1 s'.2 ∧ e.mock = e.posix := by
  obtain ⟨⟨hheld, fresh, r, hf, hr, hmock, hposix⟩, hcareful⟩ := hs
  have hboth : Sim d name s'.1 (s.2.exec fresh e.use).2 ∧ r.toOption = (s.2.exec fresh e.use).1 := by
    rcases huse : e.use with opts | k | ⟨k, len⟩ | ⟨k, buf⟩ | k <;> rw [huse] at hr hheld hcareful
    · exact h.open hf opts hr
    · exact h.clone hheld hr
    · exact h.read hheld hcareful hr
    · exact h.write hheld hcareful hr
    · exact h.drop hr
  rw [hposix] at hboth
  exact ⟨hboth.1, hmock.symm.trans hboth.2⟩

end Sim

theorem Joint.step {d : MockDir} {name : Name} {s s' : World × Posix} {e : Seen} (hs : Joint d name s e s') {h : Handle}
    (hd : s.1.dirs h = some d) : ∃ ev, Step s.1 ev s'.1 ∧ s'.1.dirs h = some d := by
  obtain ⟨-, fresh, r, hf, hr, -, -⟩ := hs
  have hfile : ∀ (k : Handle) (op : FileOp), ((s.1.files k).map fun f => f.exec s.1 fresh op) = some (r, s'.1) →
      ∃ ev, Step s.1 ev s'.1 ∧ s'.1.dirs h = some d := by
    intro k op hop
    obtain ⟨f, hk, hop⟩ := Option.map_eq_some_iff.mp hop
    refine ⟨_, .file fresh hk hf hop, ?_⟩
    have hw : (f.exec s.1 fresh op).2 = s'.1 := congrArg Prod.snd hop
    rw [← hw]
    cases op <;> exact hd
  rcases huse : e.use with opts | k | ⟨k, len⟩ | ⟨k, buf⟩ | k <;> rw [huse] at hr
  · have hexec : d.exec s.1 fresh (.open name opts) = some (r, s'.1) := hr
    refine ⟨_, .dir fresh hd hf hexec, ?_⟩
    have hw : (s.1.opens fresh opts (d.open' s.1.nodes name opts fresh.node)).2 = s'.1 :=
      congrArg Prod.snd (Option.some.inj hr)
    rw [← hw]
    rcases d.open' s.1.nodes name opts fresh.node with ⟨_ | a, nodes⟩
    · exact hd
    · exact hd
  · exact hfile k .tryClone hr
  · exact hfile k (.read len) hr
  · exact hfile k (.write buf) hr
  · have hw : { s.1 with files := Function.update s.1.files k none } = s'.1 := congrArg Prod.snd (Option.some.inj hr)
    rw [← hw]
    exact ⟨_, .dropFile k, hd⟩

theorem sim_start {r : Addr} {tr : List Event} {w : World} (hrun : Run Step (.root r) tr w) {h : Handle} {d : MockDir}
    (hd : w.dirs h = some d) {name : Name}
    (hfile : ∀ a, namesOf w.nodes d.node name = some a → ∃ data, w.nodes a = some (.file data)) :
    Sim d name w (.start (contentsOf w.nodes d.node name)) :=
  ⟨(inv_of_run hrun).dirs h d hd, hfile, rfl, nofun⟩

theorem careful_run_agrees (r : Addr) (tr₀ : List Event) (w₀ : World) (hrun : Run Step (.root r) tr₀ w₀) (h : Handle)
    (d : MockDir) (hd : w₀.dirs h = some d) (name : Name)
    (hfile : ∀ a, namesOf w₀.nodes d.node name = some a → ∃ data, w₀.nodes a = some (.file data)) (tr : List Seen)
    (s : World × Posix)
    (hs : Run (CarefulJoint d name) (w₀, .start (contentsOf w₀.nodes d.node name)) tr s) :
    (∀ e ∈ tr, e.mock = e.posix) ∧ contentsOf s.1.nodes d.node name = s.2.contents ∧
      (∀ u fresh, u.Held s.2 → ∃ r w, s.1.use d name fresh u = some (r, w)) ∧
      ∃ tr', Run Step (.root r) tr' s.1 := by
  have hsim : Sim d name s.1 s.2 ∧ (∀ e ∈ tr, e.mock = e.posix) ∧
      s.1.dirs h = some d ∧ ∃ tr', Run Step (.root r) tr' s.1 := by
    induction hs with
    | refl => exact ⟨sim_start hrun hd hfile, fun e he => absurd he List.not_mem_nil, hd, tr₀, hrun⟩
    | tail _ hstep ih =>
      obtain ⟨ihsim, ihagree, ihd, tr', ihrun⟩ := ih
      obtain ⟨hsim, hagree⟩ := ihsim.step hstep
      obtain ⟨ev, hev, hd'⟩ := hstep.toJoint.step ihd
      refine ⟨hsim, fun e he => ?_, hd', tr' ++ [ev], ihrun.tail hev⟩
      rcases List.mem_append.mp he with he | he
      · exact ihagree e he
      · rw [List.mem_singleton.mp he]
        exact hagree
  exact ⟨hsim.2.1, hsim.1.contents, fun u fresh hu => hsim.1.returns fresh hu, hsim.2.2.2⟩

theorem run_use {R : World × Posix → Seen → World × Posix → Prop} {d : MockDir} {name : Name} {s₀ : World × Posix}
    {tr : List Seen} {w w' : World} {p p' : Posix} {r : Result Reply} {a : Option Reply} (h : Run R s₀ tr (w, p))
    (u : Use) (fresh : Fresh)
    (hR : Joint d name (w, p) ⟨u, r.toOption, a⟩ (w', p') → R (w, p) ⟨u, r.toOption, a⟩ (w', p')) (hheld : u.Held p)
    (hf : w.Unused fresh) (hr : w.use d name fresh u = some (r, w')) (hp : p.exec fresh u = (a, p')) :
    Run R s₀ (tr ++ [⟨u, r.toOption, a⟩]) (w', p') :=
  h.tail (hR ⟨hheld, fresh, r, hf, hr, rfl, hp⟩)

theorem pos_unused {files : Handle → Option MockFile} {f : MockFile} {i : Addr} (h : f.pos ≠ i)
    (hrest : ∀ k g, files k = some g → g.pos ≠ i) (k k' : Handle) (g : MockFile)
    (hg : Function.update files k (some f) k' = some g) : g.pos ≠ i := by
  rw [Function.update_apply] at hg
  split_ifs at hg
  · cases hg
    exact h
  · exact hrest k' g hg

def abc : World :=
  { World.root 0 with nodes := link (World.root 0).nodes 0 ∅ [102] 1 (.file [97, 98, 99]) }

theorem run_abc : Run Step (.root 0) [.dir 0 (.withFile [102] [97, 98, 99]) (.ok .done)] abc :=
  run_dir (w := .root 0) .refl 0 (.withFile [102] [97, 98, 99]) ⟨1, 0, 1⟩ rfl rfl rfl rfl rfl

theorem none_unused (i : Addr) (k : Handle) (g : MockFile) (h : (fun _ : Handle => (none : Option MockFile)) k = some g) :
    g.pos ≠ i := nomatch h

def openedFiles : Handle → Option MockFile := Function.update (fun _ => none) 1 (some ⟨1, 0, true, true⟩)

theorem opened_unused : ∀ k g, openedFiles k = some g → g.pos ≠ 1 := pos_unused (by decide) (none_unused _) 1

theorem careful_run_agrees_read :
    ∃ tr s, Run (CarefulJoint ⟨0⟩ [102]) (abc, .start (contentsOf abc.nodes 0 [102])) tr s ∧
      tr.map Seen.mock = [some (.handle 1), some (.bytes [97, 98, 99]), some (.count 1), some (.handle 2),
        some (.bytes [97, 98, 99, 100])] ∧ tr.map Seen.mock = tr.map Seen.posix := by
  have h₀ : Run (CarefulJoint ⟨0⟩ [102]) (abc, .start (contentsOf abc.nodes 0 [102])) [] _ := .refl
  have h₁ := run_use h₀ (.open { read := true, write := true }) ⟨2, 0, 1⟩ (fun h => ⟨h, trivial⟩) trivial
    ⟨rfl, nofun, rfl, rfl⟩ rfl rfl
  have h₂ := run_use h₁ (.read 1 3) ⟨2, 1, 2⟩ (fun h => ⟨h, by rintro - i ⟨⟩ -; rfl⟩) nofun ⟨rfl, opened_unused, rfl, rfl⟩ rfl rfl
  -- the position is at the end, where the mock appends
  have h₃ := run_use h₂ (.write 1 [100]) ⟨2, 1, 2⟩ (fun h => ⟨h, by rintro - i ⟨⟩ - - data ⟨⟩; rfl⟩) nofun
    ⟨rfl, opened_unused, rfl, rfl⟩ rfl rfl
  have h₄ := run_use h₃ (.open { read := true }) ⟨2, 1, 2⟩ (fun h => ⟨h, trivial⟩) trivial ⟨rfl, opened_unused, rfl, rfl⟩ rfl rfl
  have hunused : ∀ k g, Function.update openedFiles 2 (some ⟨1, 1, true, false⟩) k = some g → g.pos ≠ 2 :=
    pos_unused (by decide) (pos_unused (by decide) (none_unused _) 1) 2
  have h₅ := run_use h₄ (.read 2 4) ⟨2, 2, 3⟩ (fun h => ⟨h, by rintro - i ⟨⟩ -; rfl⟩) nofun ⟨rfl, hunused, rfl, rfl⟩ rfl rfl
  have hfile : ∀ a, namesOf abc.nodes 0 [102] = some a → ∃ data, abc.nodes a = some (.file data) := by
    rintro a ⟨⟩
    exact ⟨_, rfl⟩
  have hagrees := careful_run_agrees 0 _ abc run_abc 0 ⟨0⟩ rfl [102] hfile _ _ h₅
  exact ⟨_, _, h₅, rfl, List.map_congr_left hagrees.1⟩

theorem write_ignores_position :
    ∃ tr s, Run (Joint ⟨0⟩ [102]) (abc, .start (contentsOf abc.nodes 0 [102])) tr s ∧
      s.2.contents = some [88, 98, 99] ∧ contentsOf s.1.nodes 0 [102] = some [97, 98, 99, 88] := by
  have h₀ : Run (Joint ⟨0⟩ [102]) (abc, .start (contentsOf abc.nodes 0 [102])) [] _ := .refl
  have h₁ := run_use h₀ (.open { read := true, write := true }) ⟨2, 0, 1⟩ id trivial ⟨rfl, nofun, rfl, rfl⟩ rfl rfl
  have h₂ := run_use h₁ (.write 1 [88]) ⟨2, 1, 2⟩ id nofun ⟨rfl, opened_unused, rfl, rfl⟩ rfl rfl
  exact ⟨_, _, h₂, rfl, rfl⟩

end Rustils.MockFs
