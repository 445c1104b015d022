import Rustils.Fs.WriteAtomic

namespace Rustils.Fs

open Platform Lib.Program Lib.Ticket

variable {d d' : Dir} {tmp rel name : Name} {ino ino' : Ino} {f h : Handle} {pos : ℕ} {g : OpenFile}

structure Private (d : Dir) (tmp : Name) (ino : Ino) : Prop where
  named : d.entries tmp = some (.file ino)
  sole : ∀ name, d.entries name = some (.file ino) → name = tmp

structure Held (d : Dir) (tmp : Name) (ino : Ino) (f : Handle) (pos : ℕ) : Prop
    extends Private d tmp ino where
  opened : ∃ g, d.handles f = some g ∧ g.ino = ino ∧ g.pos = pos
  only : ∀ h g, d.handles h = some g → g.ino = ino → h = f

def Closed (d : Dir) (ino : Ino) : Prop := ∀ h g, d.handles h = some g → g.ino ≠ ino

structure Untouched (d d' : Dir) (tmp : Name) (ino : Ino) : Prop where
  entry : d'.entries tmp = d.entries tmp
  names : ∀ name, d'.entries name = some (.file ino) → d.entries name = some (.file ino)
  data : d'.data ino = d.data ino
  handles : ∀ h g, g.ino = ino → (d'.handles h = some g ↔ d.handles h = some g)

namespace Untouched

theorem refl (d : Dir) (tmp : Name) (ino : Ino) : Untouched d d tmp ino :=
  ⟨rfl, fun _ h => h, rfl, fun _ _ _ => Iff.rfl⟩

theorem isPrivate (hu : Untouched d d' tmp ino) (hp : Private d tmp ino) : Private d' tmp ino :=
  ⟨hu.entry.trans hp.named, fun name h => hp.sole name (hu.names name h)⟩

theorem held (hu : Untouched d d' tmp ino) (hh : Held d tmp ino f pos) : Held d' tmp ino f pos := by
  obtain ⟨g, hg, hino, hpos⟩ := hh.opened
  refine ⟨hu.isPrivate hh.toPrivate, ⟨g, (hu.handles f g hino).mpr hg, hino, hpos⟩, ?_⟩
  intro h g hg hino
  exact hh.only h g ((hu.handles h g hino).mp hg) hino

theorem closed (hu : Untouched d d' tmp ino) (hc : Closed d ino) : Closed d' ino := by
  intro h g hg hino
  exact hc h g ((hu.handles h g hino).mp hg) hino

theorem create (hp : Private d tmp ino) (hne : tmp ≠ name) (hfree : d.Free ino')
    (hh : d.handles h = none) (hg : g.ino = ino') : Untouched d (d.create name ino' h g) tmp ino := by
  have hino : ino ≠ ino' := by
    rintro rfl
    exact hfree.1 tmp hp.named
  refine ⟨Function.update_of_ne hne _ _, ?_, Function.update_of_ne hino _ _, ?_⟩
  · intro name' hn
    rw [Dir.create_entries, Function.update_apply] at hn
    split_ifs at hn with hname
    · cases hn
      exact absurd rfl hino
    · exact hn
  · intro h' g' hg'
    rw [Dir.create_handles, Function.update_apply]
    split_ifs with hh'
    · rw [hh', hh, Option.some.injEq]
      constructor
      · rintro rfl
        exact absurd (hg'.symm.trans hg) hino
      · rintro ⟨⟩
    · rfl

theorem handles_update (hh : d.handles h = some g) (hne : g.ino ≠ ino) {g' : Option OpenFile}
    (hg' : ∀ g₁, g' = some g₁ → g₁.ino ≠ ino) (h' : Handle) (g₁ : OpenFile) (hg₁ : g₁.ino = ino) :
    Function.update d.handles h g' h' = some g₁ ↔ d.handles h' = some g₁ := by
  rw [Function.update_apply]
  split_ifs with hh'
  · rw [hh', hh]
    constructor
    · intro heq
      exact absurd hg₁ (hg' g₁ heq)
    · rintro ⟨⟩
      exact absurd hg₁ hne
  · rfl

theorem write (hh : d.handles h = some g) (hne : g.ino ≠ ino) (pos : ℕ) (buf : List UInt8) :
    Untouched d (d.write h g pos buf) tmp ino := by
  refine ⟨rfl, fun _ hn => hn, Function.update_of_ne hne.symm _ _, handles_update hh hne ?_⟩
  rintro _ ⟨⟩
  exact hne

theorem close (hh : d.handles h = some g) (hne : g.ino ≠ ino) : Untouched d (d.close h) tmp ino := by
  refine ⟨rfl, fun _ hn => hn, rfl, handles_update hh hne ?_⟩
  rintro _ ⟨⟩

theorem remove (hne : tmp ≠ name) : Untouched d (d.remove name) tmp ino := by
  refine ⟨Function.update_of_ne hne _ _, ?_, rfl, fun _ _ _ => Iff.rfl⟩
  intro name' hn
  rw [Dir.remove_entries, Function.update_apply] at hn
  split_ifs at hn
  exact hn

theorem rename {src dst : Name} (hsrc : tmp ≠ src) (hdst : tmp ≠ dst) (hne : ino' ≠ ino) :
    Untouched d (d.rename src dst (.file ino')) tmp ino := by
  refine ⟨?_, ?_, rfl, fun _ _ _ => Iff.rfl⟩
  · rw [Dir.rename_entries, Function.update_of_ne hdst, Function.update_of_ne hsrc]
  · intro name hn
    rw [Dir.rename_entries, Function.update_apply] at hn
    split_ifs at hn with hname
    · cases hn
      exact absurd rfl hne
    · rw [Function.update_apply] at hn
      split_ifs at hn
      exact hn

end Untouched

theorem view_congr (he : d'.entries name = d.entries name)
    (hd : ∀ ino, d.entries name = some (.file ino) → d'.data ino = d.data ino) :
    d'.view name = d.view name := by
  unfold Dir.view
  rw [he]
  rcases h : d.entries name with _ | ino | _ | _
  · rfl
  · simp only [Option.map_some, Dir.object, hd ino h]
  · rfl
  · rfl

section Call

variable {pid : UInt32} {contents : List UInt8} {n : UInt64} {ph ph' : Phase} {off : ℕ}

def Owns (pid : UInt32) (rel : Name) (contents : List UInt8) (d : Dir) : Phase → Prop
  | .writing n f off => off < contents.length ∧
    ∃ ino, Held d (tmpName pid rel n) ino f off ∧ d.data ino = contents.take off
  | .syncing n f | .closing n f (.ok _) =>
    ∃ ino pos, Held d (tmpName pid rel n) ino f pos ∧ d.data ino = contents
  | .closing n f (.error _) => ∃ ino pos, Held d (tmpName pid rel n) ino f pos
  | .publishing n => ∃ ino, Private d (tmpName pid rel n) ino ∧ Closed d ino ∧ d.data ino = contents
  | _ => True

theorem Owns.untouched (ho : Owns pid rel contents d ph)
    (hu : ∀ n ino, ph.num = some n → Private d (tmpName pid rel n) ino →
      Untouched d d' (tmpName pid rel n) ino) : Owns pid rel contents d' ph := by
  cases ph with
  | writing n f off =>
    obtain ⟨hoff, ino, hh, hd⟩ := ho
    have hu := hu n ino rfl hh.toPrivate
    exact ⟨hoff, ino, hu.held hh, hu.data.trans hd⟩
  | syncing n f =>
    obtain ⟨ino, pos, hh, hd⟩ := ho
    have hu := hu n ino rfl hh.toPrivate
    exact ⟨ino, pos, hu.held hh, hu.data.trans hd⟩
  | closing n f r =>
    rcases r with e | ⟨⟩
    · obtain ⟨ino, pos, hh⟩ := ho
      exact ⟨ino, pos, (hu n ino rfl hh.toPrivate).held hh⟩
    · obtain ⟨ino, pos, hh, hd⟩ := ho
      have hu := hu n ino rfl hh.toPrivate
      exact ⟨ino, pos, hu.held hh, hu.data.trans hd⟩
  | publishing n =>
    obtain ⟨ino, hp, hc, hd⟩ := ho
    have hu := hu n ino rfl hp
    exact ⟨ino, hu.isPrivate hp, hu.closed hc, hu.data.trans hd⟩
  | _ => trivial

theorem owns_wrote (hh : Held d (tmpName pid rel n) ino f off) (hd : d.data ino = contents.take off)
    (hoff : off ≤ contents.length) : Owns pid rel contents d (wrote contents n f off) := by
  unfold wrote
  split_ifs with hlt
  · exact ⟨hlt, ino, hh, hd⟩
  · refine ⟨ino, off, hh, ?_⟩
    rw [hd, List.take_of_length_le (by omega)]

theorem Held.create (hfree : d.Free ino) (tmp : Name) (f : Handle) (writable : Bool) :
    Held (d.create tmp ino f ⟨ino, 0, writable⟩) tmp ino f 0 := by
  refine ⟨⟨Function.update_self .., ?_⟩, ⟨_, Function.update_self .., rfl, rfl⟩, ?_⟩
  · intro name hname
    rw [Dir.create_entries, Function.update_apply] at hname
    split_ifs at hname with heq
    · exact heq
    · exact absurd hname (hfree.1 name)
  · intro h g hg hino
    rw [Dir.create_handles, Function.update_apply] at hg
    split_ifs at hg with heq
    · exact heq
    · exact absurd hino (hfree.2 h g hg)

theorem Held.handle (hh : Held d tmp ino f pos) (hg : d.handles f = some g) :
    g.ino = ino ∧ g.pos = pos := by
  obtain ⟨g', hg', h⟩ := hh.opened
  rwa [Option.some.inj (hg.symm.trans hg')]

theorem Held.write (hh : Held d tmp ino f pos) (hg : d.handles f = some g) (at_ : ℕ)
    (buf : List UInt8) : Held (d.write f g at_ buf) tmp ino f (at_ + buf.length) := by
  refine ⟨⟨hh.named, hh.sole⟩, ⟨_, Function.update_self .., (hh.handle hg).1, rfl⟩, ?_⟩
  intro h g₁ hg₁ hino₁
  rw [Dir.write_handles, Function.update_apply] at hg₁
  split_ifs at hg₁ with heq
  · exact heq
  · exact hh.only h g₁ hg₁ hino₁

theorem Held.close (hh : Held d tmp ino f pos) :
    Private (d.close f) tmp ino ∧ Closed (d.close f) ino := by
  refine ⟨⟨hh.named, hh.sole⟩, ?_⟩
  intro h g hg hino
  rw [Dir.close_handles, Function.update_apply] at hg
  split_ifs at hg with heq
  exact heq (hh.only h g hg hino)

theorem overwrite_take (hoff : off ≤ contents.length) (m : ℕ) :
    overwrite (contents.take off) off ((contents.drop off).take m) = contents.take (off + m) := by
  have hlen : (contents.take off).length = off := by rw [List.length_take, Nat.min_eq_left hoff]
  have hdrop : ∀ k, (contents.take off).drop (off + k) = [] :=
    fun k => List.drop_eq_nil_of_le (by omega)
  unfold overwrite
  rw [hdrop, hlen, Nat.sub_self, List.take_of_length_le hlen.le, List.replicate_zero,
    List.append_nil, List.append_nil, List.take_add]

theorem owns_write {m : ℕ} (hoff : off < contents.length)
    (hh : Held d (tmpName pid rel n) ino f off) (hdata : d.data ino = contents.take off)
    (hw : d.WriteOk f (contents.drop off) (m + 1) d') :
    Owns pid rel contents d' (wrote contents n f (off + (m + 1))) := by
  obtain ⟨hm, g, hg, -, pos, hpos, rfl⟩ := hw
  obtain ⟨hino, hgpos⟩ := hh.handle hg
  -- the handle and the end of the file are both at `off`, so a backend may write at either
  have hlen : (d.data g.ino).length = off := by
    rw [hino, hdata, List.length_take, Nat.min_eq_left hoff.le]
  obtain rfl : off = pos := by rcases hpos with h | h <;> omega
  have htake : ((contents.drop off).take (m + 1)).length = m + 1 := by
    rw [List.length_take, Nat.min_eq_left hm]
  have hheld := hh.write hg off ((contents.drop off).take (m + 1))
  rw [htake] at hheld
  apply owns_wrote hheld
  · rw [Dir.write_data, hino, Function.update_self, hdata, overwrite_take hoff.le]
  · rw [List.length_drop] at hm
    omega

variable {o : Op} {r : Answer o} {w w' : World}

theorem Advance.owns (ha : Advance pid rel contents ph o r ph') (hs : step w o r w')
    (ho : Owns pid rel contents w.dir ph) : Owns pid rel contents w'.dir ph' := by
  cases ha with
  | «open» n f =>
    obtain ⟨-, -, ⟨-, -, ino, hfree, hd⟩ | ⟨hnew, -⟩⟩ := hs
    · rw [hd]
      exact owns_wrote (Held.create hfree _ f _) (Function.update_self ..) (Nat.zero_le _)
    · cases hnew
  | writeError n f off e =>
    cases hs
    obtain ⟨-, ino, hh, -⟩ := ho
    exact ⟨ino, off, hh⟩
  | writeZero n f off =>
    obtain ⟨-, ino, hh, -⟩ := ho
    obtain ⟨-, -, g, hg, -, pos, -, hd⟩ := hs
    rw [hd]
    exact ⟨ino, _, hh.write hg pos _⟩
  | write n f off m =>
    obtain ⟨hoff, ino, hh, hdata⟩ := ho
    exact owns_write hoff hh hdata hs.2
  | syncAll n f r =>
    cases hs
    obtain ⟨ino, pos, hh, hd⟩ := ho
    rcases r with e | ⟨⟩
    · exact ⟨ino, pos, hh⟩
    · exact ⟨ino, pos, hh, hd⟩
  | close n f =>
    cases hs
    obtain ⟨ino, pos, hh, hd⟩ := ho
    obtain ⟨hp, hc⟩ := hh.close
    exact ⟨ino, hp, hc, hd⟩
  | _ => trivial

theorem Private.ino_ne {tmp' : Name} (hp : Private d tmp ino) (hp' : Private d tmp' ino')
    (hne : tmp ≠ tmp') : ino' ≠ ino := by
  rintro rfl
  exact hne (hp'.sole tmp hp.named)

theorem Held.untouched_write {tmp' : Name} {buf : List UInt8} {m : ℕ}
    (hh : Held d tmp' ino' f pos) (hne : ino' ≠ ino) (hw : d.WriteOk f buf m d') :
    Untouched d d' tmp ino := by
  obtain ⟨-, g, hg, -, at_, -, rfl⟩ := hw
  exact .write hg (by rwa [(hh.handle hg).1]) at_ _

theorem Held.untouched_close {tmp' : Name} (hh : Held d tmp' ino' f pos) (hne : ino' ≠ ino) :
    Untouched d (d.close f) tmp ino := by
  obtain ⟨g, hg, hino, -⟩ := hh.opened
  exact .close hg (by rwa [hino])

theorem Advance.untouched (ha : Advance pid rel contents ph o r ph') (hs : step w o r w')
    (ho : Owns pid rel contents w.dir ph) (hp : Private w.dir tmp ino) (hrel : tmp ≠ rel)
    (hne : ∀ n, ph.num = some n → tmp ≠ tmpName pid rel n) : Untouched w.dir w'.dir tmp ino := by
  cases ha with
  | fetchAdd n =>
    rw [hs.2]
    exact .refl _ _ _
  | «open» n f =>
    obtain ⟨-, hh, ⟨-, -, ino', hfree, hd⟩ | ⟨hnew, -⟩⟩ := hs
    · rw [hd]
      exact .create hp (hne n rfl) hfree hh rfl
    · cases hnew
  | writeZero n f off =>
    obtain ⟨-, ino', hh, -⟩ := ho
    exact hh.untouched_write (hp.ino_ne hh.toPrivate (hne n rfl)) hs.2
  | write n f off m =>
    obtain ⟨-, ino', hh, -⟩ := ho
    exact hh.untouched_write (hp.ino_ne hh.toPrivate (hne n rfl)) hs.2
  | closeError n f e =>
    cases hs
    obtain ⟨ino', pos, hh⟩ := ho
    exact hh.untouched_close (hp.ino_ne hh.toPrivate (hne n rfl))
  | close n f =>
    cases hs
    obtain ⟨ino', pos, hh, -⟩ := ho
    exact hh.untouched_close (hp.ino_ne hh.toPrivate (hne n rfl))
  | removeFile n e r =>
    rcases r with e' | ⟨⟩
    · cases hs
      exact .refl _ _ _
    · obtain ⟨-, e', -, -, hd⟩ := hs
      rw [hd]
      exact .remove (hne n rfl)
  | rename n =>
    obtain ⟨ino', hp', -⟩ := ho
    obtain ⟨-, e, he, hd | ⟨-, hd⟩⟩ := hs
    · obtain rfl : e = .file ino' := Option.some.inj (he.symm.trans hp'.named)
      rw [hd]
      exact .rename (hne n rfl) hrel (hp.ino_ne hp' (hne n rfl))
    · rw [hd]
      exact .refl _ _ _
  | _ =>
    cases hs
    exact .refl _ _ _

theorem view_rename (ho : Owns pid rel contents w.dir (.publishing n))
    (hs : step w (.rename (tmpName pid rel n) rel) (.ok ()) w') :
    w'.dir.view rel = some (.file contents) := by
  obtain ⟨ino, hp, -, hdata⟩ := ho
  obtain ⟨-, e, he, hd | ⟨hrel, -⟩⟩ := hs
  · obtain rfl : e = .file ino := Option.some.inj (he.symm.trans hp.named)
    rw [hd, Dir.view, Dir.rename_entries, Function.update_self, Option.map_some]
    simp only [Dir.object, Dir.rename_data, hdata]
  · obtain rfl : e = .file ino := Option.some.inj (he.symm.trans hp.named)
    exact absurd (hp.sole rel hrel).symm (tmpName_ne_rel pid rel n)

theorem Held.view_write {buf : List UInt8} {m : ℕ} (hh : Held d tmp ino f pos) (hne : tmp ≠ rel)
    (hw : d.WriteOk f buf m d') : d'.view rel = d.view rel := by
  obtain ⟨-, g, hg, -, at_, -, rfl⟩ := hw
  refine view_congr rfl fun ino' hino' => Function.update_of_ne ?_ _ _
  rw [(hh.handle hg).1]
  rintro rfl
  exact hne (hh.sole rel hino').symm

theorem Advance.view (ha : Advance pid rel contents ph o r ph') (hs : step w o r w')
    (ho : Owns pid rel contents w.dir ph) :
    w'.dir.view rel = w.dir.view rel ∨ w'.dir.view rel = some (.file contents) := by
  cases ha with
  | fetchAdd n => exact .inl (by rw [hs.2])
  | «open» n f =>
    obtain ⟨-, -, ⟨-, -, ino, hfree, hd⟩ | ⟨hnew, -⟩⟩ := hs
    · left
      rw [hd]
      refine view_congr (Function.update_of_ne (tmpName_ne_rel pid rel n).symm _ _) ?_
      intro ino' hino'
      refine Function.update_of_ne ?_ _ _
      rintro rfl
      exact hfree.1 rel hino'
    · cases hnew
  | writeZero n f off =>
    obtain ⟨-, ino, hh, -⟩ := ho
    exact .inl (hh.view_write (tmpName_ne_rel pid rel n) hs.2)
  | write n f off m =>
    obtain ⟨-, ino, hh, -⟩ := ho
    exact .inl (hh.view_write (tmpName_ne_rel pid rel n) hs.2)
  | closeError n f e =>
    cases hs
    exact .inl rfl
  | close n f =>
    cases hs
    exact .inl rfl
  | removeFile n e r =>
    left
    rcases r with e' | ⟨⟩
    · cases hs
      rfl
    · obtain ⟨-, e', -, -, hd⟩ := hs
      rw [hd]
      exact view_congr (Function.update_of_ne (tmpName_ne_rel pid rel n).symm _ _) fun _ _ => rfl
  | rename n => exact .inr (view_rename ho hs)
  | _ =>
    cases hs
    exact .inl rfl

theorem wrote_num (contents : List UInt8) (n : UInt64) (f : Handle) (off : ℕ) :
    (wrote contents n f off).num = some n := by
  unfold wrote
  split_ifs <;> rfl

theorem Advance.num (ha : Advance pid rel contents ph o r ph') (hs : step w o r w') :
    (ph.num = none ∧ ph'.num = some w.counter ∧ w'.counter = w.counter + 1) ∨
      (ph'.num = ph.num ∧ w'.counter = w.counter) := by
  cases ha with
  | fetchAdd n =>
    obtain ⟨rfl, rfl⟩ := hs
    exact .inl ⟨rfl, rfl, rfl⟩
  | «open» n f => exact .inr ⟨wrote_num .., hs.1.symm⟩
  | writeZero n f off => exact .inr ⟨rfl, hs.1.symm⟩
  | write n f off m => exact .inr ⟨wrote_num .., hs.1.symm⟩
  | removeFile n e r =>
    right
    rcases r with e' | ⟨⟩
    · cases hs
      exact ⟨rfl, rfl⟩
    · exact ⟨rfl, hs.1.symm⟩
  | rename n => exact .inr ⟨rfl, hs.1.symm⟩
  | _ =>
    cases hs
    exact .inr ⟨rfl, rfl⟩

def Phase.Published : Phase → Prop
  | .syncingDir _ | .done _ (.ok _) => True
  | _ => False

theorem Advance.published (ha : Advance pid rel contents ph o r ph') (hp : ph'.Published) :
    ph.Published ∨ ∃ n, ph = .publishing n ∧
      (⟨o, r⟩ : (o : Op) × Answer o) = ⟨.rename (tmpName pid rel n) rel, .ok ()⟩ := by
  cases ha with
  | «open» n f =>
    unfold wrote at hp
    split_ifs at hp <;> exact hp.elim
  | write n f off m =>
    unfold wrote at hp
    split_ifs at hp <;> exact hp.elim
  | rename n => exact .inr ⟨n, rfl, rfl⟩
  | syncDir n r => exact .inl trivial
  | _ => exact hp.elim

end Call

section Calls

variable {ι : Type} [DecidableEq ι]

def calls (pid : UInt32) (rel : Name) (contents : ι → List UInt8) (w₀ : World) :
    Pool ι Answer (Result Unit) World :=
  ⟨fun i => writeAtomic pid rel (contents i), w₀⟩

variable {pid : UInt32} {rel : Name} {contents : ι → List UInt8} {w₀ : World}
  {c c' : Pool ι Answer (Result Unit) World} {ph : ι → Phase} {i : ι}

def Renamed (pid : UInt32) (rel : Name) (contents : ι → List UInt8) (w₀ : World)
    (c : Pool ι Answer (Result Unit) World) (i : ι) : Prop :=
  ∃ n c₁ c₂, Pool.Reaches step (calls pid rel contents w₀) c₁ ∧
    Pool.Step step i (.rename (tmpName pid rel n) rel) (.ok ()) c₁ c₂ ∧
    c₂.state.dir.view rel = some (.file (contents i)) ∧ Pool.Reaches step c₂ c

theorem Renamed.step {o : Op} {r : Answer o} {j : ι} (h : Renamed pid rel contents w₀ c i)
    (hs : Pool.Step step j o r c c') : Renamed pid rel contents w₀ c' i := by
  obtain ⟨n, c₁, c₂, h₁, hr, hv, h₂⟩ := h
  exact ⟨n, c₁, c₂, h₁, hr, hv, h₂.tail ⟨j, o, r, hs⟩⟩

structure Inv (pid : UInt32) (rel : Name) (contents : ι → List UInt8) (w₀ : World)
    (c : Pool ι Answer (Result Unit) World) (ph : ι → Phase) : Prop where
  progs : ∀ i, c.progs i = resume pid rel (contents i) (ph i)
  drawn : ∃ order, Drawn w₀.counter (fun i => (ph i).num) c.state.counter order
  owns : ∀ i, Owns pid rel (contents i) c.state.dir (ph i)
  view : c.state.dir.view rel = w₀.dir.view rel ∨
    ∃ i, c.state.dir.view rel = some (.file (contents i))
  published : ∀ i, (ph i).Published → Renamed pid rel contents w₀ c i

theorem inv_calls (pid : UInt32) (rel : Name) (contents : ι → List UInt8) (w₀ : World) :
    Inv pid rel contents w₀ (calls pid rel contents w₀) fun _ => .start where
  progs := fun _ => rfl
  drawn := ⟨[], .start _⟩
  owns := fun _ => trivial
  view := .inl rfl
  published := fun _ h => h.elim

theorem num_update (ph : ι → Phase) (i : ι) (ph' : Phase) :
    (fun j => (Function.update ph i ph' j).num) =
      Function.update (fun j => (ph j).num) i ph'.num := by
  funext j
  exact Function.apply_update (fun _ => Phase.num) ph i ph' j

theorem Inv.writing (h : Inv pid rel contents w₀ c ph) {n : UInt64} {f : Handle} {off : ℕ}
    (hph : ph i = .writing n f off) : off < (contents i).length := by
  have ho := h.owns i
  rw [hph] at ho
  exact ho.1

theorem Inv.step [Fintype ι] {o : Op} {r : Answer o} (hcard : Fintype.card ι < 2 ^ 64)
    (hc : Pool.Reaches Fs.step (calls pid rel contents w₀) c) (h : Inv pid rel contents w₀ c ph)
    (hs : Pool.Step Fs.step i o r c c') : ∃ ph', Inv pid rel contents w₀ c' ph' := by
  obtain ⟨p', hstep, hprogs⟩ := hs.program
  rw [h.progs i] at hstep
  obtain ⟨hw, ph', ha, rfl⟩ := advance_of_step (fun _ _ _ => h.writing) hstep
  obtain ⟨order, hdrawn⟩ := h.drawn
  refine ⟨Function.update ph i ph', ?_, ?_, ?_, ?_, ?_⟩
  · intro j
    rw [hprogs]
    by_cases hj : j = i
    · subst hj
      rw [Function.update_self, Function.update_self]
    · rw [Function.update_of_ne hj, Function.update_of_ne hj, h.progs j]
  · rw [num_update]
    rcases ha.num hw with ⟨hnone, hn, hcounter⟩ | ⟨hn, hcounter⟩
    · rw [hn, hcounter]
      exact ⟨_, hdrawn.draw hnone⟩
    · rw [hn, hcounter, Function.update_eq_self]
      exact ⟨order, hdrawn⟩
  · intro j
    by_cases hj : j = i
    · subst hj
      rw [Function.update_self]
      exact ha.owns hw (h.owns j)
    · rw [Function.update_of_ne hj]
      refine (h.owns j).untouched fun n ino hn hp => ?_
      refine ha.untouched hw (h.owns i) hp (tmpName_ne_rel pid rel n) fun m hm heq => ?_
      rw [← tmpName_inj heq] at hm
      exact hj (hdrawn.inj hcard hn hm)
  · rcases ha.view hw (h.owns i) with hv | hv
    · rw [hv]
      exact h.view
    · exact .inr ⟨i, hv⟩
  · intro j hp
    by_cases hj : j = i
    · subst hj
      rw [Function.update_self] at hp
      rcases ha.published hp with hp | ⟨n, hn, hr⟩
      · exact (h.published j hp).step hs
      · cases hr
        have ho := h.owns j
        rw [hn] at ho
        exact ⟨n, c, c', hc, hs, view_rename ho hw, .refl⟩
    · rw [Function.update_of_ne hj] at hp
      exact (h.published j hp).step hs

theorem inv_of_reaches [Fintype ι] (hcard : Fintype.card ι < 2 ^ 64)
    (hc : Pool.Reaches Fs.step (calls pid rel contents w₀) c) :
    ∃ ph, Inv pid rel contents w₀ c ph := by
  apply hc.invariant ⟨_, inv_calls pid rel contents w₀⟩
  rintro c c' i o r hc ⟨ph, h⟩ hs
  exact h.step hcard hc hs

theorem reaches_advance {c₀ : Pool ι Answer (Result Unit) World} {w : World} {p p' : Phase}
    {o : Op} {r : Answer o} (w' : World)
    (h : Pool.Reaches Fs.step c₀
      ⟨fun j => resume pid rel (contents j) (Function.update ph i p j), w⟩)
    (ha : Advance pid rel (contents i) p o r p') (hw : Fs.step w o r w')
    (hoff : ∀ n f off, p = .writing n f off → off < (contents i).length) :
    Pool.Reaches Fs.step c₀
      ⟨fun j => resume pid rel (contents j) (Function.update ph i p' j), w'⟩ := by
  refine h.tail ⟨i, o, r, ?_⟩
  have hprogs : (fun j => resume pid rel (contents j) (Function.update ph i p' j)) =
      Function.update (fun j => resume pid rel (contents j) (Function.update ph i p j)) i
        (resume pid rel (contents i) p') := by
    funext j
    by_cases hj : j = i
    · subst hj
      rw [Function.update_self, Function.update_self]
    · rw [Function.update_of_ne hj, Function.update_of_ne hj, Function.update_of_ne hj]
  rw [hprogs]
  refine .intro ?_
  have hs : Step Fs.step o r (resume pid rel (contents i) p, w) (resume pid rel (contents i) p', w') :=
    step_of_advance hoff ha hw
  rwa [← Function.update_self i p ph] at hs

end Calls

theorem writeAtomic_all_or_nothing {ι : Type} [DecidableEq ι] [Fintype ι] (pid : UInt32) (rel : Name)
    (contents : ι → List UInt8) (w₀ : World) (hcard : Fintype.card ι < 2 ^ 64)
    (c : Pool ι Answer (Result Unit) World)
    (hc : Pool.Reaches step ⟨fun i => writeAtomic pid rel (contents i), w₀⟩ c) :
    (c.state.dir.view rel = w₀.dir.view rel ∨
      ∃ i, c.state.dir.view rel = some (.file (contents i))) ∧
    ∀ i, c.progs i = .ret (.ok ()) →
      ∃ n c₁ c₂, Pool.Reaches step ⟨fun i => writeAtomic pid rel (contents i), w₀⟩ c₁ ∧
        Pool.Step step i (.rename (tmpName pid rel n) rel) (.ok ()) c₁ c₂ ∧
        c₂.state.dir.view rel = some (.file (contents i)) ∧ Pool.Reaches step c₂ c := by
  obtain ⟨ph, h⟩ := inv_of_reaches hcard hc
  refine ⟨h.view, fun i hret => h.published i ?_⟩
  rw [h.progs i] at hret
  obtain ⟨n, hn⟩ := eq_done_of_resume (fun _ _ _ => h.writing) hret
  rw [hn]
  trivial

def Dir.published (d : Dir) (tmp rel : Name) (ino : Ino) (f : Handle) (b : UInt8) : Dir :=
  (((d.create tmp ino f ⟨ino, 0, true⟩).write f ⟨ino, 0, true⟩ 0 [b]).close f).rename tmp rel (.file ino)

theorem reaches_published {ι : Type} [DecidableEq ι] {pid : UInt32} {rel : Name} {contents : ι → List UInt8} {i : ι}
    {ph : ι → Phase} {c₀ : Pool ι Answer (Result Unit) World} {b : UInt8} {n : UInt64} (hb : contents i = [b])
    (hfree : d.Free ino) (hf : d.handles f = none) (hname : d.entries (tmpName pid rel n) = none)
    (h : Pool.Reaches step c₀ ⟨fun j => resume pid rel (contents j) (Function.update ph i .start j), ⟨d, n⟩⟩) :
    Pool.Reaches step c₀ ⟨fun j => resume pid rel (contents j) (Function.update ph i (.done n (.ok ())) j),
      ⟨d.published (tmpName pid rel n) rel ino f b, n + 1⟩⟩ := by
  let tmp := tmpName pid rel n
  let d₁ := d.create tmp ino f ⟨ino, 0, true⟩
  let d₂ := d₁.write f ⟨ino, 0, true⟩ 0 [b]
  have htmp : (d₂.close f).entries tmp = some (.file ino) := by simp [d₂, d₁]
  have hhandle : d₁.handles f = some ⟨ino, 0, true⟩ := by simp [d₁]
  have hwrote : wrote (contents i) n f 0 = .writing n f 0 := by simp [wrote, hb]
  have hsyncing : wrote (contents i) n f (0 + (0 + 1)) = .syncing n f := by simp [wrote, hb]
  have h₁ := reaches_advance ⟨d, n + 1⟩ h (.fetchAdd n) ⟨rfl, rfl⟩ (by rintro _ _ _ ⟨⟩)
  have h₂ := reaches_advance ⟨d₁, n + 1⟩ h₁ (.open n f) ⟨rfl, hf, .inl ⟨hname, .inr rfl, ino, hfree, rfl⟩⟩ (by rintro _ _ _ ⟨⟩)
  rw [hwrote] at h₂
  have h₃ := reaches_advance ⟨d₂, n + 1⟩ h₂ (.write n f 0 0)
    ⟨rfl, by simp [hb], _, hhandle, rfl, 0, .inl rfl, by simp [hb, d₂]⟩ (by rintro _ _ _ ⟨⟩; simp [hb])
  rw [hsyncing] at h₃
  have h₄ := reaches_advance _ h₃ (.syncAll n f (.ok ())) rfl (by rintro _ _ _ ⟨⟩)
  have h₅ := reaches_advance _ h₄ (.close n f) rfl (by rintro _ _ _ ⟨⟩)
  have h₆ := reaches_advance ⟨d.published tmp rel ino f b, n + 1⟩ h₅ (.rename n) ⟨rfl, _, htmp, .inl rfl⟩ (by rintro _ _ _ ⟨⟩)
  exact reaches_advance _ h₆ (.syncDir n (.ok ())) rfl (by rintro _ _ _ ⟨⟩)

def ones (i : Fin 2) : List UInt8 := if i = 0 then [1] else [2]

def firstPublished : Dir := World.empty.dir.published (tmpName 1 [97] 0) [97] 0 0 1

theorem firstPublished_free : firstPublished.Free 1 := by
  constructor
  · intro name
    simp only [firstPublished, Dir.published, Dir.rename_entries, Dir.close_entries, Dir.write_entries, Dir.create_entries,
      Function.update_apply]
    split_ifs <;> simp [World.empty]
  · intro h g hg
    simp only [firstPublished, Dir.published, Dir.rename, Dir.close_handles, Dir.write_handles, Dir.create_handles,
      Function.update_apply] at hg
    split_ifs at hg
    simp [World.empty] at hg

theorem firstPublished_tmp : firstPublished.entries (tmpName 1 [97] 1) = none := by
  simp [firstPublished, Dir.published, World.empty, tmpName_ne_rel]

theorem both_published : ∃ c : Pool (Fin 2) Answer (Result Unit) World,
    Pool.Reaches step ⟨fun i => writeAtomic 1 [97] (ones i), .empty⟩ c ∧ c.state.dir.view [97] = some (.file [2]) ∧
      ∀ i, c.progs i = .ret (.ok ()) ∧ ∃ n c₁ c₂, Pool.Reaches step ⟨fun i => writeAtomic 1 [97] (ones i), .empty⟩ c₁ ∧
        Pool.Step step i (.rename (tmpName 1 [97] n) [97]) (.ok ()) c₁ c₂ ∧
        c₂.state.dir.view [97] = some (.file (ones i)) ∧ Pool.Reaches step c₂ c := by
  have h₀ : Pool.Reaches step ⟨fun i => writeAtomic 1 [97] (ones i), .empty⟩
      ⟨fun i => resume 1 [97] (ones i) (Function.update (fun _ => Phase.start) 0 Phase.start i), .empty⟩ := by
    rw [Function.update_eq_self]
    exact .refl
  have hfree : World.empty.dir.Free 0 := ⟨by rintro _ ⟨⟩, by rintro _ _ ⟨⟩⟩
  have h₁ : Pool.Reaches step ⟨fun i => writeAtomic 1 [97] (ones i), .empty⟩ _ :=
    reaches_published (f := 0) (i := 0) rfl hfree rfl rfl h₀
  rw [← Function.update_eq_self 1 (Function.update (fun _ => Phase.start) 0 _)] at h₁
  have h₂ := reaches_published (f := 0) (i := 1) rfl firstPublished_free rfl firstPublished_tmp h₁
  have hall := (writeAtomic_all_or_nothing 1 [97] ones _ (by simp) _ h₂).2
  refine ⟨_, h₂, rfl, fun i => ?_⟩
  match i with
  | 0 => exact ⟨rfl, hall 0 rfl⟩
  | 1 => exact ⟨rfl, hall 1 rfl⟩

end Rustils.Fs
