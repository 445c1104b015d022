import Rustils.Fs.Ownership

namespace Rustils.Fs

open Platform Lib.Program

inductive Fault
  | open
  | write
  | syncAll
  | rename
  deriving DecidableEq

def faulty (fault : Fault) : Env World Answer
  | w, .open _ _, .error _, w' => fault = .open ∧ w' = w
  | w, .write _ _, .error _, w' => fault = .write ∧ w' = w
  | w, .write f buf, .ok 0, w' => fault = .write ∧ step w (.write f buf) (.ok 0) w'
  | w, .syncAll _, .error _, w' => fault = .syncAll ∧ w' = w
  | w, .removeFile rel, .error _, w' => w' = w ∧ ∀ e, w.dir.entries rel = some e → e = .dir
  | w, .rename _ _, .error _, w' => fault = .rename ∧ w' = w
  | _, .syncDir, .error _, _ => False
  | w, o, r, w' => step w o r w'

def Unchanged (d d' : Dir) : Prop :=
  d'.entries = d.entries ∧ ∀ name, d'.view name = d.view name

structure Created (d d' : Dir) (tmp : Name) (ino : Ino) : Prop where
  absent : d.entries tmp = none
  entries : d'.entries = Function.update d.entries tmp (some (.file ino))
  fresh : ∀ name, d.entries name ≠ some (.file ino)
  data : ∀ i, i ≠ ino → d'.data i = d.data i

section Created

variable {d d₁ d₂ : Dir} {tmp rel : Name} {ino : Ino}

theorem Created.create (hnone : d.entries tmp = none) (hfree : d.Free ino) (h : Handle)
    (f : OpenFile) : Created d (d.create tmp ino h f) tmp ino := by
  refine ⟨hnone, rfl, hfree.1, ?_⟩
  intro i hi
  exact Function.update_of_ne hi _ _

theorem Created.write (h : Created d d₁ tmp ino) {f : Handle} {pos : ℕ} {buf : List UInt8} {m : ℕ}
    (hh : ∃ ino, Held d₁ tmp ino f pos) (hw : d₁.WriteOk f buf m d₂) : Created d d₂ tmp ino := by
  obtain ⟨ino', hh⟩ := hh
  obtain ⟨-, g, hg, -, at_, -, rfl⟩ := hw
  have hino : g.ino = ino := by
    have hnamed := hh.named
    rw [h.entries, Function.update_self] at hnamed
    cases hnamed
    exact (hh.handle hg).1
  refine ⟨h.absent, h.entries, h.fresh, ?_⟩
  intro i hi
  rw [Dir.write_data, hino, Function.update_of_ne hi]
  exact h.data i hi

theorem Created.close (h : Created d d₁ tmp ino) (f : Handle) : Created d (d₁.close f) tmp ino :=
  ⟨h.absent, h.entries, h.fresh, h.data⟩

theorem Created.remove (h : Created d d₁ tmp ino) : Unchanged d (d₁.remove tmp) := by
  have hent : (d₁.remove tmp).entries = d.entries := by
    rw [Dir.remove_entries, h.entries, Function.update_idem, ← h.absent, Function.update_eq_self]
  refine ⟨hent, ?_⟩
  intro name
  apply view_congr (congrFun hent name)
  intro i hi
  apply h.data
  rintro rfl
  exact h.fresh name hi

theorem Created.not_unchanged (h : Created d d₁ tmp ino) : ¬ Unchanged d d₁ := by
  intro hu
  have hent := congrFun hu.1 tmp
  rw [h.entries, Function.update_self, h.absent] at hent
  cases hent

end Created

section Call

variable {pid : UInt32} {rel : Name} {contents : List UInt8} {fault : Fault} {ph ph' : Phase}
  {o : Op} {r : Answer o} {w w' w₀ : World}

def Traceless (pid : UInt32) (rel : Name) (w₀ : World) (fault : Fault) : Prop :=
  fault ≠ .rename ∧
    (fault = .open → ∀ e, w₀.dir.entries (tmpName pid rel w₀.counter) = some e → e = .dir)

def HasTmp (pid : UInt32) (rel : Name) (w₀ w : World) : Prop :=
  ∃ ino, Created w₀.dir w.dir (tmpName pid rel w₀.counter) ino

def Residue (pid : UInt32) (rel : Name) (fault : Fault) (w₀ w : World) : Phase → Prop
  | .start => w = w₀
  | .opening n => n = w₀.counter ∧ w.dir = w₀.dir
  | .writing n _ _ | .syncing n _ | .closing n _ (.ok _) | .publishing n =>
    n = w₀.counter ∧ HasTmp pid rel w₀ w
  | .closing n _ (.error _) =>
    n = w₀.counter ∧ HasTmp pid rel w₀ w ∧ (fault = .write ∨ fault = .syncAll)
  | .removing n _ => n = w₀.counter ∧
    (fault = .open ∧ w.dir = w₀.dir ∨
      (fault = .write ∨ fault = .syncAll) ∧ HasTmp pid rel w₀ w)
  | .syncingDir _ | .done _ (.ok _) => True
  | .done _ (.error _) => Unchanged w₀.dir w.dir ↔ Traceless pid rel w₀ fault

theorem step_of_faulty (h : faulty fault w o r w') : step w o r w' := by
  cases o with
  | «open» rel opts =>
    rcases r with e | f
    · exact h.2
    · exact h
  | write f buf =>
    rcases r with e | _ | m
    · exact h.2
    · exact h.2
    · exact h
  | syncAll f =>
    rcases r with e | ⟨⟩
    · exact h.2
    · exact h
  | removeFile rel =>
    rcases r with e | ⟨⟩
    · exact h.1
    · exact h
  | rename src dst =>
    rcases r with e | ⟨⟩
    · exact h.2
    · exact h
  | syncDir =>
    rcases r with e | ⟨⟩
    · exact h.elim
    · exact h
  | _ => exact h

theorem residue_wrote {n : UInt64} (hn : n = w₀.counter) (h : HasTmp pid rel w₀ w) (f : Handle)
    (off : ℕ) : Residue pid rel fault w₀ w (wrote contents n f off) := by
  unfold wrote
  split_ifs <;> exact ⟨hn, h⟩

theorem unchanged_iff_of_open {r : Result Unit} (hd : w.dir = w₀.dir)
    (hs : faulty .open w (.removeFile (tmpName pid rel w₀.counter)) r w') :
    Unchanged w₀.dir w'.dir ↔ Traceless pid rel w₀ .open := by
  rcases r with e | ⟨⟩
  · obtain ⟨rfl, hdir⟩ := hs
    rw [hd] at hdir ⊢
    exact iff_of_true ⟨rfl, fun _ => rfl⟩ ⟨by rintro ⟨⟩, fun _ => hdir⟩
  · obtain ⟨-, e, he, hne, hd'⟩ := hs
    rw [hd] at he hd'
    apply iff_of_false
    · intro hu
      have hent := congrFun hu.1 (tmpName pid rel w₀.counter)
      rw [hd', Dir.remove_entries, Function.update_self, he] at hent
      cases hent
    · intro ht
      exact hne (ht.2 rfl e he)

theorem Created.unchanged_of_remove {tmp : Name} {ino : Ino} {r : Result Unit}
    (hc : Created w₀.dir w.dir tmp ino) (hs : faulty fault w (.removeFile tmp) r w') :
    Unchanged w₀.dir w'.dir := by
  rcases r with e | ⟨⟩
  · have hent : w.dir.entries tmp = some (.file ino) := by
      rw [hc.entries, Function.update_self]
    cases hs.2 _ hent
  · obtain ⟨-, e, -, -, hd⟩ := hs
    rw [hd]
    exact hc.remove

theorem traceless_of_write (hfault : fault = .write ∨ fault = .syncAll) :
    Traceless pid rel w₀ fault := by
  rcases hfault with rfl | rfl
  · exact ⟨by rintro ⟨⟩, by rintro ⟨⟩⟩
  · exact ⟨by rintro ⟨⟩, by rintro ⟨⟩⟩

theorem Residue.step (h : Residue pid rel fault w₀ w ph) (ho : Owns pid rel contents w.dir ph)
    (ha : Advance pid rel contents ph o r ph') (hs : faulty fault w o r w') :
    Residue pid rel fault w₀ w' ph' := by
  cases ha with
  | fetchAdd n =>
    obtain rfl : w = w₀ := h
    obtain ⟨rfl, rfl⟩ := hs
    exact ⟨rfl, rfl⟩
  | openError n e =>
    obtain ⟨rfl, rfl⟩ := hs
    exact ⟨h.1, .inl ⟨rfl, h.2⟩⟩
  | «open» n f =>
    obtain ⟨rfl, hd⟩ := h
    obtain ⟨-, -, ⟨hnone, -, ino, hfree, hd'⟩ | ⟨hnew, -⟩⟩ := hs
    · apply residue_wrote rfl
      refine ⟨ino, ?_⟩
      rw [hd', hd]
      rw [hd] at hnone hfree
      exact .create hnone hfree _ _
    · cases hnew
  | writeError n f off e =>
    obtain ⟨rfl, rfl⟩ := hs
    exact ⟨h.1, h.2, .inl rfl⟩
  | writeZero n f off =>
    obtain ⟨rfl, ino, hc⟩ := h
    obtain ⟨-, ino', hh, -⟩ := ho
    exact ⟨rfl, ⟨ino, hc.write ⟨ino', hh⟩ hs.2.2⟩, .inl hs.1⟩
  | write n f off m =>
    obtain ⟨rfl, ino, hc⟩ := h
    obtain ⟨-, ino', hh, -⟩ := ho
    exact residue_wrote rfl ⟨ino, hc.write ⟨ino', hh⟩ hs.2⟩ _ _
  | syncAll n f r =>
    rcases r with e | ⟨⟩
    · obtain ⟨rfl, rfl⟩ := hs
      exact ⟨h.1, h.2, .inr rfl⟩
    · cases hs
      exact h
  | closeError n f e =>
    cases hs
    obtain ⟨rfl, ⟨ino, hc⟩, hfault⟩ := h
    exact ⟨rfl, .inr ⟨hfault, ino, hc.close f⟩⟩
  | close n f =>
    cases hs
    obtain ⟨rfl, ino, hc⟩ := h
    exact ⟨rfl, ino, hc.close f⟩
  | removeFile n e r =>
    obtain ⟨rfl, ⟨rfl, hd⟩ | ⟨hfault, ino, hc⟩⟩ := h
    · exact unchanged_iff_of_open hd hs
    · exact iff_of_true (hc.unchanged_of_remove hs) (traceless_of_write hfault)
  | renameError n e =>
    obtain ⟨rfl, ino, hc⟩ := h
    obtain ⟨rfl, rfl⟩ := hs
    exact iff_of_false hc.not_unchanged fun ht => ht.1 rfl
  | rename n => trivial
  | syncDir n r =>
    rcases r with e | ⟨⟩
    · exact hs.elim
    · trivial

structure Failing (pid : UInt32) (rel : Name) (contents : List UInt8) (fault : Fault) (w₀ : World)
    (c : Prog Answer (Result Unit) × World) (ph : Phase) : Prop where
  prog : c.1 = resume pid rel contents ph
  owns : Owns pid rel contents c.2.dir ph
  residue : Residue pid rel fault w₀ c.2 ph

theorem Failing.writing {c : Prog Answer (Result Unit) × World}
    (h : Failing pid rel contents fault w₀ c ph) {n : UInt64} {f : Handle} {off : ℕ}
    (hph : ph = .writing n f off) : off < contents.length := by
  have ho := h.owns
  rw [hph] at ho
  exact ho.1

theorem Failing.step {c c' : Prog Answer (Result Unit) × World}
    (h : Failing pid rel contents fault w₀ c ph) (hs : Next (faulty fault) c c') :
    ∃ ph', Failing pid rel contents fault w₀ c' ph' := by
  obtain ⟨p, w⟩ := c
  obtain ⟨p', w'⟩ := c'
  obtain ⟨o, r, hs⟩ := hs
  obtain rfl : p = _ := h.prog
  obtain ⟨hw, ph', ha, rfl⟩ := advance_of_step (fun _ _ _ => h.writing) hs
  exact ⟨ph', rfl, ha.owns (step_of_faulty hw) h.owns, h.residue.step h.owns ha hw⟩

theorem failing_of_reaches {c : Prog Answer (Result Unit) × World}
    (h : Reaches (faulty fault) (writeAtomic pid rel contents, w₀) c) :
    ∃ ph, Failing pid rel contents fault w₀ c ph := by
  induction h with
  | refl => exact ⟨.start, rfl, trivial, rfl⟩
  | tail _ hs ih =>
    obtain ⟨ph, h⟩ := ih
    exact h.step hs

end Call

theorem failed_call_unchanged_iff (pid : UInt32) (rel : Name) (contents : List UInt8) (fault : Fault)
    (w w' : World) (e : PlatformError)
    (h : Reaches (faulty fault) (writeAtomic pid rel contents, w) (.ret (.error e), w')) :
    Unchanged w.dir w'.dir ↔ fault ≠ .rename ∧
      (fault = .open → ∀ e, w.dir.entries (tmpName pid rel w.counter) = some e → e = .dir) := by
  obtain ⟨ph, hf⟩ := failing_of_reaches h
  obtain ⟨n, rfl⟩ := eq_done_of_resume (fun _ _ _ => hf.writing) hf.prog.symm
  exact hf.residue

def opened : World := ⟨World.empty.dir.create (tmpName 1 [97] 0) 0 0 ⟨0, 0, true⟩, 1⟩

theorem reaches_opened (fault : Fault) (contents : List UInt8) :
    Reaches (faulty fault) (writeAtomic 1 [97] contents, World.empty)
      (resume 1 [97] contents (wrote contents 0 0 0), opened) := by
  have h₁ : Next (faulty fault) (resume 1 [97] contents .start, World.empty)
      (resume 1 [97] contents (.opening 0), ⟨World.empty.dir, 1⟩) :=
    ⟨_, _, step_of_advance (by rintro _ _ _ ⟨⟩) (.fetchAdd 0) ⟨rfl, rfl⟩⟩
  have hfree : World.empty.dir.Free 0 := ⟨by rintro _ ⟨⟩, by rintro _ _ ⟨⟩⟩
  have h₂ : Next (faulty fault) (resume 1 [97] contents (.opening 0), ⟨World.empty.dir, 1⟩)
      (resume 1 [97] contents (wrote contents 0 0 0), opened) :=
    ⟨_, _, step_of_advance (by rintro _ _ _ ⟨⟩) (.open 0 0)
      ⟨rfl, rfl, .inl ⟨rfl, .inr rfl, 0, hfree, rfl⟩⟩⟩
  exact .head h₁ (.single h₂)

theorem opened_tmp : opened.dir.entries (tmpName 1 [97] 0) = some (.file 0) := by
  unfold opened
  rw [Dir.create_entries, Function.update_self]

theorem failed_write_unchanged :
    ∃ w', Reaches (faulty .write) (writeAtomic 1 [97] [2], World.empty)
        (.ret (.error (wroteNothing [97])), w') ∧ Unchanged World.empty.dir w'.dir := by
  let w₁ : World := { opened with dir := opened.dir.close 0 }
  let w₂ : World := { w₁ with dir := w₁.dir.remove (tmpName 1 [97] 0) }
  have h₁ : Next (faulty .write) (resume 1 [97] [2] (.writing 0 0 0), opened)
      (resume 1 [97] [2] (.closing 0 0 (.error (wroteNothing [97]))), opened) :=
    ⟨_, _, step_of_advance (by rintro _ _ _ ⟨⟩; decide) (.writeError 0 0 0 _) ⟨rfl, rfl⟩⟩
  have h₂ : Next (faulty .write) (resume 1 [97] [2] (.closing 0 0 (.error (wroteNothing [97]))), opened)
      (resume 1 [97] [2] (.removing 0 (wroteNothing [97])), w₁) :=
    ⟨_, _, step_of_advance (by rintro _ _ _ ⟨⟩) (.closeError 0 0 _) rfl⟩
  have h₃ : Next (faulty .write) (resume 1 [97] [2] (.removing 0 (wroteNothing [97])), w₁)
      (resume 1 [97] [2] (.done 0 (.error (wroteNothing [97]))), w₂) :=
    ⟨_, _, step_of_advance (by rintro _ _ _ ⟨⟩) (.removeFile 0 _ (.ok ()))
      ⟨rfl, _, opened_tmp, by rintro ⟨⟩, rfl⟩⟩
  have h := (((reaches_opened .write [2]).tail h₁).tail h₂).tail h₃
  refine ⟨w₂, h, (failed_call_unchanged_iff 1 [97] [2] .write _ _ _ h).mpr ⟨?_, ?_⟩⟩
  · rintro ⟨⟩
  · rintro ⟨⟩

theorem failed_rename_leaves_tmp :
    ∃ w' e, Reaches (faulty .rename) (writeAtomic 1 [97] [], World.empty) (.ret (.error e), w') ∧
      World.empty.dir.entries (tmpName 1 [97] 0) = none ∧
      w'.dir.entries (tmpName 1 [97] 0) = some (.file 0) ∧ ¬ Unchanged World.empty.dir w'.dir := by
  let w₁ : World := { opened with dir := opened.dir.close 0 }
  have h₁ : Next (faulty .rename) (resume 1 [97] [] (.syncing 0 0), opened)
      (resume 1 [97] [] (.closing 0 0 (.ok ())), opened) :=
    ⟨_, _, step_of_advance (by rintro _ _ _ ⟨⟩) (.syncAll 0 0 (.ok ())) rfl⟩
  have h₂ : Next (faulty .rename) (resume 1 [97] [] (.closing 0 0 (.ok ())), opened)
      (resume 1 [97] [] (.publishing 0), w₁) :=
    ⟨_, _, step_of_advance (by rintro _ _ _ ⟨⟩) (.close 0 0) rfl⟩
  have h₃ : Next (faulty .rename) (resume 1 [97] [] (.publishing 0), w₁)
      (resume 1 [97] [] (.done 0 (.error (wroteNothing [97]))), w₁) :=
    ⟨_, _, step_of_advance (by rintro _ _ _ ⟨⟩) (.renameError 0 _) ⟨rfl, rfl⟩⟩
  refine ⟨w₁, _, (((reaches_opened .rename []).tail h₁).tail h₂).tail h₃, rfl, opened_tmp, ?_⟩
  intro hu
  cases (congrFun hu.1 (tmpName 1 [97] 0)).symm.trans opened_tmp

end Rustils.Fs
