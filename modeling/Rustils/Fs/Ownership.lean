import Rustils.Fs.Publication

namespace Rustils.Fs

open Platform Lib.Program

def Spares (rel : Name) (d d' : Dir) : Prop :=
  ∀ name e, name ≠ rel → d.entries name = some e →
    d'.entries name = some e ∧ d'.view name = d.view name

section Call

variable {pid : UInt32} {rel name : Name} {contents : List UInt8} {ph ph' : Phase} {o : Op}
  {r : Answer o} {w w' w₀ : World} {d d' : Dir}

theorem frame_of_update {e : Option Entry} (hdata : d'.data = d.data)
    (hentries : d'.entries = Function.update d.entries rel e) (hne : name ≠ rel) :
    d'.entries name = d.entries name ∧ d'.view name = d.view name := by
  have he : d'.entries name = d.entries name := by rw [hentries, Function.update_of_ne hne]
  refine ⟨he, view_congr he fun ino _ => ?_⟩
  rw [hdata]

theorem Advance.frame (ha : Advance pid rel contents ph o r ph') (hs : step w o r w')
    (ho : Owns pid rel contents w.dir ph) (hrel : name ≠ rel)
    (htmp : ∀ n, ph.num = some n → name ≠ tmpName pid rel n) :
    w'.dir.entries name = w.dir.entries name ∧ w'.dir.view name = w.dir.view name := by
  cases ha with
  | fetchAdd n =>
    rw [hs.2]
    exact ⟨rfl, rfl⟩
  | «open» n f =>
    obtain ⟨-, -, ⟨-, -, ino, hfree, hd⟩ | ⟨hnew, -⟩⟩ := hs
    · have he : w'.dir.entries name = w.dir.entries name := by
        rw [hd, Dir.create_entries, Function.update_of_ne (htmp n rfl)]
      refine ⟨he, view_congr he fun ino' hino' => ?_⟩
      rw [hd]
      apply Function.update_of_ne
      rintro rfl
      exact hfree.1 name hino'
    · cases hnew
  | writeZero n f off =>
    obtain ⟨-, ino, hh, -⟩ := ho
    refine ⟨?_, hh.view_write (htmp n rfl).symm hs.2⟩
    obtain ⟨-, -, g, -, -, pos, -, hd⟩ := hs
    rw [hd, Dir.write_entries]
  | write n f off m =>
    obtain ⟨-, ino, hh, -⟩ := ho
    refine ⟨?_, hh.view_write (htmp n rfl).symm hs.2⟩
    obtain ⟨-, -, g, -, -, pos, -, hd⟩ := hs
    rw [hd, Dir.write_entries]
  | closeError n f e =>
    cases hs
    exact ⟨rfl, rfl⟩
  | close n f =>
    cases hs
    exact ⟨rfl, rfl⟩
  | removeFile n e r =>
    rcases r with e' | ⟨⟩
    · cases hs
      exact ⟨rfl, rfl⟩
    · obtain ⟨-, e', -, -, hd⟩ := hs
      rw [hd]
      exact frame_of_update rfl rfl (htmp n rfl)
  | rename n =>
    obtain ⟨-, e, -, hd | ⟨-, hd⟩⟩ := hs
    · rw [hd]
      have he : (w.dir.rename (tmpName pid rel n) rel e).entries name = w.dir.entries name := by
        rw [Dir.rename_entries, Function.update_of_ne hrel, Function.update_of_ne (htmp n rfl)]
      exact ⟨he, view_congr he fun _ _ => rfl⟩
    · rw [hd]
      exact ⟨rfl, rfl⟩
  | _ =>
    cases hs
    exact ⟨rfl, rfl⟩

theorem Advance.keeps_dir (ha : Advance pid rel contents ph o r ph') (hs : step w o r w')
    (ho : Owns pid rel contents w.dir ph) (hrel : name ≠ rel)
    (hdir : w.dir.entries name = some .dir) : w'.dir.entries name = some .dir := by
  by_cases htmp : ∀ n, ph.num = some n → name ≠ tmpName pid rel n
  · exact (ha.frame hs ho hrel htmp).1.trans hdir
  · push Not at htmp
    obtain ⟨n, hn, rfl⟩ := htmp
    cases ha with
    | fetchAdd n => cases hn
    | «open» n f =>
      cases hn
      obtain ⟨-, -, ⟨hnone, -⟩ | ⟨hnew, -⟩⟩ := hs
      · cases hnone.symm.trans hdir
      · cases hnew
    | writeZero n f off =>
      obtain ⟨-, -, g, -, -, pos, -, hd⟩ := hs
      rwa [hd, Dir.write_entries]
    | write n f off m =>
      obtain ⟨-, -, g, -, -, pos, -, hd⟩ := hs
      rwa [hd, Dir.write_entries]
    | closeError n f e =>
      cases hs
      exact hdir
    | close n f =>
      cases hs
      exact hdir
    | removeFile n e r =>
      cases hn
      rcases r with e' | ⟨⟩
      · cases hs
        exact hdir
      · obtain ⟨-, e', he', hne, -⟩ := hs
        exact absurd (Option.some.inj (he'.symm.trans hdir)) hne
    | rename n =>
      cases hn
      obtain ⟨ino, hp, -⟩ := ho
      cases hp.named.symm.trans hdir
    | _ =>
      cases hs
      exact hdir

structure Alone (pid : UInt32) (rel : Name) (contents : List UInt8) (w₀ : World)
    (c : Prog Answer (Result Unit) × World) (ph : Phase) : Prop where
  prog : c.1 = resume pid rel contents ph
  counter : ph.num = none → c.2.counter = w₀.counter
  num : ∀ n, ph.num = some n → n = w₀.counter
  owns : Owns pid rel contents c.2.dir ph
  spares : Spares rel w₀.dir c.2.dir

theorem Alone.writing {c : Prog Answer (Result Unit) × World} (h : Alone pid rel contents w₀ c ph)
    {n : UInt64} {f : Handle} {off : ℕ} (hph : ph = .writing n f off) : off < contents.length := by
  have ho := h.owns
  rw [hph] at ho
  exact ho.1

theorem Alone.step {c c' : Prog Answer (Result Unit) × World}
    (hfree : ∀ e, w₀.dir.entries (tmpName pid rel w₀.counter) = some e → e = .dir)
    (h : Alone pid rel contents w₀ c ph) (hs : Next Fs.step c c') :
    ∃ ph', Alone pid rel contents w₀ c' ph' := by
  obtain ⟨p, w⟩ := c
  obtain ⟨p', w'⟩ := c'
  obtain ⟨o, r, hs⟩ := hs
  obtain rfl : p = _ := h.prog
  obtain ⟨hw, ph', ha, rfl⟩ := advance_of_step (fun _ _ _ => h.writing) hs
  refine ⟨ph', rfl, ?_, ?_, ha.owns hw h.owns, ?_⟩
  · intro hnone
    rcases ha.num hw with ⟨-, hn, -⟩ | ⟨hn, hcounter⟩
    · cases hn.symm.trans hnone
    · exact hcounter.trans (h.counter (hn.symm.trans hnone))
  · intro n hn
    rcases ha.num hw with ⟨hnone, hn', -⟩ | ⟨hn', -⟩
    · rw [← h.counter hnone]
      exact Option.some.inj (hn.symm.trans hn')
    · exact h.num n (hn'.symm.trans hn)
  · intro name e hrel he
    obtain ⟨hent, hview⟩ := h.spares name e hrel he
    by_cases htmp : ∀ n, ph.num = some n → name ≠ tmpName pid rel n
    · obtain ⟨hent', hview'⟩ := ha.frame hw h.owns hrel htmp
      exact ⟨hent'.trans hent, hview'.trans hview⟩
    · push Not at htmp
      obtain ⟨n, hn, rfl⟩ := htmp
      rw [h.num n hn] at he hent ⊢
      obtain rfl := hfree e he
      have hdir := ha.keeps_dir hw h.owns (tmpName_ne_rel pid rel _) hent
      refine ⟨hdir, ?_⟩
      rw [Dir.view, Dir.view, hdir, he]
      rfl

theorem alone_of_reaches {c : Prog Answer (Result Unit) × World}
    (hfree : ∀ e, w₀.dir.entries (tmpName pid rel w₀.counter) = some e → e = .dir)
    (h : Reaches Fs.step (writeAtomic pid rel contents, w₀) c) :
    ∃ ph, Alone pid rel contents w₀ c ph := by
  induction h with
  | refl =>
    refine ⟨.start, rfl, fun _ => rfl, ?_, trivial, fun _ _ _ he => ⟨he, rfl⟩⟩
    rintro n ⟨⟩
  | tail _ hs ih =>
    obtain ⟨ph, h⟩ := ih
    exact h.step hfree hs

variable (pid rel contents) in
theorem reaches_remove_found {e : Entry} (err : PlatformError)
    (he : w.dir.entries (tmpName pid rel w.counter) = some e) (hne : e ≠ .dir) :
    Reaches Fs.step (writeAtomic pid rel contents, w)
      (.ret (.error err), ⟨w.dir.remove (tmpName pid rel w.counter), w.counter + 1⟩) := by
  have h₁ : Next Fs.step (resume pid rel contents .start, w)
      (resume pid rel contents (.opening w.counter), ⟨w.dir, w.counter + 1⟩) :=
    ⟨_, _, step_of_advance (by rintro _ _ _ ⟨⟩) (.fetchAdd w.counter) ⟨rfl, rfl⟩⟩
  have h₂ : Next Fs.step (resume pid rel contents (.opening w.counter), ⟨w.dir, w.counter + 1⟩)
      (resume pid rel contents (.removing w.counter err), ⟨w.dir, w.counter + 1⟩) :=
    ⟨_, _, step_of_advance (by rintro _ _ _ ⟨⟩) (.openError w.counter err) rfl⟩
  have h₃ : Next Fs.step (resume pid rel contents (.removing w.counter err), ⟨w.dir, w.counter + 1⟩)
      (resume pid rel contents (.done w.counter (.error err)),
        ⟨w.dir.remove (tmpName pid rel w.counter), w.counter + 1⟩) :=
    ⟨_, _, step_of_advance (by rintro _ _ _ ⟨⟩) (.removeFile w.counter err (.ok ()))
      ⟨rfl, e, he, hne, rfl⟩⟩
  exact .head h₁ (.head h₂ (.single h₃))

end Call

theorem writeAtomic_spares_iff (pid : UInt32) (rel : Name) (contents : List UInt8) (w : World) :
    (∀ c, Reaches step (writeAtomic pid rel contents, w) c → Spares rel w.dir c.2.dir) ↔
      ∀ e, w.dir.entries (tmpName pid rel w.counter) = some e → e = .dir := by
  constructor
  · intro h e he
    by_contra hne
    have hr := reaches_remove_found pid rel contents (wroteNothing rel) he hne
    have hgone := (h _ hr _ e (tmpName_ne_rel pid rel w.counter) he).1
    rw [Dir.remove_entries, Function.update_self] at hgone
    cases hgone
  · intro hfree c hc
    obtain ⟨ph, h⟩ := alone_of_reaches hfree hc
    exact h.spares

/-- A process that crashed left its temporary file; its pid and number come up again. -/
def leftover : World where
  dir := ⟨fun name => if name = tmpName 1 [97] 0 then some (.file 0) else none, fun _ => [1],
    fun _ => none⟩
  counter := 0

theorem leftover_removed :
    ∃ c, Reaches step (writeAtomic 1 [97] [2], leftover) c ∧
      c.1 = .ret (.error ((PlatformError.new .alreadyExists .none "open").withPath (tmpName 1 [97] 0))) ∧
      leftover.dir.view (tmpName 1 [97] 0) = some (.file [1]) ∧
      c.2.dir.view (tmpName 1 [97] 0) = none ∧ ¬ Spares [97] leftover.dir c.2.dir := by
  have hentry : leftover.dir.entries (tmpName 1 [97] 0) = some (.file 0) := by
    simp only [leftover, if_pos]
  have hgone : (leftover.dir.remove (tmpName 1 [97] 0)).entries (tmpName 1 [97] 0) = none := by
    rw [Dir.remove_entries, Function.update_self]
  refine ⟨_, reaches_remove_found 1 [97] [2] _ hentry (by rintro ⟨⟩), rfl, ?_, ?_, ?_⟩
  · rw [Dir.view, hentry]
    rfl
  · exact congrArg (Option.map _) hgone
  · intro h
    have hkept := (h _ _ (tmpName_ne_rel 1 [97] 0) hentry).1
    cases hgone.symm.trans hkept

end Rustils.Fs
