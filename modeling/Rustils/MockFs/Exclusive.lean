import Rustils.Lib.History
import Rustils.MockFs.Forest

namespace Rustils.MockFs

open Platform Lib.Program Lib.Trace

inductive Section
  | child (dir : Addr) (rel : Name) (op : String)
  | clear (node : Addr)
  | insertFile (dir : Addr) (rel : Name)

@[reducible] def Answer : Section → Type
  | .child _ _ _ => Result Addr
  | .clear _ => Unit
  | .insertFile _ _ => Result Addr

def locked : Env Nodes Answer
  | nodes, .child dir rel op, r, nodes' => r = MockDir.child ⟨dir⟩ nodes rel op ∧ nodes' = nodes
  | nodes, .clear node, _, nodes' => nodes' = clear nodes node
  | nodes, .insertFile dir rel, r, nodes' =>
    ∃ fresh, nodes fresh = none ∧ (r, nodes') = insertFile nodes dir rel fresh

namespace MockDir

def openSections (self : MockDir) (rel : Name) (opts : OpenOptions) : Prog Answer (Result Addr) :=
  .op (.child self.node rel "open") fun existing =>
    match existing with
    | .ok node =>
      if opts.createNew then .ret (.error (err .alreadyExists "open" rel))
      else if opts.truncate then .op (.clear node) fun _ => .ret (.ok node)
      else .ret (.ok node)
    | .error e =>
      if opts.create || opts.createNew then .op (.insertFile self.node rel) .ret
      else .ret (.error e)

variable {self : MockDir} {nodes nodes' : Nodes} {rel : Name} {opts : OpenOptions}

end MockDir

section Interleaved

variable {ι : Type} {dir : MockDir} {rel : Name} {opts : ι → OpenOptions}

abbrev Calls (ι : Type) := Pool ι Answer (Result Addr) Nodes

def opening (dir : MockDir) (rel : Name) (opts : ι → OpenOptions) (nodes : Nodes) : Calls ι :=
  ⟨fun i => dir.openSections rel (opts i), nodes⟩

def Inserting (dir : MockDir) (rel : Name) (p : Prog Answer (Result Addr)) : Prop :=
  p = .op (.insertFile dir.node rel) .ret

/-- Nobody looks the name up while another call is about to insert it. -/
def Orderly (dir : MockDir) (rel : Name) (c : Calls ι) : Section → Prop
  | .child _ _ _ => ∀ j, ¬Inserting dir rel (c.progs j)
  | _ => True

def Created (dir : MockDir) (rel : Name) (tr : List (Taken ι Answer)) (i : ι) (a : Addr) : Prop :=
  ⟨i, .insertFile dir.node rel, .ok a⟩ ∈ tr

inductive Stands (dir : MockDir) (rel : Name) (opts : ι → OpenOptions) (made : Option (ι × Addr))
    (i : ι) : Prog Answer (Result Addr) → Prop
  | looking : Stands dir rel opts made i (dir.openSections rel (opts i))
  | inserting (h : made = none) : Stands dir rel opts made i (.op (.insertFile dir.node rel) .ret)
  | clearing {k : ι} {a : Addr} (h : made = some (k, a)) (hnew : (opts i).createNew = false) :
      Stands dir rel opts made i (.op (.clear a) fun _ => .ret (.ok a))
  | opened {k : ι} {a : Addr} (h : made = some (k, a)) (hnew : (opts i).createNew = true → k = i) :
      Stands dir rel opts made i (.ret (.ok a))
  | refused {k : ι} {a : Addr} (h : made = some (k, a)) (hk : k ≠ i)
      (hnew : (opts i).createNew = true) :
      Stands dir rel opts made i (.ret (.error (err .alreadyExists "open" rel)))

structure Settled (dir : MockDir) (rel : Name) (opts : ι → OpenOptions) (made : Option (ι × Addr))
    (tr : List (Taken ι Answer)) (c : Calls ι) : Prop where
  entry : ∃ entries, c.state dir.node = some (.dir entries) ∧ entries[rel]? = made.map Prod.snd
  created : ∀ i a, Created dir rel tr i a ↔ made = some (i, a)
  maker : ∀ i a, made = some (i, a) → c.progs i = .ret (.ok a)
  alone : ∀ i j, Inserting dir rel (c.progs i) → Inserting dir rel (c.progs j) → i = j
  stands : ∀ i, Stands dir rel opts made i (c.progs i)

theorem created_concat {tr : List (Taken ι Answer)} {t : Taken ι Answer} {i : ι} {a : Addr} :
    Created dir rel (tr ++ [t]) i a ↔
      Created dir rel tr i a ∨ t = ⟨i, .insertFile dir.node rel, .ok a⟩ := by
  rw [Created, List.mem_append, List.mem_singleton, eq_comm]
  rfl

variable {made : Option (ι × Addr)} {tr : List (Taken ι Answer)} {c c' : Calls ι} {t : Taken ι Answer}

theorem Settled.returned {i : ι} {r : Result Addr} (h : Settled dir rel opts made tr c)
    (hr : c.progs i = .ret r) :
    ∃ k a, made = some (k, a) ∧
      (r = .ok a ∧ ((opts i).createNew = true → k = i) ∨
        r = .error (err .alreadyExists "open" rel) ∧ k ≠ i) := by
  have hst := h.stands i
  rw [hr] at hst
  cases hst with
  | opened hm hnew => exact ⟨_, _, hm, .inl ⟨rfl, hnew⟩⟩
  | refused hm hk _ => exact ⟨_, _, hm, .inr ⟨rfl, hk⟩⟩

structure Exclusive (dir : MockDir) (rel : Name) (opts : ι → OpenOptions) (tr : List (Taken ι Answer))
    (c : Calls ι) : Prop where
  kept : ∀ i a, Created dir rel tr i a ∨ c.progs i = .ret (.ok a) → edge c.state dir.node rel a
  one : ∀ i j a b, Created dir rel tr i a → Created dir rel tr j b → i = j
  own : ∀ i a, (opts i).createNew = true → c.progs i = .ret (.ok a) → Created dir rel tr i a
  exactly : Nonempty ι → (∀ i, ∃ r, c.progs i = .ret r) → ∃ i a, Created dir rel tr i a ∧
    c.progs i = .ret (.ok a) ∧ ∀ j, j ≠ i → (opts j).createNew = true →
      c.progs j = .ret (.error (err .alreadyExists "open" rel))

theorem Settled.exclusive (h : Settled dir rel opts made tr c) : Exclusive dir rel opts tr c := by
  obtain ⟨entries, hd, he⟩ := h.entry
  constructor
  · intro i a hi
    have hm : ∃ k, made = some (k, a) := by
      rcases hi with hi | hi
      · exact ⟨i, (h.created i a).mp hi⟩
      · obtain ⟨k, b, hm, ⟨hb, -⟩ | ⟨⟨⟩, -⟩⟩ := h.returned hi
        cases hb
        exact ⟨k, hm⟩
    obtain ⟨k, hm⟩ := hm
    rw [hm] at he
    exact ⟨entries, hd, he⟩
  · intro i j a b hi hj
    have hij := ((h.created i a).mp hi).symm.trans ((h.created j b).mp hj)
    cases hij
    rfl
  · intro i a hnew hi
    obtain ⟨k, b, hm, ⟨hb, hk⟩ | ⟨⟨⟩, -⟩⟩ := h.returned hi
    cases hb
    rw [h.created, hm, hk hnew]
  · rintro ⟨i₀⟩ hall
    obtain ⟨r, hr⟩ := hall i₀
    obtain ⟨i, a, hm, -⟩ := h.returned hr
    refine ⟨i, a, (h.created i a).mpr hm, h.maker i a hm, ?_⟩
    intro j hj hnew
    obtain ⟨r', hr'⟩ := hall j
    obtain ⟨k, b, hm', ⟨-, hk⟩ | ⟨hb, -⟩⟩ := h.returned hr'
    · cases hm.symm.trans hm'
      exact absurd (hk hnew).symm hj
    · rw [hr', hb]

variable [DecidableEq ι]

def OrderlyStep (dir : MockDir) (rel : Name) (c : Calls ι) (t : Taken ι Answer) (c' : Calls ι) : Prop :=
  Pool.Takes locked c t c' ∧ Orderly dir rel c t.op

theorem Settled.quiet (h : Settled dir rel opts made tr c) {p' : Prog Answer (Result Addr)}
    {nodes : Nodes} {k : Answer t.op → Prog Answer (Result Addr)}
    (hp : c.progs t.call = .op t.op k) (hstands : Stands dir rel opts made t.call p')
    (hsec : t.op ≠ .insertFile dir.node rel)
    (halone : Inserting dir rel p' → ∀ j, ¬Inserting dir rel (c.progs j))
    (hentry : ∃ entries, nodes dir.node = some (.dir entries) ∧ entries[rel]? = made.map Prod.snd) :
    Settled dir rel opts made (tr ++ [t]) ⟨Function.update c.progs t.call p', nodes⟩ := by
  refine ⟨hentry, ?_, ?_, ?_, ?_⟩
  · intro i a
    rw [created_concat, h.created, or_iff_left]
    rintro rfl
    exact hsec rfl
  · intro i a hm
    have hi := h.maker i a hm
    have hne : i ≠ t.call := by
      rintro rfl
      rw [hp] at hi
      cases hi
    simp only [Function.update_of_ne hne]
    exact hi
  · intro i j hi hj
    by_cases hit : i = t.call <;> by_cases hjt : j = t.call
    · rw [hit, hjt]
    · simp only [hit, Function.update_self] at hi
      simp only [Function.update_of_ne hjt] at hj
      exact absurd hj (halone hi j)
    · simp only [hjt, Function.update_self] at hj
      simp only [Function.update_of_ne hit] at hi
      exact absurd hi (halone hj i)
    · simp only [Function.update_of_ne hit] at hi
      simp only [Function.update_of_ne hjt] at hj
      exact h.alone i j hi hj
  · intro i
    by_cases hi : i = t.call
    · simp only [hi, Function.update_self]
      exact hstands
    · simp only [Function.update_of_ne hi]
      exact h.stands i

theorem Settled.insert {i : ι} {fresh : Addr} {entries : Entries}
    (h : Settled dir rel opts none tr c) (hi : Inserting dir rel (c.progs i)) :
    Settled dir rel opts (some (i, fresh)) (tr ++ [⟨i, .insertFile dir.node rel, .ok fresh⟩])
      ⟨Function.update c.progs i (.ret (.ok fresh)),
        link c.state dir.node entries rel fresh (.file [])⟩ := by
  have hself : Function.update c.progs i (.ret (.ok fresh)) i = .ret (.ok fresh) :=
    Function.update_self ..
  have hothers : ∀ j, j ≠ i → Function.update c.progs i (.ret (.ok fresh)) j =
      dir.openSections rel (opts j) := by
    intro j hj
    rw [Function.update_of_ne hj]
    have hs := h.stands j
    generalize hp : c.progs j = p at hs
    cases hs with
    | looking => rfl
    | inserting _ => exact absurd (h.alone j i hp hi) hj
    | clearing hm => cases hm
    | opened hm => cases hm
    | refused hm => cases hm
  refine ⟨⟨entries.insert rel fresh, Function.update_self .., by simp⟩, ?_, ?_, ?_, ?_⟩
  · intro j a
    rw [created_concat, h.created]
    simp
  · intro j a hm
    cases hm
    exact hself
  · intro j k hj hk
    have hret : ∀ l, ¬Inserting dir rel (Function.update c.progs i (.ret (.ok fresh)) l) := by
      intro l hl
      by_cases hli : l = i
      · rw [hli, hself] at hl
        cases hl
      · rw [hothers l hli] at hl
        cases hl
    exact absurd hj (hret j)
  · intro j
    by_cases hj : j = i
    · subst hj
      simp only [hself]
      exact .opened rfl fun _ => rfl
    · simp only [hothers j hj]
      exact .looking

theorem child_absent {nodes : Nodes} {entries : Entries} (h : nodes dir.node = some (.dir entries))
    (he : entries[rel]? = none) : dir.child nodes rel "open" = .error (err .notFound "open" rel) := by
  simp only [MockDir.child, h, he]

theorem child_present {nodes : Nodes} {entries : Entries} {a : Addr}
    (h : nodes dir.node = some (.dir entries)) (he : entries[rel]? = some a) :
    dir.child nodes rel "open" = .ok a := by
  simp only [MockDir.child, h, he]

theorem clear_dir {nodes : Nodes} {d a : Addr} {entries : Entries}
    (h : nodes d = some (.dir entries)) : clear nodes a d = some (.dir entries) := by
  by_cases hne : d = a
  · subst hne
    simp only [clear, h]
  · match hf : nodes a with
    | some (.file _) => simp only [clear, hf, Function.update_of_ne hne, h]
    | some .unreachable => simp only [clear, hf, h]
    | some (.dir _) => simp only [clear, hf, h]
    | some (.symlink _) => simp only [clear, hf, h]
    | none => simp only [clear, hf, h]

theorem Settled.step (h : Settled dir rel opts made tr c)
    (hopts : ∀ i, (opts i).create || (opts i).createNew) (hs : OrderlyStep dir rel c t c') :
    ∃ made', Settled dir rel opts made' (tr ++ [t]) c' := by
  obtain ⟨hs, ho⟩ := hs
  obtain ⟨p', hs, hprogs⟩ := hs.program
  obtain ⟨progs', nodes'⟩ := c'
  obtain rfl : progs' = _ := hprogs
  obtain ⟨i, sec, r⟩ := t
  obtain ⟨entries, hd, he⟩ := h.entry
  have hst := h.stands i
  generalize hp : c.progs i = p at hs hst
  cases hst with
  | looking =>
    cases hs with
    | intro hk =>
      obtain ⟨rfl, hn⟩ := hk
      obtain rfl : nodes' = c.state := hn
      match hm : made with
      | none =>
        rw [child_absent hd (by rw [he]; rfl)]
        simp only [hopts i, ↓reduceIte]
        refine ⟨none, h.quiet hp (.inserting rfl) ?_ (fun _ => ho) ⟨entries, hd, he⟩⟩
        rintro ⟨⟩
      | some (k, a) =>
        have hki : k ≠ i := by
          rintro rfl
          have hmaker := h.maker k a rfl
          rw [hp] at hmaker
          cases hmaker
        rw [child_present hd (by rw [he]; rfl)]
        refine ⟨some (k, a), h.quiet hp ?_ ?_ ?_ ⟨entries, hd, he⟩⟩
        · dsimp only
          split_ifs with hnew htrunc
          · exact .refused rfl hki hnew
          · exact .clearing rfl (by simpa using hnew)
          · exact .opened rfl fun h => absurd h hnew
        · rintro ⟨⟩
        · dsimp only
          split_ifs <;> rintro ⟨⟩
  | inserting hm =>
    cases hs with
    | intro hk =>
      obtain ⟨fresh, -, hk⟩ := hk
      rw [insertFile, hd] at hk
      cases hk
      subst hm
      exact ⟨_, h.insert hp⟩
  | clearing hm hnew =>
    cases hs with
    | intro hk =>
      obtain rfl := hk
      refine ⟨made, h.quiet hp (.opened hm ?_) ?_ ?_ ⟨entries, clear_dir hd, he⟩⟩
      · simp [hnew]
      · rintro ⟨⟩
      · rintro ⟨⟩
  | opened hm hnew => cases hs
  | refused hm hk hnew => cases hs

theorem settled_of_run {nodes : Nodes} {entries : Entries}
    (hopts : ∀ i, (opts i).create || (opts i).createNew)
    (hd : nodes dir.node = some (.dir entries)) (he : entries[rel]? = none)
    (h : Run (OrderlyStep dir rel) (opening dir rel opts nodes) tr c) :
    ∃ made, Settled dir rel opts made tr c := by
  induction h with
  | refl =>
    refine ⟨none, ⟨entries, hd, he⟩, ?_, ?_, ?_, fun _ => .looking⟩
    · intro i a
      simp [Created]
    · rintro i a ⟨⟩
    · rintro i j ⟨⟩
  | tail _ hs ih =>
    obtain ⟨made, h⟩ := ih
    exact h.step hopts hs

def Pending (dir : MockDir) (rel : Name) (tr : List (Taken ι Answer)) (c : Calls ι) (i : ι) : Prop :=
  Inserting dir rel (c.progs i) ∨ ∃ a, Created dir rel tr i a

theorem locked_dir {nodes nodes' : Nodes} {sec : Section} {r : Answer sec} {d : Addr}
    (h : locked nodes sec r nodes') (hd : ∃ entries, nodes d = some (.dir entries)) :
    ∃ entries, nodes' d = some (.dir entries) := by
  obtain ⟨entries, hd⟩ := hd
  match sec with
  | .child _ _ _ =>
    obtain rfl := h.2
    exact ⟨entries, hd⟩
  | .clear a =>
    obtain rfl := h
    exact ⟨entries, clear_dir hd⟩
  | .insertFile d' rel' =>
    obtain ⟨fresh, hf, h⟩ := h
    unfold insertFile at h
    split at h
    · rename_i es hes
      cases h
      by_cases hdd : d = d'
      · subst hdd
        exact ⟨_, Function.update_self ..⟩
      · have hne : d ≠ fresh := by
          rintro rfl
          rw [hd] at hf
          cases hf
        rw [link, Function.update_of_ne hdd, Function.update_of_ne hne]
        exact ⟨entries, hd⟩
    · cases h
      exact ⟨entries, hd⟩

theorem Pending.step {i : ι} (h : Pending dir rel tr c i)
    (hd : ∃ entries, c.state dir.node = some (.dir entries)) (hs : Pool.Takes locked c t c') :
    Pending dir rel (tr ++ [t]) c' i := by
  rcases h with h | ⟨a, h⟩
  · obtain ⟨p', hs, hprogs⟩ := hs.program
    by_cases hi : i = t.call
    · -- the only section that is left to the call
      obtain ⟨j, sec, r⟩ := t
      obtain rfl : i = j := hi
      have hp : c.progs i = .op (.insertFile dir.node rel) .ret := h
      rw [hp] at hs
      cases hs with
      | intro hk =>
        obtain ⟨entries, hd⟩ := hd
        obtain ⟨fresh, -, hk⟩ := hk
        rw [insertFile, hd] at hk
        obtain ⟨rfl, -⟩ := Prod.mk.inj hk
        exact .inr ⟨fresh, created_concat.mpr (.inr rfl)⟩
    · refine .inl ?_
      rw [hprogs, Function.update_of_ne hi]
      exact h
  · exact .inr ⟨a, created_concat.mpr (.inl h)⟩

theorem Settled.collide (h : Settled dir rel opts made tr c)
    (hopts : ∀ i, (opts i).create || (opts i).createNew) (hs : Pool.Takes locked c t c')
    (ho : ¬Orderly dir rel c t.op) :
    ∃ i j, i ≠ j ∧ Pending dir rel (tr ++ [t]) c' i ∧ Pending dir rel (tr ++ [t]) c' j := by
  obtain ⟨p', hstep, hprogs⟩ := hs.program
  obtain ⟨i, sec, r⟩ := t
  match sec with
  | .clear _ => exact absurd trivial ho
  | .insertFile _ _ => exact absurd trivial ho
  | .child d rel' op =>
    obtain ⟨j, hj⟩ : ∃ j, Inserting dir rel (c.progs j) := by
      by_contra hno
      exact ho fun j hj => hno ⟨j, hj⟩
    obtain rfl : made = none := by
      have hst := h.stands j
      have hp : c.progs j = .op (.insertFile dir.node rel) .ret := hj
      rw [hp] at hst
      cases hst with
      | inserting hm => exact hm
    obtain ⟨entries, hd, he⟩ := h.entry
    have hst := h.stands i
    generalize hp : c.progs i = p at hstep hst
    cases hst with
    | looking =>
      have hij : i ≠ j := by
        rintro rfl
        have hq : c.progs i = .op (.insertFile dir.node rel) .ret := hj
        rw [hp] at hq
        cases hq
      cases hstep with
      | intro hk =>
        obtain ⟨rfl, -⟩ := hk
        refine ⟨i, j, hij, .inl ?_, .inl ?_⟩
        · rw [hprogs, Function.update_self, child_absent hd he]
          simp only [hopts i, ↓reduceIte]
          rfl
        · rw [hprogs, Function.update_of_ne hij.symm]
          exact hj
    | inserting _ => cases hstep
    | clearing _ _ => cases hstep
    | opened _ _ => cases hstep
    | refused _ _ _ => cases hstep

theorem orderly_or_pending {nodes : Nodes} {entries : Entries}
    (hopts : ∀ i, (opts i).create || (opts i).createNew)
    (hd : nodes dir.node = some (.dir entries)) (he : entries[rel]? = none)
    (h : Run (Pool.Takes locked) (opening dir rel opts nodes) tr c) :
    Run (OrderlyStep dir rel) (opening dir rel opts nodes) tr c ∨
      (∃ entries, c.state dir.node = some (.dir entries)) ∧
        ∃ i j, i ≠ j ∧ Pending dir rel tr c i ∧ Pending dir rel tr c j := by
  induction h with
  | refl => exact .inl .refl
  | @tail tr c c' t _ hs ih =>
    have hdir : (∃ entries, c.state dir.node = some (.dir entries)) →
        ∃ entries, c'.state dir.node = some (.dir entries) := by
      intro hd
      exact locked_dir hs.inv.1 hd
    rcases ih with hr | ⟨hd', i, j, hij, hi, hj⟩
    · obtain ⟨made, hset⟩ := settled_of_run hopts hd he hr
      obtain ⟨entries', hd', -⟩ := hset.entry
      by_cases ho : Orderly dir rel c t.op
      · exact .inl (hr.tail ⟨hs, ho⟩)
      · exact .inr ⟨hdir ⟨entries', hd'⟩, hset.collide hopts hs ho⟩
    · exact .inr ⟨hdir hd', i, j, hij, hi.step hd' hs, hj.step hd' hs⟩

theorem exclusive_iff_orderly (dir : MockDir) (rel : Name) (opts : ι → OpenOptions) (nodes : Nodes)
    (entries : Entries) (hopts : ∀ i, (opts i).create || (opts i).createNew)
    (hd : nodes dir.node = some (.dir entries)) (he : entries[rel]? = none)
    (tr : List (Taken ι Answer)) (c : Calls ι) (h : Run (Pool.Takes locked) (opening dir rel opts nodes) tr c) :
    (Run (OrderlyStep dir rel) (opening dir rel opts nodes) tr c → Exclusive dir rel opts tr c) ∧
    ((∀ i, ∃ r, c.progs i = .ret r) → Exclusive dir rel opts tr c →
      Run (OrderlyStep dir rel) (opening dir rel opts nodes) tr c) := by
  constructor
  · intro hr
    obtain ⟨made, hset⟩ := settled_of_run hopts hd he hr
    exact hset.exclusive
  · intro hall hex
    rcases orderly_or_pending hopts hd he h with hr | ⟨-, i, j, hij, hi, hj⟩
    · exact hr
    · have hcreated : ∀ i, Pending dir rel tr c i → ∃ a, Created dir rel tr i a := by
        rintro i (hi | hi)
        · obtain ⟨r, hr⟩ := hall i
          have hp : c.progs i = .op (.insertFile dir.node rel) .ret := hi
          rw [hr] at hp
          cases hp
        · exact hi
      obtain ⟨a, ha⟩ := hcreated i hi
      obtain ⟨b, hb⟩ := hcreated j hj
      exact absurd (hex.one i j a b ha hb) hij

theorem orderly_section {c₀ : Calls ι} (h : Run (OrderlyStep dir rel) c₀ tr c) (i : ι) (sec : Section)
    (r : Answer sec) (nodes : Nodes) {k : Answer sec → Prog Answer (Result Addr)}
    (hp : c.progs i = .op sec k) (hk : locked c.state sec r nodes) (ho : Orderly dir rel c sec) :
    Run (OrderlyStep dir rel) c₀ (tr ++ [⟨i, sec, r⟩]) ⟨Function.update c.progs i (k r), nodes⟩ :=
  .tail h ⟨.op hp hk, ho⟩

end Interleaved

def rivals : Calls Bool :=
  opening ⟨0⟩ [116] (fun _ => { write := true, createNew := true }) (World.root 0).nodes

theorem second_create_refused :
    ∃ tr c, Run (OrderlyStep ⟨0⟩ [116]) rivals tr c ∧ c.progs false = .ret (.ok 1) ∧
      c.progs true = .ret (.error (err .alreadyExists "open" [116])) ∧ edge c.state 0 [116] 1 := by
  have h₀ : Run (OrderlyStep ⟨0⟩ [116]) rivals [] rivals := .refl
  have h₁ := orderly_section h₀ false (.child 0 [116] "open") _ _ rfl ⟨rfl, rfl⟩ (by rintro j ⟨⟩)
  have h₂ := orderly_section h₁ false (.insertFile 0 [116]) _ _ rfl ⟨1, rfl, rfl⟩ trivial
  have h₃ := orderly_section h₂ true (.child 0 [116] "open") _ _ rfl ⟨rfl, rfl⟩
    (by rintro (_ | _) ⟨⟩)
  have hrun := h₃.mono fun c t c' hs => hs.1
  have hex := (exclusive_iff_orderly ⟨0⟩ [116] _ _ ∅ (fun _ => rfl) rfl rfl _ _ hrun).1 h₃
  exact ⟨_, _, h₃, rfl, rfl, hex.kept false 1 (.inr rfl)⟩

theorem both_create :
    ∃ tr c, Run (Pool.Takes locked) rivals tr c ∧ c.progs false = .ret (.ok 1) ∧ c.progs true = .ret (.ok 2) ∧
      edge c.state 0 [116] 2 ∧ ∀ d n, ¬edge c.state d n 1 := by
  have h₀ : Run (Pool.Takes locked) rivals [] rivals := .refl
  have h₁ := run_op h₀ false (.child 0 [116] "open") _ _ rfl ⟨rfl, rfl⟩
  have h₂ := run_op h₁ true (.child 0 [116] "open") _ _ rfl ⟨rfl, rfl⟩
  have h₃ := run_op h₂ false (.insertFile 0 [116]) _ _ rfl ⟨1, rfl, rfl⟩
  have h₄ := run_op h₃ true (.insertFile 0 [116]) _ _ rfl ⟨2, rfl, rfl⟩
  refine ⟨_, _, h₄, rfl, rfl, ⟨_, rfl, rfl⟩, ?_⟩
  intro d n he
  rcases edge_update_dir.mp he with ⟨-, hn⟩ | ⟨hd, he'⟩
  · rcases getElem?_insert.mp hn with ⟨-, ⟨⟩⟩ | ⟨hne, hn'⟩
    rcases getElem?_insert.mp hn' with ⟨rfl, -⟩ | ⟨-, hn''⟩
    · exact hne rfl
    · rw [Std.TreeMap.getElem?_emptyc] at hn''
      cases hn''
  · have hfirst := edge_update_other (by rintro es ⟨⟩) he'
    have hleaf : Node.Leaf (.file []) := trivial
    rcases edge_link hleaf rfl hfirst with hroot | ⟨rfl, -⟩
    · exact root_edge hroot
    · exact hd rfl

end Rustils.MockFs
