import Rustils.Process.JobAccount

namespace Rustils.Process.Grouped.Jobs

open Platform Lib.Program

def Item.Fits (handed : List Handed) : Item → Prop
  | .child c => ∀ j, c.job = some j → ⟨j, c.process, true⟩ ∈ handed
  | .group process j => ⟨j, process, false⟩ ∈ handed
  | .handle j => ∃ process, ⟨j, process, true⟩ ∈ handed

structure Tidy (d : Desk) (s : Host) : Prop where
  account : Account d.handed d.killed s
  held : ∀ j, j ∈ s.held ↔ j ∈ d.items.filterMap Item.job
  nodup : (d.items.filterMap Item.job).Nodup
  items : ∀ item ∈ d.items, item.Fits d.handed
  asked : ∀ j ∈ s.askedJobs, ∃ e ∈ d.handed, e.job = j

section Desk

variable {d : Desk} {s s₀ : Host} {item item' : Item} {i : ℕ} {j : JobId} {handed handed' : List Handed}

theorem Item.Fits.mono (h : item.Fits handed) (hsub : handed ⊆ handed') : item.Fits handed' := by
  cases item with
  | child c => exact fun j hj => hsub (h j hj)
  | group process j => exact hsub h
  | handle j => exact h.imp fun _ => @hsub _

theorem Item.Fits.out (h : item.Fits handed) (hj : item.job = some j) : ∃ e ∈ handed, e.job = j := by
  cases item with
  | child c => exact ⟨_, h j hj, rfl⟩
  | group process j' =>
    cases hj
    exact ⟨_, h, rfl⟩
  | handle j' =>
    cases hj
    obtain ⟨process, h⟩ := h
    exact ⟨_, h, rfl⟩

theorem mem_owned (item : Item) (j : JobId) : .job j ∈ item.owned ↔ item.job = some j := by
  cases item with
  | child c =>
    have hpipes : Owned.job j ∉ c.pipes.filterMap fun h => h.map Owned.plain := job_notMem_plain c.pipes j
    simp only [Item.owned, WindowsChild.owned, Item.job, List.cons_append, List.mem_cons, reduceCtorEq, false_or,
      List.mem_append, hpipes, or_false, Option.mem_toList, Option.map_eq_some_iff, Owned.job.injEq]
    exact ⟨fun ⟨j', hj', heq⟩ => heq ▸ hj', fun hj => ⟨j, hj, rfl⟩⟩
  | group process j' => simp [Item.owned, Item.job, eq_comm]
  | handle j' => simp [Item.owned, Item.job, eq_comm]

theorem items_split (h : d.items[i]? = some item) :
    ∃ before after, d.items = before ++ item :: after ∧ d.items.eraseIdx i = before ++ after ∧
      ∀ item', d.items.set i item' = before ++ item' :: after := by
  obtain ⟨hi, rfl⟩ := List.getElem?_eq_some_iff.mp h
  refine ⟨d.items.take i, d.items.drop (i + 1), ?_, List.eraseIdx_eq_take_drop_succ .., fun item' => ?_⟩
  · rw [List.getElem_cons_drop, List.take_append_drop]
  · exact List.set_eq_take_append_cons_drop.trans (if_pos hi)

theorem Sound.ask (h : Sound s) (procs : Set Pid) (jobs : Set JobId) :
    Sound { s with askedProcs := s.askedProcs ∪ procs, askedJobs := s.askedJobs ∪ jobs } where
  known := h.known
  held := h.held
  given := h.given
  old := h.old
  members := h.members
  closed := h.closed
  ended c hc := by
    obtain ⟨hdead, hran | hasked | ⟨j, hj, hgroup⟩⟩ := h.ended c hc
    · exact ⟨hdead, .inl hran⟩
    · exact ⟨hdead, .inr (.inl (.inl hasked))⟩
    · exact ⟨hdead, .inr (.inr ⟨j, .inl hj, hgroup⟩)⟩

theorem Tidy.asking (h : Tidy d s) (procs : Set Pid) {jobs : Set JobId} (hjobs : ∀ j ∈ jobs, j ∈ s.held) :
    Tidy d { s with askedProcs := s.askedProcs ∪ procs, askedJobs := s.askedJobs ∪ jobs } := by
  refine ⟨⟨h.account.sound.ask procs jobs, h.account.groups, h.account.dead⟩, h.held, h.nodup, h.items, fun j hj => ?_⟩
  rcases hj with hj | hj
  · exact h.asked j hj
  · obtain ⟨item, hitem, hjob⟩ := List.mem_filterMap.mp ((h.held j).mp (hjobs j hj))
    exact (h.items item hitem).out hjob

theorem Tidy.job_held (h : Tidy d s) (hi : d.items[i]? = some item) (hj : item.job = some j) : j ∈ s.held :=
  (h.held j).mpr (List.mem_filterMap.mpr ⟨item, List.mem_of_getElem? hi, hj⟩)

theorem Tidy.ask (h : Tidy d s) (op : Op) : Tidy d (ask d s op) := by
  have hjobs (i : ℕ) : ∀ j ∈ {j | ∃ item, d.items[i]? = some item ∧ item.job = some j}, j ∈ s.held := by
    rintro j ⟨item, hi, hj⟩
    exact h.job_held hi hj
  unfold Jobs.ask
  split
  · simpa using h.asking ∅ (hjobs _)
  · simpa using h.asking ∅ (hjobs _)
  · simpa using h.asking ∅ (hjobs _)
  · simpa using h.asking _ (fun j (hj : j ∈ (∅ : Set JobId)) => hj.elim)
  · exact h

theorem Tidy.kept (h : Tidy d s₀) (hk : Kept d.handed d.killed s₀ s₀.held s) : Tidy d s :=
  ⟨hk.account, fun j => hk.held ▸ h.held j, h.nodup, h.items, fun j hj => h.asked j (hk.jobs ▸ hj)⟩

theorem Tidy.start (h : Tidy d s) : Kept d.handed d.killed s s.held s := ⟨h.account, rfl, subset_rfl, rfl, rfl⟩

theorem Tidy.held_made (h : Tidy d s) : s.held ⊆ s.made := h.account.sound.held

theorem Tidy.hands {spawned : Bool} {process : Pid} {job : Option JobId} (h : Tidy d s₀)
    (hh : Hands d.handed d.killed s₀ s₀.held spawned process job s) (hjob : item.job = job)
    (hfits : ∀ j, job = some j → item.Fits (⟨j, process, spawned⟩ :: d.handed)) (hnone : job = none → item.Fits d.handed) :
    Tidy { d with items := item :: d.items, handed := (job.map fun j => ⟨j, process, spawned⟩).toList ++ d.handed } s := by
  cases job with
  | none =>
    have ht : Tidy d s := h.kept hh
    refine ⟨ht.account, fun j => ?_, ?_, ?_, ht.asked⟩
    · rw [List.filterMap_cons_none hjob]
      exact ht.held j
    · rw [List.filterMap_cons_none hjob]
      exact ht.nodup
    · rintro item' (_ | ⟨_, hitem'⟩)
      · exact hnone rfl
      · exact ht.items item' hitem'
  | some j =>
    obtain ⟨hk, hfresh⟩ := hh
    have hnew : j ∉ d.items.filterMap Item.job := fun hj => hfresh (h.held_made ((h.held j).mpr hj))
    refine ⟨hk.account, fun j' => ?_, ?_, ?_, fun j' hj' => ?_⟩
    · rw [List.filterMap_cons_some hjob, hk.held, Set.mem_insert_iff, List.mem_cons, h.held j']
    · rw [List.filterMap_cons_some hjob]
      exact List.nodup_cons.mpr ⟨hnew, h.nodup⟩
    · rintro item' (_ | ⟨_, hitem'⟩)
      · exact hfits j rfl
      · exact (h.items item' hitem').mono (List.subset_cons_self ..)
    · obtain ⟨e, he, hej⟩ := h.asked j' (hk.jobs ▸ hj')
      exact ⟨e, .tail _ he, hej⟩

theorem Tidy.drop (h : Tidy d s₀) (hi : d.items[i]? = some item)
    (hk : Kept d.handed d.killed s₀ (s₀.held \ {j | .job j ∈ item.owned}) s) :
    Tidy { d with items := d.items.eraseIdx i } s := by
  obtain ⟨before, after, hitems, herase, -⟩ := items_split hi
  have hperm : (d.items.filterMap Item.job).Perm (item.job.toList ++ (before ++ after).filterMap Item.job) := by
    rw [hitems, List.filterMap_append, List.filterMap_append, List.filterMap_cons]
    cases item.job with
    | none => exact .refl _
    | some j => exact List.perm_middle
  have hnodup := hperm.nodup_iff.mp h.nodup
  refine ⟨hk.account, fun j => ?_, ?_, fun item' hitem' => ?_, fun j hj => h.asked j (hk.jobs ▸ hj)⟩
  · have hiff : j ∈ s₀.held ↔ j ∈ item.job.toList ∨ j ∈ (before ++ after).filterMap Item.job := by
      rw [h.held j, hperm.mem_iff, List.mem_append]
    simp only [herase, hk.held, Set.mem_sdiff, Set.mem_ofPred_eq, mem_owned, hiff, Option.mem_toList]
    constructor
    · exact fun ⟨hmem, hne⟩ => hmem.resolve_left hne
    · exact fun hmem => ⟨.inr hmem, fun hj => (List.nodup_append.mp hnodup).2.2 j (Option.mem_toList.mpr hj) j hmem rfl⟩
  · rw [herase]
    exact (List.nodup_append.mp hnodup).2.1
  · exact h.items item' (List.mem_of_mem_eraseIdx hitem')

theorem Tidy.exchange {items' : List Item} (h : Tidy d s)
    (hperm : (items'.filterMap Item.job).Perm (d.items.filterMap Item.job)) (hfits : ∀ item ∈ items', item.Fits d.handed) :
    Tidy { d with items := items' } s :=
  ⟨h.account, fun j => (h.held j).trans hperm.mem_iff.symm, hperm.nodup_iff.mpr h.nodup, hfits, h.asked⟩

theorem Tidy.stash {c : WindowsChild} {status : Option Int32} (h : Tidy d s) (hi : d.items[i]? = some (.child c)) :
    Tidy { d with items := d.items.set i (.child { c with reaped := status }) } s := by
  obtain ⟨before, after, hitems, -, hset⟩ := items_split hi
  rw [hset]
  refine h.exchange ?_ fun item hitem => ?_
  · rw [hitems, List.filterMap_append, List.filterMap_append, List.filterMap_cons, List.filterMap_cons]
    exact .refl _
  · have hold (item : Item) (hmem : item ∈ before ++ .child c :: after) : item.Fits d.handed :=
      h.items item (hitems ▸ hmem)
    rcases List.mem_append.mp hitem with hmem | hmem
    · exact hold item (List.mem_append_left _ hmem)
    · rcases List.mem_cons.mp hmem with rfl | hmem
      · exact hold (.child c) (List.mem_append_right _ List.mem_cons_self)
      · exact hold item (List.mem_append_right _ (.tail _ hmem))

theorem Tidy.disown {c : WindowsChild} (h : Tidy d s) (hi : d.items[i]? = some (.child c)) :
    Tidy { d with items := (c.disown.1.map Item.handle).toList ++ d.items.set i (.child c.disown.2) } s := by
  obtain ⟨before, after, hitems, -, hset⟩ := items_split hi
  have hold (item : Item) (hmem : item ∈ before ++ .child c :: after) : item.Fits d.handed := h.items item (hitems ▸ hmem)
  rw [hset]
  refine h.exchange ?_ fun item hitem => ?_
  · rw [hitems, List.filterMap_append, List.filterMap_append, List.filterMap_append, List.filterMap_cons,
      List.filterMap_cons]
    cases hjob : c.job with
    | none => simp [WindowsChild.disown, Item.job, hjob]
    | some j =>
      simp only [WindowsChild.disown, Item.job, hjob, Option.map_some, Option.toList_some, List.filterMap_cons,
        List.filterMap_nil, List.singleton_append]
      exact List.perm_middle.symm
  · rcases List.mem_append.mp hitem with hmem | hmem
    · obtain ⟨j, hj, rfl⟩ := Option.map_eq_some_iff.mp (Option.mem_toList.mp hmem)
      exact ⟨c.process, hold (.child c) (List.mem_append_right _ List.mem_cons_self) j hj⟩
    · rcases List.mem_append.mp hmem with hmem | hmem
      · exact hold item (List.mem_append_left _ hmem)
      · rcases List.mem_cons.mp hmem with rfl | hmem
        · exact nofun
        · exact hold item (List.mem_append_right _ (.tail _ hmem))

theorem ensures_killTree {killed : List JobId} {held : Set JobId} {job : Option JobId} {sig : Signal}
    (h : Kept handed killed s₀ held s) (hdoomed : sig = .kill → ∀ j, job = some j → Doomed s₀ j)
    (hgiven : ∀ j, job = some j → ∃ e ∈ handed, e.job = j) :
    Ensures handed killed (fun r s => Kept handed killed s₀ held s ∧
      (r = .ok () → Kept handed (job.toList ++ killed) s₀ held s)) (killTree job sig) s := by
  unfold killTree
  split_ifs with hsig
  · exact ⟨h, nofun⟩
  cases job with
  | none => exact ⟨h, nofun⟩
  | some j =>
    have hguard (s : Host) (hs : Kept handed killed s₀ held s) : Guard s (.terminateJobObject j) :=
      hs.doomed (hdoomed (not_not.mp hsig) j rfl)
    refine ensures_op stable_kept h (fun s hs => ⟨hs.account, hguard s hs⟩) ?_
    rintro s₁ (code | ⟨⟩) s₂ hs₁ ha
    · cases ha
      exact ⟨hs₁, nofun⟩
    · have hkept : Kept handed killed s₀ s₂.held s₂ := hs₁.answer (hguard s₁ hs₁) ha
      cases ha
      have hheld : (s₁.after (s₁.kernel.kill j)).held = held := hs₁.held
      rw [hheld] at hkept
      refine ⟨hkept, fun _ => ⟨⟨hkept.account.sound, hkept.account.groups, ?_⟩, hkept.held, hkept.made, hkept.procs, hkept.jobs⟩⟩
      rintro j' (_ | ⟨_, hj'⟩)
      · obtain ⟨e, he, rfl⟩ := hgiven j rfl
        obtain ⟨g, hg, -⟩ := hkept.account.groups e he
        refine ⟨g, hg, fun c hc => ?_⟩
        obtain ⟨p, hp⟩ := Option.ne_none_iff_exists'.mp (hc.old (hkept.account.sound.old _ g hg))
        have hin := (hkept.account.sound.members _ (hkept.account.sound.given _ g hg).1 c p hp).mpr ⟨g, hg, hc⟩
        exact ⟨p, hp, kill_dead hp hin⟩
      · exact hkept.account.dead j' hj'

theorem still_procTryWait (process : Pid) : Everywhere (fun o _ => Still o) (procTryWait process) := by
  refine ⟨trivial, ?_⟩
  rintro (_ | code)
  · refine ⟨trivial, ?_⟩
    rintro (code | code) <;> trivial
  · trivial

theorem still_procWait (process : Pid) : Everywhere (fun o _ => Still o) (procWait process) := by
  refine ⟨trivial, ?_⟩
  rintro (_ | code)
  · refine ⟨trivial, ?_⟩
    rintro (code | code) <;> trivial
  · trivial

theorem ensures_killSingle {killed : List JobId} {held : Set JobId} {process : Pid} {sig : Signal}
    (h : Kept handed killed s₀ held s) (hasked : sig = .kill → process ∈ s₀.askedProcs) :
    Ensures handed killed (fun _ => Kept handed killed s₀ held) (killSingle process sig) s := by
  unfold killSingle
  split_ifs with hsig
  · exact h
  have hguard (s : Host) (hs : Kept handed killed s₀ held s) : Guard s (.call (.terminateProcess process)) :=
    .inl (hs.procs ▸ hasked (not_not.mp hsig))
  refine ensures_op stable_kept h (fun s hs => ⟨hs.account, hguard s hs⟩) fun s₁ r s₂ hs₁ ha => ?_
  have hkept : Kept handed killed s₀ s₂.held s₂ := hs₁.answer (hguard s₁ hs₁) ha
  have hheld : s₂.held = held := by
    obtain ⟨k', -, -, rfl⟩ := ha
    exact hs₁.held
  rw [hheld] at hkept
  rcases r with code | ⟨⟩
  · exact hkept
  · exact hkept

theorem ensures_drop (h : Kept d.handed d.killed s₀ s₀.held s) (htidy : Tidy d s₀) (hi : d.items[i]? = some item)
    (hasked : ∀ j, item.job = some j → j ∈ s₀.askedJobs) :
    Ensures d.handed d.killed (fun _ s => Tidy { d with items := d.items.eraseIdx i } s) (closeAll item.owned) s := by
  have hdoomed (j : JobId) (hj : .job j ∈ item.owned) : Doomed s₀ j := by
    rw [mem_owned] at hj
    exact ⟨htidy.held_made (htidy.job_held hi hj), hasked j hj⟩
  exact (ensures_closeAll h hdoomed).mono fun _ s hs => htidy.drop hi hs

theorem ensures_tryWait {killed : List JobId} {held : Set JobId} (h : Kept handed killed s₀ held s) (c : WindowsChild) :
    Ensures handed killed (fun r s => Kept handed killed s₀ held s ∧ ∃ status, r.2 = { c with reaped := status })
      c.tryWait s := by
  unfold WindowsChild.tryWait
  cases hreaped : c.reaped with
  | some status => exact ⟨h, c.reaped, rfl⟩
  | none =>
    refine Safe.bind (ensures_quiet stable_kept h (fun s hs => hs.account) (still_procTryWait c.process)) ?_
    rintro (e | status) s' hs'
    · exact ⟨hs', c.reaped, rfl⟩
    · exact ⟨hs', status, rfl⟩

theorem ensures_wait {c : WindowsChild} (h : Kept d.handed d.killed s₀ s₀.held s) (htidy : Tidy d s₀)
    (hi : d.items[i]? = some (.child c)) (hasked : ∀ j, c.job = some j → j ∈ s₀.askedJobs) :
    Ensures d.handed d.killed (fun _ s => Tidy { d with items := d.items.eraseIdx i } s) c.wait s := by
  have hrest (status : Result Int32) {s' : Host} (hs' : Kept d.handed d.killed s₀ s₀.held s') :
      Ensures d.handed d.killed (fun _ s => Tidy { d with items := d.items.eraseIdx i } s)
        (closeAll c.owned >>= fun _ => pure status) s' := by
    have hdrop : Ensures d.handed d.killed (fun _ s => Tidy { d with items := d.items.eraseIdx i } s)
        (closeAll (Item.child c).owned) s' := ensures_drop hs' htidy hi hasked
    exact Safe.bind hdrop fun _ s'' hs'' => hs''
  unfold WindowsChild.wait
  cases c.reaped with
  | some status => exact hrest _ h
  | none =>
    have hwait := ensures_quiet stable_kept h (fun s hs => hs.account) (still_procWait c.process)
    exact Safe.bind hwait fun status s' hs' => hrest status hs'

theorem performs_spawn (ht : Tidy d s) (cmd : Command) (line : Result WinFs.Wide) :
    Ensures d.handed d.killed (fun d' s' => Tidy d' s') (perform d (.spawn cmd line)) s := by
  refine Safe.bind (ensures_spawn cmd line ht.start ht.held_made) ?_
  rintro (e | c) s' ⟨herr, hok⟩
  · exact ht.kept (herr e rfl)
  · refine ht.hands (hok c rfl) rfl (fun j hj j' hj' => ?_) fun hnone j hj => ?_
    · cases hj.symm.trans hj'
      exact List.mem_cons_self
    · cases hnone.symm.trans hj

theorem performs_adopt (ht : Tidy d s) (pid : Pid) :
    Ensures d.handed d.killed (fun d' s' => Tidy d' s') (perform d (.adopt pid)) s := by
  refine Safe.bind (ensures_adopt pid ht.start ht.held_made) ?_
  rintro (e | ⟨process, j⟩) s' ⟨herr, hok⟩
  · exact ht.kept (herr e rfl)
  · refine ht.hands (hok _ rfl) rfl (fun j' hj' => ?_) nofun
    cases hj'
    exact List.mem_cons_self

theorem performs_killTree (ht : Tidy d s) (i : ℕ) (sig : Signal)
    (hdoomed : ∀ item, d.items[i]? = some item → sig = .kill → ∀ j, item.job = some j → Doomed s j) :
    Ensures d.handed d.killed (fun d' s' => Tidy d' s') (perform d (.killTree i sig)) s := by
  have hgiven {item : Item} (hi : d.items[i]? = some item) (j : JobId) (hj : item.job = some j) :
      ∃ e ∈ d.handed, e.job = j := (ht.items item (List.mem_of_getElem? hi)).out hj
  have htidy {killed : List JobId} {s' : Host} (hk : Kept d.handed killed s s.held s') : Tidy { d with killed } s' :=
    ⟨hk.account, fun j => hk.held ▸ ht.held j, ht.nodup, ht.items, fun j hj => ht.asked j (hk.jobs ▸ hj)⟩
  rw [perform]
  split
  · rename_i c hi
    refine Safe.bind (ensures_killTree ht.start (hdoomed _ hi) (hgiven hi)) ?_
    rintro (e | ⟨⟩) s' ⟨hkept, hok⟩
    · exact ht.kept hkept
    · exact htidy (hok rfl)
  · rename_i process job hi
    refine Safe.bind (ensures_killTree ht.start (hdoomed _ hi) (hgiven hi)) ?_
    rintro (e | ⟨⟩) s' ⟨hkept, hok⟩
    · exact ht.kept hkept
    · exact htidy (hok rfl)
  · exact ht

theorem performs_killSingle (ht : Tidy d (ask d s (.killSingle i sig))) :
    Ensures d.handed d.killed (fun d' s' => Tidy d' s') (perform d (.killSingle i sig)) (ask d s (.killSingle i sig)) := by
  rw [perform]
  split
  · rename_i c hi
    refine Safe.bind (ensures_killSingle ht.start fun hkill => ?_) fun _ s' hs' => ht.kept hs'
    subst hkill
    exact .inr (.inl ⟨c, hi, rfl⟩)
  · rename_i process job hi
    refine Safe.bind (ensures_killSingle ht.start fun hkill => ?_) fun _ s' hs' => ht.kept hs'
    subst hkill
    exact .inr (.inr ⟨job, hi⟩)
  · exact ht

theorem ensures_perform (h : Tidy d s) (op : Op) :
    Ensures d.handed d.killed (fun d' s' => Tidy d' s') (perform d op) (ask d s op) := by
  have ht : Tidy d (ask d s op) := h.ask op
  cases op with
  | spawn cmd line => exact performs_spawn ht cmd line
  | adopt pid => exact performs_adopt ht pid
  | killTree i sig =>
    refine performs_killTree ht i sig fun item hi hkill j hj => ⟨ht.held_made (ht.job_held hi hj), ?_⟩
    subst hkill
    exact .inr ⟨item, hi, hj⟩
  | killSingle i sig => exact performs_killSingle ht
  | tryWait i =>
    rw [perform]
    split
    · rename_i c hi
      refine Safe.bind (ensures_tryWait ht.start c) ?_
      rintro ⟨status, c'⟩ s' ⟨hkept, status', rfl⟩
      exact (ht.kept hkept).stash hi
    · exact ht
  | wait i =>
    rw [perform]
    split
    · rename_i c hi
      exact Safe.bind (ensures_wait ht.start ht hi fun j hj => .inr ⟨.child c, hi, hj⟩) fun _ s' hs' => hs'
    · exact ht
  | disown i =>
    rw [perform]
    split
    · rename_i c hi
      exact ht.disown hi
    · exact ht
  | drop i =>
    rw [perform]
    split
    · rename_i item hi
      exact Safe.bind (ensures_drop ht.start ht hi fun j hj => .inr ⟨item, hi, hj⟩) fun _ s' hs' => hs'
    · exact ht

theorem tidy_start (k : Kernel) : Tidy (start k).1 (start k).2 where
  account :=
    { sound :=
        { known := fun _ hj => hj.elim
          held := Set.empty_subset _
          given := fun _ _ hg => nomatch hg
          old := fun _ _ hg => nomatch hg
          members := fun _ hj => hj.elim
          closed := fun _ hj => hj.elim
          ended := fun _ hc => hc.elim }
      groups := fun _ he => nomatch he
      dead := fun _ hj => nomatch hj }
  held _ := ⟨fun hj => hj.elim, fun hj => nomatch hj⟩
  nodup := .nil
  items _ h := nomatch h
  asked _ h := h.elim

theorem Tidy.step {σ σ' : Desk × Host} (h : Tidy σ.1 σ.2) (hs : Step σ σ') : Tidy σ'.1 σ'.2 := by
  cases hs with
  | elsewhere he => exact h.kept (h.start.elsewhere he)
  | perform op hr => exact (ensures_perform h op).reaches hr

theorem Tidy.amid {σ : Desk × Host} (h : Tidy σ.1 σ.2) (ha : Amid σ s) : Account σ.1.handed σ.1.killed s := by
  rcases ha with rfl | ⟨op, o, rest, hr⟩
  · exact h.account
  · exact ((ensures_perform h op).reaches hr).1

theorem Quits.account {killed : List JobId} (hq : Quits s₀ s) (h : Account handed killed s₀) :
    Account handed killed s ∧ s.held = ∅ := by
  induction hq with
  | done hheld => exact ⟨h, hheld⟩
  | @close s s₁ s' j hj hclose _ ih =>
    obtain ⟨s₂, hm, ha⟩ := hclose
    have hsound := h.sound.ask ∅ {j}
    rw [Set.union_empty] at hsound
    have hasked : Account handed killed { s with askedJobs := s.askedJobs ∪ {j} } := ⟨hsound, h.groups, h.dead⟩
    have hdoomed : j ∈ s.made ∧ j ∈ s.askedJobs ∪ {j} := ⟨h.sound.held hj, .inr rfl⟩
    have hI : Stable Elsewhere fun s' => Account handed killed s' ∧ j ∈ s'.made ∧ j ∈ s'.askedJobs := by
      intro s₃ s₄ h₃ he
      refine ⟨h₃.1.elsewhere he, ?_⟩
      rw [he.same]
      exact h₃.2
    obtain ⟨h₂, hj₂, hj₂'⟩ := hI.later ⟨hasked, hdoomed⟩ hm
    exact ih (h₂.answer (by exact ⟨hj₂, .inl hj₂'⟩) ha)

def Over (d : Desk) (e : Handed) : Prop := e.job ∈ d.killed ∨ ∀ item ∈ d.items, item.job ≠ some e.job

def Gone (s : Host) (e : Handed) : Prop :=
  ∃ g, s.group e.job = some g ∧ g.root = e.root ∧ (∀ c, Grown s.kernel g c → Dead s.kernel c) ∧
    (e.spawned = true → ∀ c, Descends s.kernel e.root c → Dead s.kernel c)

structure Accounted (d : Desk) (s : Host) : Prop where
  items : ∀ item ∈ d.items, item.Fits d.handed
  gone : ∀ e ∈ d.handed, Over d e → Gone s e
  ended : ∀ c ∈ s.ended, Dead s.kernel c ∧ (NeverRan s.kernel c ∨ c ∈ s.askedProcs ∨
    ∃ e ∈ d.handed, e.job ∈ s.askedJobs ∧ ∃ g, s.group e.job = some g ∧ g.root = e.root ∧ Grown s.kernel g c)
  quits : ∀ s₁ s', Amid (d, s) s₁ → Quits s₁ s' →
    (∀ e ∈ d.handed, Gone s' e) ∧ ∀ c ∈ s'.ended, Dead s'.kernel c ∧ Reason s' c

theorem grown_of_descends {k : Kernel} {root c : Pid} (h : Descends k root c) : Grown k ⟨root, ∅⟩ c := by
  induction h with
  | self => exact .root
  | child _ hc ih => exact .child ih hc id

theorem Account.gone {killed : List JobId} {e : Handed} (h : Account handed killed s) (he : e ∈ handed)
    (hdead : ∀ g, s.group e.job = some g → ∀ c, Grown s.kernel g c → Dead s.kernel c) : Gone s e := by
  obtain ⟨g, hg, hroot, hcovers⟩ := h.groups e he
  refine ⟨g, hg, hroot, hdead g hg, fun hspawned c hc => hdead g hg c (hcovers hspawned c ?_)⟩
  rw [hroot]
  exact grown_of_descends hc

theorem Account.closed {killed : List JobId} {g : Group} (h : Account handed killed s) (hclosed : j ∉ s.held)
    (hg : s.group j = some g) {c : Pid} (hc : Grown s.kernel g c) : Dead s.kernel c := by
  have hj : j ∈ s.made := (h.sound.given j g hg).1
  obtain ⟨p, hp⟩ := Option.ne_none_iff_exists'.mp (hc.old (h.sound.old j g hg))
  exact ⟨p, hp, h.sound.closed j hj hclosed c p hp ((h.sound.members j hj c p hp).mpr ⟨g, hg, hc⟩)⟩

theorem Tidy.accounted (h : Tidy d s) : Accounted d s := by
  refine ⟨h.items, fun e he hover => h.account.gone he fun g hg c hc => ?_, fun c hc => ?_, fun s₁ s' hs₁ hquits => ?_⟩
  · rcases hover with hkilled | hnobody
    · obtain ⟨g', hg', hdead⟩ := h.account.dead _ hkilled
      cases hg.symm.trans hg'
      exact hdead c hc
    · refine h.account.closed (fun hheld => ?_) hg hc
      obtain ⟨item, hitem, hjob⟩ := List.mem_filterMap.mp ((h.held _).mp hheld)
      exact hnobody item hitem hjob
  · obtain ⟨hdead, hran | hasked | ⟨j, hj, g, hg, hgrown⟩⟩ := h.account.sound.ended c hc
    · exact ⟨hdead, .inl hran⟩
    · exact ⟨hdead, .inr (.inl hasked)⟩
    · obtain ⟨e, he, rfl⟩ := h.asked j hj
      obtain ⟨g', hg', hroot, -⟩ := h.account.groups e he
      cases hg.symm.trans hg'
      exact ⟨hdead, .inr (.inr ⟨e, he, hj, g, hg, hroot, hgrown⟩)⟩
  · obtain ⟨hacc, hheld⟩ := hquits.account (h.amid hs₁)
    refine ⟨fun e he => hacc.gone he fun g hg c hc => hacc.closed ?_ hg hc, hacc.sound.ended⟩
    rw [hheld]
    exact id

theorem jobs_accounted {k : Kernel} (h : Relation.ReflTransGen Step (start k) (d, s)) : Accounted d s := by
  have htidy : ∀ σ, Relation.ReflTransGen Step (start k) σ → Tidy σ.1 σ.2 := by
    intro σ hσ
    induction hσ with
    | refl => exact tidy_start k
    | tail _ hs ih => exact ih.step hs
  exact (htidy (d, s) h).accounted

end Desk

def grouped : Command := ⟨.newGroup, false, [], .inherit, fun _ => .inherit⟩

def groupedHostCalls : Transcript Reply :=
  [⟨.call (.createProcessW ⟨[0x61, 0], false, creationFlags none true false, none, [0], none⟩),
      .ok (⟨some 7, some 7, 7⟩ : ProcessInformation)⟩,
    ⟨.call .createJobObjectW, .ok (1 : JobId)⟩,
    ⟨.call (.setInformationJobObject 1 JOB_OBJECT_LIMIT_KILL_ON_JOB_CLOSE), .ok ()⟩,
    ⟨.call (.assignProcessToJobObject 1 7), .ok ()⟩, ⟨.call (.resumeThread 7), .ok ()⟩,
    ⟨.call (.closeHandle (.thread 7)), ()⟩]

def child : WindowsChild := ⟨7, some 1, 7, none, [none, none, none]⟩

theorem jobs_accounted_disowned : ∃ s, Gone s ⟨1, 7, true⟩ := by
  have hruns : Runs (perform ⟨[], [], []⟩ (.spawn grouped (.ok [0x61]))) groupedHostCalls
      ⟨[.child child], [⟨1, 7, true⟩], []⟩ := .op _ (.op _ (.op _ (.op _ (.op _ (.op _ (.ret _))))))
  obtain ⟨s₁, hs₁⟩ : ∃ s₁, Follows env (start idle).2 groupedHostCalls s₁ := by
    refine ⟨_, .cons ⟨_, .refl, _, ⟨rfl, .inr rfl, ⟨rfl, fun c hc => (by cases hc)⟩, [], rfl⟩, fun _ _ _ _ hj => hj.elim, rfl⟩
      (.cons ⟨_, .refl, _, ⟨rfl, rfl⟩, fun c p hp hj => ?_, rfl⟩
        (.cons ⟨_, .refl, _, ⟨Option.some_ne_none (⟨false, false⟩ : Job), rfl⟩, trivial, rfl⟩
          (.cons ⟨_, .refl, _, ⟨_, rfl, rfl⟩, trivial, rfl⟩
            (.cons ⟨_, .refl, _, ⟨_, rfl, rfl⟩, trivial, rfl⟩ (.cons ⟨_, .refl, _, rfl, trivial, rfl⟩ (.nil _))))))⟩
    rcases setProc_cases hp with ⟨rfl, rfl⟩ | ⟨-, hp⟩
    · cases hj
    · cases hp
  have hspawn := Step.perform (.spawn grouped (.ok [0x61])) (reaches_ret_iff.mpr ⟨_, hruns, hs₁⟩)
  have hdisown : Step (⟨[.child child], [⟨1, 7, true⟩], []⟩, s₁)
      (⟨[.handle 1, .child { child with job := none }], [⟨1, 7, true⟩], []⟩, s₁) := .perform (.disown 0) .refl
  have hruns' : Runs (perform ⟨[.handle 1, .child { child with job := none }], [⟨1, 7, true⟩], []⟩ (.drop 0))
      [⟨.call (.closeHandle (.job 1)), ()⟩] ⟨[.child { child with job := none }], [⟨1, 7, true⟩], []⟩ := .op _ (.ret _)
  obtain ⟨s₂, hs₂⟩ : ∃ s₂, Follows env (ask ⟨[.handle 1, .child { child with job := none }], [⟨1, 7, true⟩], []⟩ s₁
      (.drop 0)) [⟨.call (.closeHandle (.job 1)), ()⟩] s₂ := ⟨_, .cons ⟨_, .refl, _, rfl, trivial, rfl⟩ (.nil _)⟩
  have hdrop := Step.perform (.drop 0) (reaches_ret_iff.mpr ⟨_, hruns', hs₂⟩)
  have hrun := ((Relation.ReflTransGen.single hspawn).tail hdisown).tail hdrop
  refine ⟨s₂, (jobs_accounted hrun).gone _ List.mem_cons_self (.inr ?_)⟩
  rintro item (_ | ⟨_, _ | ⟨_, _⟩⟩)
  exact nofun

end Rustils.Process.Grouped.Jobs
