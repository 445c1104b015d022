import Rustils.WinFs.Placeholder

namespace Rustils.WinFs.Nt

open Platform Platform.Errmap Lib.Program Lib.Fuel

variable {dosError : NtStatus → UInt32} {dir : DirId} {src dst : Wide} {replace : Bool}
  {naming : Naming} {t t' : Tree} {p q : Place} {tr : Transcript Answer}

/-- The buffer is sized by a 32-bit count of bytes and written in full. -/
def setName (dosError : NtStatus → UInt32) (dir : DirId) (dst : Wide) (replace : Bool) (handle : Handle) :
    Prog Answer (Exec PlatformError Unit) :=
  let name := toWideNtComponent dst
  let nameBytes := name.length * 2 % UInt32.size
  if nameBytes < name.length * 2 then .op (.closeHandle handle) fun _ => .ret panicked
  else
    .op (.ntSetInformationFile handle ⟨replace, dir, name⟩) fun
      | .error status =>
        .op (.closeHandle handle) fun _ => .ret (fail (ntErr dosError status "NtSetInformationFile" dst))
      | .ok _ => .op (.closeHandle handle) fun _ => .ret (.ok ())

def rename (dosError : NtStatus → UInt32) (dir : DirId) (src dst : Wide) (replace : Bool) :
    Prog Answer (Exec PlatformError Unit) := do
  match ← openRelative dosError dir src (DELETE ||| SYNCHRONIZE) .FILE_OPEN
      (FILE_NON_DIRECTORY_FILE ||| FILE_SYNCHRONOUS_IO_NONALERT) with
  | .ok handle => setName dosError dir dst replace handle
  | .error _ =>
    match ← openRelative dosError dir src (DELETE ||| SYNCHRONIZE) .FILE_OPEN
        (FILE_DIRECTORY_FILE ||| FILE_SYNCHRONOUS_IO_NONALERT) with
    | .error e => return fail e
    | .ok handle => setName dosError dir dst replace handle

structure Moved (t t' : Tree) (p q : Place) : Prop where
  gone : t' p = none
  named : t p ≠ none ∧ t' q = t p
  others : ∀ x, x ≠ p → x ≠ q → t' x = t x

def renameat (t : Tree) (p q : Place) : Tree := Function.update (Function.update t p none) q (t p)

theorem moved_iff_renameat (hne : p ≠ q) : Moved t t' p q ↔ t p ≠ none ∧ t' = renameat t p q := by
  constructor
  · rintro ⟨hgone, hnamed, hothers⟩
    refine ⟨hnamed.1, funext fun x => ?_⟩
    by_cases hq : x = q
    · rw [hq, renameat, Function.update_self, hnamed.2]
    · by_cases hp : x = p
      · rw [hp, renameat, Function.update_of_ne hne, Function.update_self, hgone]
      · rw [renameat, Function.update_of_ne hq, Function.update_of_ne hp, hothers x hp hq]
  · rintro ⟨hnamed, rfl⟩
    refine ⟨?_, ⟨hnamed, Function.update_self ..⟩, fun x hp hq => ?_⟩
    · rw [renameat, Function.update_of_ne hne, Function.update_self]
    · rw [renameat, Function.update_of_ne hq, Function.update_of_ne hp]

theorem follow_self {n : ℕ} (hp : t p ≠ none) (hlink : ∀ isDir buf, t p ≠ some (.link isDir buf)) :
    naming.follow t n p = some p := by
  unfold Naming.follow
  cases ht : t p with
  | none => exact absurd ht hp
  | some node =>
    cases node with
    | file id => rfl
    | dir id => rfl
    | link isDir buf => exact absurd ht (hlink isDir buf)

theorem follow_not_link {n : ℕ} (h : naming.follow t n p = some q) (isDir : Bool) (buf : List UInt8) :
    t q ≠ some (.link isDir buf) := by
  induction n generalizing p with
  | zero =>
    unfold Naming.follow at h
    cases ht : t p with
    | none =>
      rw [ht] at h
      cases h
    | some node =>
      rw [ht] at h
      cases node <;> cases h <;> rw [ht] <;> rintro ⟨⟩
  | succ n ih =>
    unfold Naming.follow at h
    cases ht : t p with
    | none =>
      rw [ht] at h
      cases h
    | some node =>
      rw [ht] at h
      cases node with
      | link d b =>
        obtain ⟨p', -, hp'⟩ := Option.bind_eq_some_iff.mp h
        exact ih hp'
      | file id =>
        cases h
        rw [ht]
        rintro ⟨⟩
      | dir id =>
        cases h
        rw [ht]
        rintro ⟨⟩

theorem openRelative_open {rel : Wide} {access options : UInt32} {x : Result Handle}
    (h : Runs (openRelative dosError dir rel access .FILE_OPEN options) tr x) (hf : Follows (step naming) t tr t') :
    t' = t ∧ ∀ handle, x = .ok handle →
      naming.lookup t ⟨dir, toWideNtComponent rel, access, .FILE_OPEN, options⟩ = some handle := by
  rcases openRelative_runs h with ⟨rfl, e, rfl⟩ | ⟨answer, rfl, hx⟩
  · exact ⟨follows_nil.mp hf, fun _ h => (by cases h)⟩
  · have hstep := follows_single hf
    rcases answer with status | answer
    · exact ⟨hstep, fun handle h => (by cases (hx handle).mp h)⟩
    · obtain ⟨rfl, handle', rfl, hlookup, -⟩ := hstep
      refine ⟨rfl, fun handle h => ?_⟩
      cases (hx handle).mp h
      exact hlookup

theorem lookup_entry {name : Wide} {access options : UInt32} (hfollow : options &&& FILE_OPEN_REPARSE_POINT = 0)
    (h : naming.lookup t ⟨dir, name, access, .FILE_OPEN, options⟩ = some (.entry p)) :
    naming.follow t maxReparses (naming.place dir name) = some p := by
  unfold Naming.lookup at h
  dsimp only at h
  rw [if_neg (not_not.mpr hfollow)] at h
  split_ifs at h
  · cases h
  · obtain ⟨p', hp', hentry⟩ := Option.map_eq_some_iff.mp h
    cases hentry
    exact hp'

theorem setName_ok {handle : Handle} (h : Runs (setName dosError dir dst replace handle) tr (.ok ()))
    (hf : Follows (step naming) t tr t') :
    ∃ p node, handle = .entry p ∧ t p = some node ∧
      t' = Function.update (Function.update t p none) (naming.place dir (toWideNtComponent dst)) (some node) := by
  unfold setName at h
  dsimp only at h
  split_ifs at h
  · obtain ⟨-, tr', rfl, hret⟩ := runs_op.mp h
    cases (runs_ret.mp hret).2
  · obtain ⟨answer, tr', rfl, hclose⟩ := runs_op.mp h
    obtain ⟨t₁, hstep, hclosing⟩ := follows_cons.mp hf
    rcases answer with status | ⟨⟩ <;> obtain ⟨⟨⟩, tr', rfl, hret⟩ := runs_op.mp hclose <;>
      obtain ⟨rfl, hr⟩ := runs_ret.mp hret
    · cases hr
    · have hclosed : t' = t₁ := follows_single hclosing
      cases handle with
      | root d => exact hstep.elim
      | entry p =>
        obtain ⟨node, hnode, -, ht'⟩ := hstep
        exact ⟨p, node, rfl, hnode, hclosed.trans ht'⟩

theorem rename_ok (h : Runs (rename dosError dir src dst replace) tr (.ok ())) (hf : Follows (step naming) t tr t') :
    ∃ p node, naming.follow t maxReparses (naming.place dir (toWideNtComponent src)) = some p ∧ t p = some node ∧
      t' = Function.update (Function.update t p none) (naming.place dir (toWideNtComponent dst)) (some node) := by
  obtain ⟨tr₁, tr₂, x, rfl, hopen, hrest⟩ := runs_bind.mp h
  obtain ⟨t₁, hf₁, hf₂⟩ := follows_append.mp hf
  obtain ⟨rfl, hlookup⟩ := openRelative_open hopen hf₁
  rcases x with e | handle
  · obtain ⟨tr₃, tr₄, x, rfl, hopen, hrest⟩ := runs_bind.mp hrest
    obtain ⟨t₂, hf₃, hf₄⟩ := follows_append.mp hf₂
    obtain ⟨rfl, hlookup⟩ := openRelative_open hopen hf₃
    rcases x with e | handle
    · cases (runs_ret.mp hrest).2
    · obtain ⟨p, node, rfl, hnode, ht'⟩ := setName_ok hrest hf₄
      exact ⟨p, node, lookup_entry (by decide) (hlookup _ rfl), hnode, ht'⟩
  · obtain ⟨p, node, rfl, hnode, ht'⟩ := setName_ok hrest hf₂
    exact ⟨p, node, lookup_entry (by decide) (hlookup _ rfl), hnode, ht'⟩

theorem rename_moves_iff (h : Runs (rename dosError dir src dst replace) tr (.ok ())) (hf : Follows (step naming) t tr t')
    (hne : naming.place dir (toWideNtComponent src) ≠ naming.place dir (toWideNtComponent dst)) :
    Moved t t' (naming.place dir (toWideNtComponent src)) (naming.place dir (toWideNtComponent dst)) ↔
      ∀ isDir buf, t (naming.place dir (toWideNtComponent src)) ≠ some (.link isDir buf) := by
  obtain ⟨p, node, hfollow, hnode, rfl⟩ := rename_ok h hf
  constructor
  · intro hmoved isDir buf hlink
    -- the link stays where it was: neither of the two places that change is its own
    have hp : naming.place dir (toWideNtComponent src) ≠ p := by
      rintro rfl
      exact follow_not_link hfollow isDir buf hlink
    have hgone := hmoved.gone
    rw [Function.update_of_ne hne, Function.update_of_ne hp, hlink] at hgone
    cases hgone
  · intro hlink
    have hp : t (naming.place dir (toWideNtComponent src)) ≠ none := by
      intro hnone
      unfold Naming.follow at hfollow
      rw [hnone] at hfollow
      cases hfollow
    cases (follow_self hp hlink).symm.trans hfollow
    rw [moved_iff_renameat hne, renameat, hnode]
    exact ⟨Option.some_ne_none _, rfl⟩

def linkedFile : Tree :=
  Function.update (Function.update (fun _ => none) (0, [0x66]) (some (.file 1))) (0, [0x6C]) (some (.link false oneByteLink))

def leadsToFile : Naming where
  upcase := id
  target := fun _ _ _ => some (0, [0x66])

def renameCalls (name : Wide) : Transcript Answer :=
  [⟨.ntCreateFile ⟨0, name, DELETE ||| SYNCHRONIZE, .FILE_OPEN, FILE_NON_DIRECTORY_FILE ||| FILE_SYNCHRONOUS_IO_NONALERT⟩,
      .ok (some (Handle.entry (0, [0x66])))⟩,
    ⟨.ntSetInformationFile (.entry (0, [0x66])) ⟨true, 0, [0x67]⟩, .ok ()⟩, ⟨.closeHandle (.entry (0, [0x66])), ()⟩]

def renamed : Tree := Function.update (Function.update linkedFile (0, [0x66]) none) (0, [0x67]) (some (.file 1))

theorem follows_renameCalls {name : Wide} (hname : name ≠ [])
    (h : leadsToFile.follow linkedFile maxReparses (0, name) = some (0, [0x66])) :
    Follows (step leadsToFile) linkedFile (renameCalls name) renamed := by
  have hlookup : leadsToFile.lookup linkedFile ⟨0, name, DELETE ||| SYNCHRONIZE, .FILE_OPEN,
      FILE_NON_DIRECTORY_FILE ||| FILE_SYNCHRONOUS_IO_NONALERT⟩ = some (.entry (0, [0x66])) := by
    unfold Naming.lookup
    dsimp only
    rw [if_neg hname, if_neg (by decide)]
    exact congrArg (Option.map Handle.entry) h
  have hoptions : (FILE_NON_DIRECTORY_FILE ||| FILE_SYNCHRONOUS_IO_NONALERT) &&& FILE_DIRECTORY_FILE = 0 := by decide
  exact .cons ⟨rfl, _, rfl, hlookup, fun h => (h hoptions).elim, fun _ => (by decide)⟩
    (.cons ⟨.file 1, by decide, fun _ => .inr rfl, rfl⟩ (.cons rfl (.nil _)))

theorem file_renamed : Moved linkedFile renamed (0, [0x66]) (0, [0x67]) ↔
    ∀ isDir buf, linkedFile (0, [0x66]) ≠ some (.link isDir buf) := by
  have hruns : Runs (rename (fun _ => 0) 0 [0x66] [0x67] true) (renameCalls [0x66]) (.ok ()) :=
    .op _ (.op _ (.op _ (.ret _)))
  exact rename_moves_iff hruns (follows_renameCalls (by decide) (by decide)) (by decide)

theorem rename_moves_target :
    ∃ tr, Runs (rename (fun _ => 0) 0 [0x6C] [0x67] true) tr (.ok ()) ∧ Follows (step leadsToFile) linkedFile tr renamed ∧
      renamed (0, [0x6C]) = some (.link false oneByteLink) ∧ renamed (0, [0x66]) = none ∧
        ¬Moved linkedFile renamed (0, [0x6C]) (0, [0x67]) := by
  refine ⟨renameCalls [0x6C], .op _ (.op _ (.op _ (.ret _))), follows_renameCalls (by decide) (by decide), by decide,
    by decide, fun h => ?_⟩
  exact absurd h.gone (by decide)

end Rustils.WinFs.Nt
