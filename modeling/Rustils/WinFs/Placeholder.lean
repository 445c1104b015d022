import Rustils.WinFs.Nt

namespace Rustils.WinFs.Nt

open Platform Platform.Errmap Lib.Program Lib.Fuel

variable {dosError : NtStatus → UInt32} {dir : DirId} {linkName target : Wide} {isDir : Bool}
  {naming : Naming} {t t' : Tree} {tr : Transcript Answer} {r : Exec PlatformError Unit}

def linkOptions (isDir : Bool) : UInt32 :=
  (if isDir then FILE_DIRECTORY_FILE else FILE_NON_DIRECTORY_FILE) ||| FILE_SYNCHRONOUS_IO_NONALERT |||
    FILE_OPEN_REPARSE_POINT

/-- What becomes of the placeholder; no path removes it again. -/
def fillIn (linkName target : Wide) (handle : Handle) : Prog Answer (Exec PlatformError Unit) :=
  match reparseDataBuffer target with
  | .error stop => .op (.closeHandle handle) fun _ => .ret (.error stop)
  | .ok buf =>
    .op (.setReparsePoint handle buf) fun
      | .error code => .op (.closeHandle handle) fun _ => .ret (fail (lastWin32Err "DeviceIoControl" linkName code))
      | .ok _ => .op (.closeHandle handle) fun _ => .ret (.ok ())

def symlink (dosError : NtStatus → UInt32) (dir : DirId) (linkName target : Wide) (isDir : Bool) :
    Prog Answer (Exec PlatformError Unit) := do
  match ← openRelative dosError dir linkName (FILE_GENERIC_WRITE ||| SYNCHRONIZE) .FILE_CREATE (linkOptions isDir) with
  | .error e => return fail e
  | .ok handle => fillIn linkName target handle

def Refuses : (Σ o, Answer o) → Prop
  | ⟨.setReparsePoint _ _, .error _⟩ => True
  | _ => False

theorem openRelative_runs {rel : Wide} {access options : UInt32} {disposition : Disposition} {x : Result Handle}
    (h : Runs (openRelative dosError dir rel access disposition options) tr x) :
    (tr = [] ∧ ∃ e, x = .error e) ∨
      ∃ answer, tr = [⟨.ntCreateFile ⟨dir, toWideNtComponent rel, access, disposition, options⟩, answer⟩] ∧
        ∀ handle, x = .ok handle ↔ answer = .ok (some handle) := by
  unfold openRelative at h
  dsimp only at h
  split_ifs at h
  · obtain ⟨rfl, rfl⟩ := runs_ret.mp h
    exact .inl ⟨rfl, _, rfl⟩
  · obtain ⟨answer, tr', rfl, hret⟩ := runs_op.mp h
    rcases answer with status | _ | handle <;> obtain ⟨rfl, rfl⟩ := runs_ret.mp hret <;>
      exact .inr ⟨_, rfl, fun _ => by simp⟩

theorem reparseDataBuffer_cases (target : Wide) :
    reparseDataBuffer target = panicked ∨ ∃ buf, reparseDataBuffer target = .ok buf := by
  by_cases h : (substituteName target).length < 32768
  · exact .inr ⟨_, reparseDataBuffer_short h⟩
  · exact .inl (reparseDataBuffer_long (Nat.le_of_not_lt h))

theorem follows_single {o : NtCall} {answer : Answer o} (h : Follows (step naming) t [⟨o, answer⟩] t') :
    step naming t o answer t' := by
  obtain ⟨t₁, hstep, hnil⟩ := follows_cons.mp h
  rwa [follows_nil.mp hnil]

theorem openRelative_create {rel : Wide} {access options : UInt32} {x : Result Handle}
    (h : Runs (openRelative dosError dir rel access .FILE_CREATE options) tr x) (hf : Follows (step naming) t tr t') :
    (∀ y ∈ tr, ¬Refuses y) ∧
      ((∃ e, x = .error e) ∧ t' = t ∨
        ∃ p node, x = .ok (.entry p) ∧ t p = none ∧ t' = Function.update t p (some node)) := by
  rcases openRelative_runs h with ⟨rfl, hx⟩ | ⟨answer, rfl, hx⟩
  · exact ⟨fun y hy => (by cases hy), .inl ⟨hx, follows_nil.mp hf⟩⟩
  · have hstep := follows_single hf
    refine ⟨fun y hy => ?_, ?_⟩
    · rw [List.mem_singleton.mp hy]
      exact id
    · rcases answer with status | answer
      · refine .inl ⟨?_, hstep⟩
        cases x with
        | error e => exact ⟨e, rfl⟩
        | ok handle => cases (hx handle).mp rfl
      · obtain ⟨rfl, hfree, id, rfl⟩ := hstep
        exact .inr ⟨_, _, (hx _).mpr rfl, hfree, rfl⟩

theorem fillIn_runs {p : Place} (h : Runs (fillIn linkName target (.entry p)) tr r) (hf : Follows (step naming) t tr t') :
    (r = panicked ∨ r = .ok ()) ∧ (∀ y ∈ tr, ¬Refuses y) ∨ (∃ e, r = fail e) ∧ t' = t ∧ ∃ y ∈ tr, Refuses y := by
  unfold fillIn at h
  rcases reparseDataBuffer_cases target with hbuf | ⟨buf, hbuf⟩ <;> rw [hbuf] at h
  · obtain ⟨⟨⟩, tr', rfl, hret⟩ := runs_op.mp h
    obtain ⟨rfl, rfl⟩ := runs_ret.mp hret
    exact .inl ⟨.inl rfl, by simp [Refuses]⟩
  · obtain ⟨answer, tr', rfl, hclose⟩ := runs_op.mp h
    rcases answer with code | ⟨⟩ <;> obtain ⟨⟨⟩, tr', rfl, hret⟩ := runs_op.mp hclose <;>
      obtain ⟨rfl, rfl⟩ := runs_ret.mp hret
    · obtain ⟨t₁, hset, hf⟩ := follows_cons.mp hf
      have hclosed := follows_single hf
      exact .inr ⟨⟨_, rfl⟩, hclosed.trans hset, _, List.mem_cons_self, trivial⟩
    · exact .inl ⟨.inr rfl, by simp [Refuses]⟩

theorem symlink_undone_iff (h : Runs (symlink dosError dir linkName target isDir) tr r)
    (hf : Follows (step naming) t tr t') : (∀ e, r = fail e → t' = t) ↔ ∀ y ∈ tr, ¬Refuses y := by
  obtain ⟨tr₁, tr₂, x, rfl, hopen, hrest⟩ := runs_bind.mp h
  obtain ⟨t₁, hf₁, hf₂⟩ := follows_append.mp hf
  obtain ⟨hquiet, ⟨⟨e, rfl⟩, rfl⟩ | ⟨p, node, rfl, hfree, rfl⟩⟩ := openRelative_create hopen hf₁
  · obtain ⟨rfl, -⟩ := runs_ret.mp hrest
    rw [List.append_nil]
    exact iff_of_true (fun _ _ => follows_nil.mp hf₂) hquiet
  · rcases fillIn_runs hrest hf₂ with ⟨hr, hquiet₂⟩ | ⟨⟨e, rfl⟩, rfl, y, hy, hrefuses⟩
    · apply iff_of_true
      · rintro e rfl
        rcases hr with hr | hr <;> cases hr
      · intro y hy
        exact (List.mem_append.mp hy).elim (hquiet y) (hquiet₂ y)
    · apply iff_of_false
      · intro hsame
        have hp := congrFun (hsame e rfl) p
        rw [Function.update_self, hfree] at hp
        cases hp
      · intro hall
        exact hall y (List.mem_append_right _ hy) hrefuses

def plainNaming : Naming where
  upcase := id
  target := fun _ _ _ => none

def oneByteLink : List UInt8 := header 16 2 2 1 ++ [0x61, 0, 0x61, 0]

def linkArgs : CreateArgs := ⟨0, [0x6C], FILE_GENERIC_WRITE ||| SYNCHRONIZE, .FILE_CREATE, linkOptions false⟩

def linking (answer : Except UInt32 Unit) : Transcript Answer :=
  [⟨.ntCreateFile linkArgs, .ok (some (Handle.entry (0, [0x6C])))⟩,
    ⟨.setReparsePoint (.entry (0, [0x6C])) oneByteLink, answer⟩, ⟨.closeHandle (.entry (0, [0x6C])), ()⟩]

def placeholder : Tree := Function.update (fun _ => none) (0, [0x6C]) (some (.file 0))

def linked : Tree := Function.update placeholder (0, [0x6C]) (some (.link false oneByteLink))

theorem placeholder_held : placeholder (0, [0x6C]) = some (.file 0) := Function.update_self ..

theorem link_made :
    (∀ e, (.ok () : Exec PlatformError Unit) = fail e → linked = fun _ => none) ↔ ∀ y ∈ linking (.ok ()), ¬Refuses y := by
  have hruns : Runs (symlink (fun _ => 0) 0 [0x6C] [0x61] false) (linking (.ok ())) (.ok ()) :=
    .op _ (.op _ (.op _ (.ret _)))
  have hset : step plainNaming placeholder (.setReparsePoint (.entry (0, [0x6C])) oneByteLink) (.ok ()) linked :=
    ⟨by rw [placeholder_held]; exact Option.some_ne_none _, by rw [Handle.isDir, placeholder_held]; rfl⟩
  exact symlink_undone_iff hruns (.cons ⟨rfl, rfl, 0, rfl⟩ (.cons hset (.cons rfl (.nil _))))

theorem unprivileged_symlink_leaves_placeholder :
    ¬∀ (dosError : NtStatus → UInt32) (naming : Naming) (dir : DirId) (linkName target : Wide) (isDir : Bool)
      (t t' : Tree) (tr : Transcript Answer) (e : PlatformError),
      Runs (symlink dosError dir linkName target isDir) tr (fail e) → Follows (step naming) t tr t' → t' = t := by
  intro h
  have hruns : Runs (symlink (fun _ => 0) 0 [0x6C] [0x61] false) (linking (.error 1314))
      (fail (lastWin32Err "DeviceIoControl" [0x6C] 1314)) := .op _ (.op _ (.op _ (.ret _)))
  have hf : Follows (step plainNaming) (fun _ => none) (linking (.error 1314)) placeholder :=
    .cons ⟨rfl, rfl, 0, rfl⟩ (.cons rfl (.cons rfl (.nil _)))
  have hp := congrFun (h _ _ _ _ _ _ _ _ _ _ hruns hf) (0, [0x6C])
  rw [placeholder_held] at hp
  cases hp

end Rustils.WinFs.Nt
