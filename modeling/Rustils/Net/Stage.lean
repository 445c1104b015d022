import Rustils.Net.Reclaim

namespace Rustils.Net

open Platform Lib.Program

/-- Where a call stands with respect to the path. It is `refused` from a probe that finds nobody
listening until that probe is closed, and `doomed` from there until its `unlinkat`. -/
inductive Standing
  | away
  | refused (probe : Fd)
  | doomed
  | bound (fd : Fd)
  | narrowed (fd : Fd)
  | serving (fd : Fd)
  | failed (fd : Fd)

structure Stage where
  own : Set Fd
  standing : Standing

def Stage.start : Stage := ⟨∅, .away⟩

def moves : Env Stage Answer
  | ⟨own, .away⟩, .socket, .ok fd, s' => fd ∉ own ∧ s' = ⟨insert fd own, .away⟩
  | ⟨own, .away⟩, .bind fd _ _, .ok _, s' => s' = ⟨own, .bound fd⟩
  | ⟨own, .away⟩, .connect probe _ _, .error e, s' =>
    s' = ⟨own, if e = .ECONNREFUSED then .refused probe else .away⟩
  | ⟨own, .refused _⟩, .close fd, _, s' => s' = ⟨own \ {fd}, .doomed⟩
  | ⟨own, .doomed⟩, .unlinkat _, _, s' => s' = ⟨own, .away⟩
  | ⟨own, .bound fd⟩, .chmod _ _, .ok _, s' => s' = ⟨own, .narrowed fd⟩
  | ⟨own, .bound fd⟩, .chmod _ _, .error _, s' => s' = ⟨own, .failed fd⟩
  | ⟨own, .narrowed fd⟩, .listen _, .ok _, s' => s' = ⟨own, .serving fd⟩
  | ⟨own, .narrowed fd⟩, .listen _, .error _, s' => s' = ⟨own, .failed fd⟩
  | ⟨own, _⟩, .close fd, _, s' => s' = ⟨own \ {fd}, .away⟩
  | s, _, _, s' => s' = s

def Allowed (b : Backend) (path : Path) : Stage → SysCall → Prop
  | ⟨_, .away⟩, .socket => True
  | ⟨_, .away⟩, .fcntlCloexec _ => True
  | ⟨own, .away⟩, .bind fd addr len => fd ∈ own ∧ addr.pathname b len = path
  | ⟨_, .away⟩, .connect _ addr len => addr.pathname b len = path
  | ⟨own, .away⟩, .close fd => fd ∈ own
  | ⟨own, .refused probe⟩, .close fd => fd = probe ∧ fd ∈ own
  | ⟨_, .doomed⟩, .unlinkat p => p = path
  | ⟨_, .bound _⟩, .chmod p _ => p = path
  | ⟨_, .narrowed fd⟩, .listen fd' => fd' = fd
  | ⟨_, .failed fd⟩, .close fd' => fd' = fd
  | _, _ => False

def Ends : Result Fd × Errno → Stage → Prop
  | (.ok fd, _), s => s.standing = .serving fd
  | (.error _, _), s => s.standing = .away

section Stages

variable {b : Backend} {path : Path} {errno : Errno} {own : Set Fd} {fd : Fd}

theorem diff_insert_self {s : Set Fd} (h : fd ∉ s) : insert fd s \ {fd} = s := by
  rw [Set.insert_sdiff_of_mem _ (Set.mem_singleton fd), Set.sdiff_singleton_eq_self h]

theorem drop_moves (h : fd ∈ own) :
    Safe moves (Allowed b path) (fun _ s => s = ⟨own \ {fd}, .away⟩) (drop fd errno) ⟨own, .away⟩ := by
  apply safe_sys h
  rintro r _ rfl
  rfl

theorem setCloexec_moves :
    Safe moves (Allowed b path) (fun _ s => s = ⟨own, .away⟩) (setCloexec b fd errno) ⟨own, .away⟩ := by
  apply safe_sys trivial
  rintro (e | ⟨⟩) _ rfl <;> rfl

theorem newUnixSocket_moves :
    Safe moves (Allowed b path)
      (fun r s => match r.1 with
        | .ok fd => fd ∉ own ∧ s = ⟨insert fd own, .away⟩
        | .error _ => s = ⟨own, .away⟩)
      (newUnixSocket b errno) ⟨own, .away⟩ := by
  apply safe_sys trivial
  rintro (e | fd) s hs
  · exact hs
  · obtain ⟨hfd, rfl⟩ := hs
    cases b with
    | linux => exact ⟨hfd, rfl⟩
    | bsd =>
      apply safe_thread_bind (setCloexec_moves (b := .bsd))
      rintro (e | ⟨⟩) _ _ rfl
      · apply safe_thread_bind (drop_moves (Set.mem_insert fd own))
        rintro _ _ _ rfl
        show _ = _
        rw [diff_insert_self hfd]
      · exact ⟨hfd, rfl⟩

theorem isStaleSocket_moves {addr : SockaddrUn} {len : ℕ}
    (ha : toSockaddrUn b path = .ok (addr, len)) :
    Safe moves (Allowed b path)
      (fun r s => s = ⟨own, if r.1 = true then .doomed else .away⟩)
      (isStaleSocket b path errno) ⟨own, .away⟩ := by
  apply safe_thread_bind newUnixSocket_moves
  rintro (e | probe) _ s hs
  · exact hs
  · obtain ⟨hprobe, rfl⟩ := hs
    simp only [ha]
    apply safe_sys (pathname_toSockaddrUn ha)
    rintro (e | u) _ rfl
    · apply safe_get
      by_cases he : e = .ECONNREFUSED
      · subst he
        apply safe_sys ⟨rfl, Set.mem_insert probe own⟩
        rintro _ _ rfl
        show _ = _
        rw [diff_insert_self hprobe]
        rfl
      · rw [if_neg he]
        apply safe_thread_bind (drop_moves (Set.mem_insert probe own))
        rintro _ _ _ rfl
        show _ = _
        rw [diff_insert_self hprobe]
        simp [errnoAfter, he]
    · apply safe_thread_bind (drop_moves (Set.mem_insert probe own))
      rintro _ _ _ rfl
      show _ = _
      rw [diff_insert_self hprobe]
      rfl

theorem reclaim_moves {addr : SockaddrUn} {len : ℕ} {r : Answer (.bind fd addr len)}
    (ha : toSockaddrUn b path = .ok (addr, len)) (hfd : fd ∈ own) {s : Stage}
    (hs : moves ⟨own, .away⟩ (.bind fd addr len) r s) :
    Safe moves (Allowed b path)
      (fun r s => s = ⟨own, match r.1 with | .ok (.ok _) => .bound fd | _ => .away⟩)
      (reclaim b fd path addr len r errno) s := by
  rcases r with e | u <;> subst hs
  · apply safe_get
    split_ifs with he
    · apply safe_thread_bind (isStaleSocket_moves ha)
      rintro (_ | _) _ _ rfl
      · rfl
      · simp only [pathToCstring_of_toSockaddrUn ha, if_true]
        apply safe_sys
        · exact rfl
        · rintro r _ rfl
          apply safe_sys ⟨hfd, pathname_toSockaddrUn ha⟩
          rintro (e | u) _ rfl <;> rfl
    · rfl
  · rfl

theorem narrowAndListen_moves (hp : pathToCstring path = .ok path) :
    Safe moves (Allowed b path)
      (fun r s => s = ⟨own, match r.1 with | .ok _ => .serving fd | .error _ => .failed fd⟩)
      (narrowAndListen b fd path errno) ⟨own, .bound fd⟩ := by
  unfold narrowAndListen
  simp only [hp]
  apply safe_sys
  · exact rfl
  · rintro (e | u) _ rfl
    · rfl
    · apply safe_sys
      · exact rfl
      · rintro (e | u) _ rfl <;> rfl

theorem listenAt_moves (hfd : fd ∈ own) :
    Safe moves (Allowed b path)
      (fun r s => match r.1 with
        | .ok _ => s = ⟨own, .serving fd⟩
        | .error _ => s = ⟨own, .away⟩ ∨ s = ⟨own, .failed fd⟩)
      (listenAt b fd path errno) ⟨own, .away⟩ := by
  unfold listenAt
  cases ha : toSockaddrUn b path with
  | error e => exact .inl rfl
  | ok a =>
    obtain ⟨addr, len⟩ := a
    apply safe_sys ⟨hfd, pathname_toSockaddrUn ha⟩
    intro r s hs
    apply safe_thread_bind (reclaim_moves ha hfd hs)
    rintro (e | e | u) _ _ rfl
    · exact .inl rfl
    · exact .inl rfl
    · apply (narrowAndListen_moves (pathToCstring_of_toSockaddrUn ha)).mono
      rintro ⟨e | u, _⟩ _ rfl
      · exact .inr rfl
      · rfl

theorem unixListen_moves (b : Backend) (path : Path) (errno : Errno) :
    Safe moves (Allowed b path) Ends (unixListen b path errno) .start := by
  apply safe_thread_bind newUnixSocket_moves
  rintro (e | fd) _ s hs
  · subst hs
    rfl
  · obtain ⟨-, rfl⟩ := hs
    have hfd := Set.mem_insert fd ∅
    apply safe_thread_bind (listenAt_moves hfd)
    rintro (e | u) _ s hs
    · rcases hs with rfl | rfl
      · apply safe_thread_bind (drop_moves hfd)
        rintro _ _ _ rfl
        rfl
      · apply safe_sys
        · exact rfl
        · rintro r _ rfl
          rfl
    · subst hs
      rfl

end Stages

end Rustils.Net
