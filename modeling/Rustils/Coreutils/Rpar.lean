import Mathlib.Data.List.Perm.Basic
import Rustils.Platform.Error

namespace Rustils.Coreutils.Rpar

open Platform
open scoped List

abbrev OsString := List UInt8

inductive ExitStatus
  | code (c : Int32)
  | signaled (s : Int32)
  | stopped (s : Int32)
  | continued
  deriving DecidableEq

def ExitStatus.success : ExitStatus → Bool
  | .code c => c == 0
  | _ => false

inductive SignalEvent
  | interrupt | terminate | hangup

structure Argv where
  argv : List OsString
  nonempty : argv ≠ []

def commands (args : List OsString) : List Argv :=
  (args.splitOnP (· == [0x2D, 0x2D])).filterMap fun c => if h : c = [] then none else some ⟨c, h⟩

structure Command where
  program : OsString
  argv : List OsString
  cwd : OsString

def Argv.program (a : Argv) : OsString := a.argv.head a.nonempty

def Argv.command (a : Argv) (cwd : OsString) : Command := ⟨a.program, a.argv.tail, cwd⟩

/-- What `main` asks for: its spawner, its signals and its children. The numbers count the calls. -/
structure Host (Child : Type) where
  toStringLossy : OsString → String
  currentDir : Except String OsString
  spawn : ℕ → Command → Result Child
  install : Result Unit
  take : ℕ → Option SignalEvent
  waitAny : ℕ → List Child → Result (Option ℕ)
  wait : Child → Result ExitStatus

inductive Complaint
  | usage
  | cannotDetermineCwd (e : String)
  | error (e : PlatformError)
  | ofCommand (label : String) (e : PlatformError)
  | interrupted (running : ℕ)

structure State (Child : Type) where
  labels : List String
  children : List Child
  failed : Bool
  stdout : List String
  stderr : List Complaint

inductive Outcome (Child : Type)
  | looping (s : State Child)
  | exited (code : UInt8) (s : State Child)
  | panicked

variable {Child : Type}

def swapRemove {α : Type} (i : ℕ) (xs : List α) : Option (α × List α) :=
  match xs[i]?, xs.getLast? with
  | some x, some last => some (x, (xs.set i last).dropLast)
  | _, _ => none

section Main

variable (host : Host Child)

def spawnLoop (cwd : OsString) : ℕ → List Argv → State Child → State Child
  | _, [], s => s
  | i, argv :: rest, s =>
    match host.spawn i (argv.command cwd) with
    | .ok child =>
      spawnLoop cwd (i + 1) rest
        { s with labels := s.labels ++ [host.toStringLossy argv.program], children := s.children ++ [child] }
    | .error e => spawnLoop cwd (i + 1) rest { s with stderr := s.stderr ++ [.error e], failed := true }

def release (s : State Child) (idx : ℕ) : Outcome Child :=
  match swapRemove idx s.labels, swapRemove idx s.children with
  | some (label, labels), some (child, children) =>
    let s := { s with labels, children }
    match host.wait child with
    | .ok status =>
      let s := { s with failed := s.failed || !status.success }
      match status with
      | .code c => .looping { s with stdout := s.stdout ++ [s!"[{label}] exited {c}"] }
      | .signaled n => .looping { s with stdout := s.stdout ++ [s!"[{label}] killed by signal {n}"] }
      | .stopped _ | .continued => .panicked
    | .error e => .looping { s with stderr := s.stderr ++ [.ofCommand label e], failed := true }
  | _, _ => .panicked

/-- Of the children of an interrupted run nothing more is asked than that they die. -/
def pass (n : ℕ) (s : State Child) : Outcome Child :=
  match host.take n with
  | some event =>
    .exited (match event with | .interrupt => 130 | _ => 143)
      { s with children := [], stderr := s.stderr ++ [.interrupted s.children.length] }
  | none =>
    match host.waitAny n s.children with
    | .ok (some idx) => release host s idx
    | .ok none => .looping s
    | .error e => .exited 1 { s with stderr := s.stderr ++ [.error e] }

def waitLoop : ℕ → ℕ → State Child → Outcome Child
  | 0, _, s => .looping s
  | passes + 1, n, s =>
    if s.children.isEmpty then .exited (if s.failed then 1 else 0) s
    else
      match pass host n s with
      | .looping s => waitLoop passes (n + 1) s
      | done => done

def installed (s : State Child) : State Child :=
  match host.install with
  | .ok () => s
  | .error e => { s with stderr := s.stderr ++ [.error e] }

def start : State Child := ⟨[], [], false, [], []⟩

def runAll (cwd : OsString) (cmds : List Argv) (passes : ℕ) : Outcome Child :=
  waitLoop host passes 0 (installed host (spawnLoop host cwd 0 cmds start))

def main (args : List OsString) (passes : ℕ) : Outcome Child :=
  if commands args = [] then .exited 2 { start with stderr := [.usage] }
  else
    match host.currentDir with
    | .error e => .exited 1 { start with stderr := [.cannotDetermineCwd e] }
    | .ok cwd => runAll host cwd (commands args) passes

end Main

section SwapRemove

variable {α β : Type}

theorem swapRemove_map (f : α → β) (i : ℕ) (xs : List α) :
    swapRemove i (xs.map f) = (swapRemove i xs).map (Prod.map f (List.map f)) := by
  simp only [swapRemove, List.getElem?_map, List.getLast?_map]
  cases xs[i]? <;> cases xs.getLast? <;> simp [List.map_set, List.map_dropLast]

theorem swapRemove_perm {i : ℕ} {xs : List α} (h : i < xs.length) :
    ∃ x rest, swapRemove i xs = some (x, rest) ∧ x :: rest ~ xs := by
  obtain ⟨ys, last, rfl⟩ : ∃ ys last, xs = ys ++ [last] :=
    ⟨xs.dropLast, xs.getLast (List.ne_nil_of_length_pos (by omega)), (List.dropLast_concat_getLast _).symm⟩
  refine ⟨(ys ++ [last])[i], ((ys ++ [last]).set i last).dropLast, ?_, ?_⟩
  · simp only [swapRemove, List.getElem?_eq_getElem h, List.getLast?_concat]
  by_cases hi : i < ys.length
  · rw [List.set_append_left _ _ hi, List.dropLast_concat, List.getElem_append_left hi]
    calc ys[i] :: ys.set i last ~ ys[i] :: last :: ys.eraseIdx i := (List.set_perm_cons_eraseIdx hi last).cons _
      _ ~ last :: ys[i] :: ys.eraseIdx i := .swap ..
      _ ~ last :: ys := (List.getElem_cons_eraseIdx_perm hi).cons _
      _ ~ ys ++ [last] := (List.perm_append_singleton last ys).symm
  · obtain rfl : i = ys.length := by
      rw [List.length_append, List.length_singleton] at h
      omega
    rw [List.set_append_right _ _ (Nat.le_refl _), List.getElem_concat_length rfl, Nat.sub_self, List.set_cons_zero,
      List.dropLast_concat]
    exact (List.perm_append_singleton last ys).symm

end SwapRemove

section Books

variable (host : Host Child) (cwd : OsString)

def spawned (i : ℕ) (cmds : List Argv) : List (String × Child) :=
  (cmds.zipIdx i).filterMap fun p =>
    (host.spawn p.2 (p.1.command cwd)).toOption.map (host.toStringLossy p.1.program, ·)

def AllSpawned (i : ℕ) (cmds : List Argv) : Prop :=
  ∀ p ∈ cmds.zipIdx i, ∃ child, host.spawn p.2 (p.1.command cwd) = .ok child

def report (p : String × Child) : String :=
  match host.wait p.2 with
  | .ok (.code c) => s!"[{p.1}] exited {c}"
  | .ok (.signaled n) => s!"[{p.1}] killed by signal {n}"
  | _ => ""

def Clean (p : String × Child) : Prop := host.wait p.2 = .ok (.code 0)

structure Quiet : Prop where
  take (n : ℕ) : host.take n = none
  waitAny (n : ℕ) (cs : List Child) (h : cs ≠ []) :
    ∃ answer, host.waitAny n cs = .ok answer ∧ ∀ i ∈ answer, i < cs.length
  wait (c : Child) : (∃ k, host.wait c = .ok (.code k)) ∨ ∃ k, host.wait c = .ok (.signaled k)

structure Books (all : List (String × Child)) (refused : Prop) (s : State Child)
    (reported running : List (String × Child)) : Prop where
  labels : s.labels = running.map Prod.fst
  children : s.children = running.map Prod.snd
  stdout : s.stdout = reported.map (report host)
  perm : reported ++ running ~ all
  failed : s.failed = true ↔ refused ∨ ∃ p ∈ reported, ¬ Clean host p

variable {host} {cwd} {all reported running : List (String × Child)} {refused : Prop} {s : State Child}

theorem spawnLoop_books {i : ℕ} {cmds : List Argv} (h : Books host all refused s [] running) :
    Books host (all ++ spawned host cwd i cmds) (refused ∨ ¬ AllSpawned host cwd i cmds)
      (spawnLoop host cwd i cmds s) [] (running ++ spawned host cwd i cmds) := by
  induction cmds generalizing i all refused s running with
  | nil => simpa [spawnLoop, spawned, AllSpawned] using h
  | cons argv rest ih =>
    cases hspawn : host.spawn i (argv.command cwd) with
    | ok child =>
      have hlist : spawned host cwd i (argv :: rest) =
          (host.toStringLossy argv.program, child) :: spawned host cwd (i + 1) rest := by
        simp [spawned, hspawn, Except.toOption]
      have hall : AllSpawned host cwd i (argv :: rest) ↔ AllSpawned host cwd (i + 1) rest := by
        simp [AllSpawned, hspawn]
      rw [spawnLoop, hspawn, hlist, hall, ← List.singleton_append, ← List.append_assoc, ← List.append_assoc]
      apply ih
      exact
        { labels := by simp [h.labels]
          children := by simp [h.children]
          stdout := h.stdout
          perm := h.perm.append_right _
          failed := h.failed }
    | error e =>
      have hlist : spawned host cwd i (argv :: rest) = spawned host cwd (i + 1) rest := by
        simp [spawned, hspawn, Except.toOption]
      have hall : ¬ AllSpawned host cwd i (argv :: rest) := by simp [AllSpawned, hspawn]
      have hs : Books host all True { s with stderr := s.stderr ++ [.error e], failed := true } [] running :=
        { labels := h.labels, children := h.children, stdout := h.stdout, perm := h.perm, failed := by simp }
      have hbooks := ih (i := i + 1) hs
      rw [spawnLoop, hspawn, hlist]
      exact { hbooks with failed := by simpa [hall] using hbooks.failed }

theorem installed_books (h : Books host all refused s reported running) :
    Books host all refused (installed host s) reported running := by
  unfold installed
  cases host.install with
  | ok _ => exact h
  | error e => exact { h with }

theorem release_eq (quiet : Quiet host) {i : ℕ} {p : String × Child} {labels : List String} {children : List Child}
    (hlabels : swapRemove i s.labels = some (p.1, labels))
    (hchildren : swapRemove i s.children = some (p.2, children)) :
    ∃ failed, release host s i = .looping ⟨labels, children, failed, s.stdout ++ [report host p], s.stderr⟩ ∧
      (failed = true ↔ s.failed = true ∨ ¬ Clean host p) := by
  obtain ⟨k, hwait⟩ | ⟨k, hwait⟩ := quiet.wait p.2
  · refine ⟨s.failed || !(k == 0), ?_, by simp [Clean, hwait]⟩
    simp only [release, hlabels, hchildren, hwait, report, ExitStatus.success]
  · refine ⟨true, ?_, by simp [Clean, hwait]⟩
    simp only [release, hlabels, hchildren, hwait, report, ExitStatus.success, Bool.not_false, Bool.or_true]

theorem release_books (quiet : Quiet host) (h : Books host all refused s reported running) {i : ℕ}
    (hi : i < s.children.length) :
    ∃ p rest s', p :: rest ~ running ∧ release host s i = .looping s' ∧
      Books host all refused s' (reported ++ [p]) rest := by
  rw [h.children, List.length_map] at hi
  obtain ⟨p, rest, hremove, hperm⟩ := swapRemove_perm hi
  have hlabels : swapRemove i s.labels = some (p.1, rest.map Prod.fst) := by
    rw [h.labels, swapRemove_map, hremove]
    rfl
  have hchildren : swapRemove i s.children = some (p.2, rest.map Prod.snd) := by
    rw [h.children, swapRemove_map, hremove]
    rfl
  obtain ⟨failed, hrelease, hfailed⟩ := release_eq quiet hlabels hchildren
  refine ⟨p, rest, _, hperm, hrelease, rfl, rfl, ?_, ?_, ?_⟩
  · rw [h.stdout, List.map_append, List.map_singleton]
  · rw [List.append_assoc, List.singleton_append]
    exact (hperm.append_left reported).trans h.perm
  · rw [hfailed, h.failed]
    simp [or_and_right, exists_or, or_assoc]

theorem pass_books (quiet : Quiet host) (h : Books host all refused s reported running) (hne : running ≠ [])
    (n : ℕ) :
    host.waitAny n s.children = .ok none ∧ pass host n s = .looping s ∨
      ∃ p rest s', p :: rest ~ running ∧ pass host n s = .looping s' ∧
        Books host all refused s' (reported ++ [p]) rest := by
  have hchildren : s.children ≠ [] := by
    rw [h.children]
    simpa using hne
  obtain ⟨answer, hanswer, hlt⟩ := quiet.waitAny n s.children hchildren
  cases answer with
  | none => exact .inl ⟨hanswer, by simp only [pass, quiet.take, hanswer]⟩
  | some i =>
    right
    simp only [pass, quiet.take, hanswer]
    exact release_books quiet h (hlt i rfl)

theorem waitLoop_done (h : Books host all refused s reported []) (passes n : ℕ) :
    waitLoop host (passes + 1) n s = .exited (if s.failed then 1 else 0) s := by
  rw [waitLoop, h.children]
  rfl

theorem waitLoop_pass (h : Books host all refused s reported running) (hne : running ≠ []) {n : ℕ}
    {s' : State Child} (hpass : pass host n s = .looping s') (passes : ℕ) :
    waitLoop host (passes + 1) n s = waitLoop host passes (n + 1) s' := by
  rw [waitLoop, if_neg (by simpa [h.children] using hne), hpass]

variable (host) (all) (refused) in
def Kept : Outcome Child → Prop
  | .looping s => ∃ reported running, Books host all refused s reported running
  | .exited code s => code = (if s.failed then 1 else 0) ∧ ∃ reported, Books host all refused s reported []
  | .panicked => False

theorem waitLoop_kept (quiet : Quiet host) (passes n : ℕ) (h : Books host all refused s reported running) :
    Kept host all refused (waitLoop host passes n s) := by
  induction passes generalizing n s reported running with
  | zero => exact ⟨reported, running, h⟩
  | succ passes ih =>
    by_cases hrunning : running = []
    · subst hrunning
      rw [waitLoop_done h]
      exact ⟨rfl, reported, h⟩
    · obtain ⟨-, hpass⟩ | ⟨p, rest, s', -, hpass, h'⟩ := pass_books quiet h hrunning n
      · rw [waitLoop_pass h hrunning hpass]
        exact ih (n + 1) h
      · rw [waitLoop_pass h hrunning hpass]
        exact ih (n + 1) h'

theorem waitLoop_reaches_release (quiet : Quiet host) (h : Books host all refused s reported running)
    (hne : running ≠ []) {n d i : ℕ} (hanswer : host.waitAny (n + d) s.children = .ok (some i)) :
    ∃ passes m p rest s', p :: rest ~ running ∧ Books host all refused s' (reported ++ [p]) rest ∧
      ∀ more, waitLoop host (more + passes) n s = waitLoop host more m s' := by
  induction d generalizing n with
  | zero =>
    obtain ⟨hnone, -⟩ | ⟨p, rest, s', hperm, hpass, h'⟩ := pass_books quiet h hne n
    · rw [Nat.add_zero, hnone] at hanswer
      cases hanswer
    · exact ⟨1, n + 1, p, rest, s', hperm, h', waitLoop_pass h hne hpass⟩
  | succ d ih =>
    obtain ⟨-, hpass⟩ | ⟨p, rest, s', hperm, hpass, h'⟩ := pass_books quiet h hne n
    · obtain ⟨passes, m, p, rest, s', hperm, h', hloop⟩ := ih (n := n + 1) (by rwa [Nat.add_right_comm])
      refine ⟨passes + 1, m, p, rest, s', hperm, h', fun more => ?_⟩
      rw [← Nat.add_assoc, waitLoop_pass h hne hpass, hloop]
    · exact ⟨1, n + 1, p, rest, s', hperm, h', waitLoop_pass h hne hpass⟩

variable (host) in
def Prompt : Prop := ∀ n cs, cs ≠ [] → ∃ d i, host.waitAny (n + d) cs = .ok (some i)

theorem waitLoop_exits (quiet : Quiet host) (prompt : Prompt host) (h : Books host all refused s reported running)
    (n : ℕ) : ∃ passes code s', waitLoop host passes n s = .exited code s' := by
  induction hlen : running.length generalizing n s reported running with
  | zero =>
    obtain rfl := List.eq_nil_of_length_eq_zero hlen
    exact ⟨1, _, s, waitLoop_done h 0 n⟩
  | succ len ih =>
    have hne : running ≠ [] := List.ne_nil_of_length_eq_add_one hlen
    obtain ⟨d, i, hanswer⟩ := prompt n s.children (by simpa [h.children] using hne)
    obtain ⟨passes, m, p, rest, s', hperm, h', hloop⟩ := waitLoop_reaches_release quiet h hne hanswer
    have hrest : rest.length = len := by
      have := hperm.length_eq
      rw [List.length_cons] at this
      omega
    obtain ⟨more, code, t, ht⟩ := ih h' m hrest
    exact ⟨more + passes, code, t, (hloop more).trans ht⟩

theorem start_books : Books host [] False start [] [] :=
  { labels := rfl, children := rfl, stdout := rfl, perm := .refl _, failed := by simp [start] }

theorem launched_books (host : Host Child) (cwd : OsString) (cmds : List Argv) :
    Books host (spawned host cwd 0 cmds) (¬ AllSpawned host cwd 0 cmds)
      (installed host (spawnLoop host cwd 0 cmds start)) [] (spawned host cwd 0 cmds) := by
  have h : Books host ([] ++ spawned host cwd 0 cmds) (False ∨ ¬ AllSpawned host cwd 0 cmds)
      (spawnLoop host cwd 0 cmds start) [] ([] ++ spawned host cwd 0 cmds) := spawnLoop_books start_books
  simpa using installed_books h

theorem runAll_kept (quiet : Quiet host) (cwd : OsString) (cmds : List Argv) (passes : ℕ) :
    Kept host (spawned host cwd 0 cmds) (¬ AllSpawned host cwd 0 cmds) (runAll host cwd cmds passes) :=
  waitLoop_kept quiet passes 0 (launched_books host cwd cmds)

theorem Books.success_iff (h : Books host all refused s reported []) :
    (if s.failed then 1 else 0 : UInt8) = 0 ↔ ¬ refused ∧ ∀ p ∈ all, Clean host p := by
  have hperm : reported ~ all := by simpa using h.perm
  have hfailed : s.failed = false ↔ ¬ refused ∧ ∀ p ∈ reported, Clean host p := by
    rw [← Bool.not_eq_true, h.failed]
    simp
  simp only [hperm.mem_iff] at hfailed
  rw [← hfailed]
  cases s.failed <;> simp

theorem runAll_success_iff (quiet : Quiet host) {cmds : List Argv} {passes : ℕ} {code : UInt8}
    (hs : runAll host cwd cmds passes = .exited code s) :
    code = 0 ↔ AllSpawned host cwd 0 cmds ∧ ∀ p ∈ spawned host cwd 0 cmds, Clean host p := by
  have h := runAll_kept quiet cwd cmds passes
  rw [hs] at h
  obtain ⟨rfl, reported, h⟩ := h
  rw [h.success_iff, not_not]

end Books

theorem rpar_bookkeeping (host : Host Child) (quiet : Quiet host) (cwd : OsString) (cmds : List Argv) :
    (∀ passes s, runAll host cwd cmds passes = .looping s →
      ∃ reported running, s.labels = running.map Prod.fst ∧ s.children = running.map Prod.snd ∧
        s.stdout = reported.map (report host) ∧ reported ++ running ~ spawned host cwd 0 cmds) ∧
    (∀ passes code s, runAll host cwd cmds passes = .exited code s →
      (∃ reported, s.stdout = reported.map (report host) ∧ reported ~ spawned host cwd 0 cmds) ∧
        (code = 0 ↔ AllSpawned host cwd 0 cmds ∧ ∀ p ∈ spawned host cwd 0 cmds, Clean host p)) ∧
    (∀ passes, runAll host cwd cmds passes ≠ .panicked) ∧
    (Prompt host → ∃ passes code s, runAll host cwd cmds passes = .exited code s) := by
  refine ⟨fun passes s hs => ?_, fun passes code s hs => ⟨?_, runAll_success_iff quiet hs⟩, fun passes hp => ?_,
    fun prompt => waitLoop_exits quiet prompt (launched_books host cwd cmds) 0⟩
  all_goals have h := runAll_kept quiet cwd cmds passes
  · rw [hs] at h
    obtain ⟨reported, running, h⟩ := h
    exact ⟨reported, running, h.labels, h.children, h.stdout, h.perm⟩
  · rw [hs] at h
    obtain ⟨-, reported, h⟩ := h
    exact ⟨reported, h.stdout, by simpa using h.perm⟩
  · rwa [hp] at h

def demo : Host ℕ where
  toStringLossy := fun s => if s = [0x74] then "t" else "f"
  currentDir := .ok [0x2F]
  spawn := fun i _ => if i = 1 then .error (.new .notFound (.errno 2) "posix_spawnp") else .ok i
  install := .ok ()
  take := fun _ => none
  waitAny := fun n cs => .ok (if n = 0 then none else some (cs.length - 1))
  wait := fun c => .ok (.code (if c = 0 then 1 else 0))

def demoCommands : List Argv := commands [[0x66], [0x2D, 0x2D], [0x78], [0x2D, 0x2D], [0x74]]

theorem demo_quiet : Quiet demo where
  take := fun _ => rfl
  waitAny := by
    intro n cs h
    refine ⟨_, rfl, fun i hi => ?_⟩
    have := List.length_pos_of_ne_nil h
    by_cases hn : n = 0
    · simp [hn] at hi
    · simp only [hn, if_false, Option.mem_def, Option.some.injEq] at hi
      omega
  wait := fun c => .inl ⟨_, rfl⟩

theorem rpar_demo :
    runAll demo [0x2F] demoCommands 4 =
        .exited 1 ⟨[], [], true, ["[t] exited 0", "[f] exited 1"],
          [.error (.new .notFound (.errno 2) "posix_spawnp")]⟩ ∧
      ∃ reported, ["[t] exited 0", "[f] exited 1"] = reported.map (report demo) ∧
        reported ~ spawned demo [0x2F] 0 demoCommands := by
  have hrun : runAll demo [0x2F] demoCommands 4 =
      .exited 1 ⟨[], [], true, ["[t] exited 0", "[f] exited 1"],
        [.error (.new .notFound (.errno 2) "posix_spawnp")]⟩ := by
    rfl
  exact ⟨hrun, ((rpar_bookkeeping demo demo_quiet [0x2F] demoCommands).2.1 4 _ _ hrun).1⟩

theorem main_success_iff (host : Host Child) (quiet : Quiet host) {args : List OsString} {passes : ℕ}
    {code : UInt8} {s : State Child} (hs : main host args passes = .exited code s) :
    code = 0 ↔ commands args ≠ [] ∧ ∃ cwd, host.currentDir = .ok cwd ∧
      AllSpawned host cwd 0 (commands args) ∧ ∀ p ∈ spawned host cwd 0 (commands args), Clean host p := by
  rw [main] at hs
  split_ifs at hs with hempty
  · cases hs
    simp [hempty]
  cases hcwd : host.currentDir with
  | error e =>
    rw [hcwd] at hs
    cases hs
    simp
  | ok cwd =>
    rw [hcwd] at hs
    rw [runAll_success_iff quiet hs]
    simp [hempty]

end Rustils.Coreutils.Rpar
