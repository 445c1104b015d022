import Rustils.Platform.Fdio

namespace Rustils.Fs.ReadDir

open Platform
open Platform.Fdio (osErr kindOfErrno)

inductive FileType
  | file | dir | symlink | other
  deriving DecidableEq

structure Dirent where
  dName : List UInt8
  dType : UInt8

structure Stream where
  blocks : List {block : List Dirent // block ≠ []}
  failure : Option Int32

def Stream.entries (s : Stream) : List Dirent := s.blocks.flatMap (·.val)

def DT_DIR : UInt8 := 4
def DT_REG : UInt8 := 8
def DT_LNK : UInt8 := 10

def fileType (dType : UInt8) : FileType :=
  if dType = DT_REG then .file else if dType = DT_DIR then .dir else if dType = DT_LNK then .symlink else .other

abbrev Entry := List UInt8 × FileType

def isDot (e : Dirent) : Bool := e.dName = [0x2E] ∨ e.dName = [0x2E, 0x2E]

def push (out : List Entry) (e : Dirent) : List Entry := if isDot e then out else out ++ [(e.dName, fileType e.dType)]

structure DirStream where
  buffered : List Dirent
  rest : Stream

def readdir : DirStream → Except (Option Int32) Dirent × DirStream
  | ⟨e :: buffered, rest⟩ => (.ok e, ⟨buffered, rest⟩)
  | ⟨[], ⟨block :: blocks, failure⟩⟩ => (.ok (block.val.head block.property), ⟨block.val.tail, ⟨blocks, failure⟩⟩)
  | ⟨[], ⟨[], failure⟩⟩ => (.error failure, ⟨[], ⟨[], failure⟩⟩)

def DirStream.entries (d : DirStream) : List Dirent := d.buffered ++ d.rest.entries

theorem readdir_entries {d d' : DirStream} {e : Dirent} (h : readdir d = (.ok e, d')) : d.entries = e :: d'.entries := by
  obtain ⟨buffered, blocks, failure⟩ := d
  cases buffered with
  | cons e' buffered =>
    cases h
    rfl
  | nil =>
    cases blocks with
    | nil => cases h
    | cons block blocks =>
      cases h
      exact congrArg (· ++ _) (List.cons_head_tail block.property).symm

/-- The loop over `readdir`. At a null pointer `errno` is not looked at. -/
def readLoop (d : DirStream) (out : List Entry) : List Entry :=
  match _h : readdir d with
  | (.error _, _) => out
  | (.ok e, d') => readLoop d' (push out e)
termination_by d.entries.length
decreasing_by
  rw [readdir_entries _h]
  exact Nat.lt_succ_self _

def readDir (opened : Except Int32 Unit) (s : Stream) : Result (List Entry) :=
  match opened with
  | .error errno => .error (osErr "fdopendir" [] errno)
  | .ok () => .ok (readLoop ⟨[], s⟩ [])

namespace TrackP

def trackpErr (op : String) (errno : Int32) : PlatformError := .new (kindOfErrno errno) (.errno errno) op

def readBlocks (failure : Option Int32) : List {block : List Dirent // block ≠ []} → List Entry → Result (List Entry)
  | [], out =>
    match failure with
    | some errno => .error (trackpErr "getdents64" errno)
    | none => .ok out
  | block :: blocks, out => readBlocks failure blocks (block.val.foldl push out)

def readDir (s : Stream) : Result (List Entry) := readBlocks s.failure s.blocks []

end TrackP

def listing (entries : List Dirent) : List Entry :=
  (entries.filter fun e => !isDot e).map fun e => (e.dName, fileType e.dType)

theorem push_eq (out : List Entry) (e : Dirent) : push out e = out ++ listing [e] := by
  unfold push listing
  cases h : isDot e <;> simp [h]

theorem listing_cons (e : Dirent) (entries : List Dirent) : listing (e :: entries) = listing [e] ++ listing entries := by
  rw [← List.singleton_append, listing, listing, listing, List.filter_append, List.map_append]

theorem foldl_push (entries : List Dirent) (out : List Entry) : entries.foldl push out = out ++ listing entries := by
  induction entries generalizing out with
  | nil => exact (List.append_nil out).symm
  | cons e entries ih => rw [List.foldl_cons, ih, push_eq, List.append_assoc, ← listing_cons]

theorem readdir_end {d d' : DirStream} {failure : Option Int32} (h : readdir d = (.error failure, d')) : d.entries = [] := by
  obtain ⟨buffered, blocks, failure'⟩ := d
  cases buffered with
  | cons e buffered => cases h
  | nil =>
    cases blocks with
    | cons block blocks => cases h
    | nil => rfl

theorem readLoop_eq (d : DirStream) (out : List Entry) : readLoop d out = out ++ listing d.entries := by
  fun_induction readLoop d out with
  | case1 d out failure d' h =>
    rw [readdir_end h]
    exact (List.append_nil out).symm
  | case2 d out e d' h ih => rw [ih, push_eq, List.append_assoc, readdir_entries h, ← listing_cons]

theorem readDir_ok (s : Stream) : readDir (.ok ()) s = .ok (listing s.entries) :=
  congrArg Except.ok (readLoop_eq ⟨[], s⟩ [])

namespace TrackP

theorem readBlocks_eq (failure : Option Int32) (blocks : List {block : List Dirent // block ≠ []}) (out : List Entry) :
    readBlocks failure blocks out =
      match failure with
      | some errno => .error (trackpErr "getdents64" errno)
      | none => .ok (out ++ listing (Stream.entries ⟨blocks, failure⟩)) := by
  induction blocks generalizing out with
  | nil => cases failure <;> simp [readBlocks, Stream.entries, listing]
  | cons block blocks ih =>
    rw [readBlocks, ih]
    cases failure with
    | some errno => rfl
    | none => simp [foldl_push, Stream.entries, listing]

theorem readDir_eq (s : Stream) :
    readDir s =
      match s.failure with
      | some errno => .error (trackpErr "getdents64" errno)
      | none => .ok (listing s.entries) := readBlocks_eq s.failure s.blocks []

end TrackP

def Complete (s : Stream) (r : Result (List Entry)) : Prop :=
  ∀ list, r = .ok list → s.failure = none ∧ list = listing s.entries

theorem trackP_complete (s : Stream) : Complete s (TrackP.readDir s) := by
  intro list h
  rw [TrackP.readDir_eq] at h
  cases hf : s.failure with
  | some errno =>
    rw [hf] at h
    cases h
  | none =>
    rw [hf] at h
    exact ⟨rfl, (Except.ok.inj h).symm⟩

theorem read_dir_complete_iff (opened : Except Int32 Unit) (s : Stream) :
    (Complete s (readDir opened s) ∧ Complete s (TrackP.readDir s) ∧
      (opened = .ok () → readDir opened s = TrackP.readDir s)) ↔ (opened = .ok () → s.failure = none) := by
  constructor
  · rintro ⟨hlibc, -, -⟩ rfl
    exact (hlibc _ (readDir_ok s)).1
  · intro h
    refine ⟨?_, trackP_complete s, ?_⟩
    · intro list hlist
      rcases opened with errno | ⟨⟩
      · cases hlist
      · exact ⟨h rfl, (Except.ok.inj ((readDir_ok s).symm.trans hlist)).symm⟩
    · rintro rfl
      rw [readDir_ok, TrackP.readDir_eq, h rfl]

def failing : Stream := ⟨[⟨[⟨[0x61], DT_REG⟩], by decide⟩], some 5⟩

theorem read_failure_shortens_list :
    readDir (.ok ()) failing = .ok [([0x61], .file)] ∧
      TrackP.readDir failing = .error (.new .other (.errno 5) "getdents64") ∧
        ¬Complete failing (readDir (.ok ()) failing) := by
  have hlist : readDir (.ok ()) failing = .ok [([0x61], .file)] := readDir_ok failing
  refine ⟨hlist, rfl, fun h => ?_⟩
  cases (h _ hlist).1

end Rustils.Fs.ReadDir
