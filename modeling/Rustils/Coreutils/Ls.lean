import Mathlib.Data.List.Forall2
import Rustils.Coreutils.Timestamps
import Rustils.Fs.ReadDir
import Rustils.Lib.Columns
import Rustils.MockFs.Dir

namespace Rustils.Coreutils.Ls

open Lib Lib.Fuel Lib.Columns Lib.Calendar Timestamps
open Fs.ReadDir (FileType)
open MockFs (UnixMode)

def triplet (bits readBit writeBit execBit : UInt16) (special : Bool) (lower upper : Char) : List Char :=
  [if bits &&& readBit ≠ 0 then 'r' else '-',
   if bits &&& writeBit ≠ 0 then 'w' else '-',
   match special, decide (bits &&& execBit ≠ 0) with
   | true, true => lower
   | true, false => upper
   | false, true => 'x'
   | false, false => '-']

def typePermString (fileType : FileType) (unixMode : Option UnixMode) : List Char :=
  let typeChar :=
    match fileType with
    | .file => '-'
    | .dir => 'd'
    | .symlink => 'l'
    | .other => '?'
  match unixMode with
  | none => typeChar :: List.replicate 9 '-'
  | some mode =>
    let bits := mode.permissions
    typeChar :: (triplet bits 0o400 0o200 0o100 mode.setuid 's' 'S' ++ triplet bits 0o040 0o020 0o010 mode.setgid 's' 'S' ++
      triplet bits 0o004 0o002 0o001 mode.sticky 't' 'T')

structure Metadata (scale : TimeScale) where
  len : UInt64
  nlink : UInt64
  modified : SystemTime scale

structure LongEntry (scale : TimeScale) (OsStr : Type) where
  name : OsStr
  fileType : FileType
  metadata : Metadata scale
  unixMode : Option UnixMode
  symlinkTarget : Option OsStr

structure Rendered where
  typePerm : List Char
  nlink : List Char
  owner : List Char
  group : List Char
  size : List Char
  date : List Char
  name : List Char

def len (s : List Char) : ℕ := (s.map Char.utf8Size).sum

structure Widths where
  nlink : ℕ
  owner : ℕ
  group : ℕ
  size : ℕ

def Widths.of (rendered : List Rendered) : Widths where
  nlink := widest len (rendered.map (·.nlink))
  owner := widest len (rendered.map (·.owner))
  group := widest len (rendered.map (·.group))
  size := widest len (rendered.map (·.size))

def Rendered.fields (w : Widths) (r : Rendered) : List (List Char) :=
  [r.typePerm, toRight ' ' w.nlink r.nlink, toLeft ' ' w.owner r.owner, toLeft ' ' w.group r.group,
    toRight ' ' w.size r.size, r.date]

def Rendered.line (w : Widths) (r : Rendered) : List Char := ((r.fields w).flatMap (· ++ [' '])) ++ r.name

section Format

variable {ε : Type} {scale : TimeScale} {OsStr σ : Type} (toStringLossy : OsStr → List Char)

def nameText (e : LongEntry scale OsStr) : List Char :=
  match e.symlinkTarget with
  | some target => toStringLossy e.name ++ " -> ".toList ++ toStringLossy target
  | none => toStringLossy e.name

variable (now : SystemTime scale) (resolveUser resolveGroup : σ → UInt32 → List Char × σ)

def owned (resolve : σ → UInt32 → List Char × σ) (id : UnixMode → UInt32) (unixMode : Option UnixMode) (s : σ) :
    List Char × σ :=
  match unixMode with
  | none => (['-'], s)
  | some m => resolve s (id m)

def rendered (e : LongEntry scale OsStr) (s : σ) : Exec ε (Rendered × σ) := do
  let (owner, s) := owned resolveUser (·.uid) e.unixMode s
  let (group, s) := owned resolveGroup (·.gid) e.unixMode s
  let date ← formatDate e.metadata.modified now
  pure (⟨typePermString e.fileType e.unixMode, Nat.toDigits 10 e.metadata.nlink.toNat, owner, group,
    Nat.toDigits 10 e.metadata.len.toNat, date, nameText toStringLossy e⟩, s)

def allRendered : List (LongEntry scale OsStr) → σ → Exec ε (List Rendered)
  | [], _ => pure []
  | e :: es, s => do
    let (r, s) ← rendered toStringLossy now resolveUser resolveGroup e s
    let rs ← allRendered es s
    pure (r :: rs)

/-- The resolvers may remember what they were asked, in `σ`. -/
def formatLong (entries : List (LongEntry scale OsStr)) (s : σ) : Exec ε (List (List Char)) := do
  let rs ← allRendered toStringLossy now resolveUser resolveGroup entries s
  pure (rs.map (·.line (Widths.of rs)))

def BeginsAt (column : ℕ) (line name : List Char) : Prop := ∃ front, line = front ++ name ∧ front.length = column

def LinesUp (entries : List (LongEntry scale OsStr)) (s : σ) : Prop :=
  ∃ lines, formatLong toStringLossy now resolveUser resolveGroup entries s = (.ok lines : Exec Empty _) ∧
    ∃ column, List.Forall₂ (fun line e => BeginsAt column line (nameText toStringLossy e)) lines entries

end Format

section Date

variable {scale : TimeScale}

structure Dated (t now : SystemTime scale) : Prop where
  of_modified : -0x8000000000000000 < wholeSeconds t
  of_now : -0x8000000000000000 < wholeSeconds now
  ago : wholeSeconds now - wholeSeconds t < 0x8000000000000000

def Shows (r : Reading) (s : ℤ) : Prop := r.seconds ≤ s ∧ s < r.seconds + 60

def DateWidth (t now : SystemTime scale) (n : ℕ) : Prop :=
  if Recent (wholeSeconds t) (wholeSeconds now) then n = 12
  else ∃ r, Shows r (wholeSeconds t) ∧ n = 8 + (signed r.date.year).length

end Date

inductive Target
  | posix
  | windows

def Target.scale : Target → TimeScale
  | .posix => .posix
  | .windows => .windows

theorem length_typePermString (fileType : FileType) (unixMode : Option UnixMode) :
    (typePermString fileType unixMode).length = 10 := by
  cases unixMode <;> simp [typePermString, triplet]

theorem length_le_len (s : List Char) : s.length ≤ len s := by
  induction s with
  | nil => exact Nat.le_refl 0
  | cons c s ih =>
    simp only [len] at ih
    simp only [len, List.map_cons, List.sum_cons, List.length_cons]
    have := c.utf8Size_pos
    omega

section Rows

variable {rs : List Rendered} {r : Rendered}

theorem length_le_width (field : Rendered → List Char) (h : r ∈ rs) : (field r).length ≤ widest len (rs.map field) :=
  length_le_widest length_le_len (List.mem_map_of_mem h)

theorem fields_widths (h : r ∈ rs) : (r.fields (Widths.of rs)).map List.length =
    [r.typePerm.length, (Widths.of rs).nlink, (Widths.of rs).owner, (Widths.of rs).group, (Widths.of rs).size, r.date.length] := by
  have hnlink : r.nlink.length ≤ (Widths.of rs).nlink := length_le_width (·.nlink) h
  have howner : r.owner.length ≤ (Widths.of rs).owner := length_le_width (·.owner) h
  have hgroup : r.group.length ≤ (Widths.of rs).group := length_le_width (·.group) h
  have hsize : r.size.length ≤ (Widths.of rs).size := length_le_width (·.size) h
  simp only [Rendered.fields, List.map_cons, List.map_nil]
  rw [length_toRight hnlink, length_toLeft howner, length_toLeft hgroup, length_toRight hsize]

def Widths.total (w : Widths) : ℕ := w.nlink + w.owner + w.group + w.size

theorem length_front (h : r ∈ rs) (htype : r.typePerm.length = 10) :
    ((r.fields (Widths.of rs)).flatMap (· ++ [' '])).length = (Widths.of rs).total + 16 + r.date.length := by
  have hfields := fields_widths h
  simp only [Rendered.fields, List.map_cons, List.map_nil, List.cons.injEq, and_true] at hfields
  simp only [Rendered.fields, List.flatMap_cons, List.flatMap_nil, List.length_append, List.length_cons, List.length_nil,
    Widths.total]
  omega

end Rows

theorem beginsAt_iff {front name : List Char} {column : ℕ} : BeginsAt column (front ++ name) name ↔ front.length = column := by
  constructor
  · rintro ⟨front', heq, hlen⟩
    rw [List.append_cancel_right heq, hlen]
  · intro h
    exact ⟨front, rfl, h⟩

section Format

variable {ε : Type} {scale : TimeScale} {OsStr σ : Type} {toStringLossy : OsStr → List Char} {now : SystemTime scale}
  {resolveUser resolveGroup : σ → UInt32 → List Char × σ}

structure RowOf (toStringLossy : OsStr → List Char) (now : SystemTime scale) (r : Rendered) (e : LongEntry scale OsStr) : Prop where
  typePerm : r.typePerm.length = 10
  date : formatDate e.metadata.modified now = (.ok r.date : Exec Empty _)
  name : r.name = nameText toStringLossy e

theorem rendered_ok {e : LongEntry scale OsStr} {s s' : σ} {r : Rendered}
    (h : rendered toStringLossy now resolveUser resolveGroup e s = (.ok (r, s') : Exec Empty _)) : RowOf toStringLossy now r e := by
  obtain ⟨date, hdate, hr⟩ := bind_eq_ok.mp h
  obtain ⟨rfl, -⟩ := Prod.mk.inj (Except.ok.inj hr)
  exact ⟨length_typePermString _ _, hdate, rfl⟩

theorem rendered_returns {e : LongEntry scale OsStr} {date : List Char} (s : σ)
    (h : formatDate e.metadata.modified now = (.ok date : Exec Empty _)) :
    ∃ r s', rendered toStringLossy now resolveUser resolveGroup e s = (.ok (r, s') : Exec Empty _) :=
  ⟨_, _, bind_eq_ok.mpr ⟨date, h, rfl⟩⟩

theorem allRendered_ok {es : List (LongEntry scale OsStr)} {s : σ} {rs : List Rendered}
    (h : allRendered toStringLossy now resolveUser resolveGroup es s = (.ok rs : Exec Empty _)) :
    List.Forall₂ (RowOf toStringLossy now) rs es := by
  induction es generalizing s rs with
  | nil =>
    obtain rfl := Except.ok.inj h
    exact .nil
  | cons e es ih =>
    obtain ⟨⟨r, s'⟩, hr, h⟩ := bind_eq_ok.mp h
    obtain ⟨rs', hrs, h⟩ := bind_eq_ok.mp h
    obtain rfl := Except.ok.inj h
    exact .cons (rendered_ok hr) (ih hrs)

theorem allRendered_returns {es : List (LongEntry scale OsStr)} (s : σ)
    (h : ∀ e ∈ es, ∃ date, formatDate e.metadata.modified now = (.ok date : Exec Empty _)) :
    ∃ rs, allRendered toStringLossy now resolveUser resolveGroup es s = (.ok rs : Exec Empty _) := by
  induction es generalizing s with
  | nil => exact ⟨[], rfl⟩
  | cons e es ih =>
    obtain ⟨⟨date, hdate⟩, h⟩ := List.forall_mem_cons.mp h
    obtain ⟨r, s', hr⟩ := rendered_returns s hdate
    obtain ⟨rs, hrs⟩ := ih s' h
    exact ⟨r :: rs, bind_eq_ok.mpr ⟨_, hr, bind_eq_ok.mpr ⟨rs, hrs, rfl⟩⟩⟩

theorem names_begin_at {rs : List Rendered} {es : List (LongEntry scale OsStr)} {w : Widths} {k column : ℕ}
    (hrows : List.Forall₂ (RowOf toStringLossy now) rs es)
    (hfront : ∀ r ∈ rs, ((r.fields w).flatMap (· ++ [' '])).length = k + r.date.length) :
    List.Forall₂ (fun r e => BeginsAt column (r.line w) (nameText toStringLossy e)) rs es ↔
      ∀ r ∈ rs, k + r.date.length = column := by
  induction hrows with
  | nil => simp
  | @cons r e rs es hr _ ih =>
    obtain ⟨hfirst, hfront⟩ := List.forall_mem_cons.mp hfront
    rw [List.forall₂_cons, List.forall_mem_cons, ih hfront, Rendered.line, ← hr.name, beginsAt_iff, hfirst]

theorem rows_fronts {rs : List Rendered} {es : List (LongEntry scale OsStr)} (hrows : List.Forall₂ (RowOf toStringLossy now) rs es) :
    ∀ r ∈ rs, ((r.fields (Widths.of rs)).flatMap (· ++ [' '])).length = (Widths.of rs).total + 16 + r.date.length := by
  have htypes : ∀ r ∈ rs, r.typePerm.length = 10 :=
    ((List.forall₂_and_left rs es).mp (hrows.imp fun _ _ h => ⟨h.typePerm, h⟩)).1
  exact fun r hr => length_front hr (htypes r hr)

theorem dates_of_rows {rs : List Rendered} {es : List (LongEntry scale OsStr)} {n : ℕ}
    (hrows : List.Forall₂ (RowOf toStringLossy now) rs es) :
    (∀ e ∈ es, ∃ date, formatDate e.metadata.modified now = (.ok date : Exec Empty _) ∧ date.length = n) ↔
      ∀ r ∈ rs, r.date.length = n := by
  induction hrows with
  | nil => simp
  | @cons r e rs es hr _ ih =>
    rw [List.forall_mem_cons, List.forall_mem_cons, ih, hr.date]
    simp

theorem linesUp_iff_dates {es : List (LongEntry scale OsStr)} {s : σ} : LinesUp toStringLossy now resolveUser resolveGroup es s ↔
    ∃ n, ∀ e ∈ es, ∃ date, formatDate e.metadata.modified now = (.ok date : Exec Empty _) ∧ date.length = n := by
  constructor
  · rintro ⟨lines, hlines, column, hcolumn⟩
    obtain ⟨rs, hrs, hlines⟩ := bind_eq_ok.mp hlines
    obtain rfl := Except.ok.inj hlines
    have hrows := allRendered_ok hrs
    rw [List.forall₂_map_left_iff, names_begin_at hrows (rows_fronts hrows)] at hcolumn
    refine ⟨column - ((Widths.of rs).total + 16), (dates_of_rows hrows).mpr fun r hr => ?_⟩
    have := hcolumn r hr
    omega
  · rintro ⟨n, hdates⟩
    obtain ⟨rs, hrs⟩ := allRendered_returns s fun e he => (hdates e he).imp fun _ => And.left
    have hrows := allRendered_ok hrs
    refine ⟨_, bind_eq_ok.mpr ⟨rs, hrs, rfl⟩, (Widths.of rs).total + 16 + n, ?_⟩
    rw [List.forall₂_map_left_iff, names_begin_at hrows (rows_fronts hrows)]
    intro r hr
    rw [(dates_of_rows hrows).mp hdates r hr]

end Format

section Dates

variable {ε : Type} {scale : TimeScale}

theorem length_padded {fill : Char} {n : ℕ} (h : n < 100) : (padded fill 2 n).length = 2 := by
  have hle : (Nat.toDigits 10 n).length ≤ 2 := (Nat.length_toDigits_le_iff (by decide) (by decide)).mpr h
  simp [padded, hle]

theorem length_month {i : ℕ} {mon : List Char} (h : MONTH_NAMES[i]? = some mon) : mon.length = 3 := by
  have hall : ∀ mon ∈ MONTH_NAMES, mon.length = 3 := by decide
  exact hall mon (List.mem_of_getElem? h)

theorem monthLength_le (y : ℤ) (m : ℕ) : monthLength y m ≤ 31 := by
  unfold monthLength
  split <;> (try split) <;> omega

theorem length_dateText {recent : Bool} {mon : List Char} {r : Reading} (hmon : mon.length = 3) :
    (dateText recent mon r.date.year r.date.day r.hour r.minute).length =
      if recent then 12 else 8 + (signed r.date.year).length := by
  have hday := r.date.day_mem.2
  have hmonth := monthLength_le r.date.year r.date.month
  have hhour := r.hour_lt
  have hminute := r.minute_lt
  simp only [dateText]
  split_ifs
  · simp only [List.length_append, List.length_cons, hmon, length_padded (show r.date.day < 100 by omega),
      length_padded (show r.hour < 100 by omega), length_padded (show r.minute < 100 by omega)]
  · simp only [List.length_append, List.length_cons, hmon, length_padded (show r.date.day < 100 by omega)]
    omega

theorem shows_unique {r r' : Reading} {s : ℤ} (h : Shows r s) (h' : Shows r' s) : r = r' :=
  le_antisymm (Reading.le_of_during h.1 (Int.le_refl s) h'.2) (Reading.le_of_during h'.1 (Int.le_refl s) h.2)

theorem Target.bounds (target : Target) (t : SystemTime target.scale) :
    -0x8000000000000000 ≤ wholeSeconds t ∧ wholeSeconds t < 0x8000000000000000 := by
  cases target with
  | posix => exact wholeSeconds_bounds t
  | windows =>
    have h : TimeScale.windows.first ≤ t.ticks ∧ t.ticks < TimeScale.windows.limit := t.fits
    rw [TimeScale.windows_first, TimeScale.windows_limit] at h
    change -0x8000000000000000 ≤ (t.ticks * TimeScale.windows.tick).tdiv 1000000000 ∧
      (t.ticks * TimeScale.windows.tick).tdiv 1000000000 < 0x8000000000000000
    rw [TimeScale.windows_tick, Lib.Machine.tdiv_of_pos (by decide)]
    split_ifs <;> omega

theorem formatDate_dated {t now : SystemTime scale} (h : Dated t now) (ht : wholeSeconds t < 0x8000000000000000)
    (hnow : wholeSeconds now < 0x8000000000000000) :
    ∃ r date, Shows r (wholeSeconds t) ∧ formatDate t now = (.ok date : Exec ε _) ∧
      date.length = if Recent (wholeSeconds t) (wholeSeconds now) then 12 else 8 + (signed r.date.year).length := by
  obtain ⟨r, hlo, hhi, mon, hmon, hdate⟩ := formatDate_eq (ε := ε) (unixSeconds_eq h.of_modified ht) (unixSeconds_eq h.of_now hnow)
    ⟨Int.le_of_lt h.of_modified, ht⟩ h.ago
  refine ⟨r, _, ⟨hlo, hhi⟩, hdate, ?_⟩
  simp [length_dateText (length_month hmon)]

theorem dated_of_returns (target : Target) {t now : SystemTime target.scale} {date : List Char}
    (h : formatDate t now = (.ok date : Exec ε _)) : Dated t now := by
  have ht := target.bounds t
  have hnow := target.bounds now
  have hmodified : -0x8000000000000000 < wholeSeconds t := by
    apply lt_of_le_of_ne ht.1
    intro hmin
    rw [formatDate, unixSeconds_panics hmin.symm, error_bind] at h
    cases h
  have hu : unixSeconds t = (.ok (wholeSeconds t) : Exec ε ℤ) := unixSeconds_eq hmodified ht.2
  have hnow' : -0x8000000000000000 < wholeSeconds now := by
    apply lt_of_le_of_ne hnow.1
    intro hmin
    rw [formatDate, hu, ok_bind, unixSeconds_panics hmin.symm, error_bind] at h
    cases h
  refine ⟨hmodified, hnow', Int.lt_of_not_ge fun hago => ?_⟩
  rw [formatDate_panics hu (unixSeconds_eq hnow' hnow.2) hago] at h
  cases h

theorem date_width_iff (target : Target) {t now : SystemTime target.scale} {n : ℕ} :
    (∃ date, formatDate t now = (.ok date : Exec ε _) ∧ date.length = n) ↔ Dated t now ∧ DateWidth t now n := by
  constructor
  · rintro ⟨date, hdate, hlen⟩
    have hdated := dated_of_returns target hdate
    obtain ⟨r, date', hr, hdate', hlen'⟩ := formatDate_dated (ε := ε) hdated (target.bounds t).2 (target.bounds now).2
    obtain rfl := Except.ok.inj (hdate.symm.trans hdate')
    refine ⟨hdated, ?_⟩
    rw [DateWidth, ← hlen, hlen']
    split_ifs
    · rfl
    · exact ⟨r, hr, rfl⟩
  · rintro ⟨hdated, hwidth⟩
    obtain ⟨r, date, hr, hdate, hlen⟩ := formatDate_dated (ε := ε) hdated (target.bounds t).2 (target.bounds now).2
    refine ⟨date, hdate, ?_⟩
    rw [DateWidth] at hwidth
    rw [hlen]
    split_ifs at hwidth ⊢
    · exact hwidth.symm
    · obtain ⟨r', hr', hn⟩ := hwidth
      rw [hn, shows_unique hr hr']

end Dates

theorem format_long_lines_up_iff (target : Target) {OsStr σ : Type} (toStringLossy : OsStr → List Char)
    (now : SystemTime target.scale) (resolveUser resolveGroup : σ → UInt32 → List Char × σ)
    (entries : List (LongEntry target.scale OsStr)) (s : σ) :
    LinesUp toStringLossy now resolveUser resolveGroup entries s ↔
      ∃ n, ∀ e ∈ entries, Dated e.metadata.modified now ∧ DateWidth e.metadata.modified now n := by
  rw [linesUp_iff_dates]
  simp only [date_width_iff target]

def aFile (modified : SystemTime .posix) : LongEntry .posix Unit := ⟨(), .file, ⟨0, 1, modified⟩, none, none⟩

def farAhead : SystemTime .posix := ⟨253402300800000000000, by decide⟩

theorem five_digit_year_shifts_the_name :
    ¬ LinesUp (fun _ => "a".toList) SystemTime.unixEpoch (fun _ _ => ("u".toList, ())) (fun _ _ => ("g".toList, ()))
      [aFile SystemTime.unixEpoch, aFile farAhead] () := by
  rw [linesUp_iff_dates]
  rintro ⟨n, h⟩
  obtain ⟨date, hdate, hn⟩ := h _ (List.mem_cons_self)
  obtain ⟨date', hdate', hn'⟩ := h (aFile farAhead) (by simp)
  have hepoch : (formatDate (SystemTime.unixEpoch : SystemTime .posix) SystemTime.unixEpoch : Exec Empty _) =
    .ok "Jan  1 00:00".toList := rfl
  have hfar : (formatDate farAhead SystemTime.unixEpoch : Exec Empty _) = .ok "Jan  1  10000".toList := rfl
  obtain rfl := Except.ok.inj (hepoch.symm.trans hdate)
  obtain rfl := Except.ok.inj (hfar.symm.trans hdate')
  rw [← hn'] at hn
  revert hn
  decide

end Rustils.Coreutils.Ls
