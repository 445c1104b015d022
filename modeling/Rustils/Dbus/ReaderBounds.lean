import Rustils.Dbus.Unmarshal
import Rustils.Dbus.WireFormat

namespace Rustils.Dbus

open Platform Lib.Fuel Lib.Machine Lib.Utf8 Lib.LittleEndian

section Bounds

variable {buf : Slice} {off stop : ℕ}

theorem addUsize_ok {a b c : ℕ} (h : addUsize a b = (.ok c : Outcome ℕ)) : c = a + b := by
  unfold addUsize at h
  split_ifs at h
  exact (Except.ok.inj h).symm

theorem take_ok {n : ℕ} {bytes : List UInt8} (h : take buf off n = .ok (bytes, stop)) :
    stop = off + n ∧ stop ≤ buf.length ∧ bytes = (buf.bytes.drop off).take n := by
  simp only [take, bind_eq_ok] at h
  obtain ⟨a, ha, h⟩ := h
  split_ifs at h
  cases h
  exact ⟨addUsize_ok ha, by omega, rfl⟩

theorem alignRead_ok {a : ℕ} (hal : IsAlign a) (h : alignRead buf off a = .ok stop) :
    stop = off + padding off a ∧ stop ≤ buf.length := by
  simp only [alignRead, bind_eq_ok] at h
  obtain ⟨t, ht, h⟩ := h
  split_ifs at h
  cases h
  unfold mulUsize at ht
  split_ifs at ht
  rw [add_padding hal]
  exact ⟨(Except.ok.inj ht).symm, by omega⟩

theorem alignRead_of_le {a : ℕ} (hal : IsAlign a) (h : off + padding off a ≤ buf.length) :
    alignRead buf off a = .ok (off + padding off a) := by
  have hfit := buf.length_lt
  rw [alignRead, mulUsize, ← add_padding hal, if_pos (by omega), pure_eq_ok, ok_bind, if_neg (by omega),
    pure_eq_ok]

theorem takeLe_ok {n x : ℕ} (h : takeLe buf off n = .ok (x, stop)) :
    stop = off + n ∧ stop ≤ buf.length ∧ x < 256 ^ n ∧ x = leNat ((buf.bytes.drop off).take n) := by
  simp only [takeLe, bind_eq_ok] at h
  obtain ⟨⟨bytes, stop⟩, ht, h⟩ := h
  obtain ⟨hstop, hle, hbytes⟩ := take_ok ht
  split_ifs at h with hlen
  cases h
  exact ⟨hstop, hle, hlen ▸ leNat_lt bytes, hbytes ▸ rfl⟩

theorem takeByte_ok {b : UInt8} (h : takeByte buf off = .ok (b, stop)) :
    stop = off + 1 ∧ stop ≤ buf.length := by
  simp only [takeByte, bind_eq_ok] at h
  obtain ⟨⟨bytes, stop⟩, ht, h⟩ := h
  obtain ⟨hstop, hle, -⟩ := take_ok ht
  split at h
  · cases h
    exact ⟨hstop, hle⟩
  · cases h

theorem takeText_ok {n : ℕ} {detail s : String} (h : takeText buf off n detail = .ok (s, stop)) :
    stop = off + n + 1 ∧ stop ≤ buf.length ∧ asBytes s = (buf.bytes.drop off).take n := by
  simp only [takeText, bind_eq_ok] at h
  obtain ⟨⟨bytes, mid⟩, ht, ⟨nul, stop⟩, ht', h⟩ := h
  obtain ⟨hmid, -, hbytes⟩ := take_ok ht
  obtain ⟨hstop, hle, -⟩ := take_ok ht'
  split at h
  · rename_i hs
    cases h
    exact ⟨by omega, hle, (fromUtf8_eq_some.mp hs).trans hbytes⟩
  · cases h

theorem unmarshalString_ok {s : String} (h : unmarshalString buf off = .ok (s, stop)) :
    off < stop ∧ stop ≤ buf.length := by
  simp only [unmarshalString, bind_eq_ok] at h
  obtain ⟨start, ha, ⟨n, mid⟩, ht, h⟩ := h
  obtain ⟨hstart, -⟩ := alignRead_ok isAlign_four ha
  obtain ⟨hmid, -, -, -⟩ := takeLe_ok ht
  obtain ⟨hstop, hle, -⟩ := takeText_ok h
  exact ⟨by omega, hle⟩

theorem unmarshalSignature_ok {s : String} (h : unmarshalSignature buf off = .ok (s, stop)) :
    off < stop ∧ stop ≤ buf.length ∧ len s ≤ 255 := by
  simp only [unmarshalSignature, bind_eq_ok] at h
  obtain ⟨⟨n, mid⟩, ht, h⟩ := h
  obtain ⟨hmid, -⟩ := takeByte_ok ht
  obtain ⟨hstop, hle, hs⟩ := takeText_ok h
  refine ⟨by omega, hle, ?_⟩
  have hn := n.toNat_lt
  have hlen : len s = _ := congrArg List.length hs
  rw [List.length_take] at hlen
  have := Nat.min_le_left n.toNat (buf.bytes.drop mid).length
  dsimp only at hlen
  omega

theorem unmarshalBasic_ok {b : Basic} {v : Value} (h : unmarshalBasic b buf off = .ok (v, stop)) :
    off < stop ∧ stop ≤ buf.length := by
  cases b with
  | byte =>
    simp only [unmarshalBasic, bind_eq_ok] at h
    obtain ⟨⟨x, mid⟩, ht, h⟩ := h
    cases h
    have := takeByte_ok ht
    omega
  | boolean =>
    simp only [unmarshalBasic, bind_eq_ok] at h
    obtain ⟨start, ha, ⟨x, mid⟩, ht, h⟩ := h
    cases h
    have := alignRead_ok isAlign_four ha
    have := takeLe_ok ht
    omega
  | num k =>
    simp only [unmarshalBasic, bind_eq_ok] at h
    obtain ⟨start, ha, ⟨x, mid⟩, ht, h⟩ := h
    cases h
    have := alignRead_ok k.isAlign_width ha
    have := takeLe_ok ht
    have hk : 0 < k.width := by cases k <;> decide
    omega
  | string | objectPath =>
    simp only [unmarshalBasic, bind_eq_ok] at h
    obtain ⟨⟨x, mid⟩, ht, h⟩ := h
    cases h
    exact unmarshalString_ok ht
  | signature =>
    simp only [unmarshalBasic, bind_eq_ok] at h
    obtain ⟨⟨x, mid⟩, ht, h⟩ := h
    cases h
    exact ⟨(unmarshalSignature_ok ht).1, (unmarshalSignature_ok ht).2.1⟩

theorem sliceOrPanic_ok {s t : String} {a b : ℕ} : sliceOrPanic s a b = .ok t ↔ slice s a b = some t := by
  unfold sliceOrPanic
  split <;> simp_all

theorem firstByte_ok {ty : String} {c : UInt8} : firstByte ty = .ok c ↔ (asBytes ty).head? = some c := by
  unfold firstByte
  split <;> simp_all

theorem elemAlign_of_firstByte {elemSig : String} {e : UInt8} (h : firstByte elemSig = .ok e) :
    elemAlign elemSig = alignOf e := by
  obtain ⟨rest, hrest⟩ := List.head?_eq_some_iff.mp (firstByte_ok.mp h)
  rw [elemAlign, hrest]

theorem arrayHeader_ok {ty elemSig : String} {start : ℕ} (h : arrayHeader ty buf off = .ok (elemSig, start, stop)) :
    off + 4 ≤ start ∧ start ≤ stop ∧ stop ≤ buf.length ∧ slice ty 1 (len ty) = some elemSig ∧
      start = contentStart off elemSig := by
  simp only [arrayHeader, bind_eq_ok] at h
  obtain ⟨a, ha, ⟨n, mid⟩, ht, elem, hs, e, he, start', hst, stop', hadd, h⟩ := h
  split_ifs at h
  cases h
  obtain ⟨hoff, -⟩ := alignRead_ok isAlign_four ha
  obtain ⟨hmid, -, -, -⟩ := takeLe_ok ht
  obtain ⟨hstart, -⟩ := alignRead_ok (isAlign_alignOf e) hst
  have hstop := addUsize_ok hadd
  have halign := elemAlign_of_firstByte he
  refine ⟨by omega, by omega, by omega, sliceOrPanic_ok.mp hs, ?_⟩
  rw [contentStart, halign, hstart]
  dsimp only
  rw [hmid, hoff]

theorem bracketHeader_ok {ty inner : String} {start : ℕ} (h : bracketHeader ty buf off = .ok (inner, start)) :
    start = off + padding off 8 ∧ start ≤ buf.length ∧ slice ty 1 (len ty - 1) = some inner := by
  simp only [bracketHeader, bind_eq_ok] at h
  obtain ⟨a, ha, s, hs, h⟩ := h
  cases h
  obtain ⟨hstart, hle⟩ := alignRead_ok isAlign_eight ha
  exact ⟨hstart, hle, sliceOrPanic_ok.mp hs⟩

theorem len_inner {ty inner : String} (h : slice ty 1 (len ty - 1) = some inner) : len inner + 2 ≤ len ty := by
  obtain ⟨x, z, rfl, hx, hb⟩ := slice_eq_some.mp h
  simp only [len_append] at hb ⊢
  omega

theorem variantHeader_ok {innerSig : String} {start : ℕ} (h : variantHeader buf off = .ok (innerSig, start)) :
    off < start ∧ start ≤ buf.length ∧ len innerSig ≤ 255 := by
  simp only [variantHeader, bind_eq_ok] at h
  obtain ⟨⟨s, mid⟩, hs, n, -, h⟩ := h
  split_ifs at h
  cases h
  exact unmarshalSignature_ok hs

end Bounds

section Quiet

def Foreign (e : Stop PlatformError) : Prop :=
  e = .unfinished ∨ ∃ x, e = .err x ∧ x.kind ≠ .invalidInput

def Quiet (buf : Slice) (off : ℕ) (e : Stop PlatformError) : Prop :=
  Foreign e ∨ e = .panicked ∧ off ≤ buf.length

variable {buf : Slice} {off : ℕ} {e : Stop PlatformError}

theorem Foreign.ne_panicked (h : Foreign e) : e ≠ .panicked := by
  rcases h with rfl | ⟨x, rfl, -⟩ <;> simp

theorem Foreign.fail_ne {α : Type} (h : Foreign e) {x : PlatformError} (hx : x.kind = .invalidInput) :
    (fail x : Outcome α) ≠ .error e := by
  intro he
  rcases h with rfl | ⟨y, rfl, hy⟩
  · cases he
  · cases he
    exact hy hx

theorem Quiet.mono {mid : ℕ} (h : Quiet buf off e) (hmid : mid ≤ buf.length) : Quiet buf mid e :=
  h.imp_right fun h => ⟨h.1, hmid⟩

theorem Quiet.fail_ne {α : Type} (h : Quiet buf off e) {x : PlatformError} (hx : x.kind = .invalidInput) :
    (fail x : Outcome α) ≠ .error e := by
  rcases h with h | ⟨rfl, -⟩
  · exact h.fail_ne hx
  · simp

theorem Quiet.addUsize {n : ℕ} (h : Quiet buf off e) (hn : n < 2 ^ 63) :
    addUsize off n ≠ (.error e : Outcome ℕ) := by
  have hbuf := buf.length_lt
  unfold Lib.Machine.addUsize
  split_ifs with hlt
  · simp
  · rcases h with h | ⟨-, hle⟩
    · exact fun he => h.ne_panicked (Except.error.inj he).symm
    · omega

theorem Quiet.take {n : ℕ} (h : Quiet buf off e) (hn : n < 2 ^ 63) : take buf off n ≠ .error e := by
  refine bind_ne_error (h.addUsize hn) fun stop _ => ?_
  split_ifs
  · exact h.fail_ne rfl
  · simp

theorem Quiet.alignRead {a : ℕ} (h : Quiet buf off e) (ha : IsAlign a) : alignRead buf off a ≠ .error e := by
  have hbuf := buf.length_lt
  have hpad : padding off a < 8 := by
    unfold padding
    rcases ha with rfl | rfl | rfl | rfl <;> omega
  refine bind_ne_error ?_ fun stop _ => ?_
  · unfold mulUsize
    rw [← add_padding ha]
    split_ifs with hlt
    · simp
    · rcases h with h | ⟨-, hle⟩
      · exact fun he => h.ne_panicked (Except.error.inj he).symm
      · omega
  · split_ifs
    · exact h.fail_ne rfl
    · simp

theorem Quiet.takeLe {n : ℕ} (h : Quiet buf off e) (hn : n < 2 ^ 63) : takeLe buf off n ≠ .error e := by
  refine bind_ne_error (h.take hn) fun ⟨bytes, stop⟩ ht => ?_
  obtain ⟨hstop, hle, hbytes⟩ := take_ok ht
  have hlen : bytes.length = n := by
    rw [hbytes, List.length_take, List.length_drop]
    unfold Slice.length at hle
    omega
  simp [hlen]

theorem Quiet.takeByte (h : Quiet buf off e) : takeByte buf off ≠ .error e := by
  refine bind_ne_error (h.take (by decide)) fun ⟨bytes, stop⟩ ht => ?_
  obtain ⟨hstop, hle, hbytes⟩ := take_ok ht
  have hlen : bytes.length = 1 := by
    rw [hbytes, List.length_take, List.length_drop]
    unfold Slice.length at hle
    omega
  obtain ⟨b, rfl⟩ := List.length_eq_one_iff.mp hlen
  simp

theorem Quiet.takeText {n : ℕ} (h : Quiet buf off e) (hn : n < 2 ^ 63) (detail : String) :
    takeText buf off n detail ≠ .error e := by
  refine bind_ne_error (h.take hn) fun ⟨bytes, mid⟩ ht => ?_
  refine bind_ne_error ((h.mono (take_ok ht).2.1).take (by decide)) fun ⟨_, stop⟩ _ => ?_
  dsimp only
  split
  · simp
  · exact h.fail_ne rfl

theorem Quiet.unmarshalString (h : Quiet buf off e) : unmarshalString buf off ≠ .error e := by
  refine bind_ne_error (h.alignRead isAlign_four) fun start ha => ?_
  have hstart := h.mono (alignRead_ok isAlign_four ha).2
  refine bind_ne_error (hstart.takeLe (by decide)) fun ⟨n, mid⟩ ht => ?_
  obtain ⟨-, hmid, hn, -⟩ := takeLe_ok ht
  exact (h.mono hmid).takeText (hn.trans (by decide)) _

theorem Quiet.unmarshalSignature (h : Quiet buf off e) : unmarshalSignature buf off ≠ .error e := by
  refine bind_ne_error h.takeByte fun ⟨n, mid⟩ ht => ?_
  exact (h.mono (takeByte_ok ht).2).takeText (n.toNat_lt.trans (by decide)) _

theorem Quiet.unmarshalBasic (h : Quiet buf off e) (b : Basic) : unmarshalBasic b buf off ≠ .error e := by
  cases b with
  | byte => exact bind_ne_error h.takeByte fun _ _ => by simp
  | boolean =>
    refine bind_ne_error (h.alignRead isAlign_four) fun start ha => ?_
    have hstart := h.mono (alignRead_ok isAlign_four ha).2
    exact bind_ne_error (hstart.takeLe (by decide)) fun _ _ => by simp
  | num k =>
    refine bind_ne_error (h.alignRead k.isAlign_width) fun start ha => ?_
    have hstart := h.mono (alignRead_ok k.isAlign_width ha).2
    exact bind_ne_error (hstart.takeLe (by cases k <;> decide)) fun _ _ => by simp
  | string | objectPath => exact bind_ne_error h.unmarshalString fun _ _ => by simp
  | signature => exact bind_ne_error h.unmarshalSignature fun _ _ => by simp

end Quiet

end Rustils.Dbus
