import Rustils.Dbus.CallErrors

namespace Rustils.Dbus

open Platform Lib.Fuel Lib.Machine Lib.Utf8

variable {buf : Slice} {c : Call} {e : Stop PlatformError}

inductive Faulty (buf : Slice) : Call → Prop
  -- The depth counter of `bracketed_len` overflows.
  | deep {sig : String} {off : ℕ} : sig ≠ "" → typeLen (asBytes sig) = panicked → Faulty buf (.seq sig off)
  -- `ty.as_bytes()[0]` of an empty type.
  | empty (off : ℕ) : Faulty buf (.one "" off)
  -- `elem_sig.as_bytes()[0]` of an array without an element type, once its length is read.
  | noElement {off : ℕ} : off + padding off 4 + 4 ≤ buf.length → Faulty buf (.one "a" off)
  -- `&ty[1..ty.len() - 1]` of an opening bracket alone, or before a last character that is not ASCII.
  | unclosed {ty : String} {off : ℕ} : leading ty = some .struct ∨ leading ty = some .dictEntry →
    off + padding off 8 ≤ buf.length → slice ty 1 (len ty - 1) = none → Faulty buf (.one ty off)
  | deepEntry {ty inner : String} {off : ℕ} : leading ty = some .dictEntry →
    off + padding off 8 ≤ buf.length → slice ty 1 (len ty - 1) = some inner →
    typeLen (asBytes inner) = panicked → Faulty buf (.one ty off)

theorem slice_tail {ty : String} {code : TypeCode} (h : leading ty = some code) :
    ∃ t b, slice ty 1 (len ty) = some t ∧ asBytes ty = b :: asBytes t ∧ TypeCode.ofByte b = some code := by
  obtain ⟨b, hb, hcode⟩ := firstByte_of_leading h
  obtain ⟨bs, hbs⟩ := List.head?_eq_some_iff.mp (firstByte_ok.mp hb)
  have hbs' : asBytes ty = [] ++ b :: bs := hbs
  obtain ⟨x, c, y, hty, hx, hc, hy⟩ := split_ascii (ascii_of_code hcode) hbs'
  rw [asBytes_eq_nil] at hx
  subst hx hty
  have hlen : len c = 1 := by rw [len, hc, List.length_singleton]
  refine ⟨y, b, slice_eq_some.mpr ⟨c, "", ?_, hlen, ?_⟩, by rw [hbs, hy], hcode⟩
  · simp
  · simp [len_append]

theorem sliceOrPanic_error {s : String} {a b : ℕ} :
    sliceOrPanic s a b = .error e ↔ e = .panicked ∧ slice s a b = none := by
  unfold sliceOrPanic
  split
  case h_1 t ht => simp [ht]
  case h_2 ht => simp [ht, eq_comm]

theorem firstByte_error {ty : String} : firstByte ty = .error e ↔ e = .panicked ∧ ty = "" := by
  unfold firstByte
  split
  case h_1 b bs hb =>
    have : ty ≠ "" := by rintro rfl; cases hb
    simp [this]
  case h_2 hb => simp [asBytes_eq_nil.mp hb, eq_comm]

theorem arrayHeader_error {ty : String} {off : ℕ} (hq : Quiet buf off e) (hlead : leading ty = some .array)
    (h : arrayHeader ty buf off = .error e) :
    e = .panicked ∧ ty = "a" ∧ off + padding off 4 + 4 ≤ buf.length := by
  obtain ⟨t, b, hslice, hbytes, hcode⟩ := slice_tail hlead
  obtain h | ⟨a, ha, h⟩ := bind_eq_error.mp h
  · exact absurd h (hq.alignRead isAlign_four)
  obtain ⟨hoff, hle⟩ := alignRead_ok isAlign_four ha
  obtain h | ⟨⟨n, mid⟩, ht, h⟩ := bind_eq_error.mp h
  · exact absurd h ((hq.mono hle).takeLe (by decide))
  obtain ⟨hmid, hmidle, hn, -⟩ := takeLe_ok ht
  dsimp only at h
  rw [sliceOrPanic_ok.mpr hslice, ok_bind] at h
  obtain h | ⟨e', he', h⟩ := bind_eq_error.mp h
  · obtain ⟨he, rfl⟩ := firstByte_error.mp h
    refine ⟨he, ?_, by omega⟩
    have h61 : ∀ n < 256, TypeCode.ofByte (UInt8.ofNat n) = some .array → n = 0x61 := by decide +kernel
    have hb : b = 0x61 := by
      rw [← UInt8.toNat_inj]
      exact h61 b.toNat b.toNat_lt (by rw [UInt8.ofNat_toNat, hcode])
    rw [← asBytes_inj, hbytes, hb, asBytes_a]
    rfl
  obtain h | ⟨start, hst, h⟩ := bind_eq_error.mp h
  · exact absurd h ((hq.mono hmidle).alignRead (isAlign_alignOf e'))
  obtain ⟨-, hstart⟩ := alignRead_ok (isAlign_alignOf e') hst
  have hbuf := buf.length_lt
  rw [addUsize_eq rfl (by omega), ok_bind] at h
  split_ifs at h
  · exact absurd h (hq.fail_ne rfl)
  · cases h

theorem bracketHeader_error {ty : String} {off : ℕ} (hq : Quiet buf off e)
    (h : bracketHeader ty buf off = .error e) :
    e = .panicked ∧ off + padding off 8 ≤ buf.length ∧ slice ty 1 (len ty - 1) = none := by
  obtain h | ⟨a, ha, h⟩ := bind_eq_error.mp h
  · exact absurd h (hq.alignRead isAlign_eight)
  obtain ⟨rfl, hle⟩ := alignRead_ok isAlign_eight ha
  obtain h | ⟨s, hs, h⟩ := bind_eq_error.mp h
  · obtain ⟨he, hslice⟩ := sliceOrPanic_error.mp h
    exact ⟨he, hle, hslice⟩
  · cases h

theorem Quiet.variantHeader {off : ℕ} (hq : Quiet buf off e) : variantHeader buf off ≠ .error e := by
  refine bind_ne_error hq.unmarshalSignature fun ⟨s, mid⟩ hs => ?_
  obtain ⟨-, -, hlen⟩ := unmarshalSignature_ok hs
  refine bind_ne_error ?_ fun n _ => ?_
  · rcases hq with hq | ⟨rfl, -⟩
    · exact hq.typeLen _
    · exact typeLen_ne_panicked (hlen.trans_lt (by decide))
  · split_ifs
    · exact hq.fail_ne rfl
    · simp

theorem splitOne_quiet {sig : String} {off : ℕ} (hq : Quiet buf off e) (h : splitOne sig = .error e) :
    e = .panicked ∧ typeLen (asBytes sig) = panicked := by
  rcases hq with hq | ⟨rfl, -⟩
  · exact absurd (splitOne_error.mp h) (hq.typeLen _)
  · exact ⟨rfl, splitOne_error.mp h⟩

theorem Call.head_error (hq : Quiet buf c.off e) (h : c.head buf = .error e) : e = .panicked ∧ Faulty buf c := by
  cases c with
  | seq sig off =>
    simp only [Call.head] at h
    split_ifs at h with hsig
    · cases h
    · obtain ⟨he, hdeep⟩ := splitOne_quiet hq (map_eq_error.mp h)
      exact ⟨he, .deep hsig hdeep⟩
  | one ty off =>
    simp only [Call.head] at h
    obtain h | ⟨b, hb, h⟩ := bind_eq_error.mp h
    · obtain ⟨he, rfl⟩ := firstByte_error.mp h
      exact ⟨he, .empty off⟩
    have hlead := leading_of_firstByte hb
    split at h <;> rename_i hcode <;> rw [hcode] at hlead
    · exact absurd h (hq.fail_ne rfl)
    · exact absurd (map_eq_error.mp h) (hq.unmarshalBasic _)
    · obtain ⟨he, rfl, hle⟩ := arrayHeader_error hq hlead (map_eq_error.mp h)
      exact ⟨he, .noElement hle⟩
    · obtain ⟨he, hle, hslice⟩ := bracketHeader_error hq (map_eq_error.mp h)
      exact ⟨he, .unclosed (.inl hlead) hle hslice⟩
    · exact absurd (map_eq_error.mp h) hq.variantHeader
    · obtain h | ⟨⟨inner, start⟩, hh, h⟩ := bind_eq_error.mp h
      · obtain ⟨he, hle, hslice⟩ := bracketHeader_error hq h
        exact ⟨he, .unclosed (.inr hlead) hle hslice⟩
      · obtain ⟨hstart, hle, hslice⟩ := bracketHeader_ok hh
        obtain ⟨he, hdeep⟩ := splitOne_quiet hq (map_eq_error.mp h)
        exact ⟨he, .deepEntry hlead (by omega) hslice hdeep⟩
  | items => cases h

theorem bracketHeader_eq {ty : String} {off : ℕ} (hle : off + padding off 8 ≤ buf.length) :
    bracketHeader ty buf off = (do
      let inner ← sliceOrPanic ty 1 (len ty - 1)
      pure (inner, off + padding off 8)) := by
  rw [bracketHeader, alignRead_of_le isAlign_eight hle, ok_bind]

theorem Faulty.head (h : Faulty buf c) : c.head buf = .error .panicked := by
  cases h with
  | deep hsig hdeep =>
    rw [Call.head, if_neg hsig]
    exact map_eq_error.mpr (splitOne_error.mpr hdeep)
  | empty off => rfl
  | @noElement off hle =>
    have hbuf := buf.length_lt
    have hslice : sliceOrPanic "a" 1 (len "a") = .ok "" := sliceOrPanic_ok.mpr
      (slice_eq_some.mpr ⟨"a", "", rfl, rfl, rfl⟩)
    obtain ⟨x, hx⟩ : ∃ x, takeLe buf (off + padding off 4) 4 = .ok (x, off + padding off 4 + 4) := by
      refine ⟨Lib.LittleEndian.leNat ((buf.bytes.drop (off + padding off 4)).take 4), ?_⟩
      have hlen : ((buf.bytes.drop (off + padding off 4)).take 4).length = 4 := by
        rw [List.length_take, List.length_drop]
        unfold Slice.length at hle
        omega
      rw [takeLe, take, addUsize_eq rfl (by omega), ok_bind, if_neg (by omega), pure_eq_ok, ok_bind]
      simp only [hlen, ↓reduceIte, pure_eq_ok]
    have hfirst : firstByte "a" = .ok 0x61 := rfl
    have hcode : TypeCode.ofByte 0x61 = some .array := by decide
    simp only [Call.head, hfirst, ok_bind, hcode, arrayHeader,
      alignRead_of_le isAlign_four (show off + padding off 4 ≤ buf.length by omega), hx, hslice]
    rfl
  | unclosed hlead hle hslice =>
    rcases hlead with hlead | hlead
    · obtain ⟨b, hb, hcode⟩ := firstByte_of_leading hlead
      simp only [Call.head, hb, ok_bind, hcode, bracketHeader_eq hle, sliceOrPanic, hslice]
      rfl
    · obtain ⟨b, hb, hcode⟩ := firstByte_of_leading hlead
      simp only [Call.head, hb, ok_bind, hcode, bracketHeader_eq hle, sliceOrPanic, hslice]
      rfl
  | deepEntry hlead hle hslice hdeep =>
    obtain ⟨b, hb, hcode⟩ := firstByte_of_leading hlead
    simp only [Call.head, hb, ok_bind, hcode, bracketHeader_eq hle, sliceOrPanic_ok.mpr hslice, pure_eq_ok]
    exact map_eq_error.mpr (splitOne_error.mpr hdeep)

theorem Call.endOf_ne_panicked (hc : c.off ≤ buf.length) :
    c.endOf buf ≠ panicked ↔ Avoids buf (Faulty buf) c := by
  constructor
  · exact fun h c' hreach hfaulty => h (hreach.error (Call.endOf_of_head hfaulty.head))
  · intro h hp
    obtain ⟨c', hreach, hhead⟩ := Call.exists_head_error (.inr rfl) (by simp) hp
    exact h c' hreach (Call.head_error (.inr ⟨rfl, hreach.off_le_length hc⟩) hhead).2

theorem Call.endOf_kind {x : PlatformError} (h : c.endOf buf = fail x) : x.kind = .invalidInput := by
  by_contra hx
  have he : Foreign (.err x) := .inr ⟨x, rfl, hx⟩
  obtain ⟨c', -, hhead⟩ := Call.exists_head_error (.inl he) (by simp) h
  exact absurd (Call.head_error (.inl he) hhead).1 (by simp)

end Rustils.Dbus
