import Mathlib.Data.List.Basic

namespace Rustils.Lib.Utf8

def asBytes (s : String) : List UInt8 := s.toByteArray.data.toList

def len (s : String) : ℕ := (asBytes s).length

def fromUtf8 (bytes : List UInt8) : Option String := String.fromUTF8? ⟨bytes.toArray⟩

def isWhitespace (c : Char) : Bool :=
  let n := c.toNat
  0x09 ≤ n && n ≤ 0x0D || n == 0x20 || n == 0x85 || n == 0xA0 || n == 0x1680 || 0x2000 ≤ n && n ≤ 0x200A || n == 0x2028 ||
    n == 0x2029 || n == 0x202F || n == 0x205F || n == 0x3000

theorem asBytes_inj {s t : String} : asBytes s = asBytes t ↔ s = t := by
  refine ⟨fun h => ?_, fun h => h ▸ rfl⟩
  exact String.toByteArray_inj.mp (ByteArray.ext (Array.toList_inj.mp h))

@[simp] theorem asBytes_append (s t : String) : asBytes (s ++ t) = asBytes s ++ asBytes t := by
  simp [asBytes, String.toByteArray_append]

@[simp] theorem asBytes_empty : asBytes "" = [] := rfl

theorem asBytes_eq_nil {s : String} : asBytes s = [] ↔ s = "" := by
  rw [← asBytes_empty, asBytes_inj]

@[simp] theorem len_append (s t : String) : len (s ++ t) = len s + len t := by
  simp [len]

theorem len_eq_utf8ByteSize (s : String) : len s = s.utf8ByteSize := by
  simp only [len, asBytes, Array.length_toList, ← String.size_toByteArray]
  rfl

@[simp] theorem fromUtf8_asBytes (s : String) : fromUtf8 (asBytes s) = some s := by
  have hb : (⟨(asBytes s).toArray⟩ : ByteArray) = s.toByteArray := by simp [asBytes]
  rw [fromUtf8, hb, String.fromUTF8?, dif_pos s.isValidUTF8]
  rfl

theorem fromUtf8_eq_some {bytes : List UInt8} {s : String} :
    fromUtf8 bytes = some s ↔ asBytes s = bytes := by
  constructor
  · intro h
    simp only [fromUtf8, String.fromUTF8?] at h
    split_ifs at h
    rw [← Option.some.inj h]
    simp [asBytes, String.fromUTF8]
  · rintro rfl
    exact fromUtf8_asBytes s

def slice (s : String) (a b : ℕ) : Option String :=
  if h : a ≤ b ∧ (⟨a⟩ : String.Pos.Raw).IsValid s ∧ (⟨b⟩ : String.Pos.Raw).IsValid s then
    some ⟨s.toByteArray.extract a b,
      (String.Pos.Raw.isValidUTF8_extract_iff ⟨a⟩ ⟨b⟩ (String.Pos.Raw.le_iff.mpr h.1)
        h.2.2.le_rawEndPos).mpr (.inr h.2)⟩
  else none

theorem asBytes_slice {s t : String} {a b : ℕ} (h : slice s a b = some t) :
    asBytes t = ((asBytes s).take b).drop a := by
  unfold slice at h
  split_ifs at h
  rw [← Option.some.inj h]
  simp [asBytes, List.extract_eq_take_drop, List.drop_take]

theorem isValid_iff {s : String} {n : ℕ} :
    (⟨n⟩ : String.Pos.Raw).IsValid s ↔ ∃ x y, s = x ++ y ∧ len x = n := by
  rw [String.Pos.Raw.isValid_iff_exists_append]
  refine exists₂_congr fun x y => and_congr_right fun _ => ?_
  rw [String.Pos.Raw.ext_iff, len_eq_utf8ByteSize]
  simpa using eq_comm

theorem slice_append (x y z : String) : slice (x ++ y ++ z) (len x) (len x + len y) = some y := by
  have ha : (⟨len x⟩ : String.Pos.Raw).IsValid (x ++ y ++ z) :=
    isValid_iff.mpr ⟨x, y ++ z, String.append_assoc, rfl⟩
  have hb : (⟨len x + len y⟩ : String.Pos.Raw).IsValid (x ++ y ++ z) :=
    isValid_iff.mpr ⟨x ++ y, z, rfl, len_append x y⟩
  obtain ⟨t, h⟩ : ∃ t, slice (x ++ y ++ z) (len x) (len x + len y) = some t := by
    rw [slice, dif_pos ⟨Nat.le_add_right _ _, ha, hb⟩]
    exact ⟨_, rfl⟩
  rw [h]
  congr 1
  rw [← asBytes_inj, asBytes_slice h, asBytes_append, asBytes_append]
  rw [List.take_left' (by simp [len]), len, List.drop_left' rfl]

theorem slice_eq_some {s y : String} {a b : ℕ} :
    slice s a b = some y ↔ ∃ x z, s = x ++ y ++ z ∧ len x = a ∧ len x + len y = b := by
  constructor
  · intro h
    have hy := asBytes_slice h
    unfold slice at h
    split_ifs at h with hv
    obtain ⟨x, t, rfl, rfl⟩ := isValid_iff.mp hv.2.1
    obtain ⟨w, z, hw, hb⟩ := isValid_iff.mp hv.2.2
    have hx : asBytes w = asBytes x ++ asBytes y := by
      rw [hw, asBytes_append, List.take_left' (by simpa [len] using hb)] at hy
      have hpx : asBytes x <+: asBytes (x ++ t) := by simp
      have hpw : asBytes w <+: asBytes (x ++ t) := by rw [hw]; simp
      obtain ⟨r, hr⟩ := List.prefix_of_prefix_length_le hpx hpw (show len x ≤ len w by omega)
      rw [← hr, len, List.drop_left' rfl] at hy
      rw [hy, hr]
    refine ⟨x, z, ?_, rfl, ?_⟩
    · rw [hw, ← asBytes_inj]; simp [hx]
    · rw [← hb]; simp [len, hx]
  · rintro ⟨x, z, rfl, rfl, rfl⟩
    exact slice_append x y z

def splitAt (s : String) (n : ℕ) : Option (String × String) := do
  let x ← slice s 0 n
  let y ← slice s n (len s)
  return (x, y)

theorem splitAt_append (x y : String) : splitAt (x ++ y) (len x) = some (x, y) := by
  have h1 : slice (x ++ y) 0 (len x) = some x := slice_eq_some.mpr ⟨"", y, by simp, rfl, by simp [len]⟩
  have h2 : slice (x ++ y) (len x) (len (x ++ y)) = some y :=
    slice_eq_some.mpr ⟨x, "", by simp, rfl, by simp⟩
  rw [splitAt, h1, h2]
  rfl

theorem isASCII_firstByte {b : UInt8} (hb : b < 0x80) : b.IsUTF8FirstByte := by
  have h : ∀ n < 128, UInt8.ofNat n &&& 0x80 = 0 := by decide +kernel
  left
  rw [← UInt8.ofNat_toNat (x := b)]
  exact h b.toNat hb

theorem encodeChar_ascii {c : Char} {b : UInt8} {rest tail : List UInt8} (hb : b < 0x80)
    (h : String.utf8EncodeChar c ++ rest = b :: tail) : String.utf8EncodeChar c = [b] ∧ rest = tail := by
  have hlt : b.toNat < 128 := hb
  simp only [String.utf8EncodeChar] at h ⊢
  -- the first byte of a longer encoding is at least `0xc0`
  split_ifs at h ⊢ with h1 h2 h3
  · simpa using h
  all_goals
    simp only [List.cons_append, List.cons.injEq] at h
    have hn := congrArg UInt8.toNat h.1
    simp only [UInt8.toNat_ofNat'] at hn
    omega

theorem split_ascii {s : String} {xs ys : List UInt8} {b : UInt8} (hb : b < 0x80)
    (h : asBytes s = xs ++ b :: ys) :
    ∃ x c y, s = x ++ c ++ y ∧ asBytes x = xs ∧ asBytes c = [b] ∧ asBytes y = ys := by
  have hsize : len s = xs.length + (ys.length + 1) := by simp [len, h]
  have hvalid : (⟨xs.length⟩ : String.Pos.Raw).IsValid s := by
    rw [String.Pos.Raw.isValid_iff_isUTF8FirstByte]
    have hlt : (⟨xs.length⟩ : String.Pos.Raw) < s.rawEndPos := by
      rw [String.Pos.Raw.lt_iff, String.byteIdx_rawEndPos, ← len_eq_utf8ByteSize]
      change xs.length < len s
      omega
    refine .inr ⟨hlt, ?_⟩
    have hbyte : s.getUTF8Byte ⟨xs.length⟩ hlt = b := by
      have hget : (asBytes s)[xs.length]? = some b := by simp [h]
      simp only [asBytes, Array.getElem?_toList] at hget
      exact Array.getElem_eq_iff.mpr hget
    rw [hbyte]
    exact isASCII_firstByte hb
  obtain ⟨x, t, rfl, hx⟩ := isValid_iff.mp hvalid
  obtain ⟨hxs, ht⟩ := List.append_inj (h.symm.trans (asBytes_append x t)).symm hx
  obtain ⟨cs, rfl⟩ : ∃ cs, t = String.ofList cs := ⟨t.toList, by simp⟩
  cases cs with
  | nil => exact absurd ht (by simp [asBytes])
  | cons c cs =>
    have hcons : asBytes (String.ofList (c :: cs)) = String.utf8EncodeChar c ++ asBytes (String.ofList cs) := by
      simp [asBytes, String.toByteArray_ofList, List.utf8Encode]
    obtain ⟨hc, hrest⟩ := encodeChar_ascii hb (hcons.symm.trans ht)
    refine ⟨x, String.ofList [c], String.ofList cs, ?_, hxs, ?_, hrest⟩
    · rw [String.append_assoc, ← String.ofList_append, List.singleton_append]
    · simpa [asBytes, String.toByteArray_ofList, List.utf8Encode] using hc

theorem asBytes_eq_flatMap (s : String) : asBytes s = s.toList.flatMap String.utf8EncodeChar := by
  obtain ⟨cs, rfl⟩ : ∃ cs, s = String.ofList cs := ⟨s.toList, by simp⟩
  simp [asBytes, String.toByteArray_ofList, List.utf8Encode]

theorem mem_encodeChar {b : UInt8} (hb : b < 0x80) (c : Char) : b ∈ String.utf8EncodeChar c ↔ c.toNat = b.toNat := by
  have hlt : b.toNat < 128 := hb
  have hc : c.val.toNat = c.toNat := rfl
  have hvalid : c.toNat < 0x110000 := by
    rcases c.valid with h | h
    · exact Nat.lt_trans h (by decide)
    · exact h.2
  simp only [String.utf8EncodeChar, hc]
  split_ifs with h1 h2 h3 <;>
    simp only [List.mem_cons, List.not_mem_nil, or_false, ← UInt8.toNat_inj, UInt8.toNat_ofNat'] <;> omega

theorem mem_asBytes {b : UInt8} (hb : b < 0x80) (s : String) : b ∈ asBytes s ↔ ∃ c ∈ s.toList, c.toNat = b.toNat := by
  rw [asBytes_eq_flatMap, List.mem_flatMap]
  simp only [mem_encodeChar hb]

end Rustils.Lib.Utf8
