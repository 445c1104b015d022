import Rustils.Dbus.Readers
import Rustils.Dbus.SignatureScan

namespace Rustils.Dbus

open Platform Lib.Fuel Lib.Machine Lib.Utf8 Lib.LittleEndian

mutual

def Carried : String → ℕ → Value → Prop
  | _, pos, .array elemSig items =>
    (wireAll (contentStart pos elemSig) items).length < 2 ^ 32 ∧
      CarriedItems elemSig (contentStart pos elemSig) items
  | ty, pos, .struct fields =>
    ∀ inner, slice ty 1 (len ty - 1) = some inner → CarriedAll inner (pos + padding pos 8) fields
  | _, pos, .variant inner =>
    len (signatureOf inner) ≤ 255 ∧ typeLen (asBytes (signatureOf inner)) = .ok (len (signatureOf inner)) ∧
      Carried (signatureOf inner) (pos + (len (signatureOf inner) + 2)) inner
  | ty, pos, .dictEntry key val =>
    (∀ keyTy, slice ty 1 2 = some keyTy → Carried keyTy (pos + padding pos 8) key) ∧
      ∀ valTy, slice ty 2 (len ty - 1) = some valTy →
        Carried valTy (pos + padding pos 8 + (wire (pos + padding pos 8) key).length) val
  | ty, _, v => ∀ b, leading ty = some (.basic b) → b.Has v

def CarriedItems : String → ℕ → List Value → Prop
  | _, _, [] => True
  | elemSig, pos, item :: items =>
    wire pos item ≠ [] ∧ Carried elemSig pos item ∧ CarriedItems elemSig (pos + (wire pos item).length) items

def CarriedAll : String → ℕ → List Value → Prop
  | _, _, [] => True
  | sig, pos, v :: vs => ∀ ty rest, splitOne sig = .ok (ty, rest) →
    Carried ty pos v ∧ CarriedAll rest (pos + (wire pos v).length) vs

end

section Headers

variable {ty : String} {buf : Slice} {off : ℕ}

theorem arrayHeader_hasAt {elemSig : String} {content : List UInt8} (hs : slice ty 1 (len ty) = some elemSig)
    (hne : elemSig ≠ "") (h : HasAt buf off (zeros (padding off 4) ++ leBytes 4 content.length ++
      zeros (padding (off + padding off 4 + 4) (elemAlign elemSig)) ++ content)) :
    arrayHeader ty buf off = .ok (elemSig, contentStart off elemSig,
      contentStart off elemSig + content.length % 2 ^ 32) ∧ HasAt buf (contentStart off elemSig) content := by
  obtain ⟨h, hcontent⟩ := hasAt_append.mp h
  obtain ⟨h, hpad⟩ := hasAt_append.mp h
  obtain ⟨hpad4, hlen⟩ := hasAt_append.mp h
  obtain ⟨e, he⟩ := exists_firstByte hne
  have halign := elemAlign_of_firstByte he
  simp only [List.length_append, length_zeros, length_leBytes] at hlen hpad hcontent
  have hstart : off + (padding off 4 + 4 + padding (off + padding off 4 + 4) (elemAlign elemSig)) =
      contentStart off elemSig := by
    rw [contentStart]
    omega
  rw [hstart] at hcontent
  rw [← Nat.add_assoc] at hpad
  refine ⟨?_, hcontent⟩
  have hle := hcontent.le
  have hfit := buf.length_lt
  have hmod : content.length % 2 ^ 32 ≤ content.length := Nat.mod_le _ _
  have hpow : (256 : ℕ) ^ 4 = 2 ^ 32 := by decide
  simp only [arrayHeader, alignRead_hasAt isAlign_four hpad4, ok_bind, takeLe_mod hlen, hpow,
    sliceOrPanic_ok.mpr hs, he, ← halign, alignRead_hasAt (isAlign_elemAlign elemSig) hpad]
  rw [show off + padding off 4 + 4 + padding (off + padding off 4 + 4) (elemAlign elemSig) =
    contentStart off elemSig from rfl, addUsize_eq rfl (by omega), ok_bind, if_neg (by omega), pure_eq_ok]

theorem variantHeader_hasAt {innerSig : String} (hlen : len innerSig ≤ 255)
    (hone : typeLen (asBytes innerSig) = .ok (len innerSig)) (h : HasAt buf off (wireSignature innerSig)) :
    variantHeader buf off = .ok (innerSig, off + (len innerSig + 2)) := by
  simp only [variantHeader, unmarshalSignature_hasAt hlen h, ok_bind, hone, ne_eq, not_true_eq_false,
    ↓reduceIte, pure_eq_ok]

theorem bracketHeader_hasAt {inner : String} (hs : slice ty 1 (len ty - 1) = some inner)
    (h : HasAt buf off (zeros (padding off 8))) :
    bracketHeader ty buf off = .ok (inner, off + padding off 8) := by
  rw [bracketHeader, alignRead_hasAt isAlign_eight h, ok_bind, sliceOrPanic_ok.mpr hs, ok_bind, pure_eq_ok]

end Headers

section Keys

variable {ty keyTy valTy : String} {key : Value}

theorem leading_key (hlen : len keyTy = 1) (h : Accepts keyTy key) :
    (∃ b, leading keyTy = some (.basic b)) ∨ leading keyTy = some .variant := by
  obtain ⟨code, hlead, -⟩ := fits_of_accepts h
  cases code with
  | basic b => exact .inl ⟨b, hlead⟩
  | variant => exact .inr hlead
  | array =>
    obtain ⟨elemSig, items, -, hs, hne, -⟩ := (accepts_array hlead).mp h
    obtain ⟨x, z, -, hx, hb⟩ := slice_eq_some.mp hs
    have hnil : asBytes elemSig = [] := List.eq_nil_of_length_eq_zero (show len elemSig = 0 by omega)
    exact absurd (asBytes_eq_nil.mp hnil) hne
  | struct =>
    obtain ⟨fields, inner, -, hs, -⟩ := (accepts_struct hlead).mp h
    obtain ⟨x, z, -, hx, hb⟩ := slice_eq_some.mp hs
    omega
  | dictEntry =>
    obtain ⟨k, v, kt, vt, -, hs, -⟩ := (accepts_dictEntry hlead).mp h
    obtain ⟨x, z, rfl, hx, hb⟩ := slice_eq_some.mp hs
    simp only [len_append] at hlen
    omega

theorem typeLen_key (hlen : len keyTy = 1) (h : Accepts keyTy key) (rest : List UInt8) :
    typeLen (asBytes keyTy ++ rest) = .ok 1 := by
  obtain ⟨c, hc⟩ := List.length_eq_one_iff.mp hlen
  have hcode : ∀ code, leading keyTy = some code → TypeCode.ofByte c = some code := by
    intro code hlead
    rw [leading, hc] at hlead
    exact hlead
  rw [hc, List.singleton_append, typeLen]
  rcases leading_key hlen h with ⟨b, hlead⟩ | hlead
  · rw [hcode _ hlead]
    rfl
  · rw [hcode _ hlead]
    rfl

theorem splitOne_entry (hk : slice ty 1 2 = some keyTy) (hv : slice ty 2 (len ty - 1) = some valTy)
    (h : Accepts keyTy key) :
    ∃ inner, slice ty 1 (len ty - 1) = some inner ∧ splitOne inner = .ok (keyTy, valTy) := by
  obtain ⟨x, z, hty, hx, hxk⟩ := slice_eq_some.mp hk
  obtain ⟨x', z', hty', hx', hxv⟩ := slice_eq_some.mp hv
  have hlen : len keyTy = 1 := by omega
  -- both cuts are of the same bytes, so what stands before the value is the brace and the key
  have hpre : x' = x ++ keyTy := by
    rw [← asBytes_inj]
    have hbytes := congrArg asBytes (hty'.symm.trans hty)
    simp only [asBytes_append, List.append_assoc] at hbytes
    rw [← List.append_assoc (asBytes x)] at hbytes
    refine (List.append_inj hbytes ?_).1.trans (asBytes_append x keyTy).symm
    rw [List.length_append]
    exact hx'.trans hxk.symm
  refine ⟨keyTy ++ valTy, slice_eq_some.mpr ⟨x, z', ?_, hx, ?_⟩, ?_⟩
  · simp only [hty', hpre, String.append_assoc]
  · rw [len_append]
    omega
  · rw [splitOne, asBytes_append, typeLen_key hlen h, ok_bind, ← hlen, splitAtOrPanic, splitAt_append]
    rfl

end Keys

theorem unmarshalOne_basic {ty : String} {b : Basic} (h : leading ty = some (.basic b)) (buf : Slice)
    (off : ℕ) : unmarshalOne ty buf off = unmarshalBasic b buf off := by
  obtain ⟨c, hc, hcode⟩ := firstByte_of_leading h
  rw [unmarshalOne_eq]
  simp only [hc, ok_bind, hcode]

mutual

theorem unmarshalOne_carried {ty : String} {v : Value} {buf : Slice} {off : ℕ} (h : Accepts ty v)
    (hc : Carried ty off v) (hat : HasAt buf off (wire off v)) :
    unmarshalOne ty buf off = .ok (v, off + (wire off v).length) := by
  match v with
  | .byte _ | .boolean _ | .int16 _ | .uint16 _ | .int32 _ | .uint32 _ | .int64 _ | .uint64 _ | .double _
  | .string _ | .objectPath _ | .signature _ =>
    obtain ⟨b, hlead, -⟩ := h
    rw [unmarshalOne_basic hlead]
    exact unmarshalBasic_wire (hc b hlead) hat
  | .array elemSig items =>
    obtain ⟨hlead, hs, hne, hitems⟩ := h
    obtain ⟨hlen, hc⟩ := hc
    obtain ⟨c, hfirst, hcode⟩ := firstByte_of_leading hlead
    rw [wire] at hat
    obtain ⟨hheader, hcontent⟩ := arrayHeader_hasAt hs hne hat
    rw [Nat.mod_eq_of_lt hlen] at hheader
    rw [unmarshalOne_eq]
    simp only [hfirst, hcode, hheader, ok_bind, unmarshalItems_carried hitems hc hcontent, ne_eq,
      not_true_eq_false, ↓reduceIte, pure_eq_ok, wire, List.length_append, length_zeros, length_leBytes]
    congr 2
    rw [contentStart]
    omega
  | .struct fields =>
    obtain ⟨hlead, inner, hs, hfields⟩ := h
    obtain ⟨c, hfirst, hcode⟩ := firstByte_of_leading hlead
    rw [wire] at hat
    obtain ⟨hpad, hall⟩ := hasAt_append.mp hat
    rw [length_zeros] at hall
    rw [unmarshalOne_eq]
    simp only [hfirst, hcode, bracketHeader_hasAt hs hpad, ok_bind, pure_eq_ok,
      unmarshal_carried hfields (hc inner hs) hall, wire, List.length_append, length_zeros, Nat.add_assoc]
  | .variant inner =>
    obtain ⟨hlead, hinner⟩ := h
    obtain ⟨hlen, hone, hc⟩ := hc
    obtain ⟨c, hfirst, hcode⟩ := firstByte_of_leading hlead
    rw [wire] at hat
    obtain ⟨hsig, hat⟩ := hasAt_append.mp hat
    have hsize : (wireSignature (signatureOf inner)).length = len (signatureOf inner) + 2 := by
      simp [wireSignature, len]
    rw [hsize] at hat
    rw [unmarshalOne_eq]
    simp only [hfirst, hcode, variantHeader_hasAt hlen hone hsig, ok_bind,
      unmarshalOne_carried hinner hc hat, wire, List.length_append, hsize, pure_eq_ok, Nat.add_assoc]
  | .dictEntry key val =>
    obtain ⟨hlead, keyTy, valTy, hsk, hsv, hk, hv⟩ := h
    obtain ⟨hck, hcv⟩ := hc
    obtain ⟨c, hfirst, hcode⟩ := firstByte_of_leading hlead
    obtain ⟨inner, hs, hsplit⟩ := splitOne_entry hsk hsv hk
    rw [wire] at hat
    obtain ⟨hat, hval⟩ := hasAt_append.mp hat
    obtain ⟨hpad, hkey⟩ := hasAt_append.mp hat
    rw [List.length_append, length_zeros, ← Nat.add_assoc] at hval
    rw [length_zeros] at hkey
    rw [unmarshalOne_eq]
    simp only [hfirst, hcode, bracketHeader_hasAt hs hpad, ok_bind, hsplit,
      unmarshalOne_carried hk (hck keyTy hsk) hkey, unmarshalOne_carried hv (hcv valTy hsv) hval, wire,
      List.length_append, length_zeros, pure_eq_ok, ← Nat.add_assoc]

theorem unmarshalItems_carried {elemSig : String} {items : List Value} {buf : Slice} {off : ℕ}
    (h : AcceptsItems elemSig items) (hc : CarriedItems elemSig off items)
    (hat : HasAt buf off (wireAll off items)) :
    unmarshalItems elemSig (off + (wireAll off items).length) buf off =
      .ok (items, off + (wireAll off items).length) := by
  match items with
  | [] => simp [unmarshalItems_eq, wireAll]
  | item :: items =>
    obtain ⟨hne, hitem, hitems⟩ := hc
    rw [wireAll] at hat
    obtain ⟨hat, hats⟩ := hasAt_append.mp hat
    have hpos := List.length_pos_of_ne_nil hne
    have ih := unmarshalItems_carried h.2 hitems hats
    rw [unmarshalItems_eq, if_pos (by rw [wireAll, List.length_append]; omega)]
    simp only [unmarshalOne_carried h.1 hitem hat, ok_bind, wireAll, List.length_append, ← Nat.add_assoc, ih,
      pure_eq_ok]

theorem unmarshal_carried {sig : String} {vs : List Value} {buf : Slice} {off : ℕ} (h : AcceptsAll sig vs)
    (hc : CarriedAll sig off vs) (hat : HasAt buf off (wireAll off vs)) :
    unmarshal sig buf off = .ok (vs, off + (wireAll off vs).length) := by
  match vs with
  | [] =>
    have hsig : sig = "" := h
    simp [unmarshal_eq, hsig, wireAll]
  | v :: vs =>
    obtain ⟨hne, ty, rest, hsplit, hv, hvs⟩ := h
    obtain ⟨hcv, hcvs⟩ := hc ty rest hsplit
    rw [wireAll] at hat
    obtain ⟨hat, hats⟩ := hasAt_append.mp hat
    rw [unmarshal_eq, if_neg hne, hsplit]
    simp only [ok_bind, unmarshalOne_carried hv hcv hat, unmarshal_carried hvs hcvs hats, wireAll,
      List.length_append, pure_eq_ok, Nat.add_assoc]

end

end Rustils.Dbus
