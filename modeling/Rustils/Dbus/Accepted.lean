import Rustils.Dbus.ReaderBounds

namespace Rustils.Dbus

open Platform Lib.Fuel Lib.Utf8 Lib.LittleEndian

def Basic.Takes : Basic → Value → Prop
  | .byte, .byte _ | .boolean, .boolean _ => True
  | .num k, v => (k.payload v).isSome
  | .string, .string _ | .string, .objectPath _ => True
  | .objectPath, .string _ | .objectPath, .objectPath _ => True
  | .signature, .signature _ => True
  | _, _ => False

mutual

def Accepts : String → Value → Prop
  | ty, .array elemSig items =>
    leading ty = some .array ∧ slice ty 1 (len ty) = some elemSig ∧ elemSig ≠ "" ∧ AcceptsItems elemSig items
  | ty, .struct fields =>
    leading ty = some .struct ∧ ∃ inner, slice ty 1 (len ty - 1) = some inner ∧ AcceptsAll inner fields
  | ty, .variant inner => leading ty = some .variant ∧ Accepts (signatureOf inner) inner
  | ty, .dictEntry key val =>
    leading ty = some .dictEntry ∧ ∃ keyTy valTy, slice ty 1 2 = some keyTy ∧
      slice ty 2 (len ty - 1) = some valTy ∧ Accepts keyTy key ∧ Accepts valTy val
  | ty, v => ∃ b, leading ty = some (.basic b) ∧ b.Takes v

def AcceptsItems : String → List Value → Prop
  | _, [] => True
  | elemSig, item :: items => Accepts elemSig item ∧ AcceptsItems elemSig items

def AcceptsAll : String → List Value → Prop
  | sig, [] => sig = ""
  | sig, v :: vs => sig ≠ "" ∧ ∃ ty rest, splitOne sig = .ok (ty, rest) ∧ Accepts ty v ∧ AcceptsAll rest vs

end

theorem padTo_eq (buf : List UInt8) (align : ℕ) :
    padTo buf align = buf ++ zeros (padding buf.length align) := rfl

@[simp] theorem length_zeros (n : ℕ) : (zeros n).length = n := List.length_replicate

theorem length_padTo (buf : List UInt8) (align : ℕ) :
    (padTo buf align).length = buf.length + padding buf.length align := by
  simp [padTo]

theorem patch_length (buf pad content : List UInt8) :
    (buf ++ [0, 0, 0, 0] ++ pad ++ content).take buf.length ++ leBytes 4 content.length ++
      (buf ++ [0, 0, 0, 0] ++ pad ++ content).drop (buf.length + 4) =
    buf ++ leBytes 4 content.length ++ pad ++ content := by
  have hd : (buf ++ [0, 0, 0, 0] ++ (pad ++ content)).drop (buf.length + 4) = pad ++ content :=
    List.drop_left' (by simp)
  rw [List.append_assoc _ pad, hd, List.append_assoc buf, List.take_left' rfl]
  simp

theorem patched_eq (elemSig : String) (items : List Value) (buf start full : List UInt8)
    (hstart : start = padTo (padTo buf 4 ++ [0, 0, 0, 0]) (elemAlign elemSig))
    (hfull : full = start ++ wireAll start.length items) :
    full.take (padTo buf 4).length ++ leBytes 4 (full.length - start.length) ++
      full.drop ((padTo buf 4).length + 4) = buf ++ wire buf.length (.array elemSig items) := by
  have hfield : (padTo buf 4 ++ [0, 0, 0, 0]).length = buf.length + padding buf.length 4 + 4 := by
    simp [length_padTo]
  have hlen : start.length = contentStart buf.length elemSig := by
    rw [hstart, length_padTo, hfield, contentStart]
  rw [hfull, List.length_append, Nat.add_sub_cancel_left, hlen, hstart,
    padTo_eq (padTo buf 4 ++ [0, 0, 0, 0]), hfield, patch_length, padTo_eq, wire]
  simp only [List.append_assoc]

theorem exists_firstByte {ty : String} (h : ty ≠ "") : ∃ c, firstByte ty = .ok c := by
  unfold firstByte
  split
  · exact ⟨_, rfl⟩
  · rename_i hnil
    exact absurd (asBytes_eq_nil.mp hnil) h

variable {ty : String} {v : Value} {buf out : List UInt8}

theorem accepts_basic {b : Basic} (h : leading ty = some (.basic b)) : Accepts ty v ↔ b.Takes v := by
  have hcode : (∃ b', leading ty = some (.basic b') ∧ b'.Takes v) ↔ b.Takes v := by
    constructor
    · rintro ⟨b', hb', ht⟩
      cases h.symm.trans hb'
      exact ht
    · exact fun ht => ⟨b, h, ht⟩
  have hcontainer {code : TypeCode} (hne : code ≠ .basic b) : leading ty ≠ some code := by
    rw [h]
    exact fun heq => hne (Option.some.inj heq).symm
  have hnone : ∀ k : Num, k.payload v = none → ¬(k.payload v).isSome := by simp
  cases v
  case array | struct | variant | dictEntry =>
    refine iff_of_false (fun ha => hcontainer (by simp) ha.1) ?_
    cases b with
    | num k => exact hnone k (by cases k <;> rfl)
    | _ => exact id
  all_goals exact hcode

def TypeCode.Fits : TypeCode → Value → Prop
  | .basic _, _ => True
  | .array, .array _ _ | .struct, .struct _ | .variant, .variant _ | .dictEntry, .dictEntry _ _ => True
  | _, _ => False

theorem fits_of_accepts (h : Accepts ty v) : ∃ code, leading ty = some code ∧ code.Fits v := by
  cases v
  case array => exact ⟨_, h.1, trivial⟩
  case struct => exact ⟨_, h.1, trivial⟩
  case variant => exact ⟨_, h.1, trivial⟩
  case dictEntry => exact ⟨_, h.1, trivial⟩
  all_goals
    obtain ⟨b, hb, -⟩ := h
    exact ⟨_, hb, trivial⟩

theorem marshalBasic_ok {b : Basic} :
    marshalBasic b v buf = .ok out ↔ b.Takes v ∧ out = buf ++ wire buf.length v := by
  rcases b with _ | _ | k | _ | _ | _
  case num =>
    cases hx : k.payload v with
    | none => simp [marshalBasic, Basic.Takes, hx]
    | some x => simp [marshalBasic, Basic.Takes, hx, wire_num hx, padTo_eq, eq_comm]
  all_goals
    cases v <;> first
      | exact iff_of_false (fun h => by cases h) (fun h => h.1.elim)
      | simp [marshalBasic, Basic.Takes, wire, marshalString, marshalSignature, wireString, wireSignature,
          padTo_eq, eq_comm]

theorem accepts_array (h : leading ty = some .array) :
    Accepts ty v ↔ ∃ elemSig items, v = .array elemSig items ∧ slice ty 1 (len ty) = some elemSig ∧
      elemSig ≠ "" ∧ AcceptsItems elemSig items := by
  cases v <;> simp [Accepts, h]

theorem accepts_struct (h : leading ty = some .struct) :
    Accepts ty v ↔ ∃ fields inner, v = .struct fields ∧ slice ty 1 (len ty - 1) = some inner ∧
      AcceptsAll inner fields := by
  cases v <;> simp [Accepts, h]

theorem accepts_variant (h : leading ty = some .variant) :
    Accepts ty v ↔ ∃ inner, v = .variant inner ∧ Accepts (signatureOf inner) inner := by
  cases v <;> simp [Accepts, h]

theorem accepts_dictEntry (h : leading ty = some .dictEntry) :
    Accepts ty v ↔ ∃ key val keyTy valTy, v = .dictEntry key val ∧ slice ty 1 2 = some keyTy ∧
      slice ty 2 (len ty - 1) = some valTy ∧ Accepts keyTy key ∧ Accepts valTy val := by
  cases v <;> simp [Accepts, h]

theorem fits_of_marshalOne (h : marshalOne ty v buf = .ok out) :
    ∃ code, leading ty = some code ∧ code.Fits v := by
  unfold marshalOne at h
  obtain ⟨c, hc, h⟩ := bind_eq_ok.mp h
  cases hcode : TypeCode.ofByte c with
  | none =>
    rw [hcode] at h
    cases h
  | some code =>
    rw [hcode] at h
    refine ⟨code, (leading_of_firstByte hc).trans hcode, ?_⟩
    cases code with
    | basic b => trivial
    | _ => cases v <;> trivial

theorem marshalOne_basic_ok {b : Basic} (hlead : leading ty = some (.basic b)) :
    marshalOne ty v buf = .ok out ↔ Accepts ty v ∧ out = buf ++ wire buf.length v := by
  obtain ⟨c, hc, hcode⟩ := firstByte_of_leading hlead
  unfold marshalOne
  simp only [hc, ok_bind, hcode]
  rw [accepts_basic hlead, marshalBasic_ok]

theorem marshalOne_array_ok {elemSig : String} {items : List Value} (hlead : leading ty = some .array)
    (hitems : ∀ buf out, marshalItems elemSig items buf = .ok out ↔
      AcceptsItems elemSig items ∧ out = buf ++ wireAll buf.length items) :
    marshalOne ty (.array elemSig items) buf = .ok out ↔
      Accepts ty (.array elemSig items) ∧ out = buf ++ wire buf.length (.array elemSig items) := by
  obtain ⟨c, hc, hcode⟩ := firstByte_of_leading hlead
  unfold marshalOne
  simp only [hc, ok_bind, hcode, Accepts, hlead, true_and]
  constructor
  · intro h
    obtain ⟨tail, hs, h⟩ := bind_eq_ok.mp h
    split_ifs at h with hne
    obtain rfl := not_not.mp hne
    obtain ⟨e, he, h⟩ := bind_eq_ok.mp h
    obtain ⟨full, hfull, h⟩ := bind_eq_ok.mp h
    obtain ⟨haccepts, hfull⟩ := (hitems _ _).mp hfull
    have hnil : elemSig ≠ "" := by
      rintro rfl
      cases he
    refine ⟨⟨sliceOrPanic_ok.mp hs, hnil, haccepts⟩, ?_⟩
    rw [← patched_eq elemSig items buf _ full (by rw [elemAlign_of_firstByte he]) hfull]
    exact (Except.ok.inj h).symm
  · rintro ⟨⟨hs, hnil, haccepts⟩, rfl⟩
    obtain ⟨e, he⟩ := exists_firstByte hnil
    simp only [sliceOrPanic_ok.mpr hs, ok_bind, ne_eq, not_true_eq_false, ↓reduceIte, he,
      (hitems _ _).mpr ⟨haccepts, rfl⟩]
    rw [patched_eq elemSig items buf _ _ (by rw [elemAlign_of_firstByte he]) rfl]
    rfl

theorem marshalOne_struct_ok {fields : List Value} (hlead : leading ty = some .struct)
    (hfields : ∀ sig buf out, marshal sig fields buf = .ok out ↔
      AcceptsAll sig fields ∧ out = buf ++ wireAll buf.length fields) :
    marshalOne ty (.struct fields) buf = .ok out ↔
      Accepts ty (.struct fields) ∧ out = buf ++ wire buf.length (.struct fields) := by
  obtain ⟨c, hc, hcode⟩ := firstByte_of_leading hlead
  unfold marshalOne
  simp only [hc, ok_bind, hcode, Accepts, hlead, true_and, bind_eq_ok, sliceOrPanic_ok, hfields, length_padTo]
  constructor
  · rintro ⟨inner, hs, haccepts, rfl⟩
    exact ⟨⟨inner, hs, haccepts⟩, by simp [wire, padTo_eq]⟩
  · rintro ⟨⟨inner, hs, haccepts⟩, rfl⟩
    exact ⟨inner, hs, haccepts, by simp [wire, padTo_eq]⟩

theorem marshalOne_variant_ok {inner : Value} (hlead : leading ty = some .variant)
    (hinner : ∀ buf out, marshalOne (signatureOf inner) inner buf = .ok out ↔
      Accepts (signatureOf inner) inner ∧ out = buf ++ wire buf.length inner) :
    marshalOne ty (.variant inner) buf = .ok out ↔
      Accepts ty (.variant inner) ∧ out = buf ++ wire buf.length (.variant inner) := by
  obtain ⟨c, hc, hcode⟩ := firstByte_of_leading hlead
  unfold marshalOne
  simp only [hc, ok_bind, hcode, Accepts, hlead, true_and, hinner]
  simp [wire, marshalSignature, wireSignature, len]

theorem marshalOne_dictEntry_ok {key val : Value} (hlead : leading ty = some .dictEntry)
    (hkey : ∀ sig buf out, marshalOne sig key buf = .ok out ↔ Accepts sig key ∧ out = buf ++ wire buf.length key)
    (hval : ∀ sig buf out, marshalOne sig val buf = .ok out ↔ Accepts sig val ∧ out = buf ++ wire buf.length val) :
    marshalOne ty (.dictEntry key val) buf = .ok out ↔
      Accepts ty (.dictEntry key val) ∧ out = buf ++ wire buf.length (.dictEntry key val) := by
  obtain ⟨c, hc, hcode⟩ := firstByte_of_leading hlead
  unfold marshalOne
  simp only [hc, ok_bind, hcode, Accepts, hlead, true_and, bind_eq_ok, sliceOrPanic_ok, hkey, hval]
  constructor
  · rintro ⟨keyTy, hsk, _, ⟨hk, rfl⟩, valTy, hsv, hv, rfl⟩
    refine ⟨⟨keyTy, valTy, hsk, hsv, hk, hv⟩, ?_⟩
    simp [wire, padTo_eq, Nat.add_assoc]
  · rintro ⟨⟨keyTy, valTy, hsk, hsv, hk, hv⟩, rfl⟩
    refine ⟨keyTy, hsk, _, ⟨hk, rfl⟩, valTy, hsv, hv, ?_⟩
    simp [wire, padTo_eq, Nat.add_assoc]

mutual

theorem marshalOne_ok (ty : String) (v : Value) (buf out : List UInt8) :
    marshalOne ty v buf = .ok out ↔ Accepts ty v ∧ out = buf ++ wire buf.length v := by
  by_cases hfits : ∃ code, leading ty = some code ∧ code.Fits v
  · obtain ⟨code, hlead, hfit⟩ := hfits
    match code, v, hfit with
    | .basic b, v, _ => exact marshalOne_basic_ok hlead
    | .array, .array elemSig items, _ => exact marshalOne_array_ok hlead (marshalItems_ok elemSig items)
    | .struct, .struct fields, _ => exact marshalOne_struct_ok hlead fun sig => marshal_ok sig fields
    | .variant, .variant inner, _ => exact marshalOne_variant_ok hlead (marshalOne_ok _ inner)
    | .dictEntry, .dictEntry key val, _ =>
      exact marshalOne_dictEntry_ok hlead (fun sig => marshalOne_ok sig key) fun sig => marshalOne_ok sig val
  · refine iff_of_false (fun h => hfits (fits_of_marshalOne h)) ?_
    rintro ⟨h, -⟩
    exact hfits (fits_of_accepts h)

theorem marshalItems_ok (elemSig : String) (items : List Value) (buf out : List UInt8) :
    marshalItems elemSig items buf = .ok out ↔
      AcceptsItems elemSig items ∧ out = buf ++ wireAll buf.length items := by
  match items with
  | [] => simp [marshalItems, AcceptsItems, wireAll, eq_comm]
  | item :: items =>
    simp only [marshalItems, bind_eq_ok, marshalOne_ok _ item, marshalItems_ok _ items, AcceptsItems, wireAll]
    constructor
    · rintro ⟨_, ⟨hv, rfl⟩, hvs, rfl⟩
      exact ⟨⟨hv, hvs⟩, by simp⟩
    · rintro ⟨⟨hv, hvs⟩, rfl⟩
      exact ⟨_, ⟨hv, rfl⟩, hvs, by simp⟩

theorem marshal_ok (sig : String) (vs : List Value) (buf out : List UInt8) :
    marshal sig vs buf = .ok out ↔ AcceptsAll sig vs ∧ out = buf ++ wireAll buf.length vs := by
  match vs with
  | [] =>
    by_cases hsig : sig = ""
    · simp [marshal, AcceptsAll, wireAll, hsig, eq_comm]
    · simp [marshal, AcceptsAll, hsig, bind_eq_ok]
  | v :: vs =>
    by_cases hsig : sig = ""
    · simp [marshal, AcceptsAll, hsig]
    · simp only [marshal, if_neg hsig, bind_eq_ok, marshalOne_ok _ v, marshal_ok _ vs, AcceptsAll, wireAll]
      constructor
      · rintro ⟨⟨ty, rest⟩, hsplit, _, ⟨hv, rfl⟩, hvs, rfl⟩
        exact ⟨⟨hsig, ty, rest, hsplit, hv, hvs⟩, by simp⟩
      · rintro ⟨⟨-, ty, rest, hsplit, hv, hvs⟩, rfl⟩
        exact ⟨(ty, rest), hsplit, _, ⟨hv, rfl⟩, hvs, by simp⟩

end

end Rustils.Dbus
