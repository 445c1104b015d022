import Rustils.Dbus.Unmarshal

namespace Rustils.Dbus

open Platform Lib.Fuel Lib.Machine Lib.Utf8

theorem unmarshal_extends (fuel : ℕ) (buf : Slice) :
    (∀ sig offset, Extends (unmarshalFuel fuel sig buf offset) (unmarshalFuel (fuel + 1) sig buf offset)) ∧
    (∀ ty offset,
      Extends (unmarshalOneFuel fuel ty buf offset) (unmarshalOneFuel (fuel + 1) ty buf offset)) ∧
    (∀ elemSig contentEnd offset, Extends (unmarshalItemsFuel fuel elemSig contentEnd buf offset)
      (unmarshalItemsFuel (fuel + 1) elemSig contentEnd buf offset)) := by
  induction fuel with
  | zero =>
    refine ⟨fun _ _ => .inl ?_, fun _ _ => .inl ?_, fun _ _ _ => .inl ?_⟩
    · rw [unmarshalFuel]
    · rw [unmarshalOneFuel]
    · rw [unmarshalItemsFuel]
  | succ fuel ih =>
    obtain ⟨ihSeq, ihOne, ihItems⟩ := ih
    refine ⟨fun sig offset => ?_, fun ty offset => ?_, fun elemSig contentEnd offset => ?_⟩
    · unfold unmarshalFuel
      split_ifs
      · exact .refl _
      · refine .bind (.refl _) fun p => .bind (ihOne _ _) fun q => .bind (ihSeq _ _) fun _ => .refl _
    · unfold unmarshalOneFuel
      refine .bind (.refl _) fun c => ?_
      rcases TypeCode.ofByte c with _ | ⟨b | _ | _ | _ | _⟩
      · exact .refl _
      · exact .refl _
      · exact .bind (.refl _) fun h => .bind (ihItems _ _ _) fun _ => .refl _
      · exact .bind (.refl _) fun h => .bind (ihSeq _ _) fun _ => .refl _
      · exact .bind (.refl _) fun h => .bind (ihOne _ _) fun _ => .refl _
      · exact .bind (.refl _) fun h => .bind (.refl _) fun p => .bind (ihOne _ _) fun q =>
          .bind (ihOne _ _) fun _ => .refl _
    · unfold unmarshalItemsFuel
      split_ifs
      · exact .bind (ihOne _ _) fun _ => .bind (ihItems _ _ _) fun _ => .refl _
      · exact .refl _

theorem unmarshalFuel_steady (sig : String) (buf : Slice) (offset : ℕ) :
    Steady (unmarshalFuel · sig buf offset) :=
  fun n => (unmarshal_extends n buf).1 sig offset

theorem unmarshalOneFuel_steady (ty : String) (buf : Slice) (offset : ℕ) :
    Steady (unmarshalOneFuel · ty buf offset) :=
  fun n => (unmarshal_extends n buf).2.1 ty offset

theorem unmarshalItemsFuel_steady (elemSig : String) (contentEnd : ℕ) (buf : Slice) (offset : ℕ) :
    Steady (unmarshalItemsFuel · elemSig contentEnd buf offset) :=
  fun n => (unmarshal_extends n buf).2.2 elemSig contentEnd offset

noncomputable def unmarshal (sig : String) (buf : Slice) (offset : ℕ) : Outcome (List Value × ℕ) :=
  limit (unmarshalFuel · sig buf offset)

noncomputable def unmarshalOne (ty : String) (buf : Slice) (offset : ℕ) : Outcome (Value × ℕ) :=
  limit (unmarshalOneFuel · ty buf offset)

noncomputable def unmarshalItems (elemSig : String) (contentEnd : ℕ) (buf : Slice) (offset : ℕ) :
    Outcome (List Value × ℕ) :=
  limit (unmarshalItemsFuel · elemSig contentEnd buf offset)

theorem unmarshal_eq (sig : String) (buf : Slice) (offset : ℕ) :
    unmarshal sig buf offset =
      if sig = "" then pure ([], offset)
      else (do
        let (thisTy, rest) ← splitOne sig
        let (v, offset) ← unmarshalOne thisTy buf offset
        let (vs, offset) ← unmarshal rest buf offset
        pure (v :: vs, offset)) := by
  refine (unmarshalFuel_steady sig buf offset).limit_eq_body ?_
  simp only [unmarshalFuel]
  split_ifs
  · exact .const _
  · exact .bind (.const _) fun p => .bind (unmarshalOneFuel_steady _ _ _).tends fun q =>
      .bind (unmarshalFuel_steady _ _ _).tends fun r => .const _

theorem unmarshalItems_eq (elemSig : String) (contentEnd : ℕ) (buf : Slice) (offset : ℕ) :
    unmarshalItems elemSig contentEnd buf offset =
      if offset < contentEnd then do
        let (item, offset) ← unmarshalOne elemSig buf offset
        let (items, offset) ← unmarshalItems elemSig contentEnd buf offset
        pure (item :: items, offset)
      else pure ([], offset) := by
  refine (unmarshalItemsFuel_steady elemSig contentEnd buf offset).limit_eq_body ?_
  simp only [unmarshalItemsFuel]
  split_ifs
  · exact .bind (unmarshalOneFuel_steady _ _ _).tends fun q =>
      .bind (unmarshalItemsFuel_steady _ _ _ _).tends fun r => .const _
  · exact .const _

theorem unmarshalOne_eq (ty : String) (buf : Slice) (offset : ℕ) :
    unmarshalOne ty buf offset = (do
      let c ← firstByte ty
      match TypeCode.ofByte c with
      | none => fail (badSignature "unsupported type code")
      | some (.basic b) => unmarshalBasic b buf offset
      | some .array => do
        let (elemSig, offset, contentEnd) ← arrayHeader ty buf offset
        let (items, offset) ← unmarshalItems elemSig contentEnd buf offset
        if offset ≠ contentEnd then
          fail (badSignature "array element did not end exactly at the declared length")
        else pure (.array elemSig items, offset)
      | some .struct => do
        let (inner, offset) ← bracketHeader ty buf offset
        let (fields, offset) ← unmarshal inner buf offset
        pure (.struct fields, offset)
      | some .variant => do
        let (innerSig, offset) ← variantHeader buf offset
        let (v, offset) ← unmarshalOne innerSig buf offset
        pure (.variant v, offset)
      | some .dictEntry => do
        let (inner, offset) ← bracketHeader ty buf offset
        let (keyTy, valTy) ← splitOne inner
        let (key, offset) ← unmarshalOne keyTy buf offset
        let (val, offset) ← unmarshalOne valTy buf offset
        pure (.dictEntry key val, offset)) := by
  refine (unmarshalOneFuel_steady ty buf offset).limit_eq_body ?_
  simp only [unmarshalOneFuel]
  refine .bind (.const _) fun c => ?_
  rcases TypeCode.ofByte c with _ | ⟨b | _ | _ | _ | _⟩
  · exact .const _
  · exact .const _
  · exact .bind (.const _) fun h => .bind (unmarshalItemsFuel_steady _ _ _ _).tends fun _ => .const _
  · exact .bind (.const _) fun h => .bind (unmarshalFuel_steady _ _ _).tends fun _ => .const _
  · exact .bind (.const _) fun h => .bind (unmarshalOneFuel_steady _ _ _).tends fun _ => .const _
  · exact .bind (.const _) fun h => .bind (.const _) fun p =>
      .bind (unmarshalOneFuel_steady _ _ _).tends fun q =>
        .bind (unmarshalOneFuel_steady _ _ _).tends fun _ => .const _

end Rustils.Dbus
