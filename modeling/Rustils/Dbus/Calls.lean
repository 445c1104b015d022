import Mathlib.Logic.Relation
import Rustils.Dbus.Decoder

namespace Rustils.Dbus

open Platform Lib.Fuel Lib.Machine Lib.Utf8

inductive Call
  | seq (sig : String) (off : ℕ)
  | one (ty : String) (off : ℕ)
  | items (elemSig : String) (stop off : ℕ)

def Call.off : Call → ℕ
  | .seq _ off | .one _ off | .items _ _ off => off

def Call.body (buf : Slice) (rec : Call → Outcome ℕ) : Call → Outcome ℕ
  | .seq sig off =>
    if sig = "" then pure off
    else do
      let (ty, rest) ← splitOne sig
      let off ← rec (.one ty off)
      rec (.seq rest off)
  | .one ty off => do
    let c ← firstByte ty
    match TypeCode.ofByte c with
    | none => fail (badSignature "unsupported type code")
    | some (.basic b) => Prod.snd <$> unmarshalBasic b buf off
    | some .array => do
      let (elemSig, start, stop) ← arrayHeader ty buf off
      let off ← rec (.items elemSig stop start)
      if off ≠ stop then fail (badSignature "array element did not end exactly at the declared length")
      else pure off
    | some .struct => do
      let (inner, off) ← bracketHeader ty buf off
      rec (.seq inner off)
    | some .variant => do
      let (innerSig, off) ← variantHeader buf off
      rec (.one innerSig off)
    | some .dictEntry => do
      let (inner, off) ← bracketHeader ty buf off
      let (keyTy, valTy) ← splitOne inner
      let off ← rec (.one keyTy off)
      rec (.one valTy off)
  | .items elemSig stop off =>
    if off < stop then do
      let off ← rec (.one elemSig off)
      rec (.items elemSig stop off)
    else pure off

def Call.endFuel (buf : Slice) (fuel : ℕ) : Call → Outcome ℕ
  | .seq sig off => Prod.snd <$> unmarshalFuel fuel sig buf off
  | .one ty off => Prod.snd <$> unmarshalOneFuel fuel ty buf off
  | .items elemSig stop off => Prod.snd <$> unmarshalItemsFuel fuel elemSig stop buf off

noncomputable def Call.endOf (buf : Slice) : Call → Outcome ℕ
  | .seq sig off => Prod.snd <$> unmarshal sig buf off
  | .one ty off => Prod.snd <$> unmarshalOne ty buf off
  | .items elemSig stop off => Prod.snd <$> unmarshalItems elemSig stop buf off

theorem Call.endFuel_succ (buf : Slice) (fuel : ℕ) (c : Call) :
    c.endFuel buf (fuel + 1) = c.body buf (fun c => c.endFuel buf fuel) := by
  cases c with
  | seq sig off =>
    simp only [Call.endFuel, Call.body, unmarshalFuel]
    split_ifs
    · rfl
    · simp only [map_bind, bind_map_left, bind_pure_comp, Functor.map_map]
  | one ty off =>
    simp only [Call.endFuel, Call.body, unmarshalOneFuel, map_bind]
    refine bind_congr fun c => ?_
    rcases TypeCode.ofByte c with _ | ⟨b | _ | _ | _ | _⟩
    · rfl
    · rfl
    · simp only [map_bind, bind_map_left]
      refine bind_congr fun h => bind_congr fun r => ?_
      split_ifs <;> rfl
    · simp only [map_bind, bind_pure_comp, Functor.map_map]
    · simp only [map_bind, bind_pure_comp, Functor.map_map]
    · simp only [map_bind, bind_map_left, bind_pure_comp, Functor.map_map]
  | items elemSig stop off =>
    simp only [Call.endFuel, Call.body, unmarshalItemsFuel]
    split_ifs
    · simp only [map_bind, bind_map_left, bind_pure_comp, Functor.map_map]
    · rfl

theorem Call.endOf_eq (buf : Slice) (c : Call) : c.endOf buf = c.body buf (fun c => c.endOf buf) := by
  cases c with
  | seq sig off =>
    simp only [Call.endOf, Call.body]
    rw [unmarshal_eq]
    split_ifs
    · rfl
    · simp only [map_bind, bind_map_left, bind_pure_comp, Functor.map_map]
  | one ty off =>
    simp only [Call.endOf, Call.body]
    rw [unmarshalOne_eq, map_bind]
    refine bind_congr fun c => ?_
    rcases TypeCode.ofByte c with _ | ⟨b | _ | _ | _ | _⟩
    · rfl
    · rfl
    · simp only [map_bind, bind_map_left]
      refine bind_congr fun h => bind_congr fun r => ?_
      split_ifs <;> rfl
    · simp only [map_bind, bind_pure_comp, Functor.map_map]
    · simp only [map_bind, bind_pure_comp, Functor.map_map]
    · simp only [map_bind, bind_map_left, bind_pure_comp, Functor.map_map]
  | items elemSig stop off =>
    simp only [Call.endOf, Call.body]
    rw [unmarshalItems_eq]
    split_ifs
    · simp only [map_bind, bind_map_left, bind_pure_comp, Functor.map_map]
    · rfl

inductive Ends (buf : Slice) : Call → ℕ → Prop
  | empty (off : ℕ) : Ends buf (.seq "" off) off
  | seq {sig ty rest : String} {off mid stop : ℕ} : sig ≠ "" → splitOne sig = .ok (ty, rest) →
    Ends buf (.one ty off) mid → Ends buf (.seq rest mid) stop → Ends buf (.seq sig off) stop
  | basic {ty : String} {b : Basic} {v : Value} {off stop : ℕ} : leading ty = some (.basic b) →
    unmarshalBasic b buf off = .ok (v, stop) → Ends buf (.one ty off) stop
  | array {ty elemSig : String} {off start stop : ℕ} : leading ty = some .array →
    arrayHeader ty buf off = .ok (elemSig, start, stop) → Ends buf (.items elemSig stop start) stop →
    Ends buf (.one ty off) stop
  | struct {ty inner : String} {off start stop : ℕ} : leading ty = some .struct →
    bracketHeader ty buf off = .ok (inner, start) → Ends buf (.seq inner start) stop →
    Ends buf (.one ty off) stop
  | variant {ty innerSig : String} {off start stop : ℕ} : leading ty = some .variant →
    variantHeader buf off = .ok (innerSig, start) → Ends buf (.one innerSig start) stop →
    Ends buf (.one ty off) stop
  | dictEntry {ty inner keyTy valTy : String} {off start mid stop : ℕ} : leading ty = some .dictEntry →
    bracketHeader ty buf off = .ok (inner, start) → splitOne inner = .ok (keyTy, valTy) →
    Ends buf (.one keyTy start) mid → Ends buf (.one valTy mid) stop → Ends buf (.one ty off) stop
  | done {elemSig : String} {stop off : ℕ} : ¬ off < stop → Ends buf (.items elemSig stop off) off
  | item {elemSig : String} {stop off mid last : ℕ} : off < stop → Ends buf (.one elemSig off) mid →
    Ends buf (.items elemSig stop mid) last → Ends buf (.items elemSig stop off) last

inductive Calls (buf : Slice) : Call → Call → Prop
  | first {sig ty rest : String} {off : ℕ} : sig ≠ "" → splitOne sig = .ok (ty, rest) →
    Calls buf (.seq sig off) (.one ty off)
  | rest {sig ty rest : String} {off mid : ℕ} : sig ≠ "" → splitOne sig = .ok (ty, rest) →
    Ends buf (.one ty off) mid → Calls buf (.seq sig off) (.seq rest mid)
  | items {ty elemSig : String} {off start stop : ℕ} : leading ty = some .array →
    arrayHeader ty buf off = .ok (elemSig, start, stop) →
    Calls buf (.one ty off) (.items elemSig stop start)
  | fields {ty inner : String} {off start : ℕ} : leading ty = some .struct →
    bracketHeader ty buf off = .ok (inner, start) → Calls buf (.one ty off) (.seq inner start)
  | inner {ty innerSig : String} {off start : ℕ} : leading ty = some .variant →
    variantHeader buf off = .ok (innerSig, start) → Calls buf (.one ty off) (.one innerSig start)
  | key {ty inner keyTy valTy : String} {off start : ℕ} : leading ty = some .dictEntry →
    bracketHeader ty buf off = .ok (inner, start) → splitOne inner = .ok (keyTy, valTy) →
    Calls buf (.one ty off) (.one keyTy start)
  | val {ty inner keyTy valTy : String} {off start mid : ℕ} : leading ty = some .dictEntry →
    bracketHeader ty buf off = .ok (inner, start) → splitOne inner = .ok (keyTy, valTy) →
    Ends buf (.one keyTy start) mid → Calls buf (.one ty off) (.one valTy mid)
  | item {elemSig : String} {stop off : ℕ} : off < stop →
    Calls buf (.items elemSig stop off) (.one elemSig off)
  | next {elemSig : String} {stop off mid : ℕ} : off < stop → Ends buf (.one elemSig off) mid →
    Calls buf (.items elemSig stop off) (.items elemSig stop mid)

abbrev Reaches (buf : Slice) : Call → Call → Prop := Relation.ReflTransGen (Calls buf)

def Avoids (buf : Slice) (bad : Call → Prop) (c : Call) : Prop := ∀ c', Reaches buf c c' → ¬ bad c'

theorem map_eq_ok {α β : Type} {x : Outcome α} {f : α → β} {b : β} :
    f <$> x = .ok b ↔ ∃ a, x = .ok a ∧ f a = b := by
  cases x <;> simp

theorem map_eq_error {α β : Type} {x : Outcome α} {f : α → β} {e : Stop PlatformError} :
    f <$> x = .error e ↔ x = .error e := by
  cases x <;> simp

theorem Ends.endOf {buf : Slice} {c : Call} {stop : ℕ} (h : Ends buf c stop) : c.endOf buf = .ok stop := by
  induction h with
  | empty off => simp [Call.endOf_eq, Call.body]
  | seq hne hsplit _ _ ih ih' =>
    rw [Call.endOf_eq]
    simp only [Call.body, if_neg hne, hsplit, ok_bind, ih, ih']
  | basic hlead hb =>
    obtain ⟨c, hc, hcode⟩ := firstByte_of_leading hlead
    rw [Call.endOf_eq]
    simp only [Call.body, hc, ok_bind, hcode, hb]
    rfl
  | array hlead hh _ ih =>
    obtain ⟨c, hc, hcode⟩ := firstByte_of_leading hlead
    rw [Call.endOf_eq]
    simp only [Call.body, hc, ok_bind, hcode, hh, ih, ne_eq, not_true_eq_false, ↓reduceIte, pure_eq_ok]
  | struct hlead hh _ ih | variant hlead hh _ ih =>
    obtain ⟨c, hc, hcode⟩ := firstByte_of_leading hlead
    rw [Call.endOf_eq]
    simp only [Call.body, hc, ok_bind, hcode, hh, ih]
  | dictEntry hlead hh hsplit _ _ ih ih' =>
    obtain ⟨c, hc, hcode⟩ := firstByte_of_leading hlead
    rw [Call.endOf_eq]
    simp only [Call.body, hc, ok_bind, hcode, hh, hsplit, ih, ih']
  | done hlt => simp [Call.endOf_eq, Call.body, hlt]
  | item hlt _ _ ih ih' =>
    rw [Call.endOf_eq]
    simp only [Call.body, if_pos hlt, ih, ok_bind, ih']

theorem Ends.of_body {buf : Slice} {rec : Call → Outcome ℕ} {c : Call} {stop : ℕ}
    (hrec : ∀ c stop, rec c = .ok stop → Ends buf c stop) (h : c.body buf rec = .ok stop) :
    Ends buf c stop := by
  cases c with
  | seq sig off =>
    simp only [Call.body] at h
    split_ifs at h with he
    · rw [he, ← Except.ok.inj h]
      exact .empty off
    · simp only [bind_eq_ok] at h
      obtain ⟨⟨ty, rest⟩, hsplit, mid, hone, hseq⟩ := h
      exact .seq he hsplit (hrec _ _ hone) (hrec _ _ hseq)
  | one ty off =>
    simp only [Call.body, bind_eq_ok] at h
    obtain ⟨c, hc, h⟩ := h
    have hlead := leading_of_firstByte hc
    split at h <;> rename_i hcode <;> rw [hcode] at hlead
    · cases h
    · obtain ⟨⟨v, stop⟩, hb, rfl⟩ := map_eq_ok.mp h
      exact .basic hlead hb
    · simp only [bind_eq_ok] at h
      obtain ⟨⟨elemSig, start, stop'⟩, hh, last, hitems, h⟩ := h
      split_ifs at h with hlast
      cases h
      rw [not_not.mp hlast] at hitems ⊢
      exact .array hlead hh (hrec _ _ hitems)
    · simp only [bind_eq_ok] at h
      obtain ⟨⟨inner, start⟩, hh, hseq⟩ := h
      exact .struct hlead hh (hrec _ _ hseq)
    · simp only [bind_eq_ok] at h
      obtain ⟨⟨innerSig, start⟩, hh, hone⟩ := h
      exact .variant hlead hh (hrec _ _ hone)
    · simp only [bind_eq_ok] at h
      obtain ⟨⟨inner, start⟩, hh, ⟨keyTy, valTy⟩, hsplit, mid, hkey, hval⟩ := h
      exact .dictEntry hlead hh hsplit (hrec _ _ hkey) (hrec _ _ hval)
  | items elemSig stop' off =>
    simp only [Call.body] at h
    split_ifs at h with hlt
    · simp only [bind_eq_ok] at h
      obtain ⟨mid, hone, hitems⟩ := h
      exact .item hlt (hrec _ _ hone) (hrec _ _ hitems)
    · cases h
      exact .done hlt

theorem ends_of_endFuel {buf : Slice} (fuel : ℕ) (c : Call) (stop : ℕ) (h : c.endFuel buf fuel = .ok stop) :
    Ends buf c stop := by
  induction fuel generalizing c stop with
  | zero =>
    cases c with
    | seq => rw [Call.endFuel, unmarshalFuel] at h; cases h
    | one => rw [Call.endFuel, unmarshalOneFuel] at h; cases h
    | items => rw [Call.endFuel, unmarshalItemsFuel] at h; cases h
  | succ fuel ih => exact .of_body ih (c.endFuel_succ buf fuel ▸ h)

theorem Call.exists_endFuel (buf : Slice) (c : Call) : ∃ fuel, c.endFuel buf fuel = c.endOf buf := by
  cases c with
  | seq sig off =>
    obtain ⟨n, hn⟩ := exists_limit (unmarshalFuel · sig buf off)
    exact ⟨n, congrArg (Prod.snd <$> ·) hn⟩
  | one ty off =>
    obtain ⟨n, hn⟩ := exists_limit (unmarshalOneFuel · ty buf off)
    exact ⟨n, congrArg (Prod.snd <$> ·) hn⟩
  | items elemSig stop off =>
    obtain ⟨n, hn⟩ := exists_limit (unmarshalItemsFuel · elemSig stop buf off)
    exact ⟨n, congrArg (Prod.snd <$> ·) hn⟩

theorem Call.endFuel_extends (buf : Slice) (fuel : ℕ) (c : Call) :
    Extends (c.endFuel buf fuel) (c.endOf buf) := by
  cases c with
  | seq sig off => exact ((unmarshalFuel_steady sig buf off).extends_limit fuel).map Prod.snd
  | one ty off => exact ((unmarshalOneFuel_steady ty buf off).extends_limit fuel).map Prod.snd
  | items elemSig stop off =>
    exact ((unmarshalItemsFuel_steady elemSig stop buf off).extends_limit fuel).map Prod.snd

theorem ends_iff {buf : Slice} {c : Call} {stop : ℕ} : Ends buf c stop ↔ c.endOf buf = .ok stop := by
  refine ⟨Ends.endOf, fun h => ?_⟩
  obtain ⟨n, hn⟩ := c.exists_endFuel buf
  exact ends_of_endFuel n c stop (hn.trans h)

theorem Ends.unique {buf : Slice} {c : Call} {stop stop' : ℕ} (h : Ends buf c stop) (h' : Ends buf c stop') :
    stop = stop' :=
  Except.ok.inj (h.endOf.symm.trans h'.endOf)

end Rustils.Dbus
