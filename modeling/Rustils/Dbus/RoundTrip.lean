import Rustils.Dbus.Carried

namespace Rustils.Dbus

open Platform Lib.Fuel Lib.Machine Lib.Utf8 Lib.LittleEndian

theorem Basic.wire_pos {b : Basic} {v : Value} (h : b.Has v) (pos : ℕ) : 0 < (wire pos v).length := by
  rcases b with _ | _ | k | _ | _ | _
  case num =>
    obtain ⟨x, hx⟩ := Option.isSome_iff_exists.mp h
    have hk : 0 < k.width := by cases k <;> decide
    rw [wire_num hx, List.length_append, length_leBytes]
    omega
  all_goals
    cases v <;> try exact h.elim
    all_goals simp [wire, wireString, wireSignature]

theorem wire_pos {t : Ty} {v : Value} (h : HasTy t v) (pos : ℕ) : 0 < (wire pos v).length := by
  match t, v with
  | .basic b, v => exact Basic.wire_pos (hasTy_basic.mp h) pos
  | .variant, .variant inner => simp [wire, wireSignature]
  | .array elem, .array elemSig items => simp [wire]
  | .struct first rest, .struct (f :: fields) =>
    have hf : HasTy first f := h.1
    have := wire_pos hf (pos + padding pos 8)
    simp only [wire, wireAll, List.length_append]
    omega
  | .dict key val, .dictEntry k w =>
    have hk : HasTy (.basic key) k := h.1
    have := Basic.wire_pos (hasTy_basic.mp hk) (pos + padding pos 8)
    simp only [wire, List.length_append]
    omega

theorem carried_basic {ty : String} {b : Basic} {v : Value} (hlead : leading ty = some (.basic b))
    (h : b.Has v) (pos : ℕ) : Carried ty pos v := by
  have hall : ∀ b', leading ty = some (.basic b') → b'.Has v := by
    intro b' hb'
    cases hlead.symm.trans hb'
    exact h
  cases v <;> first | exact hall | (cases b <;> simp [Basic.Has, Num.payload] at h)

mutual

theorem carried_of_hasTy {t : Ty} {v : Value} {pos : ℕ} (h : HasTy t v) (hb : len t.sig < 2 ^ 31)
    (hfit : ArraysFit pos v) : Carried t.sig pos v := by
  match t, v with
  | .basic b, v => exact carried_basic (leading_sig (.basic b)) (hasTy_basic.mp h) pos
  | .variant, .variant inner =>
    obtain ⟨t, ht, hlen⟩ : ∃ t, HasTy t inner ∧ len t.sig ≤ 255 := h
    have hone := typeLen_sig t [] (by omega)
    rw [List.append_nil] at hone
    rw [ArraysFit] at hfit
    rw [Carried, signatureOf_eq ht] at *
    exact ⟨hlen, hone, carried_of_hasTy ht (by omega) hfit⟩
  | .array elem, .array elemSig items =>
    obtain ⟨rfl, hitems⟩ : elemSig = elem.sig ∧ HasItems elem items := h
    obtain ⟨hlen, hfits⟩ : _ < 2 ^ 32 ∧ AllArraysFit (contentStart pos elem.sig) items := hfit
    have helem := len_array elem
    exact ⟨hlen, carriedItems_of_hasItems hitems (by omega) hfits⟩
  | .struct first rest, .struct fields =>
    have hfields : HasTys (first :: rest) fields := h
    have hlen := len_struct first rest
    intro inner hs
    cases hs.symm.trans (sliceOrPanic_ok.mp (slice_struct first rest))
    exact carriedAll_of_hasTys hfields (by rw [sigs]; omega) hfit
  | .dict key val, .dictEntry k w =>
    obtain ⟨hk, hw⟩ : HasTy (.basic key) k ∧ HasTy val w := h
    obtain ⟨hfk, hfw⟩ := hfit
    obtain ⟨-, h2, h3⟩ := slice_dict key val
    have hlen := len_dict key val
    have hkey := key.len_sig
    rw [len_append] at hlen
    constructor
    · intro keyTy hs
      cases hs.symm.trans (sliceOrPanic_ok.mp h2)
      have ihk := carried_of_hasTy hk (by rw [Ty.sig]; omega) hfk
      rwa [Ty.sig] at ihk
    · intro valTy hs
      cases hs.symm.trans (sliceOrPanic_ok.mp h3)
      exact carried_of_hasTy hw (by omega) hfw

theorem carriedItems_of_hasItems {elem : Ty} {items : List Value} {pos : ℕ} (h : HasItems elem items)
    (hb : len elem.sig < 2 ^ 31) (hfit : AllArraysFit pos items) : CarriedItems elem.sig pos items := by
  match items with
  | [] => trivial
  | item :: items =>
    refine ⟨List.ne_nil_of_length_pos (wire_pos h.1 pos), carried_of_hasTy h.1 hb hfit.1, ?_⟩
    exact carriedItems_of_hasItems h.2 hb hfit.2

theorem carriedAll_of_hasTys {ts : List Ty} {vs : List Value} {pos : ℕ} (h : HasTys ts vs)
    (hb : len (sigs ts) < 2 ^ 31) (hfit : AllArraysFit pos vs) : CarriedAll (sigs ts) pos vs := by
  match ts, vs with
  | [], [] => trivial
  | t :: ts, v :: vs =>
    rw [sigs, len_append] at hb
    intro ty rest hsplit
    rw [sigs] at hsplit
    cases hsplit.symm.trans (splitOne_sig t _ (by omega))
    exact ⟨carried_of_hasTy h.1 (by omega) hfit.1, carriedAll_of_hasTys h.2 (by omega) hfit.2⟩

end

theorem unmarshal_wire {ts : List Ty} {vs : List Value} {buf : Slice} {off : ℕ} (h : HasTys ts vs)
    (hb : len (sigs ts) < 2 ^ 31) (hfit : AllArraysFit off vs) (hat : HasAt buf off (wireAll off vs)) :
    unmarshal (sigs ts) buf off = .ok (vs, off + (wireAll off vs).length) :=
  unmarshal_carried (acceptsAll_of_hasTys h hb) (carriedAll_of_hasTys h hb hfit) hat

theorem unmarshal_marshal (ts : List Ty) (vs : List Value) (pre : List UInt8) (hty : HasTys ts vs)
    (hsig : len (sigs ts) < 2 ^ 31) (hfit : AllArraysFit pre.length vs) :
    ∃ bytes, marshal (sigs ts) vs pre = .ok (pre ++ bytes) ∧
      ∀ suf fits, unmarshal (sigs ts) ⟨pre ++ bytes ++ suf, fits⟩ pre.length =
        .ok (vs, pre.length + bytes.length) := by
  refine ⟨wireAll pre.length vs, marshal_wire hty hsig pre, fun suf fits => ?_⟩
  exact unmarshal_wire hty hsig hfit (hasAt_of_append rfl)

theorem unmarshal_marshal_dictionary :
    ∃ bytes, marshal "a\x7bsv\x7dy" [.array "\x7bsv\x7d" [.dictEntry (.string "k") (.variant (.uint32 7))], .byte 1]
        [1, 2, 3] = .ok ([1, 2, 3] ++ bytes) ∧
      ∀ suf fits, unmarshal "a\x7bsv\x7dy" ⟨[1, 2, 3] ++ bytes ++ suf, fits⟩ 3 =
        .ok ([.array "\x7bsv\x7d" [.dictEntry (.string "k") (.variant (.uint32 7))], .byte 1],
          3 + bytes.length) := by
  have hty : HasTys [.array (.dict .string .variant), .basic .byte]
      [.array "\x7bsv\x7d" [.dictEntry (.string "k") (.variant (.uint32 7))], .byte 1] := by
    refine ⟨⟨by decide, ⟨?_, .basic (.num .uint32), ?_, ?_⟩, trivial⟩, ?_, trivial⟩
    · exact (by decide : len "k" < 2 ^ 32)
    · exact hasTy_basic.mpr rfl
    · decide
    · exact hasTy_basic.mpr trivial
  have hfit : AllArraysFit [1, 2, 3].length
      [.array "\x7bsv\x7d" [.dictEntry (.string "k") (.variant (.uint32 7))], .byte 1] := by
    refine ⟨⟨by decide, ⟨trivial, trivial⟩, trivial⟩, trivial, trivial⟩
  exact unmarshal_marshal _ _ [1, 2, 3] hty (by decide) hfit

end Rustils.Dbus
