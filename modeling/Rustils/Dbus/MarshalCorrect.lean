import Rustils.Dbus.Accepted

namespace Rustils.Dbus

open Platform Lib.Fuel Lib.Utf8 Lib.LittleEndian

theorem Basic.Has.takes {b : Basic} {v : Value} (h : b.Has v) : b.Takes v := by
  rcases b with _ | _ | k | _ | _ | _
  case num => exact h
  all_goals cases v <;> first | exact h.elim | trivial

theorem hasTy_basic {b : Basic} {v : Value} : HasTy (.basic b) v ↔ b.Has v := by
  cases v <;> simp [HasTy]

mutual

theorem signatureOf_eq {t : Ty} {v : Value} (h : HasTy t v) : signatureOf v = t.sig := by
  match t, v with
  | .basic b, v =>
    rcases b with _ | _ | k | _ | _ | _
    case num => cases k <;> cases v <;> simp_all [HasTy, Basic.Has, Num.payload, signatureOf, Ty.sig, Basic.sig]
    all_goals cases v <;> simp_all [HasTy, Basic.Has, signatureOf, Ty.sig, Basic.sig]
  | .variant, .variant _ => rfl
  | .array elem, .array elemSig items =>
    rw [signatureOf, Ty.sig, (show elemSig = elem.sig from h.1)]
  | .struct first rest, .struct fields =>
    have hfields : HasTys (first :: rest) fields := h
    rw [signatureOf, Ty.sig, signaturesOf_eq hfields, sigs]
  | .dict key val, .dictEntry k v =>
    have hk : HasTy (.basic key) k := h.1
    have hv : HasTy val v := h.2
    rw [signatureOf, Ty.sig, signatureOf_eq hk, signatureOf_eq hv, Ty.sig]

theorem signaturesOf_eq {ts : List Ty} {vs : List Value} (h : HasTys ts vs) : signaturesOf vs = sigs ts := by
  match ts, vs with
  | [], [] => rfl
  | t :: ts, v :: vs =>
    rw [signaturesOf, sigs, signatureOf_eq h.1, signaturesOf_eq h.2]

end

theorem slice_array (elem : Ty) :
    sliceOrPanic (Ty.array elem).sig 1 (len (Ty.array elem).sig) = .ok elem.sig := by
  have h : slice (Ty.array elem).sig 1 (len (Ty.array elem).sig) = some elem.sig :=
    slice_eq_some.mpr ⟨"a", "", by simp [Ty.sig], rfl, by rw [len_array, Nat.add_comm]; rfl⟩
  rw [sliceOrPanic, h]
  rfl

theorem slice_struct (first : Ty) (rest : List Ty) :
    sliceOrPanic (Ty.struct first rest).sig 1 (len (Ty.struct first rest).sig - 1) =
      .ok (sigs (first :: rest)) := by
  have h : slice (Ty.struct first rest).sig 1 (len (Ty.struct first rest).sig - 1) =
      some (sigs (first :: rest)) := by
    refine slice_eq_some.mpr ⟨"(", ")", rfl, rfl, ?_⟩
    rw [len_struct, sigs, show len "(" = 1 from rfl]
    omega
  rw [sliceOrPanic, h]
  rfl

theorem Basic.len_sig (b : Basic) : len b.sig = 1 := by
  obtain ⟨c, hc, -⟩ := b.exists_sig
  rw [len, hc, List.length_singleton]

theorem slice_dict (key : Basic) (val : Ty) :
    sliceOrPanic (Ty.dict key val).sig 1 (len (Ty.dict key val).sig - 1) = .ok (key.sig ++ val.sig) ∧
    sliceOrPanic (Ty.dict key val).sig 1 2 = .ok key.sig ∧
    sliceOrPanic (Ty.dict key val).sig 2 (len (Ty.dict key val).sig - 1) = .ok val.sig := by
  have hk := key.len_sig
  have hl : len "\x7b" = 1 := rfl
  have h1 : slice (Ty.dict key val).sig 1 (len (Ty.dict key val).sig - 1) = some (key.sig ++ val.sig) := by
    refine slice_eq_some.mpr ⟨"\x7b", "\x7d", rfl, hl, ?_⟩
    rw [len_dict]
    omega
  have h2 : slice (Ty.dict key val).sig 1 2 = some key.sig := by
    refine slice_eq_some.mpr ⟨"\x7b", val.sig ++ "\x7d", ?_, hl, by omega⟩
    rw [Ty.sig, ← asBytes_inj]
    simp
  have h3 : slice (Ty.dict key val).sig 2 (len (Ty.dict key val).sig - 1) = some val.sig := by
    refine slice_eq_some.mpr ⟨"\x7b" ++ key.sig, "\x7d", ?_, by rw [len_append]; omega, ?_⟩
    · rw [Ty.sig, ← asBytes_inj]
      simp
    · rw [len_dict, len_append, len_append]
      omega
  rw [sliceOrPanic, h1, sliceOrPanic, h2, sliceOrPanic, h3]
  exact ⟨rfl, rfl, rfl⟩

theorem leading_sig (t : Ty) : leading t.sig = some t.code := by
  obtain ⟨c, hc, hcode, -⟩ := firstByte_sig t
  rw [leading_of_firstByte hc, hcode]

mutual

theorem accepts_of_hasTy {t : Ty} {v : Value} (h : HasTy t v) (hb : len t.sig < 2 ^ 31) :
    Accepts t.sig v := by
  have hlead := leading_sig t
  match t, v with
  | .basic b, v => exact (accepts_basic hlead).mpr (hasTy_basic.mp h).takes
  | .variant, .variant inner =>
    obtain ⟨t, ht, hlen⟩ : ∃ t, HasTy t inner ∧ len t.sig ≤ 255 := h
    have hinner := accepts_of_hasTy ht (by omega)
    rw [← signatureOf_eq ht] at hinner
    exact (accepts_variant hlead).mpr ⟨inner, rfl, hinner⟩
  | .array elem, .array elemSig items =>
    obtain ⟨rfl, hitems⟩ : elemSig = elem.sig ∧ HasItems elem items := h
    have hlen := len_array elem
    refine (accepts_array hlead).mpr ⟨_, _, rfl, sliceOrPanic_ok.mp (slice_array elem), elem.sig_ne_empty, ?_⟩
    exact acceptsItems_of_hasItems hitems (by omega)
  | .struct first rest, .struct fields =>
    have hfields : HasTys (first :: rest) fields := h
    have hlen := len_struct first rest
    refine (accepts_struct hlead).mpr ⟨_, _, rfl, sliceOrPanic_ok.mp (slice_struct first rest), ?_⟩
    exact acceptsAll_of_hasTys hfields (by rw [sigs]; omega)
  | .dict key val, .dictEntry k w =>
    obtain ⟨hk, hw⟩ : HasTy (.basic key) k ∧ HasTy val w := h
    obtain ⟨-, h2, h3⟩ := slice_dict key val
    have hlen := len_dict key val
    have hkey := key.len_sig
    rw [len_append] at hlen
    have ihk := accepts_of_hasTy hk (by rw [Ty.sig]; omega)
    rw [Ty.sig] at ihk
    exact (accepts_dictEntry hlead).mpr ⟨_, _, _, _, rfl, sliceOrPanic_ok.mp h2, sliceOrPanic_ok.mp h3, ihk,
      accepts_of_hasTy hw (by omega)⟩

theorem acceptsItems_of_hasItems {elem : Ty} {items : List Value} (h : HasItems elem items)
    (hb : len elem.sig < 2 ^ 31) : AcceptsItems elem.sig items := by
  match items with
  | [] => trivial
  | item :: items => exact ⟨accepts_of_hasTy h.1 hb, acceptsItems_of_hasItems h.2 hb⟩

theorem acceptsAll_of_hasTys {ts : List Ty} {vs : List Value} (h : HasTys ts vs)
    (hb : len (sigs ts) < 2 ^ 31) : AcceptsAll (sigs ts) vs := by
  match ts, vs with
  | [], [] => rfl
  | t :: ts, v :: vs =>
    rw [sigs, len_append] at hb
    refine ⟨t.sig_append_ne_empty _, t.sig, sigs ts, splitOne_sig t _ (by omega), ?_, ?_⟩
    · exact accepts_of_hasTy h.1 (by omega)
    · exact acceptsAll_of_hasTys h.2 (by omega)

end

theorem marshal_wire {ts : List Ty} {vs : List Value} (h : HasTys ts vs) (hb : len (sigs ts) < 2 ^ 31)
    (buf : List UInt8) : marshal (sigs ts) vs buf = .ok (buf ++ wireAll buf.length vs) :=
  (marshal_ok _ vs _ _).mpr ⟨acceptsAll_of_hasTys h hb, rfl⟩

end Rustils.Dbus
