import Rustils.Dbus.Calls
import Rustils.Dbus.SignatureScan

namespace Rustils.Dbus

open Platform Lib.Fuel Lib.Machine Lib.Utf8

variable {buf : Slice} {c c' : Call} {e : Stop PlatformError}

def Call.head (buf : Slice) : Call → Outcome Unit
  | .seq sig _ => if sig = "" then pure () else (fun _ => ()) <$> (splitOne sig)
  | .one ty off => do
    let c ← firstByte ty
    match TypeCode.ofByte c with
    | none => fail (badSignature "unsupported type code")
    | some (.basic b) => (fun _ => ()) <$> (unmarshalBasic b buf off)
    | some .array => (fun _ => ()) <$> (arrayHeader ty buf off)
    | some .struct => (fun _ => ()) <$> (bracketHeader ty buf off)
    | some .variant => (fun _ => ()) <$> (variantHeader buf off)
    | some .dictEntry => do
      let (inner, _) ← bracketHeader ty buf off
      (fun _ => ()) <$> (splitOne inner)
  | .items _ _ _ => pure ()

theorem Call.body_of_head {rec : Call → Outcome ℕ} (h : c.head buf = .error e) :
    c.body buf rec = .error e := by
  cases c with
  | seq sig off =>
    simp only [Call.head] at h
    split_ifs at h with he
    · cases h
    · rw [map_eq_error] at h
      rw [Call.body, if_neg he, h, error_bind]
  | one ty off =>
    simp only [Call.head, bind_eq_error] at h
    rw [Call.body]
    obtain h | ⟨c, hc, h⟩ := h
    · rw [h, error_bind]
    · rw [hc, ok_bind]
      generalize TypeCode.ofByte c = code at h ⊢
      rcases code with _ | ⟨b | _ | _ | _ | _⟩ <;> dsimp only at h ⊢
      · cases h
        rfl
      · rw [map_eq_error]
        exact map_eq_error.mp h
      · rw [map_eq_error.mp h, error_bind]
      · rw [map_eq_error.mp h, error_bind]
      · rw [map_eq_error.mp h, error_bind]
      · obtain h | ⟨⟨inner, start⟩, hh, h⟩ := bind_eq_error.mp h
        · rw [h, error_bind]
        · rw [hh, ok_bind, map_eq_error.mp h, error_bind]
  | items elemSig stop off => cases h

theorem Call.endOf_of_head (h : c.head buf = .error e) : c.endOf buf = .error e := by
  rw [Call.endOf_eq]
  exact Call.body_of_head h

theorem Calls.error (hcalls : Calls buf c c') (h : c'.endOf buf = .error e) : c.endOf buf = .error e := by
  rw [Call.endOf_eq]
  cases hcalls with
  | first hne hsplit => simp only [Call.body, if_neg hne, hsplit, ok_bind, h, error_bind]
  | rest hne hsplit hend => simp only [Call.body, if_neg hne, hsplit, ok_bind, hend.endOf, h]
  | items hlead hh =>
    obtain ⟨b, hb, hcode⟩ := firstByte_of_leading hlead
    simp only [Call.body, hb, ok_bind, hcode, hh, h, error_bind]
  | fields hlead hh | inner hlead hh =>
    obtain ⟨b, hb, hcode⟩ := firstByte_of_leading hlead
    simp only [Call.body, hb, ok_bind, hcode, hh, h]
  | key hlead hh hsplit =>
    obtain ⟨b, hb, hcode⟩ := firstByte_of_leading hlead
    simp only [Call.body, hb, ok_bind, hcode, hh, hsplit, h, error_bind]
  | val hlead hh hsplit hend =>
    obtain ⟨b, hb, hcode⟩ := firstByte_of_leading hlead
    simp only [Call.body, hb, ok_bind, hcode, hh, hsplit, hend.endOf, h]
  | item hlt => simp only [Call.body, if_pos hlt, h, error_bind]
  | next hlt hend => simp only [Call.body, if_pos hlt, hend.endOf, ok_bind, h]

theorem Reaches.error (hreach : Reaches buf c c') (h : c'.endOf buf = .error e) :
    c.endOf buf = .error e := by
  induction hreach using Relation.ReflTransGen.head_induction_on with
  | refl => exact h
  | head hcalls _ ih => exact hcalls.error ih

theorem Call.body_one_error {rec : Call → Outcome ℕ} {ty : String} {off : ℕ}
    (hrec : ∀ c stop, rec c = .ok stop → Ends buf c stop) (he : Foreign e ∨ e = .panicked)
    (h : (Call.one ty off).body buf rec = .error e) :
    (Call.one ty off).head buf = .error e ∨ ∃ c', Calls buf (.one ty off) c' ∧ rec c' = .error e := by
  have hfail {α : Type} {x : PlatformError} (hx : x.kind = .invalidInput) :
      (fail x : Outcome α) ≠ .error e := by
    rcases he with he | rfl
    · exact he.fail_ne hx
    · simp
  simp only [Call.body] at h
  obtain h | ⟨b, hb, h⟩ := bind_eq_error.mp h
  · left
    rw [Call.head, h, error_bind]
  have hlead := leading_of_firstByte hb
  split at h <;> rename_i hcode <;> rw [hcode] at hlead
  · exact absurd h (hfail rfl)
  · left
    simp only [Call.head, hb, ok_bind, hcode]
    exact map_eq_error.mpr (map_eq_error.mp h)
  · obtain h | ⟨⟨elemSig, start, stop⟩, hh, h⟩ := bind_eq_error.mp h
    · left
      simp only [Call.head, hb, ok_bind, hcode]
      exact map_eq_error.mpr h
    · right
      obtain h | ⟨last, -, h⟩ := bind_eq_error.mp h
      · exact ⟨_, .items hlead hh, h⟩
      · split_ifs at h
        · exact absurd h (hfail rfl)
        · cases h
  · obtain h | ⟨⟨inner, start⟩, hh, h⟩ := bind_eq_error.mp h
    · left
      simp only [Call.head, hb, ok_bind, hcode]
      exact map_eq_error.mpr h
    · exact .inr ⟨_, .fields hlead hh, h⟩
  · obtain h | ⟨⟨innerSig, start⟩, hh, h⟩ := bind_eq_error.mp h
    · left
      simp only [Call.head, hb, ok_bind, hcode]
      exact map_eq_error.mpr h
    · exact .inr ⟨_, .inner hlead hh, h⟩
  · obtain h | ⟨⟨inner, start⟩, hh, h⟩ := bind_eq_error.mp h
    · left
      simp only [Call.head, hb, ok_bind, hcode, h, error_bind]
    · obtain h | ⟨⟨keyTy, valTy⟩, hsplit, h⟩ := bind_eq_error.mp h
      · left
        simp only [Call.head, hb, ok_bind, hcode, hh]
        exact map_eq_error.mpr h
      · right
        obtain h | ⟨mid, hmid, h⟩ := bind_eq_error.mp h
        · exact ⟨_, .key hlead hh hsplit, h⟩
        · exact ⟨_, .val hlead hh hsplit (hrec _ _ hmid), h⟩

theorem Call.body_error {rec : Call → Outcome ℕ} (hrec : ∀ c stop, rec c = .ok stop → Ends buf c stop)
    (he : Foreign e ∨ e = .panicked) (h : c.body buf rec = .error e) :
    c.head buf = .error e ∨ ∃ c', Calls buf c c' ∧ rec c' = .error e := by
  cases c with
  | seq sig off =>
    simp only [Call.body] at h
    split_ifs at h with hsig
    · cases h
    obtain h | ⟨⟨ty, rest⟩, hsplit, h⟩ := bind_eq_error.mp h
    · left
      rw [Call.head, if_neg hsig]
      exact map_eq_error.mpr h
    · right
      obtain h | ⟨mid, hmid, h⟩ := bind_eq_error.mp h
      · exact ⟨_, .first hsig hsplit, h⟩
      · exact ⟨_, .rest hsig hsplit (hrec _ _ hmid), h⟩
  | one ty off => exact Call.body_one_error hrec he h
  | items elemSig stop off =>
    simp only [Call.body] at h
    split_ifs at h with hlt
    case neg => cases h
    right
    obtain h | ⟨mid, hmid, h⟩ := bind_eq_error.mp h
    · exact ⟨_, .item hlt, h⟩
    · exact ⟨_, .next hlt (hrec _ _ hmid), h⟩

theorem Call.exists_head_error (he : Foreign e ∨ e = .panicked) (hne : e ≠ .unfinished)
    (h : c.endOf buf = .error e) : ∃ c', Reaches buf c c' ∧ c'.head buf = .error e := by
  obtain ⟨fuel, hfuel⟩ := c.exists_endFuel buf
  rw [h] at hfuel
  clear h
  induction fuel generalizing c with
  | zero =>
    have hzero : c.endFuel buf 0 = unfinished := by
      cases c <;> simp [Call.endFuel, unmarshalFuel, unmarshalOneFuel, unmarshalItemsFuel]
    exact absurd (Except.error.inj (hfuel.symm.trans hzero)) hne
  | succ fuel ih =>
    rw [Call.endFuel_succ] at hfuel
    obtain hhead | ⟨c', hcalls, hfuel⟩ := Call.body_error (ends_of_endFuel fuel) he hfuel
    · exact ⟨c, .refl, hhead⟩
    · obtain ⟨d, hreach, hd⟩ := ih hfuel
      exact ⟨d, .head hcalls hreach, hd⟩

theorem Ends.le {stop : ℕ} (h : Ends buf c stop) : c.off ≤ stop := by
  induction h with
  | empty | done => exact Nat.le_refl _
  | seq _ _ _ _ ih ih' | item _ _ _ ih ih' => exact ih.trans ih'
  | basic _ hb => exact (unmarshalBasic_ok hb).1.le
  | array _ hh _ _ =>
    have := arrayHeader_ok hh
    simp only [Call.off]
    omega
  | struct _ hh _ ih =>
    have := bracketHeader_ok hh
    simp only [Call.off] at *
    omega
  | variant _ hh _ ih =>
    have := variantHeader_ok hh
    simp only [Call.off] at *
    omega
  | dictEntry _ hh _ _ _ ih ih' =>
    have := bracketHeader_ok hh
    simp only [Call.off] at *
    omega

theorem Ends.le_max {stop : ℕ} (h : Ends buf c stop) : stop ≤ max c.off buf.length := by
  induction h with
  | empty | done => exact Nat.le_max_left _ _
  | seq _ _ _ _ ih ih' | item _ _ _ ih ih' =>
    simp only [Call.off] at *
    omega
  | basic _ hb => exact (unmarshalBasic_ok hb).2.trans (Nat.le_max_right _ _)
  | array _ hh _ _ => exact (arrayHeader_ok hh).2.2.1.trans (Nat.le_max_right _ _)
  | struct _ hh _ ih =>
    have := bracketHeader_ok hh
    simp only [Call.off] at *
    omega
  | variant _ hh _ ih =>
    have := variantHeader_ok hh
    simp only [Call.off] at *
    omega
  | dictEntry _ hh _ _ _ ih ih' =>
    have := bracketHeader_ok hh
    simp only [Call.off] at *
    omega

theorem Ends.one_le {ty : String} {off stop : ℕ} (h : Ends buf (.one ty off) stop) : stop ≤ buf.length := by
  cases h with
  | basic _ hb => exact (unmarshalBasic_ok hb).2
  | array _ hh _ => exact (arrayHeader_ok hh).2.2.1
  | struct _ hh hend =>
    have := bracketHeader_ok hh
    have := hend.le_max
    simp only [Call.off] at *
    omega
  | variant _ hh hend =>
    have := variantHeader_ok hh
    have := hend.le_max
    simp only [Call.off] at *
    omega
  | dictEntry _ hh _ hkey hval =>
    have := bracketHeader_ok hh
    have := hkey.le_max
    have := hval.le_max
    simp only [Call.off] at *
    omega

theorem Calls.off_le_length (h : Calls buf c c') (hc : c.off ≤ buf.length) : c'.off ≤ buf.length := by
  cases h with
  | first | item => exact hc
  | rest _ _ hend | val _ _ _ hend | next _ hend => exact hend.one_le
  | items _ hh =>
    have := arrayHeader_ok hh
    simp only [Call.off]
    omega
  | fields _ hh | key _ hh => exact (bracketHeader_ok hh).2.1
  | inner _ hh => exact (variantHeader_ok hh).2.1

theorem Reaches.off_le_length (h : Reaches buf c c') (hc : c.off ≤ buf.length) : c'.off ≤ buf.length := by
  induction h with
  | refl => exact hc
  | tail _ hcalls ih => exact hcalls.off_le_length ih

end Rustils.Dbus
