import Rustils.Dbus.ReaderBounds

namespace Rustils.Dbus

open Platform Lib.Fuel Lib.Machine Lib.Utf8

theorem bracketedLoop_ok {o c : UInt8} {bs : List UInt8} {i n : ℕ} {d : ℤ}
    (h : bracketedLoop o c bs i d = .ok n) : ∃ xs ys, bs = xs ++ c :: ys ∧ n = i + xs.length + 1 := by
  induction bs generalizing i d with
  | nil => cases h
  | cons b bs ih =>
    -- a byte that does not end the scan goes to the front of what precedes the closing bracket
    have hnext {d' : ℤ} (h : bracketedLoop o c bs (i + 1) d' = .ok n) :
        ∃ xs ys, b :: bs = xs ++ c :: ys ∧ n = i + xs.length + 1 := by
      obtain ⟨xs, ys, rfl, rfl⟩ := ih h
      exact ⟨b :: xs, ys, rfl, by simp; omega⟩
    rw [bracketedLoop] at h
    split_ifs at h with ho hc
    · obtain ⟨d', -, h⟩ := bind_eq_ok.mp h
      exact hnext h
    · obtain ⟨d', -, h⟩ := bind_eq_ok.mp h
      split_ifs at h
      · cases h
        exact ⟨[], bs, by simp [hc], rfl⟩
      · exact hnext h
    · exact hnext h

theorem bracketedLoop_ne_panicked {o c : UInt8} {bs : List UInt8} {i : ℕ} {d : ℤ}
    (hlo : -2 ^ 31 ≤ d - bs.length) (hhi : d + bs.length < 2 ^ 31) :
    bracketedLoop o c bs i d ≠ panicked := by
  induction bs generalizing i d with
  | nil => simp [bracketedLoop]
  | cons b bs ih =>
    rw [List.length_cons] at hlo hhi
    have hadd (x : ℤ) (hx : x = 1 ∨ x = -1) : addI32 d x = (.ok (d + x) : Outcome ℤ) :=
      if_pos ⟨by omega, by omega⟩
    rw [bracketedLoop]
    split_ifs
    · rw [hadd 1 (.inl rfl), ok_bind]
      exact ih (by omega) (by omega)
    · rw [hadd (-1) (.inr rfl), ok_bind]
      split_ifs
      · simp
      · exact ih (by omega) (by omega)
    · exact ih (by omega) (by omega)

theorem Foreign.bracketedLoop {e : Stop PlatformError} (he : Foreign e) {o c : UInt8} {bs : List UInt8}
    {i : ℕ} {d : ℤ} : bracketedLoop o c bs i d ≠ .error e := by
  induction bs generalizing i d with
  | nil => exact he.fail_ne rfl
  | cons b bs ih =>
    have hadd (x : ℤ) : addI32 d x ≠ (.error e : Outcome ℤ) := by
      unfold addI32
      split_ifs
      · simp
      · exact fun h => he.ne_panicked (Except.error.inj h).symm
    rw [Dbus.bracketedLoop]
    split_ifs
    · exact bind_ne_error (hadd 1) fun _ _ => ih
    · refine bind_ne_error (hadd (-1)) fun _ _ => ?_
      split_ifs
      · simp
      · exact ih
    · exact ih

theorem Foreign.typeLen {e : Stop PlatformError} (he : Foreign e) (bs : List UInt8) : typeLen bs ≠ .error e := by
  induction bs with
  | nil => exact he.fail_ne rfl
  | cons b bs ih =>
    rw [Dbus.typeLen]
    split
    · exact bind_ne_error ih fun _ _ => by simp
    · exact he.bracketedLoop
    · exact he.bracketedLoop
    · simp
    · simp
    · exact he.fail_ne rfl

theorem typeLen_ne_panicked {bs : List UInt8} (h : bs.length < 2 ^ 31) : typeLen bs ≠ panicked := by
  induction bs with
  | nil => simp [typeLen]
  | cons b bs ih =>
    rw [typeLen]
    split
    · rw [List.length_cons] at h
      exact bind_ne_error (ih (by omega)) fun _ _ => by simp
    · exact bracketedLoop_ne_panicked (by omega) (by omega)
    · exact bracketedLoop_ne_panicked (by omega) (by omega)
    · simp
    · simp
    · simp

theorem ascii_of_code {b : UInt8} {code : TypeCode} (h : TypeCode.ofByte b = some code) : b < 0x80 := by
  have hall : ∀ n < 256, (TypeCode.ofByte (UInt8.ofNat n)).isSome → n < 128 := by decide +kernel
  have hb := hall b.toNat b.toNat_lt
  rw [UInt8.ofNat_toNat, h] at hb
  exact hb rfl

theorem typeLen_ok {bs : List UInt8} {n : ℕ} (h : typeLen bs = .ok n) :
    ∃ xs b ys, bs = xs ++ b :: ys ∧ b < 0x80 ∧ n = xs.length + 1 := by
  induction bs generalizing n with
  | nil => cases h
  | cons b bs ih =>
    rw [typeLen] at h
    split at h
    · obtain ⟨m, hm, h⟩ := bind_eq_ok.mp h
      obtain ⟨xs, c, ys, rfl, hc, rfl⟩ := ih hm
      exact ⟨b :: xs, c, ys, rfl, hc, by simpa [Nat.add_comm] using (Except.ok.inj h).symm⟩
    · obtain ⟨xs, ys, hbs, hn⟩ := bracketedLoop_ok h
      exact ⟨xs, _, ys, hbs, by decide, by omega⟩
    · obtain ⟨xs, ys, hbs, hn⟩ := bracketedLoop_ok h
      exact ⟨xs, _, ys, hbs, by decide, by omega⟩
    · rename_i hcode
      exact ⟨[], b, bs, rfl, ascii_of_code hcode, (Except.ok.inj h).symm⟩
    · rename_i hcode
      exact ⟨[], b, bs, rfl, ascii_of_code hcode, (Except.ok.inj h).symm⟩
    · cases h

theorem splitOne_of_typeLen {sig : String} {n : ℕ} (h : typeLen (asBytes sig) = .ok n) :
    ∃ ty rest, splitOne sig = .ok (ty, rest) ∧ sig = ty ++ rest ∧ len ty = n ∧ 0 < n := by
  obtain ⟨xs, b, ys, hbytes, hb, rfl⟩ := typeLen_ok h
  obtain ⟨x, c, y, rfl, hx, hc, -⟩ := split_ascii hb hbytes
  have hlen : len (x ++ c) = xs.length + 1 := by
    rw [len_append, len, len, hx, hc]
    rfl
  refine ⟨x ++ c, y, ?_, rfl, hlen, by omega⟩
  rw [splitOne, h, ok_bind, ← hlen, splitAtOrPanic, splitAt_append]
  rfl

theorem splitOne_ok {sig ty rest : String} (h : splitOne sig = .ok (ty, rest)) :
    sig = ty ++ rest ∧ 0 < len ty := by
  obtain ⟨n, hn, -⟩ := bind_eq_ok.mp h
  obtain ⟨ty', rest', h', hsig, hlen, hpos⟩ := splitOne_of_typeLen hn
  cases h.symm.trans h'
  exact ⟨hsig, hlen ▸ hpos⟩

theorem splitOne_error {sig : String} {e : Stop PlatformError} :
    splitOne sig = .error e ↔ typeLen (asBytes sig) = .error e := by
  cases hlen : typeLen (asBytes sig) with
  | error e' => rw [splitOne, hlen, error_bind]; simp
  | ok n =>
    obtain ⟨ty, rest, h, -⟩ := splitOne_of_typeLen hlen
    simp [h]

end Rustils.Dbus
