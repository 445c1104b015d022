import Rustils.Dbus.Isolation

namespace Rustils.Dbus

open Platform Lib.Fuel Lib.Machine Lib.Utf8

variable {m : ℕ} {buf buf' : Slice} {c c' : Call} {stop : ℕ}

theorem Agree.ends (h : Agree m buf buf') (he : Ends buf c stop) (hle : stop ≤ m) : Ends buf' c stop := by
  obtain ⟨fuel, hfuel⟩ := c.exists_endFuel buf
  rw [he.endOf] at hfuel
  have hagree := h.agreeFuel fuel
  apply ends_of_endFuel fuel
  cases c with
  | seq sig off =>
    obtain ⟨⟨vs, last⟩, hu, rfl⟩ := map_eq_ok.mp hfuel
    exact map_eq_ok.mpr ⟨_, hagree.seq hu hle, rfl⟩
  | one ty off =>
    obtain ⟨⟨v, last⟩, hu, rfl⟩ := map_eq_ok.mp hfuel
    exact map_eq_ok.mpr ⟨_, hagree.one hu hle, rfl⟩
  | items elemSig last off =>
    obtain ⟨⟨vs, last'⟩, hu, rfl⟩ := map_eq_ok.mp hfuel
    exact map_eq_ok.mpr ⟨_, hagree.items hu hle, rfl⟩

section Prefix

variable (h : Agree buf.length buf buf')

include h

theorem Agree.calls (hc : Calls buf c c') : Calls buf' c c' := by
  cases hc with
  | first hne hsplit => exact .first hne hsplit
  | rest hne hsplit hend => exact .rest hne hsplit (h.ends hend hend.one_le)
  | items hlead hh => exact .items hlead (h.arrayHeader hh (arrayHeader_ok hh).2.2.1)
  | fields hlead hh => exact .fields hlead (h.bracketHeader hh (bracketHeader_ok hh).2.1)
  | inner hlead hh => exact .inner hlead (h.variantHeader hh (variantHeader_ok hh).2.1)
  | key hlead hh hsplit => exact .key hlead (h.bracketHeader hh (bracketHeader_ok hh).2.1) hsplit
  | val hlead hh hsplit hend =>
    exact .val hlead (h.bracketHeader hh (bracketHeader_ok hh).2.1) hsplit (h.ends hend hend.one_le)
  | item hlt => exact .item hlt
  | next hlt hend => exact .next hlt (h.ends hend hend.one_le)

theorem Agree.reaches (hr : Reaches buf c c') : Reaches buf' c c' :=
  Relation.ReflTransGen.mono (fun _ _ hc => h.calls hc) _ _ hr

theorem Agree.faulty (hf : Faulty buf c) : Faulty buf' c := by
  have hle := h.le'
  cases hf with
  | deep hne hlen => exact .deep hne hlen
  | empty off => exact .empty off
  | noElement hoff => exact .noElement (hoff.trans hle)
  | unclosed hlead hoff hslice => exact .unclosed hlead (hoff.trans hle) hslice
  | deepEntry hlead hoff hslice hdeep => exact .deepEntry hlead (hoff.trans hle) hslice hdeep

theorem Agree.endlessArray (he : EndlessArray buf c) : EndlessArray buf' c := by
  obtain ⟨ty, off, elemSig, start, stop, rfl, hlead, hh, hlt, hz⟩ := he
  exact ⟨ty, off, elemSig, start, stop, rfl, hlead, h.arrayHeader hh (arrayHeader_ok hh).2.2.1, hlt, hz⟩

theorem Agree.truncated {sig : String} {off : ℕ} (hoff : off ≤ buf.length)
    (hend : Ends buf' (.seq sig off) stop) : Returns ((Call.seq sig off).endOf buf) := by
  have hgood : ∀ e, (Call.seq sig off).endOf buf' ≠ .error e := by
    intro e he
    rw [hend.endOf] at he
    cases he
  rw [returns_iff]
  constructor
  · apply (Call.endOf_ne_panicked (c := .seq sig off) hoff).mpr
    intro c' hreach hfaulty
    exact hgood _ ((h.reaches hreach).error (Call.endOf_of_head (h.faulty hfaulty).head))
  · apply seq_ne_unfinished.mpr
    intro c' hreach hendless
    exact hgood _ ((h.reaches hreach).error (h.endlessArray hendless).unfinished)

theorem Agree.decode_truncated {msg : Message} {n : ℕ} (hok : Dbus.decode buf' = .ok (msg, n))
    (hlt : buf.length < n) : Dbus.decode buf = fail needMoreData := by
  rw [Dbus.decode, decodeWith]
  split_ifs with hshort
  · rfl
  · have hlen : 16 ≤ buf.length := by omega
    obtain ⟨hlen', hl, hn, -, head, body, hheader, -⟩ := decode_ok hok
    obtain ⟨-, -, -, items, hu', -⟩ := decodeHeader_ok hlen' hheader
    have hend : Ends buf' headerCall (16 + Dbus.wordAt buf' 12) :=
      ends_iff.mpr (map_eq_ok.mpr ⟨_, hu', rfl⟩)
    have hreturns : Returns (headerCall.endOf buf) :=
      h.truncated (show 12 ≤ buf.length by omega) hend
    have hframe : Dbus.frameLen buf = n := by rw [h.frameLen hlen, hn]
    rw [h.byteAt (show 0 < buf.length by omega), hl, ok_bind, if_neg (by simp), decodeHeader_eq hlen]
    cases hu : Dbus.unmarshal "a(yv)" buf 12 with
    | ok p =>
      obtain ⟨vs, off⟩ := p
      simp only [shortHeader, ok_bind, hframe, if_pos hlt, error_bind]
    | error e =>
      have he : headerCall.endOf buf = .error e := map_eq_error.mpr hu
      rcases hreturns with ⟨off, hoff⟩ | ⟨x, hx⟩
      · rw [he] at hoff
        cases hoff
      · rw [he] at hx
        cases hx
        rw [shortHeader, if_pos (Call.endOf_kind he), error_bind, error_bind]

end Prefix

end Rustils.Dbus
