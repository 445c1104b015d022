import Rustils.Dbus.Message
import Rustils.Dbus.Termination

namespace Rustils.Dbus

open Platform Lib.Fuel Lib.Machine Lib.Utf8 Lib.LittleEndian

def wordAt (buf : Slice) (i : ℕ) : ℕ := leNat ((buf.bytes.drop i).take 4)

def bodyStart (buf : Slice) : ℕ := 16 + wordAt buf 12 + padding (16 + wordAt buf 12) 8

def frameLen (buf : Slice) : ℕ := bodyStart buf + wordAt buf 4

def fixedPart (buf : Slice) : Message where
  messageType := buf.bytes.getD 1 0
  flags := buf.bytes.getD 2 0
  serial := UInt32.ofNat (wordAt buf 8)

def headerCall : Call := .seq "a(yv)" 12

variable {buf : Slice}

theorem wordAt_lt (buf : Slice) (i : ℕ) : wordAt buf i < 2 ^ 32 := by
  have hlt := leNat_lt ((buf.bytes.drop i).take 4)
  have hle : ((buf.bytes.drop i).take 4).length ≤ 4 := List.length_take_le _ _
  exact hlt.trans_le ((Nat.pow_le_pow_right (by decide) hle).trans (by decide))

theorem byteAt_eq {i : ℕ} (h : i < buf.length) : byteAt buf i = .ok (buf.bytes.getD i 0) := by
  unfold Slice.length at h
  rw [byteAt, List.getD_eq_getElem?_getD, List.getElem?_eq_getElem h]
  rfl

theorem u32At_eq {i : ℕ} (h : i + 4 ≤ buf.length) : u32At buf i = .ok (UInt32.ofNat (wordAt buf i)) :=
  if_pos h

theorem splitOne_header : splitOne "a(yv)" = .ok ("a(yv)", "") := by decide

theorem leading_header : leading "a(yv)" = some .array := by decide

theorem arrayHeader_header {elemSig : String} {start stop : ℕ}
    (h : arrayHeader "a(yv)" buf 12 = .ok (elemSig, start, stop)) :
    elemSig = "(yv)" ∧ start = 16 ∧ stop = 16 + wordAt buf 12 := by
  simp only [arrayHeader, bind_eq_ok] at h
  obtain ⟨a, ha, ⟨n, mid⟩, ht, elem, hs, e, he, start', hst, stop', hadd, h⟩ := h
  split_ifs at h
  cases h
  have hslice : sliceOrPanic "a(yv)" 1 (len "a(yv)") = .ok "(yv)" := by decide
  cases hs.symm.trans hslice
  have hfirst : firstByte "(yv)" = .ok 0x28 := by decide
  cases he.symm.trans hfirst
  obtain ⟨rfl, -⟩ := alignRead_ok isAlign_four ha
  obtain ⟨hmid, -, -, hn⟩ := takeLe_ok ht
  obtain ⟨hstart, -⟩ := alignRead_ok (isAlign_alignOf _) hst
  have hpad4 : padding 12 4 = 0 := by decide
  have hpad8 : padding 16 (alignOf 0x28) = 0 := by decide
  have hstart' : start = 16 := by
    dsimp only at hstart
    rw [hstart, hmid, hpad4, hpad8]
  have hn' : n = wordAt buf 12 := hn
  exact ⟨rfl, hstart', by rw [addUsize_ok hadd, hstart', hn']⟩

theorem unmarshal_header {vs : List Value} {off : ℕ} (h : unmarshal "a(yv)" buf 12 = .ok (vs, off)) :
    ∃ items, vs = [.array "(yv)" items] ∧ off = 16 + wordAt buf 12 ∧ off ≤ buf.length := by
  rw [unmarshal_eq, if_neg (by decide), splitOne_header] at h
  simp only [ok_bind, bind_eq_ok] at h
  obtain ⟨⟨v, mid⟩, hone, ⟨vs', mid'⟩, hrest, h⟩ := h
  cases h
  have hle : mid ≤ buf.length := (ends_iff.mpr (map_eq_ok.mpr ⟨_, hone, rfl⟩) : Ends buf (.one _ _) _).one_le
  rw [unmarshal_eq, if_pos rfl] at hrest
  cases hrest
  obtain ⟨b, hb, hcode⟩ := firstByte_of_leading leading_header
  rw [unmarshalOne_eq] at hone
  simp only [hb, ok_bind, hcode, bind_eq_ok] at hone
  obtain ⟨⟨elemSig, start, stop⟩, hh, ⟨items, last⟩, -, hone⟩ := hone
  dsimp only at hone
  split_ifs at hone with hlast
  cases hone
  obtain ⟨rfl, -, hstop⟩ := arrayHeader_header hh
  exact ⟨items, rfl, by rw [not_not.mp hlast, hstop], hle⟩

theorem decodeHeader_eq (hlen : 16 ≤ buf.length) :
    decodeHeader unmarshal buf = (do
      let (headerFields, _) ← shortHeader (unmarshal "a(yv)" buf 12)
      if buf.length < frameLen buf then fail needMoreData
      else do
        let items ← fieldStructs headerFields
        pure (items.foldl Message.applyField (fixedPart buf), bodyStart buf, frameLen buf)) := by
  have hbuf := buf.length_lt
  have hword := wordAt_lt buf 4
  have hfield := wordAt_lt buf 12
  simp only [decodeHeader, byteAt_eq (show 1 < buf.length by omega), byteAt_eq (show 2 < buf.length by omega),
    u32At_eq (show 4 + 4 ≤ buf.length by omega), u32At_eq (show 8 + 4 ≤ buf.length by omega), ok_bind]
  cases hu : unmarshal "a(yv)" buf 12 with
  | error e =>
    cases e with
    | err x =>
      rw [shortHeader]
      split_ifs <;> rfl
    | panicked => rfl
    | unfinished => rfl
  | ok p =>
    obtain ⟨vs, off⟩ := p
    obtain ⟨items, rfl, rfl, hle⟩ := unmarshal_header hu
    have hpad : padding (16 + wordAt buf 12) 8 < 8 := Nat.mod_lt _ (by decide)
    have hstart : addUsize (16 + wordAt buf 12) (padding (16 + wordAt buf 12) 8) =
        (.ok (bodyStart buf) : Outcome ℕ) := addUsize_eq rfl (by rw [bodyStart]; omega)
    have hnat : (UInt32.ofNat (wordAt buf 4)).toNat = wordAt buf 4 := by
      rw [UInt32.toNat_ofNat']
      exact Nat.mod_eq_of_lt hword
    have hend : addUsize (bodyStart buf) (wordAt buf 4) = (.ok (frameLen buf) : Outcome ℕ) :=
      addUsize_eq rfl (by rw [frameLen, bodyStart]; omega)
    simp only [shortHeader, ok_bind, hstart, hnat, hend]
    rfl

end Rustils.Dbus
