import Rustils.Dbus.Totality

namespace Rustils.Dbus

open Platform Lib.Fuel Lib.Machine Lib.Utf8 Lib.LittleEndian

structure Agree (m : ℕ) (buf buf' : Slice) : Prop where
  le : m ≤ buf.length
  le' : m ≤ buf'.length
  bytes : buf.bytes.take m = buf'.bytes.take m

variable {m : ℕ} {buf buf' : Slice} {off stop : ℕ}

theorem Agree.symm (h : Agree m buf buf') : Agree m buf' buf := ⟨h.le', h.le, h.bytes.symm⟩

theorem Agree.window (h : Agree m buf buf') {n : ℕ} (hle : off + n ≤ m) :
    (buf.bytes.drop off).take n = (buf'.bytes.drop off).take n := by
  have hw := congrArg (fun l => (l.drop off).take n) h.bytes
  simpa only [List.drop_take, List.take_take, Nat.min_eq_left (show n ≤ m - off by omega)] using hw

section Readers

theorem Agree.take (h : Agree m buf buf') {n : ℕ} {bytes : List UInt8}
    (hok : take buf off n = .ok (bytes, stop)) (hle : stop ≤ m) : take buf' off n = .ok (bytes, stop) := by
  obtain ⟨rfl, hstop, rfl⟩ := take_ok hok
  have hlen := buf'.length_lt
  have hm := h.le'
  rw [Dbus.take, addUsize_eq rfl (by omega), ok_bind, if_neg (by omega), h.window hle, pure_eq_ok]

theorem Agree.alignRead (h : Agree m buf buf') {a : ℕ} (ha : IsAlign a)
    (hok : alignRead buf off a = .ok stop) (hle : stop ≤ m) : alignRead buf' off a = .ok stop := by
  obtain ⟨rfl, -⟩ := alignRead_ok ha hok
  exact alignRead_of_le ha (hle.trans h.le')

theorem Agree.takeLe (h : Agree m buf buf') {n x : ℕ} (hok : takeLe buf off n = .ok (x, stop))
    (hle : stop ≤ m) : takeLe buf' off n = .ok (x, stop) := by
  obtain ⟨⟨bytes, mid⟩, ht, hok⟩ := bind_eq_ok.mp hok
  have hmid : mid = stop := by
    dsimp only at hok
    split_ifs at hok
    cases hok
    rfl
  rw [Dbus.takeLe, h.take ht (hmid ▸ hle)]
  exact hok

theorem Agree.takeByte (h : Agree m buf buf') {b : UInt8} (hok : takeByte buf off = .ok (b, stop))
    (hle : stop ≤ m) : takeByte buf' off = .ok (b, stop) := by
  obtain ⟨⟨bytes, mid⟩, ht, hok⟩ := bind_eq_ok.mp hok
  have hmid : mid = stop := by
    dsimp only at hok
    split at hok <;> cases hok
    rfl
  rw [Dbus.takeByte, h.take ht (hmid ▸ hle)]
  exact hok

theorem Agree.takeText (h : Agree m buf buf') {n : ℕ} {detail s : String}
    (hok : takeText buf off n detail = .ok (s, stop)) (hle : stop ≤ m) :
    takeText buf' off n detail = .ok (s, stop) := by
  have hstop := (takeText_ok hok).1
  obtain ⟨⟨bytes, mid⟩, ht, hok⟩ := bind_eq_ok.mp hok
  obtain ⟨⟨nul, last⟩, ht', hok⟩ := bind_eq_ok.mp hok
  have hmid := (take_ok ht).1
  have hlast := (take_ok ht').1
  dsimp only at hok ht' hlast
  rw [Dbus.takeText, h.take ht (by omega), ok_bind]
  dsimp only
  rw [h.take ht' (by omega)]
  exact hok

theorem Agree.unmarshalString (h : Agree m buf buf') {s : String}
    (hok : unmarshalString buf off = .ok (s, stop)) (hle : stop ≤ m) :
    unmarshalString buf' off = .ok (s, stop) := by
  obtain ⟨start, ha, hok⟩ := bind_eq_ok.mp hok
  obtain ⟨⟨n, mid⟩, ht, hok⟩ := bind_eq_ok.mp hok
  have hmid := (takeLe_ok ht).1
  have hstop := (takeText_ok hok).1
  dsimp only at hok hstop
  rw [Dbus.unmarshalString, h.alignRead isAlign_four ha (by omega), ok_bind, h.takeLe ht (by omega)]
  exact h.takeText hok hle

theorem Agree.unmarshalSignature (h : Agree m buf buf') {s : String}
    (hok : unmarshalSignature buf off = .ok (s, stop)) (hle : stop ≤ m) :
    unmarshalSignature buf' off = .ok (s, stop) := by
  obtain ⟨⟨n, mid⟩, ht, hok⟩ := bind_eq_ok.mp hok
  have hstop := (takeText_ok hok).1
  dsimp only at hok hstop
  rw [Dbus.unmarshalSignature, h.takeByte ht (by omega)]
  exact h.takeText hok hle

theorem Agree.unmarshalBasic (h : Agree m buf buf') {b : Basic} {v : Value}
    (hok : unmarshalBasic b buf off = .ok (v, stop)) (hle : stop ≤ m) :
    unmarshalBasic b buf' off = .ok (v, stop) := by
  cases b with
  | byte =>
    obtain ⟨⟨x, mid⟩, ht, hok⟩ := bind_eq_ok.mp hok
    cases hok
    rw [Dbus.unmarshalBasic, h.takeByte ht hle]
    rfl
  | boolean =>
    obtain ⟨start, ha, hok⟩ := bind_eq_ok.mp hok
    obtain ⟨⟨x, mid⟩, ht, hok⟩ := bind_eq_ok.mp hok
    cases hok
    have := (takeLe_ok ht).1
    rw [Dbus.unmarshalBasic, h.alignRead isAlign_four ha (by omega), ok_bind, h.takeLe ht hle]
    rfl
  | num k =>
    obtain ⟨start, ha, hok⟩ := bind_eq_ok.mp hok
    obtain ⟨⟨x, mid⟩, ht, hok⟩ := bind_eq_ok.mp hok
    cases hok
    have := (takeLe_ok ht).1
    rw [Dbus.unmarshalBasic, h.alignRead k.isAlign_width ha (by omega), ok_bind, h.takeLe ht hle]
    rfl
  | string | objectPath =>
    obtain ⟨⟨x, mid⟩, ht, hok⟩ := bind_eq_ok.mp hok
    cases hok
    rw [Dbus.unmarshalBasic, h.unmarshalString ht hle]
    rfl
  | signature =>
    obtain ⟨⟨x, mid⟩, ht, hok⟩ := bind_eq_ok.mp hok
    cases hok
    rw [Dbus.unmarshalBasic, h.unmarshalSignature ht hle]
    rfl

theorem Agree.arrayHeader (h : Agree m buf buf') {ty elemSig : String} {start : ℕ}
    (hok : arrayHeader ty buf off = .ok (elemSig, start, stop)) (hle : stop ≤ m) :
    arrayHeader ty buf' off = .ok (elemSig, start, stop) := by
  obtain ⟨a, ha, hok⟩ := bind_eq_ok.mp hok
  obtain ⟨⟨n, mid⟩, ht, hok⟩ := bind_eq_ok.mp hok
  obtain ⟨elem, hs, hok⟩ := bind_eq_ok.mp hok
  obtain ⟨e, he, hok⟩ := bind_eq_ok.mp hok
  obtain ⟨start', hst, hok⟩ := bind_eq_ok.mp hok
  obtain ⟨stop', hadd, hok⟩ := bind_eq_ok.mp hok
  split_ifs at hok
  cases hok
  have hmid := (takeLe_ok ht).1
  have hstart := (alignRead_ok (isAlign_alignOf e) hst).1
  have hstop := addUsize_ok hadd
  have hm := h.le'
  simp only [Dbus.arrayHeader, h.alignRead isAlign_four ha (by omega), h.takeLe ht (by omega), hs, he,
    h.alignRead (isAlign_alignOf e) hst (by omega), hadd, ok_bind]
  rw [if_neg (by omega), pure_eq_ok]

theorem Agree.bracketHeader (h : Agree m buf buf') {ty inner : String}
    (hok : bracketHeader ty buf off = .ok (inner, stop)) (hle : stop ≤ m) :
    bracketHeader ty buf' off = .ok (inner, stop) := by
  obtain ⟨a, ha, hok⟩ := bind_eq_ok.mp hok
  obtain ⟨s, hs, hok⟩ := bind_eq_ok.mp hok
  cases hok
  rw [Dbus.bracketHeader, h.alignRead isAlign_eight ha hle, ok_bind, hs, ok_bind, pure_eq_ok]

theorem Agree.variantHeader (h : Agree m buf buf') {innerSig : String}
    (hok : variantHeader buf off = .ok (innerSig, stop)) (hle : stop ≤ m) :
    variantHeader buf' off = .ok (innerSig, stop) := by
  obtain ⟨⟨s, mid⟩, hs, hok⟩ := bind_eq_ok.mp hok
  have hmid : mid = stop := by
    obtain ⟨n, -, hok⟩ := bind_eq_ok.mp hok
    split_ifs at hok
    cases hok
    rfl
  rw [Dbus.variantHeader, h.unmarshalSignature hs (hmid ▸ hle)]
  exact hok

end Readers

section Fuel

variable {fuel : ℕ}

theorem unmarshalFuel_le {sig : String} {vs : List Value}
    (h : unmarshalFuel fuel sig buf off = .ok (vs, stop)) : off ≤ stop :=
  (ends_of_endFuel fuel (.seq sig off) stop (map_eq_ok.mpr ⟨_, h, rfl⟩)).le

theorem unmarshalOneFuel_le {ty : String} {v : Value}
    (h : unmarshalOneFuel fuel ty buf off = .ok (v, stop)) : off ≤ stop :=
  (ends_of_endFuel fuel (.one ty off) stop (map_eq_ok.mpr ⟨_, h, rfl⟩)).le

theorem unmarshalItemsFuel_le {elemSig : String} {last : ℕ} {vs : List Value}
    (h : unmarshalItemsFuel fuel elemSig last buf off = .ok (vs, stop)) : off ≤ stop :=
  (ends_of_endFuel fuel (.items elemSig last off) stop (map_eq_ok.mpr ⟨_, h, rfl⟩)).le

structure AgreeFuel (m : ℕ) (buf buf' : Slice) (fuel : ℕ) : Prop where
  seq : ∀ {sig off vs stop}, unmarshalFuel fuel sig buf off = .ok (vs, stop) → stop ≤ m →
    unmarshalFuel fuel sig buf' off = .ok (vs, stop)
  one : ∀ {ty off v stop}, unmarshalOneFuel fuel ty buf off = .ok (v, stop) → stop ≤ m →
    unmarshalOneFuel fuel ty buf' off = .ok (v, stop)
  items : ∀ {elemSig last off vs stop},
    unmarshalItemsFuel fuel elemSig last buf off = .ok (vs, stop) → stop ≤ m →
      unmarshalItemsFuel fuel elemSig last buf' off = .ok (vs, stop)

-- a call that comes after another ends no earlier, so the first one also stops by `m`

theorem AgreeFuel.seq_succ (ih : AgreeFuel m buf buf' fuel) {sig : String} {vs : List Value}
    (hok : unmarshalFuel (fuel + 1) sig buf off = .ok (vs, stop)) (hle : stop ≤ m) :
    unmarshalFuel (fuel + 1) sig buf' off = .ok (vs, stop) := by
  rw [unmarshalFuel] at hok ⊢
  split_ifs at hok ⊢
  · exact hok
  · obtain ⟨⟨ty, rest⟩, hsplit, hok⟩ := bind_eq_ok.mp hok
    obtain ⟨⟨v, mid⟩, hv, hok⟩ := bind_eq_ok.mp hok
    obtain ⟨⟨vs, last⟩, hvs, hok⟩ := bind_eq_ok.mp hok
    cases hok
    have := unmarshalFuel_le hvs
    simp only [hsplit, ok_bind, ih.one hv (by omega), ih.seq hvs hle, pure_eq_ok]

theorem AgreeFuel.one_succ (h : Agree m buf buf') (ih : AgreeFuel m buf buf' fuel) {ty : String}
    {v : Value} (hok : unmarshalOneFuel (fuel + 1) ty buf off = .ok (v, stop)) (hle : stop ≤ m) :
    unmarshalOneFuel (fuel + 1) ty buf' off = .ok (v, stop) := by
  rw [unmarshalOneFuel] at hok ⊢
  obtain ⟨c, hc, hok⟩ := bind_eq_ok.mp hok
  rw [hc, ok_bind]
  rcases hcode : TypeCode.ofByte c with _ | ⟨b | _ | _ | _ | _⟩ <;> rw [hcode] at hok <;> dsimp only at hok ⊢
  · cases hok
  · exact h.unmarshalBasic hok hle
  · obtain ⟨⟨elemSig, start, last⟩, hh, hok⟩ := bind_eq_ok.mp hok
    obtain ⟨⟨items, last'⟩, hits, hok⟩ := bind_eq_ok.mp hok
    dsimp only at hok hits
    split_ifs at hok with hlast
    cases hok
    rw [not_not.mp hlast] at hits hle
    simp only [h.arrayHeader hh hle, ok_bind, ih.items hits hle, not_not.mp hlast, ne_eq,
      not_true_eq_false, ↓reduceIte, pure_eq_ok]
  · obtain ⟨⟨inner, start⟩, hh, hok⟩ := bind_eq_ok.mp hok
    obtain ⟨⟨fields, last⟩, hf, hok⟩ := bind_eq_ok.mp hok
    cases hok
    have := unmarshalFuel_le hf
    simp only [h.bracketHeader hh (by omega), ok_bind, ih.seq hf hle, pure_eq_ok]
  · obtain ⟨⟨innerSig, start⟩, hh, hok⟩ := bind_eq_ok.mp hok
    obtain ⟨⟨v, last⟩, hv, hok⟩ := bind_eq_ok.mp hok
    cases hok
    have := unmarshalOneFuel_le hv
    simp only [h.variantHeader hh (by omega), ok_bind, ih.one hv hle, pure_eq_ok]
  · obtain ⟨⟨inner, start⟩, hh, hok⟩ := bind_eq_ok.mp hok
    obtain ⟨⟨keyTy, valTy⟩, hsplit, hok⟩ := bind_eq_ok.mp hok
    obtain ⟨⟨key, mid⟩, hk, hok⟩ := bind_eq_ok.mp hok
    obtain ⟨⟨val, last⟩, hv, hok⟩ := bind_eq_ok.mp hok
    cases hok
    have := unmarshalOneFuel_le hk
    have := unmarshalOneFuel_le hv
    simp only [h.bracketHeader hh (by omega), ok_bind, hsplit, ih.one hk (by omega), ih.one hv hle,
      pure_eq_ok]

theorem AgreeFuel.items_succ (ih : AgreeFuel m buf buf' fuel) {elemSig : String} {last : ℕ}
    {vs : List Value} (hok : unmarshalItemsFuel (fuel + 1) elemSig last buf off = .ok (vs, stop))
    (hle : stop ≤ m) : unmarshalItemsFuel (fuel + 1) elemSig last buf' off = .ok (vs, stop) := by
  rw [unmarshalItemsFuel] at hok ⊢
  split_ifs at hok ⊢
  · obtain ⟨⟨v, mid⟩, hv, hok⟩ := bind_eq_ok.mp hok
    obtain ⟨⟨vs, last'⟩, hvs, hok⟩ := bind_eq_ok.mp hok
    cases hok
    have := unmarshalItemsFuel_le hvs
    simp only [ih.one hv (by omega), ok_bind, ih.items hvs hle, pure_eq_ok]
  · exact hok

theorem Agree.agreeFuel (h : Agree m buf buf') (fuel : ℕ) : AgreeFuel m buf buf' fuel := by
  induction fuel with
  | zero =>
    constructor
    · intro _ _ _ _ hok
      rw [unmarshalFuel] at hok
      cases hok
    · intro _ _ _ _ hok
      rw [unmarshalOneFuel] at hok
      cases hok
    · intro _ _ _ _ _ hok
      rw [unmarshalItemsFuel] at hok
      cases hok
  | succ fuel ih => exact ⟨ih.seq_succ, ih.one_succ h, ih.items_succ⟩

end Fuel

theorem Agree.unmarshal (h : Agree m buf buf') {sig : String} {vs : List Value}
    (hok : unmarshal sig buf off = .ok (vs, stop)) (hle : stop ≤ m) :
    unmarshal sig buf' off = .ok (vs, stop) := by
  obtain ⟨fuel, hfuel⟩ := exists_limit (unmarshalFuel · sig buf off)
  have hfuel' := (h.agreeFuel fuel).seq (hfuel.trans hok) hle
  exact (unmarshalFuel_steady sig buf' off).limit_eq_of hfuel' (by simp)

theorem Agree.wordAt (h : Agree m buf buf') {i : ℕ} (hi : i + 4 ≤ m) : wordAt buf i = wordAt buf' i := by
  rw [Dbus.wordAt, Dbus.wordAt, h.window hi]

theorem Agree.getD (h : Agree m buf buf') {i : ℕ} (hi : i < m) : buf.bytes.getD i 0 = buf'.bytes.getD i 0 := by
  have hget := congrArg (·[i]?) h.bytes
  simp only [List.getElem?_take, if_pos hi] at hget
  rw [List.getD_eq_getElem?_getD, List.getD_eq_getElem?_getD, hget]

theorem Agree.bodyStart (h : Agree m buf buf') (hm : 16 ≤ m) : bodyStart buf = bodyStart buf' := by
  rw [Dbus.bodyStart, Dbus.bodyStart, h.wordAt (show 12 + 4 ≤ m by omega)]

theorem Agree.frameLen (h : Agree m buf buf') (hm : 16 ≤ m) : frameLen buf = frameLen buf' := by
  rw [Dbus.frameLen, Dbus.frameLen, h.bodyStart hm, h.wordAt (show 4 + 4 ≤ m by omega)]

theorem Agree.fixedPart (h : Agree m buf buf') (hm : 16 ≤ m) : fixedPart buf = fixedPart buf' := by
  rw [Dbus.fixedPart, Dbus.fixedPart, h.getD (show 1 < m by omega), h.getD (show 2 < m by omega),
    h.wordAt (show 8 + 4 ≤ m by omega)]

theorem sixteen_le_frameLen (buf : Slice) : 16 ≤ frameLen buf := by
  unfold Dbus.frameLen Dbus.bodyStart
  omega

theorem header_le_frameLen (buf : Slice) : 16 + wordAt buf 12 ≤ frameLen buf := by
  unfold Dbus.frameLen Dbus.bodyStart
  omega

theorem decode_ok {msg : Message} {n : ℕ} (h : decode buf = .ok (msg, n)) :
    16 ≤ buf.length ∧ byteAt buf 0 = .ok 0x6C ∧ n = frameLen buf ∧ n ≤ buf.length ∧
      ∃ head body, decodeHeader unmarshal buf = .ok (head, bodyStart buf, n) ∧
        decodeBody unmarshal head.signature buf (bodyStart buf) = .ok body ∧
        msg = { head with body := body } := by
  unfold decode decodeWith at h
  split_ifs at h with hlen
  have hlen' : 16 ≤ buf.length := by omega
  obtain ⟨b, hb, h⟩ := bind_eq_ok.mp h
  split_ifs at h with hl
  obtain ⟨⟨head, start, stop⟩, hheader, h⟩ := bind_eq_ok.mp h
  obtain ⟨rfl, hstop, hle, -⟩ := decodeHeader_ok hlen' hheader
  obtain ⟨body, hbody, h⟩ := bind_eq_ok.mp h
  cases h
  exact ⟨hlen', not_not.mp hl ▸ hb, hstop, hstop ▸ hle, head, body, hheader, hbody, rfl⟩

theorem Agree.decodeHeader {msg : Message} {start n : ℕ} (h : Agree n buf buf') (hn : n = Dbus.frameLen buf)
    (hok : decodeHeader Dbus.unmarshal buf = .ok (msg, start, n)) :
    Dbus.decodeHeader Dbus.unmarshal buf' = .ok (msg, start, n) := by
  have hm : 16 ≤ n := hn ▸ sixteen_le_frameLen buf
  have hle' := h.le'
  have hfields := header_le_frameLen buf
  obtain ⟨rfl, -, -, items, hu, rfl⟩ := decodeHeader_ok (hm.trans h.le) hok
  have hframe : Dbus.frameLen buf' ≤ buf'.length := by rwa [← h.frameLen hm, ← hn]
  rw [decodeHeader_of_unmarshal (hm.trans hle') hframe (h.unmarshal hu (by omega)),
    ← h.frameLen hm, ← h.bodyStart hm, ← h.fixedPart hm, ← hn]

theorem Agree.byteAt (h : Agree m buf buf') {i : ℕ} (hi : i < m) : byteAt buf i = byteAt buf' i := by
  rw [byteAt_eq (hi.trans_le h.le), byteAt_eq (hi.trans_le h.le'), h.getD hi]

def frameOnly (buf : Slice) (n : ℕ) : Slice :=
  ⟨buf.bytes.take n, (List.length_take_le' _ _).trans_lt buf.fits⟩

theorem agree_frame {n : ℕ} (h : n ≤ buf.length) : Agree n buf (frameOnly buf n) where
  le := h
  le' := by simpa [Slice.length, frameOnly] using h
  bytes := by rw [frameOnly, List.take_take, Nat.min_self]

theorem Agree.decode {msg : Message} {n : ℕ} (hagree : Agree n buf buf')
    (h : Dbus.decode buf = .ok (msg, n))
    (hstop : ∀ stop, Ends buf (.seq msg.signature (Dbus.bodyStart buf)) stop → stop ≤ n) :
    Dbus.decode buf' = .ok (msg, n) := by
  obtain ⟨-, hl, hn, -, head, body, hheader, hbody, rfl⟩ := decode_ok h
  have hm : 16 ≤ n := hn ▸ sixteen_le_frameLen buf
  rw [decodeBody_eq] at hbody
  obtain ⟨⟨vs, last⟩, hu, rfl⟩ := map_eq_ok.mp hbody
  have hlast : Ends buf (.seq head.signature (Dbus.bodyStart buf)) last :=
    ends_iff.mpr (map_eq_ok.mpr ⟨_, hu, rfl⟩)
  have hl' : Dbus.byteAt buf' 0 = .ok 0x6C := hagree.byteAt (show 0 < n by omega) ▸ hl
  rw [decode_of_header (hm.trans hagree.le') hl' (hagree.decodeHeader hn hheader), decodeBody_eq,
    hagree.unmarshal hu (hstop last hlast)]
  rfl

theorem decode_isolated_iff (buf : Slice) (msg : Message) (n : ℕ) (h : decode buf = .ok (msg, n)) :
    (∀ buf', Agree n buf buf' → decode buf' = .ok (msg, n)) ↔
      ∀ stop, Ends buf (.seq msg.signature (bodyStart buf)) stop → stop ≤ n := by
  obtain ⟨-, -, hn, hle, head, body, -, -, rfl⟩ := decode_ok h
  have hm : 16 ≤ n := hn ▸ sixteen_le_frameLen buf
  have hstart : bodyStart buf ≤ n := hn ▸ Nat.le_add_right _ _
  constructor
  · intro hiso stop hend
    have hagree := agree_frame hle
    obtain ⟨-, -, -, -, head', body', -, hbody', hmsg⟩ := decode_ok (hiso _ hagree)
    have hsig := congrArg Message.signature hmsg
    dsimp only at hsig
    rw [decodeBody_eq, ← hsig, ← hagree.bodyStart hm] at hbody'
    obtain ⟨⟨vs', last'⟩, hu', rfl⟩ := map_eq_ok.mp hbody'
    have hlast' : Ends (frameOnly buf n) (.seq head.signature (bodyStart buf)) last' :=
      ends_iff.mpr (map_eq_ok.mpr ⟨_, hu', rfl⟩)
    have hle' : last' ≤ n := by
      have hmax := hlast'.le_max
      have hframe : (frameOnly buf n).length = n := by simpa [Slice.length, frameOnly] using hle
      simp only [Call.off, hframe] at hmax
      omega
    -- what the frame alone gives is what the whole buffer gives
    have hwhole := hagree.symm.unmarshal hu' hle'
    have hend' : Ends buf (.seq head.signature (bodyStart buf)) last' :=
      ends_iff.mpr (map_eq_ok.mpr ⟨_, hwhole, rfl⟩)
    exact hend.unique hend' ▸ hle'
  · exact fun hstop buf' hagree => hagree.decode h hstop

theorem decode_numberFrame_isolated :
    ∃ msg n, decode numberFrame = .ok (msg, n) ∧ ∀ buf', Agree n numberFrame buf' → decode buf' = .ok (msg, n) := by
  have hfuel : (fun p => (p.1.signature, p.2)) <$> decodeFuel 10 numberFrame =
      (.ok ("u", 28) : Outcome (String × ℕ)) := by decide +kernel
  obtain ⟨⟨msg, n⟩, hp, hmsg⟩ := map_eq_ok.mp hfuel
  obtain ⟨hsig, rfl⟩ := Prod.mk.inj hmsg
  have hdecode := decode_of_fuel hp (by simp)
  refine ⟨msg, _, hdecode, (decode_isolated_iff numberFrame msg _ hdecode).mpr fun stop hend => ?_⟩
  have hstart : bodyStart numberFrame = 24 := by decide +kernel
  have hnumber : Ends numberFrame (.seq "u" 24) 28 :=
    .seq (by decide) (by decide +kernel : splitOne "u" = .ok ("u", "")) (.basic rfl rfl) (.empty 28)
  dsimp only at hsig
  rw [hsig, hstart] at hend
  exact (hend.unique hnumber).le

def borrowedBody (next : UInt8) : Slice :=
  ⟨[0x6C, 1, 0, 1, 0, 0, 0, 0, 1, 0, 0, 0, 7, 0, 0, 0, 8, 1, 0x67, 0, 1, 0x75, 0, 0, next, 0, 0, 0],
    (by decide : 28 < 2 ^ 63)⟩

theorem decode_reads_next_message :
    ∃ msg, decode (borrowedBody 7) = .ok (msg, 24) ∧ Agree 24 (borrowedBody 7) (borrowedBody 9) ∧
      decode (borrowedBody 9) ≠ .ok (msg, 24) := by
  have h7 : (fun p => (wireAll 0 p.1.body, p.2)) <$> decodeFuel 10 (borrowedBody 7) =
      (.ok ([7, 0, 0, 0], 24) : Outcome (List UInt8 × ℕ)) := by decide +kernel
  have h9 : (fun p => (wireAll 0 p.1.body, p.2)) <$> decodeFuel 10 (borrowedBody 9) =
      (.ok ([9, 0, 0, 0], 24) : Outcome (List UInt8 × ℕ)) := by decide +kernel
  obtain ⟨⟨msg, n⟩, hp, hmsg⟩ := map_eq_ok.mp h7
  obtain ⟨⟨msg', n'⟩, hp', hmsg'⟩ := map_eq_ok.mp h9
  obtain ⟨hbody, hn⟩ := Prod.mk.inj hmsg
  obtain ⟨hbody', -⟩ := Prod.mk.inj hmsg'
  dsimp only at hbody hn hbody'
  subst hn
  refine ⟨msg, decode_of_fuel hp (by simp), ⟨by decide, by decide, rfl⟩, fun h => ?_⟩
  rw [decode_of_fuel hp' (by simp)] at h
  obtain ⟨rfl, -⟩ := Prod.mk.inj (Except.ok.inj h)
  rw [hbody] at hbody'
  cases hbody'

end Rustils.Dbus
