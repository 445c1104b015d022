import Rustils.Dbus.Carried

namespace Rustils.Dbus

open Platform Lib.Fuel Lib.Machine Lib.Utf8 Lib.LittleEndian

section Span

variable {buf : Slice} {off stop pos : ℕ}

theorem align_mono {a : ℕ} (ha : IsAlign a) (h : pos ≤ off) : pos + padding pos a ≤ off + padding off a := by
  rw [add_padding ha, add_padding ha]
  exact Nat.mul_le_mul_right _ (Nat.div_le_div_right (by omega))

theorem contentStart_mono (elemSig : String) (h : pos ≤ off) :
    contentStart pos elemSig ≤ contentStart off elemSig :=
  align_mono (isAlign_elemAlign elemSig) (Nat.add_le_add_right (align_mono isAlign_four h) 4)

theorem takeText_len {n : ℕ} {detail s : String} (h : takeText buf off n detail = .ok (s, stop)) :
    len s ≤ n := by
  rw [len, (takeText_ok h).2.2]
  exact List.length_take_le _ _

theorem unmarshalString_len {s : String} (h : unmarshalString buf off = .ok (s, stop)) :
    len s < 2 ^ 32 ∧ off + padding off 4 + (4 + len s + 1) ≤ stop := by
  obtain ⟨start, ha, h⟩ := bind_eq_ok.mp h
  obtain ⟨⟨n, mid⟩, ht, h⟩ := bind_eq_ok.mp h
  obtain ⟨hstart, -⟩ := alignRead_ok isAlign_four ha
  obtain ⟨hmid, -, hn, -⟩ := takeLe_ok ht
  have hlen := takeText_len h
  have hstop := (takeText_ok h).1
  constructor
  · exact hlen.trans_lt hn
  · omega

theorem unmarshalSignature_len {s : String} (h : unmarshalSignature buf off = .ok (s, stop)) :
    len s ≤ 255 ∧ off + (len s + 2) ≤ stop := by
  refine ⟨(unmarshalSignature_ok h).2.2, ?_⟩
  obtain ⟨⟨n, mid⟩, ht, h⟩ := bind_eq_ok.mp h
  obtain ⟨hmid, -⟩ := takeByte_ok ht
  have hlen := takeText_len h
  have hstop := (takeText_ok h).1
  omega

theorem variantHeader_eq {innerSig : String} {start : ℕ} (h : variantHeader buf off = .ok (innerSig, start)) :
    unmarshalSignature buf off = .ok (innerSig, start) ∧ typeLen (asBytes innerSig) = .ok (len innerSig) := by
  obtain ⟨⟨s, mid⟩, hs, h⟩ := bind_eq_ok.mp h
  obtain ⟨n, hn, h⟩ := bind_eq_ok.mp h
  split_ifs at h with hlen
  cases h
  exact ⟨hs, by rw [hn, not_not.mp hlen]⟩

theorem Num.payload_ofLe (k : Num) (x : ℕ) : (k.payload (k.ofLe x)).isSome := by
  cases k <;> rfl

theorem Basic.Has.len_signatureOf {b : Basic} {v : Value} (h : b.Has v) : len (signatureOf v) = 1 := by
  rw [signatureOf_eq (hasTy_basic.mpr h)]
  exact b.len_sig

theorem unmarshalBasic_has {b : Basic} {v : Value} (h : unmarshalBasic b buf off = .ok (v, stop)) :
    b.Has v := by
  cases b with
  | byte =>
    obtain ⟨⟨x, mid⟩, -, h⟩ := bind_eq_ok.mp h
    cases h
    trivial
  | boolean =>
    obtain ⟨start, -, h⟩ := bind_eq_ok.mp h
    obtain ⟨⟨x, mid⟩, -, h⟩ := bind_eq_ok.mp h
    cases h
    trivial
  | num k =>
    obtain ⟨start, -, h⟩ := bind_eq_ok.mp h
    obtain ⟨⟨x, mid⟩, -, h⟩ := bind_eq_ok.mp h
    cases h
    exact k.payload_ofLe x
  | string | objectPath =>
    obtain ⟨⟨x, mid⟩, ht, h⟩ := bind_eq_ok.mp h
    cases h
    exact (unmarshalString_len ht).1
  | signature =>
    obtain ⟨⟨x, mid⟩, ht, h⟩ := bind_eq_ok.mp h
    cases h
    exact (unmarshalSignature_len ht).1

theorem unmarshalBasic_span {b : Basic} {v : Value} (h : unmarshalBasic b buf off = .ok (v, stop))
    (hpos : pos ≤ off) : pos + (wire pos v).length ≤ stop := by
  cases b with
  | byte =>
    obtain ⟨⟨x, mid⟩, ht, h⟩ := bind_eq_ok.mp h
    cases h
    have := takeByte_ok ht
    simp only [wire, List.length_singleton]
    omega
  | boolean =>
    obtain ⟨start, ha, h⟩ := bind_eq_ok.mp h
    obtain ⟨⟨x, mid⟩, ht, h⟩ := bind_eq_ok.mp h
    cases h
    have := align_mono isAlign_four hpos
    have := alignRead_ok isAlign_four ha
    have := takeLe_ok ht
    simp only [wire, List.length_append, length_zeros, length_leBytes]
    omega
  | num k =>
    obtain ⟨start, ha, h⟩ := bind_eq_ok.mp h
    obtain ⟨⟨x, mid⟩, ht, h⟩ := bind_eq_ok.mp h
    cases h
    have := align_mono k.isAlign_width hpos
    have := alignRead_ok k.isAlign_width ha
    have := takeLe_ok ht
    obtain ⟨y, hy⟩ := Option.isSome_iff_exists.mp (k.payload_ofLe x)
    simp only [wire_num hy, List.length_append, length_zeros, length_leBytes]
    omega
  | string | objectPath =>
    obtain ⟨⟨x, mid⟩, ht, h⟩ := bind_eq_ok.mp h
    cases h
    have := align_mono isAlign_four hpos
    have := unmarshalString_len ht
    simp only [wire, wireString, List.length_append, length_zeros, length_leBytes, List.length_singleton]
    simp only [len] at this
    omega
  | signature =>
    obtain ⟨⟨x, mid⟩, ht, h⟩ := bind_eq_ok.mp h
    cases h
    have := unmarshalSignature_len ht
    simp only [wire, wireSignature, List.length_cons, List.length_append, List.length_nil]
    simp only [len] at this
    omega

/-- With `fuel`: what is read has a signature no longer than the one it was read by, and does not stand
on fewer bytes than its wire format has from there or from any position before. -/
structure SpanFuel (buf : Slice) (fuel : ℕ) : Prop where
  seq : ∀ {sig off vs stop}, unmarshalFuel fuel sig buf off = .ok (vs, stop) →
    len (signaturesOf vs) ≤ len sig ∧ ∀ pos ≤ off, pos + (wireAll pos vs).length ≤ stop
  one : ∀ {ty off v stop}, unmarshalOneFuel fuel ty buf off = .ok (v, stop) →
    len (signatureOf v) ≤ len ty ∧ ∀ pos ≤ off, pos + (wire pos v).length ≤ stop
  items : ∀ {elemSig last off vs stop}, unmarshalItemsFuel fuel elemSig last buf off = .ok (vs, stop) →
    ∀ pos ≤ off, pos + (wireAll pos vs).length ≤ stop

variable {fuel : ℕ}

theorem SpanFuel.seq_succ (ih : SpanFuel buf fuel) {sig : String} {vs : List Value}
    (h : unmarshalFuel (fuel + 1) sig buf off = .ok (vs, stop)) :
    len (signaturesOf vs) ≤ len sig ∧ ∀ pos ≤ off, pos + (wireAll pos vs).length ≤ stop := by
  rw [unmarshalFuel] at h
  split_ifs at h
  · cases h
    exact ⟨Nat.zero_le _, fun pos hpos => by simpa [wireAll] using hpos⟩
  · obtain ⟨⟨ty, rest⟩, hsplit, h⟩ := bind_eq_ok.mp h
    obtain ⟨⟨v, mid⟩, hv, h⟩ := bind_eq_ok.mp h
    obtain ⟨⟨vs, last⟩, hvs, h⟩ := bind_eq_ok.mp h
    cases h
    obtain ⟨rfl, -⟩ := splitOne_ok hsplit
    obtain ⟨hlen, hspan⟩ := ih.one hv
    obtain ⟨hlens, hspans⟩ := ih.seq hvs
    constructor
    · rw [signaturesOf, len_append, len_append]
      exact Nat.add_le_add hlen hlens
    · intro pos hpos
      have := hspans _ (hspan pos hpos)
      rw [wireAll, List.length_append]
      omega

theorem SpanFuel.items_succ (ih : SpanFuel buf fuel) {elemSig : String} {last : ℕ} {vs : List Value}
    (h : unmarshalItemsFuel (fuel + 1) elemSig last buf off = .ok (vs, stop)) (hpos : pos ≤ off) :
    pos + (wireAll pos vs).length ≤ stop := by
  rw [unmarshalItemsFuel] at h
  split_ifs at h
  · obtain ⟨⟨v, mid⟩, hv, h⟩ := bind_eq_ok.mp h
    obtain ⟨⟨vs, last'⟩, hvs, h⟩ := bind_eq_ok.mp h
    cases h
    have := ih.items hvs _ ((ih.one hv).2 pos hpos)
    rw [wireAll, List.length_append]
    omega
  · cases h
    simpa [wireAll] using hpos

theorem len_pos_of_firstByte {ty : String} {c : UInt8} (h : firstByte ty = .ok c) : 0 < len ty := by
  obtain ⟨rest, hrest⟩ := List.head?_eq_some_iff.mp (firstByte_ok.mp h)
  rw [len, hrest]
  exact Nat.succ_pos _

theorem SpanFuel.one_succ (ih : SpanFuel buf fuel) {ty : String} {v : Value}
    (h : unmarshalOneFuel (fuel + 1) ty buf off = .ok (v, stop)) :
    len (signatureOf v) ≤ len ty ∧ ∀ pos ≤ off, pos + (wire pos v).length ≤ stop := by
  rw [unmarshalOneFuel] at h
  obtain ⟨c, hc, h⟩ := bind_eq_ok.mp h
  have hty := len_pos_of_firstByte hc
  rcases hcode : TypeCode.ofByte c with _ | ⟨b | _ | _ | _ | _⟩ <;> rw [hcode] at h <;> dsimp only at h
  · cases h
  · refine ⟨?_, fun pos hpos => unmarshalBasic_span h hpos⟩
    rw [(unmarshalBasic_has h).len_signatureOf]
    exact hty
  · obtain ⟨⟨elemSig, start, last⟩, hh, h⟩ := bind_eq_ok.mp h
    obtain ⟨⟨items, last'⟩, hits, h⟩ := bind_eq_ok.mp h
    dsimp only at h hits
    split_ifs at h with hlast
    cases h
    obtain ⟨-, -, -, hs, rfl⟩ := arrayHeader_ok hh
    constructor
    · obtain ⟨x, z, -, hx, hb⟩ := slice_eq_some.mp hs
      rw [signatureOf, len_append, show len "a" = 1 from rfl]
      omega
    · intro pos hpos
      have := ih.items hits _ (contentStart_mono elemSig hpos)
      simp only [wire, List.length_append, length_zeros, length_leBytes]
      simp only [contentStart] at this ⊢
      omega
  · obtain ⟨⟨inner, start⟩, hh, h⟩ := bind_eq_ok.mp h
    obtain ⟨⟨fields, last⟩, hf, h⟩ := bind_eq_ok.mp h
    cases h
    obtain ⟨rfl, -, hs⟩ := bracketHeader_ok hh
    obtain ⟨hlen, hspan⟩ := ih.seq hf
    dsimp only at hlen hspan ⊢
    constructor
    · have := len_inner hs
      rw [signatureOf, len_append, len_append, show len "(" = 1 from rfl, show len ")" = 1 from rfl]
      omega
    · intro pos hpos
      have := hspan _ (align_mono isAlign_eight hpos)
      simp only [wire, List.length_append, length_zeros]
      omega
  · obtain ⟨⟨innerSig, start⟩, hh, h⟩ := bind_eq_ok.mp h
    obtain ⟨⟨v, last⟩, hv, h⟩ := bind_eq_ok.mp h
    cases h
    obtain ⟨hlen, hspan⟩ := ih.one hv
    dsimp only at hlen
    refine ⟨hty, fun pos hpos => ?_⟩
    obtain ⟨-, hsig⟩ := unmarshalSignature_len (variantHeader_eq hh).1
    have := hspan (pos + (len (signatureOf v) + 2)) (by omega)
    simp only [wire, wireSignature, List.length_append, List.length_cons, List.length_nil]
    simp only [len] at this ⊢
    omega
  · obtain ⟨⟨inner, start⟩, hh, h⟩ := bind_eq_ok.mp h
    obtain ⟨⟨keyTy, valTy⟩, hsplit, h⟩ := bind_eq_ok.mp h
    obtain ⟨⟨key, mid⟩, hk, h⟩ := bind_eq_ok.mp h
    obtain ⟨⟨val, last⟩, hv, h⟩ := bind_eq_ok.mp h
    cases h
    obtain ⟨rfl, -, hs⟩ := bracketHeader_ok hh
    obtain ⟨rfl, -⟩ := splitOne_ok hsplit
    obtain ⟨hlenk, hspank⟩ := ih.one hk
    obtain ⟨hlenv, hspanv⟩ := ih.one hv
    dsimp only at hlenk hlenv hspank hspanv ⊢
    constructor
    · have := len_inner hs
      rw [len_append] at this
      rw [signatureOf, len_append, len_append, len_append, show len "\x7b" = 1 from rfl,
        show len "\x7d" = 1 from rfl]
      omega
    · intro pos hpos
      have := hspanv _ (hspank _ (align_mono isAlign_eight hpos))
      simp only [wire, List.length_append, length_zeros]
      omega

theorem spanFuel (buf : Slice) (fuel : ℕ) : SpanFuel buf fuel := by
  induction fuel with
  | zero =>
    constructor
    · intro _ _ _ _ h
      rw [unmarshalFuel] at h
      cases h
    · intro _ _ _ _ h
      rw [unmarshalOneFuel] at h
      cases h
    · intro _ _ _ _ _ h
      rw [unmarshalItemsFuel] at h
      cases h
  | succ fuel ih => exact ⟨ih.seq_succ, ih.one_succ, fun h pos hpos => ih.items_succ h hpos⟩

theorem unmarshalOne_len {ty : String} {v : Value} (h : unmarshalOne ty buf off = .ok (v, stop)) :
    len (signatureOf v) ≤ len ty := by
  obtain ⟨fuel, hfuel⟩ := exists_limit (unmarshalOneFuel · ty buf off)
  exact ((spanFuel buf fuel).one (hfuel.trans h)).1

theorem unmarshalItems_span {elemSig : String} {last : ℕ} {vs : List Value}
    (h : unmarshalItems elemSig last buf off = .ok (vs, stop)) : off + (wireAll off vs).length ≤ stop := by
  obtain ⟨fuel, hfuel⟩ := exists_limit (unmarshalItemsFuel · elemSig last buf off)
  exact (spanFuel buf fuel).items (hfuel.trans h) off (Nat.le_refl _)

end Span

section Empty

variable {ty : String} {v w : Value} {pos : ℕ}

theorem wire_nil_cases (h : wire pos v = []) :
    (∃ fields, v = .struct fields) ∨ ∃ key val, v = .dictEntry key val := by
  cases v <;> simp [wire, wireString, wireSignature, leBytes] at h ⊢

theorem wire_key_ne_nil {key : Value} (hlen : len ty = 1) (h : Accepts ty key) : wire pos key ≠ [] := by
  intro hnil
  rcases wire_nil_cases hnil with ⟨fields, rfl⟩ | ⟨k, v, rfl⟩
  · have hlead := h.1
    rcases leading_key hlen h with ⟨b, hb⟩ | hb
    · cases hlead.symm.trans hb
    · cases hlead.symm.trans hb
  · have hlead := h.1
    rcases leading_key hlen h with ⟨b, hb⟩ | hb
    · cases hlead.symm.trans hb
    · cases hlead.symm.trans hb

mutual

theorem wire_nil {ty : String} {v w : Value} {pos : ℕ} (hv : Accepts ty v) (hw : Accepts ty w)
    (h : wire pos v = []) : wire pos w = [] := by
  match v with
  | .struct fields =>
    obtain ⟨hlead, inner, hs, hfields⟩ := hv
    obtain ⟨fields', inner', rfl, hs', hfields'⟩ := (accepts_struct hlead).mp hw
    cases hs.symm.trans hs'
    rw [wire] at h ⊢
    obtain ⟨hpad, hall⟩ := List.append_eq_nil_iff.mp h
    rw [hpad, wireAll_nil hfields hfields' hall, List.nil_append]
  | .dictEntry key val =>
    obtain ⟨hlead, keyTy, valTy, hsk, hsv, hk, -⟩ := hv
    obtain ⟨x, z, -, hx, hb⟩ := slice_eq_some.mp hsk
    rw [wire] at h
    obtain ⟨hpre, -⟩ := List.append_eq_nil_iff.mp h
    exact absurd (List.append_eq_nil_iff.mp hpre).2 (wire_key_ne_nil (by omega) hk)
  | .byte _ | .boolean _ | .int16 _ | .uint16 _ | .int32 _ | .uint32 _ | .int64 _ | .uint64 _ | .double _
  | .string _ | .objectPath _ | .signature _ | .array _ _ | .variant _ =>
    rcases wire_nil_cases h with ⟨fields, ⟨⟩⟩ | ⟨key, val, ⟨⟩⟩

theorem wireAll_nil {sig : String} {vs ws : List Value} {pos : ℕ} (hvs : AcceptsAll sig vs)
    (hws : AcceptsAll sig ws) (h : wireAll pos vs = []) : wireAll pos ws = [] := by
  match vs, ws with
  | [], [] => rfl
  | [], w :: ws => exact absurd hvs hws.1
  | v :: vs, [] => exact absurd hws hvs.1
  | v :: vs, w :: ws =>
    obtain ⟨-, ty, rest, hsplit, hv, hvs⟩ := hvs
    obtain ⟨-, ty', rest', hsplit', hw, hws⟩ := hws
    cases hsplit.symm.trans hsplit'
    rw [wireAll] at h ⊢
    obtain ⟨hnil, hall⟩ := List.append_eq_nil_iff.mp h
    rw [hnil] at hall
    rw [wire_nil hv hw hnil, List.nil_append]
    exact wireAll_nil hvs hws hall

end

theorem wireAll_items_nil {items : List Value} (hv : Accepts ty v) (hitems : AcceptsItems ty items)
    (h : wire pos v = []) : wireAll pos items = [] := by
  induction items with
  | nil => rfl
  | cons item items ih =>
    rw [wireAll, wire_nil hv hitems.1 h]
    exact ih hitems.2

end Empty

mutual

theorem carried_of_unmarshalOne {ty : String} {v : Value} {buf : Slice} {off stop : ℕ} (h : Accepts ty v)
    (hat : HasAt buf off (wire off v)) (hu : unmarshalOne ty buf off = .ok (v, stop)) :
    Carried ty off v := by
  match v with
  | .byte _ | .boolean _ | .int16 _ | .uint16 _ | .int32 _ | .uint32 _ | .int64 _ | .uint64 _ | .double _
  | .string _ | .objectPath _ | .signature _ =>
    intro b hlead
    rw [unmarshalOne_basic hlead] at hu
    exact unmarshalBasic_has hu
  | .array elemSig items =>
    obtain ⟨hlead, hs, hne, hitems⟩ := h
    obtain ⟨c, hfirst, hcode⟩ := firstByte_of_leading hlead
    rw [wire] at hat
    obtain ⟨hheader, hcontent⟩ := arrayHeader_hasAt hs hne hat
    rw [unmarshalOne_eq] at hu
    simp only [hfirst, hcode, hheader, ok_bind] at hu
    obtain ⟨⟨items', last⟩, hits, hu⟩ := bind_eq_ok.mp hu
    dsimp only at hu
    split_ifs at hu with hlast
    cases hu
    -- the items end where the length field says, and they do not end before their own bytes do
    have hspan := unmarshalItems_span hits
    rw [not_not.mp hlast] at hspan
    have hmod : (wireAll (contentStart off elemSig) items).length % 2 ^ 32 < 2 ^ 32 := Nat.mod_lt _ (by decide)
    have hlen : (wireAll (contentStart off elemSig) items).length < 2 ^ 32 := by omega
    rw [Nat.mod_eq_of_lt hlen] at hits
    exact ⟨hlen, carriedItems_of_unmarshalItems hitems hcontent hits⟩
  | .struct fields =>
    obtain ⟨hlead, inner, hs, hfields⟩ := h
    obtain ⟨c, hfirst, hcode⟩ := firstByte_of_leading hlead
    rw [wire] at hat
    obtain ⟨hpad, hall⟩ := hasAt_append.mp hat
    rw [length_zeros] at hall
    rw [unmarshalOne_eq] at hu
    simp only [hfirst, hcode, bracketHeader_hasAt hs hpad, ok_bind] at hu
    obtain ⟨⟨fields', last⟩, hf, hu⟩ := bind_eq_ok.mp hu
    cases hu
    intro inner' hs'
    cases hs.symm.trans hs'
    exact carriedAll_of_unmarshal hfields hall hf
  | .variant inner =>
    obtain ⟨hlead, hinner⟩ := h
    obtain ⟨c, hfirst, hcode⟩ := firstByte_of_leading hlead
    rw [wire] at hat
    obtain ⟨hsig, hat⟩ := hasAt_append.mp hat
    rw [unmarshalOne_eq] at hu
    simp only [hfirst, hcode, ok_bind] at hu
    obtain ⟨⟨innerSig, start⟩, hh, hu⟩ := bind_eq_ok.mp hu
    obtain ⟨⟨inner', last⟩, hu', hu⟩ := bind_eq_ok.mp hu
    cases hu
    obtain ⟨hread, hone⟩ := variantHeader_eq hh
    have hlen := (unmarshalOne_len hu').trans (unmarshalSignature_ok hread).2.2
    cases hread.symm.trans (unmarshalSignature_hasAt hlen hsig)
    refine ⟨hlen, hone, carried_of_unmarshalOne hinner ?_ hu'⟩
    simpa [wireSignature, len, Nat.add_assoc] using hat
  | .dictEntry key val =>
    obtain ⟨hlead, keyTy, valTy, hsk, hsv, hk, hv⟩ := h
    obtain ⟨c, hfirst, hcode⟩ := firstByte_of_leading hlead
    obtain ⟨inner, hs, hsplit⟩ := splitOne_entry hsk hsv hk
    rw [wire] at hat
    obtain ⟨hat, hval⟩ := hasAt_append.mp hat
    obtain ⟨hpad, hkey⟩ := hasAt_append.mp hat
    rw [List.length_append, length_zeros, ← Nat.add_assoc] at hval
    rw [length_zeros] at hkey
    rw [unmarshalOne_eq] at hu
    simp only [hfirst, hcode, bracketHeader_hasAt hs hpad, ok_bind, hsplit] at hu
    obtain ⟨⟨key', mid⟩, huk, hu⟩ := bind_eq_ok.mp hu
    obtain ⟨⟨val', last⟩, huv, hu⟩ := bind_eq_ok.mp hu
    dsimp only at hu
    cases hu
    have hck := carried_of_unmarshalOne hk hkey huk
    cases huk.symm.trans (unmarshalOne_carried hk hck hkey)
    have hcv := carried_of_unmarshalOne hv hval huv
    constructor
    · intro keyTy' hsk'
      cases hsk.symm.trans hsk'
      exact hck
    · intro valTy' hsv'
      cases hsv.symm.trans hsv'
      exact hcv

theorem carriedItems_of_unmarshalItems {elemSig : String} {items : List Value} {buf : Slice} {off stop : ℕ}
    (h : AcceptsItems elemSig items) (hat : HasAt buf off (wireAll off items))
    (hu : unmarshalItems elemSig (off + (wireAll off items).length) buf off = .ok (items, stop)) :
    CarriedItems elemSig off items := by
  match items with
  | [] => trivial
  | item :: items =>
    rw [wireAll] at hat
    obtain ⟨hitem, hitems⟩ := hasAt_append.mp hat
    rw [unmarshalItems_eq] at hu
    split_ifs at hu with hlt
    · obtain ⟨⟨item', mid⟩, hone, hu⟩ := bind_eq_ok.mp hu
      obtain ⟨⟨items', last⟩, hits, hu⟩ := bind_eq_ok.mp hu
      cases hu
      have hne : wire off item ≠ [] := by
        intro hnil
        rw [wireAll, hnil, List.length_nil, Nat.add_zero, wireAll_items_nil h.1 h.2 hnil] at hlt
        exact absurd hlt (Nat.lt_irrefl _)
      have hc := carried_of_unmarshalOne h.1 hitem hone
      cases hone.symm.trans (unmarshalOne_carried h.1 hc hitem)
      rw [wireAll, List.length_append, ← Nat.add_assoc] at hits
      exact ⟨hne, hc, carriedItems_of_unmarshalItems h.2 hitems hits⟩
    · cases hu

theorem carriedAll_of_unmarshal {sig : String} {vs : List Value} {buf : Slice} {off stop : ℕ}
    (h : AcceptsAll sig vs) (hat : HasAt buf off (wireAll off vs))
    (hu : unmarshal sig buf off = .ok (vs, stop)) : CarriedAll sig off vs := by
  match vs with
  | [] => trivial
  | v :: vs =>
    obtain ⟨hne, ty, rest, hsplit, hv, hvs⟩ := h
    rw [wireAll] at hat
    obtain ⟨hat, hats⟩ := hasAt_append.mp hat
    rw [unmarshal_eq, if_neg hne, hsplit, ok_bind] at hu
    obtain ⟨⟨v', mid⟩, hone, hu⟩ := bind_eq_ok.mp hu
    obtain ⟨⟨vs', last⟩, hall, hu⟩ := bind_eq_ok.mp hu
    cases hu
    have hc := carried_of_unmarshalOne hv hat hone
    cases hone.symm.trans (unmarshalOne_carried hv hc hat)
    intro ty' rest' hsplit'
    cases hsplit.symm.trans hsplit'
    exact ⟨hc, carriedAll_of_unmarshal hvs hats hall⟩

end

theorem hasAt_marshal {sig : String} {vs : List Value} {pre : List UInt8} {out : Slice}
    (h : marshal sig vs pre = .ok out.bytes) :
    AcceptsAll sig vs ∧ HasAt out pre.length (wireAll pre.length vs) := by
  obtain ⟨haccepts, hout⟩ := (marshal_ok sig vs pre out.bytes).mp h
  rw [← List.append_nil (pre ++ _)] at hout
  exact ⟨haccepts, hasAt_of_append hout⟩

theorem unmarshal_marshal_carried {sig : String} {vs : List Value} {pre : List UInt8} {out : Slice}
    (h : marshal sig vs pre = .ok out.bytes) (hc : CarriedAll sig pre.length vs) :
    unmarshal sig out pre.length = .ok (vs, out.length) := by
  obtain ⟨haccepts, hat⟩ := hasAt_marshal h
  obtain ⟨-, hout⟩ := (marshal_ok sig vs pre out.bytes).mp h
  rw [unmarshal_carried haccepts hc hat, Slice.length, hout, List.length_append]

theorem unmarshal_marshal_iff (sig : String) (vs : List Value) (pre : List UInt8) (out : Slice)
    (h : marshal sig vs pre = .ok out.bytes) :
    (∃ stop, unmarshal sig out pre.length = .ok (vs, stop)) ↔ CarriedAll sig pre.length vs := by
  constructor
  · rintro ⟨stop, hu⟩
    obtain ⟨haccepts, hat⟩ := hasAt_marshal h
    exact carriedAll_of_unmarshal haccepts hat hu
  · intro hc
    exact ⟨_, unmarshal_marshal_carried h hc⟩

theorem unmarshal_marshal_variant :
    marshal "v" [.variant (.uint32 7)] [] = .ok [1, 0x75, 0, 0, 7, 0, 0, 0] ∧
      ∃ stop, unmarshal "v" ⟨[1, 0x75, 0, 0, 7, 0, 0, 0], by decide⟩ 0 = .ok ([.variant (.uint32 7)], stop) := by
  have h : marshal "v" [.variant (.uint32 7)] [] = .ok [1, 0x75, 0, 0, 7, 0, 0, 0] := by decide +kernel
  have hsplit : splitOne "v" = .ok ("v", "") := by decide
  have hlead : leading "u" = some (.basic (.num .uint32)) := by decide
  refine ⟨h, (unmarshal_marshal_iff "v" _ [] ⟨_, by decide⟩ h).mpr ?_⟩
  intro ty rest hsplit'
  cases hsplit.symm.trans hsplit'
  refine ⟨⟨by decide, by decide, ?_⟩, trivial⟩
  intro b hb
  cases hlead.symm.trans hb
  rfl

def emptyStructs : Slice := ⟨[0, 0, 0, 0, 0, 0, 0, 0], by decide⟩

def slashText : Slice := ⟨[1, 0, 0, 0, 0x2F, 0], by decide⟩

theorem unmarshal_emptyStructs : unmarshal "a()" emptyStructs 0 = .ok ([.array "()" []], 8) := by
  have h : marshal "a()" [.array "()" []] [] = .ok emptyStructs.bytes := by decide +kernel
  refine unmarshal_marshal_carried h ?_
  intro ty rest _
  exact ⟨⟨by decide, trivial⟩, trivial⟩

theorem unmarshal_slashText : unmarshal "s" slashText 0 = .ok ([.string "/"], 6) := by
  have h : marshal "s" [.string "/"] [] = .ok slashText.bytes := by decide +kernel
  have hsplit : splitOne "s" = .ok ("s", "") := by decide
  have hlead : leading "s" = some (.basic .string) := by decide
  refine unmarshal_marshal_carried h ?_
  intro ty rest hsplit'
  cases hsplit.symm.trans hsplit'
  refine ⟨?_, trivial⟩
  intro b hb
  cases hlead.symm.trans hb
  exact (by decide : len "/" < 2 ^ 32)

theorem marshal_loses_elements_and_tags :
    (marshal "a()" [.array "()" [.struct []]] [] = .ok emptyStructs.bytes ∧
      ¬∃ stop, unmarshal "a()" emptyStructs 0 = .ok ([.array "()" [.struct []]], stop)) ∧
    marshal "s" [.objectPath "/"] [] = .ok slashText.bytes ∧
      ¬∃ stop, unmarshal "s" slashText 0 = .ok ([.objectPath "/"], stop) := by
  refine ⟨⟨by decide +kernel, ?_⟩, by decide +kernel, ?_⟩
  · rintro ⟨stop, h⟩
    cases unmarshal_emptyStructs.symm.trans h
  · rintro ⟨stop, h⟩
    cases unmarshal_slashText.symm.trans h

end Rustils.Dbus
