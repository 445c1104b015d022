import Rustils.Dbus.Frame

namespace Rustils.Dbus

open Platform Lib.Fuel Lib.Machine Lib.Utf8

variable {buf : Slice} {e : Stop PlatformError}

theorem shortHeader_eq_ok {α : Type} {x : Outcome α} {a : α} : shortHeader x = .ok a ↔ x = .ok a := by
  rcases x with (_ | _ | _) | _
  · simp only [shortHeader]
    split_ifs <;> simp
  · simp [shortHeader]
  · simp [shortHeader]
  · simp [shortHeader]

theorem shortHeader_eq_error {α : Type} {x : Outcome α} (he : ∀ y, e ≠ .err y) :
    shortHeader x = .error e ↔ x = .error e := by
  rcases x with (y | _ | _) | _
  · have := (he y).symm
    simp only [shortHeader]
    split_ifs <;> simp [this, (he _).symm]
  · simp [shortHeader]
  · simp [shortHeader]
  · simp [shortHeader]

theorem decodeHeader_ok {msg : Message} {start stop : ℕ} (hlen : 16 ≤ buf.length)
    (h : decodeHeader unmarshal buf = .ok (msg, start, stop)) :
    start = bodyStart buf ∧ stop = frameLen buf ∧ frameLen buf ≤ buf.length ∧
      ∃ items, unmarshal "a(yv)" buf 12 = .ok ([.array "(yv)" items], 16 + wordAt buf 12) ∧
        msg = items.foldl Message.applyField (fixedPart buf) := by
  rw [decodeHeader_eq hlen] at h
  obtain ⟨⟨vs, off⟩, hu, h⟩ := bind_eq_ok.mp h
  rw [shortHeader_eq_ok] at hu
  obtain ⟨items, rfl, rfl, -⟩ := unmarshal_header hu
  dsimp only at h
  split_ifs at h with hframe
  cases h
  exact ⟨rfl, rfl, by omega, items, hu, rfl⟩

theorem decodeHeader_of_unmarshal {items : List Value} {off : ℕ} (hlen : 16 ≤ buf.length)
    (hframe : frameLen buf ≤ buf.length) (h : unmarshal "a(yv)" buf 12 = .ok ([.array "(yv)" items], off)) :
    decodeHeader unmarshal buf =
      .ok (items.foldl Message.applyField (fixedPart buf), bodyStart buf, frameLen buf) := by
  rw [decodeHeader_eq hlen, shortHeader_eq_ok.mpr h, ok_bind]
  simp only [if_neg (show ¬ buf.length < frameLen buf by omega), fieldStructs, pure_eq_ok, ok_bind]

theorem decodeHeader_error (hlen : 16 ≤ buf.length) (he : ∀ y, e ≠ .err y) :
    decodeHeader unmarshal buf = .error e ↔ headerCall.endOf buf = .error e := by
  rw [decodeHeader_eq hlen, headerCall, Call.endOf, map_eq_error, bind_eq_error, shortHeader_eq_error he]
  refine or_iff_left ?_
  rintro ⟨⟨vs, off⟩, hu, h⟩
  rw [shortHeader_eq_ok] at hu
  obtain ⟨items, rfl, rfl, -⟩ := unmarshal_header hu
  dsimp only at h
  split_ifs at h
  · exact he _ (Except.error.inj h).symm
  · cases h

theorem decodeBody_eq (sig : String) (buf : Slice) (start : ℕ) :
    decodeBody unmarshal sig buf start = Prod.fst <$> unmarshal sig buf start := by
  rw [decodeBody]
  split_ifs with hsig
  · rw [hsig, unmarshal_eq, if_pos rfl]
    rfl
  · rfl

theorem decodeBody_error {sig : String} {start : ℕ} :
    decodeBody unmarshal sig buf start = .error e ↔ (Call.seq sig start).endOf buf = .error e := by
  rw [decodeBody_eq, Call.endOf, map_eq_error, map_eq_error]

inductive DecodeCalls (buf : Slice) : Call → Prop
  | header : 16 ≤ buf.length → byteAt buf 0 = .ok 0x6C → DecodeCalls buf headerCall
  | body {msg : Message} {start stop : ℕ} : 16 ≤ buf.length → byteAt buf 0 = .ok 0x6C →
    decodeHeader unmarshal buf = .ok (msg, start, stop) → DecodeCalls buf (.seq msg.signature start)

theorem DecodeCalls.off_le {c : Call} (h : DecodeCalls buf c) : c.off ≤ buf.length := by
  cases h with
  | header hlen => exact (by decide : 12 ≤ 16).trans hlen
  | body hlen _ hheader =>
    obtain ⟨rfl, -, hle, -⟩ := decodeHeader_ok hlen hheader
    exact (Nat.le_add_right _ _).trans hle

theorem decode_eq_error (he : ∀ y, e ≠ .err y) :
    decode buf = .error e ↔ ∃ c, DecodeCalls buf c ∧ c.endOf buf = .error e := by
  unfold decode decodeWith
  by_cases hlen : 16 ≤ buf.length
  case neg =>
    rw [if_pos (by omega)]
    constructor
    · exact fun h => absurd (Except.error.inj h).symm (he _)
    · rintro ⟨c, hc, -⟩
      cases hc <;> contradiction
  rw [if_neg (by omega), byteAt_eq (show 0 < buf.length by omega), ok_bind]
  split_ifs with hendian
  · constructor
    · exact fun h => absurd (Except.error.inj h).symm (he _)
    · rintro ⟨c, hc, -⟩
      have hbyte : byteAt buf 0 = .ok 0x6C := by cases hc <;> assumption
      rw [byteAt_eq (by omega)] at hbyte
      exact absurd (Except.ok.inj hbyte) hendian
  have hbyte : byteAt buf 0 = .ok 0x6C := by rw [byteAt_eq (by omega), not_not.mp hendian]
  rw [bind_eq_error, decodeHeader_error hlen he]
  constructor
  · rintro (h | ⟨⟨msg, start, stop⟩, hheader, h⟩)
    · exact ⟨_, .header hlen hbyte, h⟩
    · refine ⟨_, .body hlen hbyte hheader, decodeBody_error.mp ?_⟩
      obtain h | ⟨_, -, h⟩ := bind_eq_error.mp h
      · exact h
      · cases h
  · rintro ⟨c, hc, h⟩
    cases hc with
    | header => exact .inl h
    | body _ _ hheader =>
      refine .inr ⟨_, hheader, ?_⟩
      dsimp only
      rw [decodeBody_error.mpr h, error_bind]

theorem unmarshal_ne_panicked {sig : String} {off : ℕ} (h : off ≤ buf.length) :
    unmarshal sig buf off ≠ panicked ↔ Avoids buf (Faulty buf) (.seq sig off) := by
  rw [← Call.endOf_ne_panicked (c := .seq sig off) h, Call.endOf, ne_eq, ne_eq, map_eq_error]

theorem unmarshal_ne_unfinished {sig : String} {off : ℕ} :
    unmarshal sig buf off ≠ unfinished ↔ Avoids buf (EndlessArray buf) (.seq sig off) := by
  rw [← seq_ne_unfinished, Call.endOf, ne_eq, ne_eq, map_eq_error]

theorem decode_ne_panicked :
    decode buf ≠ panicked ↔ ∀ c, DecodeCalls buf c → Avoids buf (Faulty buf) c := by
  rw [ne_eq, decode_eq_error (by simp)]
  push Not
  exact forall₂_congr fun c hc => Call.endOf_ne_panicked hc.off_le

theorem decode_ne_unfinished :
    decode buf ≠ unfinished ↔ ∀ c, DecodeCalls buf c → Avoids buf (EndlessArray buf) c := by
  rw [ne_eq, decode_eq_error (by simp)]
  push Not
  refine forall₂_congr fun c hc => ?_
  cases hc with
  | header => exact seq_ne_unfinished
  | body => exact seq_ne_unfinished

theorem decoding_returns_iff (sig : String) (buf : Slice) (off : ℕ) :
    (off ≤ buf.length →
      (unmarshal sig buf off ≠ panicked ↔ Avoids buf (Faulty buf) (.seq sig off)) ∧
      (Returns (unmarshal sig buf off) ↔
        Avoids buf (Faulty buf) (.seq sig off) ∧ Avoids buf (EndlessArray buf) (.seq sig off))) ∧
    (decode buf ≠ panicked ↔ ∀ c, DecodeCalls buf c → Avoids buf (Faulty buf) c) ∧
    (Returns (decode buf) ↔
      ∀ c, DecodeCalls buf c → Avoids buf (Faulty buf) c ∧ Avoids buf (EndlessArray buf) c) := by
  refine ⟨fun h => ⟨unmarshal_ne_panicked h, ?_⟩, decode_ne_panicked, ?_⟩
  · rw [returns_iff, unmarshal_ne_panicked h, unmarshal_ne_unfinished]
  · rw [returns_iff, decode_ne_panicked, decode_ne_unfinished]
    simp only [imp_and, forall_and]

theorem unmarshal_dict_without_value_panics :
    unmarshal "\x7bs\x7d" ⟨[0, 0, 0, 0, 0], by decide⟩ 0 = panicked := by
  have hkey : unmarshalString ⟨[0, 0, 0, 0, 0], by decide⟩ 0 = .ok ("", 5) := by decide +kernel
  have hend : Ends ⟨[0, 0, 0, 0, 0], by decide⟩ (.one "s" 0) 5 := by
    refine .basic (b := .string) (v := .string "") (by decide) ?_
    rw [unmarshalBasic, hkey]
    rfl
  have hsplit : splitOne "\x7bs\x7d" = .ok ("\x7bs\x7d", "") := by decide
  have hheader : bracketHeader "\x7bs\x7d" ⟨[0, 0, 0, 0, 0], by decide⟩ 0 = .ok ("s", 0) := by decide
  have hinner : splitOne "s" = .ok ("s", "") := by decide
  have hfault : Faulty ⟨[0, 0, 0, 0, 0], by decide⟩ (.one "" 5) := .empty 5
  refine map_eq_error.mp (Reaches.error (c := .seq "\x7bs\x7d" 0) ?_ (Call.endOf_of_head hfault.head))
  exact .head (.first (by decide) hsplit) (.single (.val (by decide) hheader hinner hend))

def Settled (r : Outcome (Message × ℕ)) : Prop :=
  (∃ p, r = .ok p) ∨ ∃ x, r = fail x ∧ x.kind ≠ .wouldBlock

theorem settled_bigEndian (hlen : 16 ≤ buf.length) (h : byteAt buf 0 ≠ .ok 0x6C) : Settled (decode buf) := by
  rw [byteAt_eq (by omega)] at h
  refine .inr ⟨bigEndian, ?_, by decide⟩
  rw [decode, decodeWith, if_neg (by omega), byteAt_eq (by omega), ok_bind, if_pos (by simpa using h)]

theorem decode_of_header {msg : Message} {start stop : ℕ} (hlen : 16 ≤ buf.length)
    (hl : byteAt buf 0 = .ok 0x6C) (h : decodeHeader unmarshal buf = .ok (msg, start, stop)) :
    decode buf = (do
      let body ← decodeBody unmarshal msg.signature buf start
      pure ({ msg with body := body }, stop)) := by
  rw [decode, decodeWith, if_neg (by omega), hl, ok_bind, if_neg (by simp), h, ok_bind]

theorem not_settled_of_header (hlen : 16 ≤ buf.length) (hl : byteAt buf 0 = .ok 0x6C)
    (h : headerCall.endOf buf = .error e) : ¬ Settled (decode buf) := by
  cases e with
  | err x =>
    have hshort : shortHeader (unmarshal "a(yv)" buf 12) = fail needMoreData := by
      rw [map_eq_error.mp h, shortHeader, if_pos (Call.endOf_kind h)]
    have hdecode : decode buf = fail needMoreData := by
      rw [decode, decodeWith, if_neg (by omega), hl, ok_bind, if_neg (by simp), decodeHeader_eq hlen, hshort]
      rfl
    simp [hdecode, Settled, needMoreData, PlatformError.new]
  | panicked => simp [(decode_eq_error (by simp)).mpr ⟨_, .header hlen hl, h⟩, Settled]
  | unfinished => simp [(decode_eq_error (by simp)).mpr ⟨_, .header hlen hl, h⟩, Settled]

theorem settled_of_header {msg : Message} {start stop : ℕ} (hlen : 16 ≤ buf.length)
    (hl : byteAt buf 0 = .ok 0x6C) (h : decodeHeader unmarshal buf = .ok (msg, start, stop)) :
    Settled (decode buf) ↔ Avoids buf (Faulty buf) (.seq msg.signature start) ∧
      Avoids buf (EndlessArray buf) (.seq msg.signature start) := by
  have hstart := (DecodeCalls.body hlen hl h).off_le
  rw [decode_of_header hlen hl h, ← Call.endOf_ne_panicked hstart, ← seq_ne_unfinished, ne_eq, ne_eq,
    ← decodeBody_error, ← decodeBody_error]
  cases hd : decodeBody unmarshal msg.signature buf start with
  | ok body => simp [Settled]
  | error e =>
    cases e with
    | err x =>
      have hx := Call.endOf_kind (decodeBody_error.mp hd)
      simp [Settled, hx]
    | panicked => simp [Settled]
    | unfinished => simp [Settled]

theorem settled_iff (buf : Slice) (hlen : 16 ≤ buf.length) (hframe : frameLen buf ≤ buf.length) :
    Settled (decode buf) ↔
      byteAt buf 0 ≠ .ok 0x6C ∨
      (∃ off, Ends buf headerCall off) ∧
        ∀ msg start stop, decodeHeader unmarshal buf = .ok (msg, start, stop) →
          Avoids buf (Faulty buf) (.seq msg.signature start) ∧
          Avoids buf (EndlessArray buf) (.seq msg.signature start) := by
  by_cases hl : byteAt buf 0 = .ok 0x6C
  case neg => exact iff_of_true (settled_bigEndian hlen hl) (.inl hl)
  rw [or_iff_right (not_not.mpr hl)]
  cases hu : unmarshal "a(yv)" buf 12 with
  | error e =>
    have hend : headerCall.endOf buf = .error e := map_eq_error.mpr hu
    refine iff_of_false (not_settled_of_header hlen hl hend) ?_
    rintro ⟨⟨off, hoff⟩, -⟩
    cases hoff.endOf.symm.trans hend
  | ok p =>
    obtain ⟨vs, off⟩ := p
    obtain ⟨items, rfl, rfl, -⟩ := unmarshal_header hu
    have hends : ∃ off, Ends buf headerCall off := ⟨_, ends_iff.mpr (map_eq_ok.mpr ⟨_, hu, rfl⟩)⟩
    have hheader := decodeHeader_of_unmarshal hlen hframe hu
    rw [and_iff_right hends, settled_of_header hlen hl hheader, hheader]
    simp

def numberFrame : Slice :=
  ⟨[0x6C, 1, 0, 1, 4, 0, 0, 0, 1, 0, 0, 0, 7, 0, 0, 0, 8, 1, 0x67, 0, 1, 0x75, 0, 0, 42, 0, 0, 0], by decide⟩

theorem settled_numberFrame : Settled (decode numberFrame) ∧ ∃ off, Ends numberFrame headerCall off := by
  have hfuel : (fun _ => ()) <$> decodeFuel 10 numberFrame = (.ok () : Outcome Unit) := by decide +kernel
  obtain ⟨p, hp, -⟩ := map_eq_ok.mp hfuel
  have hs : Settled (decode numberFrame) := .inl ⟨p, decode_of_fuel hp (by simp)⟩
  obtain h | h := (settled_iff numberFrame (by decide) (by decide +kernel)).mp hs
  · exact absurd (by decide) h
  · exact ⟨hs, h.1⟩

def unsupportedField : Slice :=
  ⟨[0x6C, 1, 0, 1, 0, 0, 0, 0, 1, 0, 0, 0, 4, 0, 0, 0, 1, 1, 0x68, 0, 0, 0, 0, 0], by decide⟩

theorem unsupportedField_would_block :
    16 ≤ unsupportedField.length ∧ frameLen unsupportedField ≤ unsupportedField.length ∧
      decode unsupportedField = fail needMoreData ∧ needMoreData.kind = .wouldBlock := by
  have hfuel : (fun _ => ()) <$> decodeFuel 10 unsupportedField = (fail needMoreData : Outcome Unit) := by
    decide +kernel
  refine ⟨by decide, by decide +kernel, ?_, rfl⟩
  exact decode_of_fuel (map_eq_error.mp hfuel) (by simp)

end Rustils.Dbus
