import Rustils.Dbus.Correlation

namespace Rustils.Dbus

open Platform Lib.Fuel Lib.Machine Lib.Utf8 Lib.Trace

/-- A whole little-endian message as its fixed header has it, whatever the fields and the body are. -/
structure Framed where
  bytes : List UInt8
  fits : bytes.length < 2 ^ 63
  long : 16 ≤ bytes.length
  little : byteAt ⟨bytes, fits⟩ 0 = .ok 0x6C
  whole : frameLen ⟨bytes, fits⟩ = bytes.length

namespace Framed

def slice (m : Framed) : Slice := ⟨m.bytes, m.fits⟩

def Interpretable (m : Framed) : Prop := ∃ msg, decode m.slice = .ok (msg, m.bytes.length)

def Answers (m : Framed) (serial : UInt32) : Prop :=
  ∃ msg start stop, decodeHeader unmarshal m.slice = .ok (msg, start, stop) ∧ msg.replySerial = some serial

variable {m : Framed} {p : Message × ℕ}

theorem interpretable_of_decode (h : decode m.slice = .ok p) : m.Interpretable := by
  obtain ⟨msg, n⟩ := p
  obtain ⟨-, -, rfl, -⟩ := decode_ok h
  exact ⟨msg, by rw [h, slice, m.whole]⟩

theorem decode_part {cut rest : List UInt8} (hbytes : m.bytes = cut ++ rest) (hrest : rest ≠ [])
    (fits : cut.length < 2 ^ 63) : decode ⟨cut, fits⟩ ≠ .ok p := by
  intro h
  obtain ⟨hlen, -, hn, hle, -⟩ := decode_ok h
  have hagree : Agree cut.length ⟨cut, fits⟩ m.slice :=
    ⟨Nat.le_refl _, by simp [slice, Slice.length, hbytes], by simp [slice, hbytes]⟩
  have hpos := List.length_pos_of_ne_nil hrest
  have hlen' := congrArg List.length hbytes
  rw [hagree.frameLen hlen, slice, m.whole] at hn
  simp only [Slice.length, List.length_append] at hle hlen'
  omega

theorem decode_longer (hm : ∀ q, decodeHeader unmarshal m.slice ≠ .ok q) {buf : Slice}
    (hbuf : m.bytes <+: buf.bytes) : decode buf ≠ .ok p := by
  intro h
  obtain ⟨rest, hrest⟩ := hbuf
  obtain ⟨hlen, -, -, -, head, body, hheader, -⟩ := decode_ok h
  obtain ⟨-, -, -, items, hu, -⟩ := decodeHeader_ok hlen hheader
  have hagree : Agree m.bytes.length buf m.slice :=
    ⟨by simp [Slice.length, ← hrest], Nat.le_refl _, by simp [slice, ← hrest]⟩
  have hle := header_le_frameLen m.slice
  have hwhole : frameLen m.slice = m.bytes.length := m.whole
  rw [hagree.wordAt m.long] at hu
  have hu' := hagree.unmarshal hu (by omega)
  exact hm _ (decodeHeader_of_unmarshal m.long hwhole.le hu')

theorem header_of_wouldBlock (h : takeMessage decode m.slice = none) :
    ∀ q, decodeHeader unmarshal m.slice ≠ .ok q := by
  rintro ⟨msg, start, stop⟩ hheader
  have hlen : 16 ≤ m.slice.length := m.long
  rw [takeMessage, decode_of_header hlen m.little hheader] at h
  cases hbody : decodeBody unmarshal msg.signature m.slice start with
  | ok body =>
    rw [hbody] at h
    cases h
  | error s =>
    rw [hbody] at h
    rcases s with e | _ | _
    · have hkind := Call.endOf_kind (decodeBody_error.mp hbody)
      simp [hkind] at h
    · cases h
    · cases h

end Framed

def framedBytes (ms : List Framed) : List UInt8 := (ms.map Framed.bytes).flatten

def singly (bytes : List UInt8) : List Read := bytes.map fun b => .ok [b]

section Stuck

variable {m : Framed} {buf buf' : Slice} {bytes tail : List UInt8} {b : UInt8} {r : Outcome Message}
  {reads' : List Read}

/-- The buffer holds no more than `m`, or more but `m` has a header that does not parse. -/
def Stuck (m : Framed) (buf : Slice) : Prop :=
  buf.bytes <+: m.bytes ∨ m.bytes <+: buf.bytes ∧ ∀ q, decodeHeader unmarshal m.slice ≠ .ok q

theorem Stuck.decode_ne (h : Stuck m buf) (hm : ¬m.Interpretable) (p : Message × ℕ) :
    decode buf ≠ .ok p := by
  rcases h with ⟨rest, hrest⟩ | ⟨hlonger, hheader⟩
  · by_cases hnil : rest = []
    · intro hd
      rw [hnil, List.append_nil] at hrest
      have hbuf : buf = m.slice := Slice.eq_of_bytes hrest
      exact hm (Framed.interpretable_of_decode (hbuf ▸ hd))
    · exact Framed.decode_part hrest.symm hnil buf.fits
  · exact Framed.decode_longer hheader hlonger

theorem Stuck.more (h : Stuck m buf) (ht : takeMessage decode buf = none)
    (hbuf : buf'.bytes = buf.bytes ++ [b]) (hstream : buf'.bytes ++ bytes = m.bytes ++ tail) :
    Stuck m buf' := by
  rcases h with ⟨rest, hrest⟩ | ⟨hlonger, hheader⟩
  · cases rest with
    | nil =>
      rw [List.append_nil] at hrest
      have heq : buf = m.slice := Slice.eq_of_bytes hrest
      refine .inr ⟨?_, Framed.header_of_wouldBlock (heq ▸ ht)⟩
      rw [hbuf, heq]
      exact List.prefix_append _ _
    | cons c rest =>
      rw [hbuf, ← hrest, List.append_assoc, List.append_assoc] at hstream
      obtain ⟨rfl, -⟩ := List.cons.inj (List.append_cancel_left hstream)
      exact .inl ⟨rest, by rw [hbuf, ← hrest, List.append_assoc, List.singleton_append]⟩
  · refine .inr ⟨hlonger.trans ?_, hheader⟩
    rw [hbuf]
    exact List.prefix_append _ _

theorem takeMessage_refused (h : ∀ p, decode buf ≠ .ok p) :
    takeMessage decode buf = none ∨ ∃ s, takeMessage decode buf = some (.error s) := by
  unfold takeMessage
  cases hd : decode buf with
  | ok p => exact absurd hd (h p)
  | error s =>
    rcases s with e | _ | _
    · by_cases he : e.kind = .wouldBlock
      · exact .inl (if_pos he)
      · exact .inr ⟨_, if_neg he⟩
    · exact .inr ⟨_, rfl⟩
    · exact .inr ⟨_, rfl⟩

theorem received_singly (bytes : List UInt8) : received (singly bytes) = bytes := by
  induction bytes with
  | nil => rfl
  | cons b bytes ih => exact congrArg (b :: ·) ih

theorem extend_one (buf : Slice) (b : UInt8) :
    (∃ buf', (buf.extend [b] : Outcome Slice) = .ok buf' ∧ buf'.bytes = buf.bytes ++ [b]) ∨
      (buf.extend [b] : Outcome Slice) = panicked := by
  unfold Slice.extend
  split_ifs with hfits
  · exact .inl ⟨_, rfl, rfl⟩
  · exact .inr rfl

theorem readOneMessage_stuck (hm : ¬m.Interpretable) (h : Stuck m buf)
    (hstream : buf.bytes ++ bytes = m.bytes ++ tail)
    (hr : readOneMessage buf (singly bytes) = some (r, buf', reads')) :
    (∃ s, r = .error s) ∧ (r = panicked ∨ buf'.bytes ++ received reads' = m.bytes ++ tail) := by
  induction bytes generalizing buf with
  | nil =>
    rcases takeMessage_refused (h.decode_ne hm) with ht | ⟨s, ht⟩
    · rw [singly, List.map_nil, readOneMessage_nil ht] at hr
      cases hr
    · rw [readOneMessage_of_refuse ht] at hr
      cases hr
      exact ⟨⟨s, rfl⟩, .inr (by rw [received_singly, hstream])⟩
  | cons b bytes ih =>
    rcases takeMessage_refused (h.decode_ne hm) with ht | ⟨s, ht⟩
    · rcases extend_one buf b with ⟨buf₁, hext, hbuf₁⟩ | hext
      · have hstream₁ : buf₁.bytes ++ bytes = m.bytes ++ tail := by
          rw [hbuf₁, ← hstream, List.append_assoc, List.singleton_append]
        rw [singly, List.map_cons, readOneMessage_more ht (List.cons_ne_nil _ _) hext] at hr
        exact ih (h.more ht hbuf₁ hstream₁) hstream₁ hr
      · rw [singly, List.map_cons, readOneMessage, readOneMessageWith.eq_def, ht] at hr
        simp only [hext] at hr
        cases hr
        exact ⟨⟨_, rfl⟩, .inl rfl⟩
    · rw [readOneMessage_of_refuse ht] at hr
      cases hr
      exact ⟨⟨s, rfl⟩, .inr (by rw [received_singly, hstream])⟩

end Stuck

def noBytes : Slice := ⟨[], by decide⟩

section Singly

variable {serial : UInt32} {buf : Slice} {reads : List Read}

theorem singly_append (bytes bytes' : List UInt8) : singly (bytes ++ bytes') = singly bytes ++ singly bytes' :=
  List.map_append

theorem map_singly (bytes : List UInt8) : (bytes.map ([·])).map .ok = singly bytes := List.map_map

theorem flatten_singly (bytes : List UInt8) : (bytes.map ([·])).flatten = bytes := by
  rw [← received_chunks, map_singly, received_singly]

theorem chunks_singly (bytes : List UInt8) : Chunks (bytes.map ([·])) := by
  intro c hc
  obtain ⟨b, -, rfl⟩ := List.mem_map.mp hc
  simp

theorem readOneMessage_singly {f : Frame} {bytes : List UInt8} (h : f.bytes = buf.bytes ++ bytes) :
    readOneMessage buf (singly bytes ++ reads) = some (.ok f.message, noBytes, reads) := by
  induction bytes generalizing buf with
  | nil =>
    rw [List.append_nil] at h
    obtain ⟨fits', ht⟩ := takeMessage_append f [] (by simpa using f.fits)
    have hbuf : (⟨f.bytes ++ [], by simpa using f.fits⟩ : Slice) = buf :=
      Slice.eq_of_bytes ((List.append_nil _).trans h)
    rw [hbuf] at ht
    exact readOneMessage_of_take ht
  | cons b bytes ih =>
    have hcut := takeMessage_of_needMoreData (f.decode_cut h (List.cons_ne_nil b bytes) buf.fits)
    have hlen : buf.length < 2 ^ 34 := by
      have hf := f.length_lt
      rw [h, List.length_append] at hf
      exact Nat.lt_of_le_of_lt (Nat.le_add_right _ _) hf
    obtain ⟨buf₁, hext, hbuf₁⟩ := extend_eq hlen (show [b].length ≤ 4096 by simp)
    have hf : f.bytes = buf₁.bytes ++ bytes := by
      rw [hbuf₁, h, List.append_assoc, List.singleton_append]
    rw [singly, List.map_cons, List.cons_append, readOneMessage_more hcut (List.cons_ne_nil _ _) hext]
    exact ih hf

theorem awaitReply_singly {fs : List Frame} (h : ∀ f ∈ fs, f.message.replySerial ≠ some serial) :
    awaitReply serial noBytes (singly (streamOf fs) ++ reads) = awaitReply serial noBytes reads := by
  induction fs with
  | nil => rfl
  | cons f fs ih =>
    obtain ⟨hf, hfs⟩ := List.forall_mem_cons.mp h
    rw [streamOf_cons, singly_append, List.append_assoc, awaitReply_eq, readOneMessage_singly rfl]
    simp only [ne_eq, hf, not_false_eq_true, ↓reduceIte, ih hfs]

theorem awaitReply_stuck {m : Framed} {tail : List UInt8} {r : Outcome Message} {buf' : Slice}
    {reads' : List Read} (hm : ¬m.Interpretable)
    (h : awaitReply serial noBytes (singly (m.bytes ++ tail)) = some (r, buf', reads')) :
    r = panicked ∨ buf'.bytes ++ received reads' = m.bytes ++ tail := by
  rw [awaitReply_eq] at h
  cases hr : readOneMessage noBytes (singly (m.bytes ++ tail)) with
  | none =>
    rw [hr] at h
    cases h
  | some p =>
    obtain ⟨r₁, buf₁, reads₁⟩ := p
    obtain ⟨⟨s, rfl⟩, hend⟩ := readOneMessage_stuck hm (.inl List.nil_prefix) rfl hr
    rw [hr] at h
    cases h
    exact hend

theorem exists_first_uninterpretable {ms : List Framed} (h : ∀ m ∈ ms, ¬m.Answers serial) :
    ∃ fs : List Frame, (∀ f ∈ fs, f.message.replySerial ≠ some serial) ∧
      ((∀ m ∈ ms, m.Interpretable) ∧ framedBytes ms = streamOf fs ∨
        ∃ m ∈ ms, ¬m.Interpretable ∧ ∃ tail, framedBytes ms = streamOf fs ++ (m.bytes ++ tail)) := by
  induction ms with
  | nil => exact ⟨[], by simp, .inl ⟨by simp, rfl⟩⟩
  | cons m ms ih =>
    obtain ⟨hm, hms⟩ := List.forall_mem_cons.mp h
    by_cases hi : m.Interpretable
    · obtain ⟨msg, hmsg⟩ := hi
      have hserial : msg.replySerial ≠ some serial := by
        obtain ⟨-, -, -, -, head, body, hheader, -, rfl⟩ := decode_ok hmsg
        exact fun hs => hm ⟨head, _, _, hheader, hs⟩
      obtain ⟨fs, hfs, hrest⟩ := ih hms
      refine ⟨⟨m.bytes, m.fits, msg, hmsg⟩ :: fs, List.forall_mem_cons.mpr ⟨hserial, hfs⟩, ?_⟩
      rcases hrest with ⟨hall, hbytes⟩ | ⟨m', hm', hi', tail, hbytes⟩
      · refine .inl ⟨List.forall_mem_cons.mpr ⟨⟨msg, hmsg⟩, hall⟩, ?_⟩
        rw [streamOf_cons, ← hbytes]
        rfl
      · refine .inr ⟨m', List.mem_cons_of_mem _ hm', hi', tail, ?_⟩
        rw [streamOf_cons, List.append_assoc, ← hbytes]
        rfl
    · exact ⟨[], by simp, .inr ⟨m, List.mem_cons_self, hi, framedBytes ms, rfl⟩⟩

end Singly

structure Unpoisoned (serial : UInt32) (req : Request) (writes : List Write) (others : List Framed)
    (reply : Frame) (after : List UInt8) : Prop where
  skips : ∀ (buf : Slice) (chunks : List (List UInt8)), Chunks chunks →
    buf.bytes ++ chunks.flatten = framedBytes others ++ (reply.bytes ++ after) →
    ∃ conn' sock', Connection.call ⟨serial, buf⟩ req ⟨chunks.map .ok, writes⟩ =
        some (answerOf reply.message, conn', sock') ∧
      conn'.readBuf.bytes ++ received sock'.reads = after
  recovers : ∀ (buf : Slice) (chunks : List (List UInt8)), Chunks chunks →
    buf.bytes ++ chunks.flatten = framedBytes others ++ (reply.bytes ++ after) →
    ∀ m ∈ others, ¬m.Interpretable → ∀ e conn' sock',
      Connection.call ⟨serial, buf⟩ req ⟨chunks.map .ok, writes⟩ = some (fail e, conn', sock') →
      m.bytes <+: conn'.readBuf.bytes → decode conn'.readBuf = fail e →
      ∀ req' sock₁ conn₂ sock₂, conn'.call req' sock₁ = some (fail e, conn₂, sock₂) →
        conn₂.readBuf ≠ conn'.readBuf

theorem answerOf_ne_panicked (reply : Message) : answerOf reply ≠ panicked := by
  unfold answerOf
  split_ifs <;> rintro ⟨⟩

theorem unpoisoned_iff (serial next : UInt32) (hnext : (addU32 serial 1 : Outcome UInt32) = .ok next)
    (req : Request) (bytes : List UInt8) (henc : encode (.methodCall serial req) = .ok bytes)
    (writes writes' : List Write) (hwrite : writeAll bytes writes = some (.ok (), writes'))
    (others : List Framed) (hothers : ∀ m ∈ others, ¬m.Answers serial) (reply : Frame)
    (hreply : reply.message.replySerial = some serial) (after : List UInt8) :
    Unpoisoned serial req writes others reply after ↔ ∀ m ∈ others, m.Interpretable := by
  obtain ⟨fs, hfs, ⟨hall, hbytes⟩ | ⟨m, hmem, hm, tail, hbytes⟩⟩ := exists_first_uninterpretable hothers
  · refine iff_of_true ⟨?_, ?_⟩ hall
    · intro buf chunks hchunks hstream
      rw [hbytes] at hstream
      obtain ⟨buf', chunks', hcall, hrest⟩ :=
        call_chunks ⟨serial, buf⟩ hnext henc hwrite hchunks hstream hfs hreply
      exact ⟨_, _, hcall, by rw [received_chunks, hrest]⟩
    · intro _ _ _ _ m hmem hm
      exact absurd (hall m hmem) hm
  · refine iff_of_false ?_ fun hall => hm (hall m hmem)
    intro h
    obtain ⟨conn', sock', hcall, hafter⟩ := h.skips noBytes
      ((framedBytes others ++ (reply.bytes ++ after)).map ([·])) (chunks_singly _)
      (flatten_singly _)
    rw [call_eq ⟨serial, noBytes⟩ hnext henc hwrite, map_singly, hbytes, List.append_assoc, singly_append,
      awaitReply_singly hfs, List.append_assoc] at hcall
    obtain ⟨⟨r, buf', reads'⟩, hawait, heq⟩ := Option.map_eq_some_iff.mp hcall
    cases heq
    rcases awaitReply_stuck hm hawait with hpanic | hstuck
    · exact answerOf_ne_panicked _ hpanic
    · have hlen := congrArg List.length (hafter.symm.trans hstuck)
      have hlong := m.long
      simp only [List.length_append] at hlen
      omega

section Frame

variable (f : Frame)

def Frame.toFramed : Framed where
  bytes := f.bytes
  fits := f.fits
  long := (decode_ok f.decoded).1
  little := (decode_ok f.decoded).2.1
  whole := (decode_ok f.decoded).2.2.1.symm

theorem Frame.interpretable : f.toFramed.Interpretable := ⟨f.message, f.decoded⟩

theorem Frame.replySerial_of_answers {serial : UInt32} (h : f.toFramed.Answers serial) :
    f.message.replySerial = some serial := by
  obtain ⟨msg, start, stop, hheader, hserial⟩ := h
  obtain ⟨-, -, -, -, head, body, hheader', -, hmsg⟩ := decode_ok f.decoded
  cases hheader.symm.trans hheader'
  rw [hmsg]
  exact hserial

end Frame

theorem bareCall_skipped :
    (∀ m ∈ [bareCall_wellFormed.toFrame.toFramed], m.Interpretable) ∧
      Unpoisoned 1 getName [.ok (Message.methodCall 1 getName).frame.length]
        [bareCall_wellFormed.toFrame.toFramed] nameReply_wellFormed.toFrame [] := by
  have hall : ∀ m ∈ [bareCall_wellFormed.toFrame.toFramed], m.Interpretable := by
    intro m hm
    rw [List.mem_singleton.mp hm]
    exact Frame.interpretable _
  have hothers : ∀ m ∈ [bareCall_wellFormed.toFrame.toFramed], ¬m.Answers 1 := by
    intro m hm hans
    rw [List.mem_singleton.mp hm] at hans
    cases Frame.replySerial_of_answers _ hans
  exact ⟨hall, (unpoisoned_iff 1 2 rfl getName _ (encode_eq_frame (getName_wellFormed 1)) _ _
    (writeAll_getName 1) _ hothers nameReply_wellFormed.toFrame rfl []).mpr hall⟩

section Refused

variable {e : PlatformError} {conn : Connection} {req : Request} {next : UInt32} {bytes : List UInt8}
  {reads : List Read} {writes writes' : List Write} {s s' : Connection × Socket}
  {l : Request × Outcome Message} {tr : List (Request × Outcome Message)}

theorem awaitReply_refused {serial : UInt32} {buf : Slice} (hd : decode buf = fail e)
    (he : e.kind ≠ .wouldBlock) : awaitReply serial buf reads = some (fail e, buf, reads) := by
  have ht : takeMessage decode buf = some (fail e) := by
    rw [takeMessage, hd]
    exact if_neg he
  rw [awaitReply_eq, readOneMessage_of_refuse ht]

theorem call_refused (conn : Connection) (reads : List Read)
    (hnext : (addU32 conn.nextSerial 1 : Outcome UInt32) = .ok next)
    (henc : encode (.methodCall conn.nextSerial req) = .ok bytes)
    (hwrite : writeAll bytes writes = some (.ok (), writes')) (hd : decode conn.readBuf = fail e)
    (he : e.kind ≠ .wouldBlock) :
    conn.call req ⟨reads, writes⟩ = some (fail e, ⟨next, conn.readBuf⟩, ⟨reads, writes'⟩) := by
  rw [call_eq conn hnext henc hwrite, awaitReply_refused hd he]
  rfl

end Refused

def handleSignal : Framed where
  bytes := [0x6C, 4, 0, 1, 4, 0, 0, 0, 7, 0, 0, 0, 7, 0, 0, 0, 8, 1, 0x67, 0, 1, 0x68, 0, 0, 0, 0, 0, 0]
  fits := by decide
  long := by decide
  little := by decide
  whole := by decide +kernel

def unrecognizedCode : PlatformError := badSignature "unrecognized or unsupported type code"

theorem decode_handleSignal : decode handleSignal.slice = fail unrecognizedCode := by
  have hfuel : (fun _ => ()) <$> decodeFuel 10 handleSignal.slice = (fail unrecognizedCode : Outcome Unit) := by
    decide +kernel
  exact decode_of_fuel (map_eq_error.mp hfuel) (by simp)

theorem handleSignal_unaddressed : ¬handleSignal.Answers 1 := by
  rintro ⟨msg, start, stop, hheader, hserial⟩
  have hlen : 16 ≤ handleSignal.slice.length := handleSignal.long
  obtain ⟨-, -, -, items, hu, rfl⟩ := decodeHeader_ok hlen hheader
  have hfuel : (fun p => ((fieldStructs p.1).map fun items =>
      (items.foldl Message.applyField (fixedPart handleSignal.slice)).replySerial).toOption) <$>
        unmarshalFuel 10 "a(yv)" handleSignal.slice 12 = .ok (some none) := by decide +kernel
  obtain ⟨p, hp, hnone⟩ := map_eq_ok.mp hfuel
  cases ((unmarshalFuel_steady _ _ _).limit_eq_of hp (by simp)).symm.trans hu
  cases (Option.some.inj hnone).symm.trans hserial

theorem handleSignal_poisons :
    ∃ conn₁ sock₁ conn₂ sock₂,
      Connection.call ⟨1, handleSignal.slice⟩ getName
        ⟨[.ok nameReply.frame], [.ok (Message.methodCall 1 getName).frame.length]⟩ =
          some (fail unrecognizedCode, conn₁, sock₁) ∧
      conn₁.call getName ⟨sock₁.reads, [.ok (Message.methodCall 2 getName).frame.length]⟩ =
          some (fail unrecognizedCode, conn₂, sock₂) ∧
      conn₁.readBuf = handleSignal.slice ∧ conn₂.readBuf = handleSignal.slice ∧
      (¬handleSignal.Answers 1) ∧
      ¬Unpoisoned 1 getName [.ok (Message.methodCall 1 getName).frame.length] [handleSignal]
        nameReply_wellFormed.toFrame [] := by
  have hcall₁ := call_refused ⟨1, handleSignal.slice⟩ [.ok nameReply.frame] rfl
    (encode_eq_frame (getName_wellFormed 1)) (writeAll_getName 1) decode_handleSignal (by decide)
  have hcall₂ := call_refused ⟨2, handleSignal.slice⟩ [.ok nameReply.frame] rfl
    (encode_eq_frame (getName_wellFormed 2)) (writeAll_getName 2) decode_handleSignal (by decide)
  refine ⟨_, _, _, _, hcall₁, hcall₂, rfl, rfl, ?_, ?_⟩
  · exact handleSignal_unaddressed
  · intro h
    obtain ⟨conn', sock', hcall, -⟩ := h.skips handleSignal.slice [nameReply.frame] chunks_nameReply rfl
    cases hcall.symm.trans hcall₁

end Rustils.Dbus
