import Rustils.Dbus.Connection
import Rustils.Dbus.MessageRoundTrip
import Rustils.Dbus.Truncation

namespace Rustils.Dbus

open Platform Lib.Fuel Lib.Machine Lib.Utf8

structure Frame where
  bytes : List UInt8
  fits : bytes.length < 2 ^ 63
  message : Message
  decoded : decode ⟨bytes, fits⟩ = .ok (message, bytes.length)

namespace Frame

variable (f : Frame)

def slice : Slice := ⟨f.bytes, f.fits⟩

theorem length_lt : f.bytes.length < 2 ^ 34 := by
  obtain ⟨-, -, hn, -⟩ := decode_ok f.decoded
  have hfields := wordAt_lt ⟨f.bytes, f.fits⟩ 12
  have hbody := wordAt_lt ⟨f.bytes, f.fits⟩ 4
  have hpad : padding (16 + wordAt ⟨f.bytes, f.fits⟩ 12) 8 < 8 := Nat.mod_lt _ (by decide)
  rw [frameLen, bodyStart] at hn
  omega

theorem decode_append (rest : List UInt8) (fits : (f.bytes ++ rest).length < 2 ^ 63) :
    decode ⟨f.bytes ++ rest, fits⟩ = .ok (f.message, f.bytes.length) := by
  have hagree : Agree f.bytes.length ⟨f.bytes, f.fits⟩ ⟨f.bytes ++ rest, fits⟩ :=
    ⟨Nat.le_refl _, by simp [Slice.length], by simp⟩
  refine hagree.decode f.decoded fun stop hend => ?_
  have hstart : bodyStart ⟨f.bytes, f.fits⟩ ≤ f.bytes.length := by
    obtain ⟨-, -, hn, -⟩ := decode_ok f.decoded
    conv_rhs => rw [hn]
    exact Nat.le_add_right _ _
  have hmax := hend.le_max
  simp only [Call.off, Slice.length] at hmax
  omega

theorem decode_cut {cut rest : List UInt8} (hbytes : f.bytes = cut ++ rest) (hrest : rest ≠ [])
    (fits : cut.length < 2 ^ 63) : decode ⟨cut, fits⟩ = fail needMoreData := by
  have hlen : f.bytes.length = cut.length + rest.length := by rw [hbytes, List.length_append]
  have hpos := List.length_pos_of_ne_nil hrest
  have hagree : Agree (Slice.length ⟨cut, fits⟩) ⟨cut, fits⟩ ⟨f.bytes, f.fits⟩ := by
    refine ⟨Nat.le_refl _, ?_, ?_⟩
    · simp only [Slice.length]
      omega
    · simp [Slice.length, hbytes]
  apply hagree.decode_truncated f.decoded
  simp only [Slice.length]
  omega

end Frame

section WellFormed

variable {msg : Message} (h : msg.WellFormed)

include h

theorem Message.WellFormed.frame_fits : msg.frame.length < 2 ^ 63 := by
  have hfields := h.fieldsLen
  have hbody := h.bodyLen
  have hpad : padding (16 + (wireAll 16 msg.fields).length) 8 < 8 := Nat.mod_lt _ (by decide)
  rw [length_frame, Message.bodyStart]
  omega

theorem Message.WellFormed.frame_decoded : decode ⟨msg.frame, h.frame_fits⟩ = .ok (msg, msg.frame.length) :=
  decode_frame h (List.append_nil _).symm

end WellFormed

def Message.WellFormed.toFrame {msg : Message} (h : msg.WellFormed) : Frame where
  bytes := msg.frame
  fits := h.frame_fits
  message := msg
  decoded := h.frame_decoded

def streamOf (fs : List Frame) : List UInt8 := (fs.map Frame.bytes).flatten

theorem streamOf_cons (f : Frame) (fs : List Frame) : streamOf (f :: fs) = f.bytes ++ streamOf fs := rfl

section Take

variable {fs : List Frame} {buf : Slice}

theorem takeMessage_append (f : Frame) (rest : List UInt8) (fits : (f.bytes ++ rest).length < 2 ^ 63) :
    ∃ fits', takeMessage decode ⟨f.bytes ++ rest, fits⟩ = some (.ok (f.message, ⟨rest, fits'⟩)) := by
  have fits' : rest.length < 2 ^ 63 := by
    rw [List.length_append] at fits
    omega
  have hdrain : (Slice.drain ⟨f.bytes ++ rest, fits⟩ f.bytes.length : Outcome Slice) =
      .ok ⟨rest, fits'⟩ := by
    rw [Slice.drain, if_pos (by simp [Slice.length])]
    simp
  refine ⟨fits', ?_⟩
  rw [takeMessage, f.decode_append rest fits]
  simp only [hdrain, ok_bind, pure_eq_ok]

theorem takeMessage_of_needMoreData (h : decode buf = fail needMoreData) :
    takeMessage decode buf = none := by
  rw [takeMessage, h]
  rfl

theorem takeMessage_front {f : Frame} {tail : List UInt8} (h : buf.bytes <+: f.bytes ++ tail) :
    (∃ buf', buf.bytes = f.bytes ++ Slice.bytes buf' ∧
      takeMessage decode buf = some (.ok (f.message, buf'))) ∨
    takeMessage decode buf = none ∧ buf.length < f.bytes.length := by
  obtain ⟨bytes, fits⟩ := buf
  rcases List.prefix_or_prefix_of_prefix h (List.prefix_append f.bytes tail) with ⟨rest, hrest⟩ | ⟨rest, rfl⟩
  · dsimp only at hrest
    by_cases hnil : rest = []
    · left
      subst hnil
      rw [List.append_nil] at hrest
      subst hrest
      obtain ⟨fits', ht⟩ := takeMessage_append f [] (by simpa using f.fits)
      refine ⟨⟨[], fits'⟩, (List.append_nil _).symm, ?_⟩
      simpa using ht
    · right
      refine ⟨takeMessage_of_needMoreData (f.decode_cut hrest.symm hnil fits), ?_⟩
      rw [← hrest, List.length_append]
      exact Nat.lt_add_of_pos_right (List.length_pos_of_ne_nil hnil)
  · left
    obtain ⟨fits', ht⟩ := takeMessage_append f rest fits
    exact ⟨⟨rest, fits'⟩, rfl, ht⟩

theorem takeMessage_nil (h : buf.bytes = []) : takeMessage decode buf = none := by
  apply takeMessage_of_needMoreData
  rw [decode, decodeWith, if_pos (show buf.length < 16 by simp [Slice.length, h])]

theorem takeMessage_cases (h : buf.bytes <+: streamOf fs) :
    (∃ f fs' buf', fs = f :: fs' ∧ buf.bytes = f.bytes ++ Slice.bytes buf' ∧
      takeMessage decode buf = some (.ok (f.message, buf'))) ∨
    takeMessage decode buf = none ∧ buf.length < 2 ^ 34 := by
  cases fs with
  | nil =>
    have hnil := List.prefix_nil.mp h
    exact .inr ⟨takeMessage_nil hnil, by simp [Slice.length, hnil]⟩
  | cons f fs =>
    rcases takeMessage_front h with ⟨buf', hbuf, ht⟩ | ⟨ht, hlt⟩
    · exact .inl ⟨f, fs, buf', rfl, hbuf, ht⟩
    · exact .inr ⟨ht, hlt.trans f.length_lt⟩

end Take

def Capped (reads : List Read) : Prop := ∀ bytes, .ok bytes ∈ reads → bytes.length ≤ 4096

section Receive

variable {fs : List Frame} {buf buf' : Slice} {bytes unread : List UInt8} {reads reads' : List Read}
  {r : Outcome Message} {e : Int32}

theorem extend_eq (hbuf : buf.length < 2 ^ 34) (hbytes : bytes.length ≤ 4096) :
    ∃ buf', (buf.extend bytes : Outcome Slice) = .ok buf' ∧ buf'.bytes = buf.bytes ++ bytes := by
  have hfits : (buf.bytes ++ bytes).length < 2 ^ 63 := by
    rw [List.length_append]
    unfold Slice.length at hbuf
    omega
  exact ⟨⟨_, hfits⟩, by rw [Slice.extend, dif_pos hfits, pure_eq_ok], rfl⟩

theorem readOneMessage_of_take {msg : Message} (h : takeMessage decode buf = some (.ok (msg, buf'))) :
    readOneMessage buf reads = some (.ok msg, buf', reads) := by
  rw [readOneMessage, readOneMessageWith.eq_def, h]
  rfl

theorem readOneMessage_of_refuse {s : Stop PlatformError} (h : takeMessage decode buf = some (.error s)) :
    readOneMessage buf reads = some (.error s, buf, reads) := by
  rw [readOneMessage, readOneMessageWith.eq_def, h]

theorem readOneMessage_nil (h : takeMessage decode buf = none) : readOneMessage buf [] = none := by
  rw [readOneMessage, readOneMessageWith, h]

theorem readOneMessage_error (h : takeMessage decode buf = none) :
    readOneMessage buf (.error e :: reads) = some (fail (osErr "read" e), buf, reads) := by
  rw [readOneMessage, readOneMessageWith, h]

theorem readOneMessage_end (h : takeMessage decode buf = none) :
    readOneMessage buf (.ok [] :: reads) = some (fail peerClosed, buf, reads) := by
  rw [readOneMessage, readOneMessageWith, h]

theorem readOneMessage_more (h : takeMessage decode buf = none) (hbytes : bytes ≠ [])
    (hext : (buf.extend bytes : Outcome Slice) = .ok buf') :
    readOneMessage buf (.ok bytes :: reads) = readOneMessage buf' reads := by
  cases bytes with
  | nil => exact absurd rfl hbytes
  | cons b bs =>
    rw [readOneMessage, readOneMessageWith.eq_def, h]
    simp only [hext]

theorem received_append (reads reads' : List Read) :
    received (reads ++ reads') = received reads ++ received reads' := by
  induction reads with
  | nil => rfl
  | cons r reads ih => cases r <;> simp [received, ih]

def Consumes (taken : List UInt8) (buf : Slice) (reads : List Read) (buf' : Slice)
    (reads' : List Read) : Prop :=
  ∃ used, reads = used ++ reads' ∧ taken ++ buf'.bytes = buf.bytes ++ received used

theorem Consumes.trans {taken taken' : List UInt8} {buf'' : Slice} {reads'' : List Read}
    (h : Consumes taken buf reads buf' reads') (h' : Consumes taken' buf' reads' buf'' reads'') :
    Consumes (taken ++ taken') buf reads buf'' reads'' := by
  obtain ⟨used, rfl, hused⟩ := h
  obtain ⟨used', rfl, hused'⟩ := h'
  refine ⟨used ++ used', (List.append_assoc _ _ _).symm, ?_⟩
  rw [List.append_assoc, hused', ← List.append_assoc, hused, received_append, List.append_assoc]

theorem Consumes.none (buf : Slice) (reads : List Read) : Consumes [] buf reads buf reads :=
  ⟨[], rfl, (List.append_nil _).symm⟩

theorem Consumes.stream {taken rest : List UInt8} (h : Consumes taken buf reads buf' reads')
    (hstream : buf.bytes ++ received reads ++ unread = taken ++ rest) :
    buf'.bytes ++ received reads' ++ unread = rest := by
  obtain ⟨used, rfl, hused⟩ := h
  suffices h : taken ++ (buf'.bytes ++ received reads' ++ unread) = taken ++ rest from
    List.append_cancel_left h
  rw [← hstream, received_append, ← List.append_assoc, ← List.append_assoc, hused, List.append_assoc,
    List.append_assoc, List.append_assoc, List.append_assoc]

theorem Consumes.capped {taken : List UInt8} (h : Consumes taken buf reads buf' reads')
    (hcap : Capped reads) : Capped reads' := by
  obtain ⟨used, rfl, -⟩ := h
  exact fun bytes hb => hcap bytes (List.mem_append_right _ hb)

theorem consumes_more (reads : List Read) (h : buf'.bytes = buf.bytes ++ bytes) :
    Consumes [] buf (.ok bytes :: reads) buf' reads :=
  ⟨[.ok bytes], rfl, by simp [received, h]⟩

theorem prefix_of_stream (hstream : buf.bytes ++ received reads ++ unread = streamOf fs) :
    buf.bytes <+: streamOf fs := ⟨received reads ++ unread, by rw [← List.append_assoc, hstream]⟩

def SocketError (e : PlatformError) : Prop := e = peerClosed ∨ ∃ n, e = osErr "read" n

theorem readOneMessage_stream (hcap : Capped reads)
    (hstream : buf.bytes ++ received reads ++ unread = streamOf fs)
    (h : readOneMessage buf reads = some (r, buf', reads')) :
    (∃ f fs', fs = f :: fs' ∧ r = .ok f.message ∧ Consumes f.bytes buf reads buf' reads') ∨
      (∃ e, r = fail e ∧ SocketError e) ∧ Consumes [] buf reads buf' reads' := by
  induction reads generalizing buf with
  | nil =>
    rcases takeMessage_cases (prefix_of_stream hstream) with ⟨f, fs', rest, hfs, hbuf, ht⟩ | ⟨ht, -⟩
    · rw [readOneMessage_of_take ht] at h
      cases h
      exact .inl ⟨f, fs', hfs, rfl, [], rfl, by rw [hbuf, received, List.append_nil]⟩
    · rw [readOneMessage_nil ht] at h
      cases h
  | cons a reads ih =>
    rcases takeMessage_cases (prefix_of_stream hstream) with ⟨f, fs', rest, hfs, hbuf, ht⟩ | ⟨ht, hlt⟩
    · rw [readOneMessage_of_take ht] at h
      cases h
      exact .inl ⟨f, fs', hfs, rfl, [], rfl, by rw [hbuf, received, List.append_nil]⟩
    · rcases a with e | bytes
      · rw [readOneMessage_error ht] at h
        cases h
        exact .inr ⟨⟨_, rfl, .inr ⟨e, rfl⟩⟩, [.error e], rfl, by simp [received]⟩
      · by_cases hbytes : bytes = []
        · subst hbytes
          rw [readOneMessage_end ht] at h
          cases h
          exact .inr ⟨⟨_, rfl, .inl rfl⟩, [.ok []], rfl, by simp [received]⟩
        · obtain ⟨buf₁, hext, hbuf₁⟩ := extend_eq hlt (hcap bytes List.mem_cons_self)
          have hmore := consumes_more reads hbuf₁
          rw [readOneMessage_more ht hbytes hext] at h
          rcases ih (hmore.capped hcap) (hmore.stream hstream) h with ⟨f, fs', hfs, hr, hc⟩ | ⟨he, hc⟩
          · exact .inl ⟨f, fs', hfs, hr, hmore.trans hc⟩
          · exact .inr ⟨he, hmore.trans hc⟩

end Receive

def Chunks (chunks : List (List UInt8)) : Prop := ∀ c ∈ chunks, 1 ≤ c.length ∧ c.length ≤ 4096

theorem received_chunks (chunks : List (List UInt8)) : received (chunks.map .ok) = chunks.flatten := by
  induction chunks with
  | nil => rfl
  | cons c chunks ih => simp [received, ih]

theorem Chunks.capped {chunks : List (List UInt8)} (h : Chunks chunks) : Capped (chunks.map .ok) := by
  intro bytes hb
  obtain ⟨c, hc, heq⟩ := List.mem_map.mp hb
  cases heq
  exact (h bytes hc).2

theorem readOneMessage_chunks {f : Frame} {tail : List UInt8} {buf : Slice} {chunks : List (List UInt8)}
    (hchunks : Chunks chunks) (hstream : buf.bytes ++ chunks.flatten = f.bytes ++ tail) :
    ∃ buf' chunks', readOneMessage buf (chunks.map .ok) = some (.ok f.message, buf', chunks'.map .ok) ∧
      Consumes f.bytes buf (chunks.map .ok) buf' (chunks'.map .ok) ∧ Chunks chunks' ∧
      buf'.bytes ++ chunks'.flatten = tail := by
  rcases takeMessage_front ⟨chunks.flatten, hstream⟩ with ⟨rest, hbuf, ht⟩ | ⟨ht, hcut⟩
  · refine ⟨rest, chunks, readOneMessage_of_take ht, ⟨[], rfl, ?_⟩, hchunks, ?_⟩
    · rw [hbuf, received, List.append_nil]
    · rw [hbuf, List.append_assoc] at hstream
      exact List.append_cancel_left hstream
  · cases chunks with
    | nil =>
      have hlen := congrArg List.length hstream
      simp [Slice.length] at hlen hcut
      omega
    | cons c chunks =>
      obtain ⟨hpos, hle⟩ := hchunks c List.mem_cons_self
      obtain ⟨buf₁, hext, hbuf₁⟩ := extend_eq (hcut.trans f.length_lt) hle
      have hmore := consumes_more (chunks.map .ok) hbuf₁
      have hstream₁ : buf₁.bytes ++ chunks.flatten = f.bytes ++ tail := by
        rw [hbuf₁, ← hstream]
        simp
      have hchunks₁ : Chunks chunks := fun c hc => hchunks c (List.mem_cons_of_mem _ hc)
      obtain ⟨buf', chunks', hr, hc, hch, hs⟩ := readOneMessage_chunks hchunks₁ hstream₁
      refine ⟨buf', chunks', ?_, hmore.trans hc, hch, hs⟩
      rw [List.map_cons, readOneMessage_more ht (List.ne_nil_of_length_pos hpos) hext, hr]
termination_by chunks

theorem readOneMessage_drained {buf : Slice} {chunks : List (List UInt8)} (hchunks : Chunks chunks)
    (hstream : buf.bytes ++ chunks.flatten = []) : readOneMessage buf (chunks.map .ok) = none := by
  obtain ⟨hbuf, hnil⟩ := List.append_eq_nil_iff.mp hstream
  cases chunks with
  | nil => exact readOneMessage_nil (takeMessage_nil hbuf)
  | cons c chunks =>
    have hc := List.flatten_eq_nil_iff.mp hnil c List.mem_cons_self
    have hpos := (hchunks c List.mem_cons_self).1
    rw [hc] at hpos
    cases hpos

noncomputable def readMessages : ℕ → Slice → List Read → Option (List (Outcome Message) × Slice × List Read)
  | 0, buf, reads => some ([], buf, reads)
  | k + 1, buf, reads => do
    let (r, buf, reads) ← readOneMessage buf reads
    let (rs, buf, reads) ← readMessages k buf reads
    pure (r :: rs, buf, reads)

theorem readMessages_frames {fs : List Frame} {buf : Slice} {chunks : List (List UInt8)}
    (hchunks : Chunks chunks) (hstream : buf.bytes ++ chunks.flatten = streamOf fs) :
    (∀ k ≤ fs.length, ∃ buf' reads',
      readMessages k buf (chunks.map .ok) = some ((fs.take k).map (.ok ·.message), buf', reads') ∧
        Consumes (streamOf (fs.take k)) buf (chunks.map .ok) buf' reads') ∧
    readMessages (fs.length + 1) buf (chunks.map .ok) = none := by
  induction fs generalizing buf chunks with
  | nil =>
    constructor
    · intro k hk
      obtain rfl := Nat.le_zero.mp hk
      exact ⟨buf, _, rfl, .none buf _⟩
    · rw [List.length_nil, readMessages, readOneMessage_drained hchunks hstream]
      rfl
  | cons f fs ih =>
    obtain ⟨buf₁, chunks₁, hr, hc, hchunks₁, hstream₁⟩ := readOneMessage_chunks hchunks hstream
    obtain ⟨hall, hend⟩ := ih hchunks₁ hstream₁
    constructor
    · intro k hk
      cases k with
      | zero => exact ⟨buf, _, rfl, .none buf _⟩
      | succ k =>
        obtain ⟨buf', reads', hm, hc'⟩ := hall k (Nat.le_of_succ_le_succ hk)
        refine ⟨buf', reads', ?_, hc.trans hc'⟩
        rw [readMessages, hr]
        simp [hm]
    · rw [List.length_cons, readMessages, hr]
      simp [hend]

theorem exists_frames {ms : List Message} (h : ∀ m ∈ ms, m.WellFormed) :
    ∃ fs : List Frame, fs.map Frame.message = ms ∧ ms.mapM encode = .ok (fs.map Frame.bytes) := by
  induction ms with
  | nil => exact ⟨[], rfl, rfl⟩
  | cons m ms ih =>
    obtain ⟨fs, hms, henc⟩ := ih fun m hm => h m (List.mem_cons_of_mem _ hm)
    have hm := h m List.mem_cons_self
    refine ⟨hm.toFrame :: fs, ?_, ?_⟩
    · rw [List.map_cons, hms]
      rfl
    · rw [List.mapM_cons, encode_eq_frame hm, henc]
      rfl

theorem crlfPos_eq_some {bytes : List UInt8} {pos : ℕ} (h : crlfPos bytes = some pos) :
    bytes.take pos ++ [13, 10] ++ bytes.drop (pos + 2) = bytes := by
  induction bytes generalizing pos with
  | nil => cases h
  | cons a rest ih =>
    cases rest with
    | nil => cases h
    | cons b rest =>
      rw [crlfPos] at h
      split_ifs at h with hcrlf
      · cases h
        rw [hcrlf.1, hcrlf.2]
        rfl
      · obtain ⟨pos, hpos, rfl⟩ := Option.map_eq_some_iff.mp h
        rw [List.take_succ_cons, Nat.add_right_comm, List.drop_succ_cons, List.cons_append, List.cons_append,
          ih hpos]

theorem readSaslLineLoop_leftover {buf line leftover : List UInt8} {reads reads' : List Read}
    (h : readSaslLineLoop buf reads = some (.ok (line, leftover), reads')) :
    ∃ used, reads = used ++ reads' ∧ line ++ [13, 10] ++ leftover = buf ++ received used := by
  induction reads generalizing buf with
  | nil =>
    rw [readSaslLineLoop.eq_def] at h
    cases hpos : crlfPos buf with
    | some pos =>
      simp only [hpos] at h
      cases h
      exact ⟨[], rfl, by rw [crlfPos_eq_some hpos, received, List.append_nil]⟩
    | none =>
      simp only [hpos] at h
      split_ifs at h
      cases h
  | cons a reads ih =>
    rw [readSaslLineLoop.eq_def] at h
    cases hpos : crlfPos buf with
    | some pos =>
      simp only [hpos] at h
      cases h
      exact ⟨[], rfl, by rw [crlfPos_eq_some hpos, received, List.append_nil]⟩
    | none =>
      simp only [hpos] at h
      split_ifs at h
      · cases h
      · match a with
        | .error e => cases h
        | .ok [] => cases h
        | .ok (b :: bs) =>
          obtain ⟨used, rfl, hused⟩ := ih h
          exact ⟨.ok (b :: bs) :: used, rfl, by rw [hused, received, List.append_assoc]⟩

theorem readMessages_encodings (ms : List Message) (hms : ∀ m ∈ ms, m.WellFormed)
    (encs : List (List UInt8)) (henc : ms.mapM encode = .ok encs) (buf : Slice)
    (chunks : List (List UInt8)) (hchunks : ∀ c ∈ chunks, 1 ≤ c.length ∧ c.length ≤ 4096)
    (hstream : buf.bytes ++ chunks.flatten = encs.flatten) :
    (∀ k ≤ ms.length, ∃ buf' reads',
      readMessages k buf (chunks.map .ok) = some ((ms.take k).map .ok, buf', reads') ∧
        Consumes (encs.take k).flatten buf (chunks.map .ok) buf' reads') ∧
    readMessages (ms.length + 1) buf (chunks.map .ok) = none ∧
    ∀ reads line leftover reads', readSaslLine reads = some (.ok (line, leftover), reads') →
      ∃ used, reads = used ++ reads' ∧ line ++ [13, 10] ++ leftover = received used := by
  obtain ⟨fs, rfl, hfs⟩ := exists_frames hms
  obtain rfl : fs.map Frame.bytes = encs := Except.ok.inj (hfs.symm.trans henc)
  obtain ⟨hall, hend⟩ := readMessages_frames hchunks hstream
  refine ⟨fun k hk => ?_, ?_, fun reads line leftover reads' h => readSaslLineLoop_leftover h⟩
  · rw [List.length_map] at hk
    obtain ⟨buf', reads', hm, hc⟩ := hall k hk
    refine ⟨buf', reads', ?_, ?_⟩
    · rw [hm, ← List.map_take, List.map_map]
      rfl
    · rw [← List.map_take]
      exact hc
  · rw [List.length_map]
    exact hend

def bareCall : Message where
  messageType := 1
  serial := 1

theorem bareCall_wellFormed : bareCall.WellFormed := by
  constructor
  · decide
  · decide
  · exact ⟨[], by decide, trivial⟩
  · trivial
  · decide
  · decide

theorem bareCall_in_three_parts :
    ∃ buf' reads', readMessages 1 ⟨[0x6C, 1, 0], by decide⟩
        [.ok [1, 0, 0, 0, 0, 1, 0], .ok [0, 0, 0, 0, 0, 0]] = some ([.ok bareCall], buf', reads') ∧
      Consumes [0x6C, 1, 0, 1, 0, 0, 0, 0, 1, 0, 0, 0, 0, 0, 0, 0] ⟨[0x6C, 1, 0], by decide⟩
        [.ok [1, 0, 0, 0, 0, 1, 0], .ok [0, 0, 0, 0, 0, 0]] buf' reads' := by
  have henc : [bareCall].mapM encode =
      .ok [[0x6C, 1, 0, 1, 0, 0, 0, 0, 1, 0, 0, 0, 0, 0, 0, 0]] := by
    rw [List.mapM_cons, encode_eq_frame bareCall_wellFormed]
    decide +kernel
  exact (readMessages_encodings [bareCall] (by simpa using bareCall_wellFormed) _ henc ⟨[0x6C, 1, 0], by decide⟩
    [[1, 0, 0, 0, 0, 1, 0], [0, 0, 0, 0, 0, 0]] (by decide) rfl).1 1 (Nat.le_refl 1)

end Rustils.Dbus
