import Rustils.Dbus.Framing
import Rustils.Dbus.MarshalErrors
import Rustils.Lib.Trace

namespace Rustils.Dbus

open Platform Lib.Fuel Lib.Machine Lib.Utf8 Lib.Trace

section Loop

variable {serial : UInt32} {buf buf' : Slice} {reads reads' : List Read} {r : Outcome Message}
  {msg : Message}

def pending (buf : Slice) (reads : List Read) : ℕ := buf.length + (received reads).length

theorem takeMessage_ok (h : takeMessage decode buf = some (.ok (msg, buf'))) : buf'.length < buf.length := by
  unfold takeMessage at h
  cases hd : decode buf with
  | error s =>
    rw [hd] at h
    rcases s with e | _ | _
    · dsimp only at h
      split_ifs at h
      cases h
    · cases h
    · cases h
  | ok p =>
    obtain ⟨m, n⟩ := p
    obtain ⟨-, -, hn, hle, -⟩ := decode_ok hd
    have hpos := sixteen_le_frameLen buf
    rw [hd] at h
    simp only [Slice.drain, if_pos hle, pure_eq_ok, ok_bind] at h
    cases h
    simp only [Slice.length, List.length_drop] at hle ⊢
    omega

theorem extend_ok {bytes : List UInt8} (h : (buf.extend bytes : Outcome Slice) = .ok buf') :
    buf'.bytes = buf.bytes ++ bytes := by
  unfold Slice.extend at h
  split_ifs at h
  cases h
  rfl

theorem readOneMessage_ok (h : readOneMessage buf reads = some (.ok msg, buf', reads')) :
    pending buf' reads' < pending buf reads := by
  have htaken : ∀ {buf : Slice} {reads : List Read} {p : Outcome (Message × Slice)},
      takeMessage decode buf = some p → readOneMessage buf reads = some (.ok msg, buf', reads') →
      pending buf' reads' < pending buf reads := by
    intro buf reads p ht h
    rw [readOneMessage, readOneMessageWith.eq_def, ht] at h
    rcases p with s | ⟨m, rest⟩
    · cases h
    · cases h
      exact Nat.add_lt_add_right (takeMessage_ok ht) _
  induction reads generalizing buf with
  | nil =>
    cases ht : takeMessage decode buf with
    | some p => exact htaken ht h
    | none =>
      rw [readOneMessage_nil ht] at h
      cases h
  | cons a reads ih =>
    cases ht : takeMessage decode buf with
    | some p => exact htaken ht h
    | none =>
      rcases a with e | _ | ⟨b, bs⟩
      · rw [readOneMessage_error ht] at h
        cases h
      · rw [readOneMessage_end ht] at h
        cases h
      · cases hext : (buf.extend (b :: bs) : Outcome Slice) with
        | error s =>
          rw [readOneMessage, readOneMessageWith.eq_def, ht] at h
          simp only [hext] at h
          cases h
        | ok buf₁ =>
          rw [readOneMessage_more ht (List.cons_ne_nil b bs) hext] at h
          have hlt := ih h
          have hbytes := congrArg List.length (extend_ok hext)
          rw [List.length_append] at hbytes
          simp only [pending, received, Slice.length, List.length_append] at hlt ⊢
          omega

theorem awaitReplyFuel_eq {n m : ℕ} (hn : pending buf reads < n) (hm : pending buf reads < m) :
    awaitReplyFuel decode serial buf reads n = awaitReplyFuel decode serial buf reads m := by
  induction n generalizing m buf reads with
  | zero => exact absurd hn (Nat.not_lt_zero _)
  | succ n ih =>
    cases m with
    | zero => exact absurd hm (Nat.not_lt_zero _)
    | succ m =>
      rw [awaitReplyFuel, awaitReplyFuel]
      cases hr : readOneMessageWith decode buf reads with
      | none => rfl
      | some p =>
        obtain ⟨r, buf', reads'⟩ := p
        cases r with
        | error s => rfl
        | ok reply =>
          have hlt := readOneMessage_ok hr
          dsimp only
          rw [ih (m := m) (by omega) (by omega)]

theorem awaitReply_eq (serial : UInt32) (buf : Slice) (reads : List Read) :
    awaitReply serial buf reads = match readOneMessage buf reads with
      | some (.ok reply, buf, reads) =>
        if reply.replySerial ≠ some serial then awaitReply serial buf reads
        else some (answerOf reply, buf, reads)
      | r => r := by
  rw [awaitReply, awaitReplyWith, awaitReplyFuel, readOneMessage]
  cases hr : readOneMessageWith decode buf reads with
  | none => rfl
  | some p =>
    obtain ⟨r, buf', reads'⟩ := p
    cases r with
    | error s => rfl
    | ok reply =>
      have hlt := readOneMessage_ok hr
      dsimp only
      rw [show buf.length + (received reads).length = pending buf reads from rfl,
        awaitReplyFuel_eq hlt (Nat.lt_succ_self _)]
      rfl

end Loop

inductive Awaited (serial : UInt32) (fs : List Frame) (buf : Slice) (reads : List Read) (buf' : Slice)
    (reads' : List Read) : Outcome Message → Prop
  | reply (skipped rest : List Frame) (f : Frame) (hfs : fs = skipped ++ f :: rest)
    (hskipped : ∀ g ∈ skipped, g.message.replySerial ≠ some serial)
    (hf : f.message.replySerial = some serial)
    (hc : Consumes (streamOf (skipped ++ [f])) buf reads buf' reads') :
    Awaited serial fs buf reads buf' reads' (answerOf f.message)
  | failed (skipped rest : List Frame) {e : PlatformError} (hfs : fs = skipped ++ rest)
    (hskipped : ∀ g ∈ skipped, g.message.replySerial ≠ some serial) (he : SocketError e)
    (hc : Consumes (streamOf skipped) buf reads buf' reads') :
    Awaited serial fs buf reads buf' reads' (fail e)

section Call

variable {serial : UInt32} {fs : List Frame} {buf buf' : Slice} {reads reads' : List Read}
  {unread : List UInt8} {r : Outcome Message} {conn conn' : Connection} {sock sock' : Socket}
  {req : Request}

theorem Awaited.skip {f : Frame} {buf₁ : Slice} {reads₁ : List Read}
    (hf : f.message.replySerial ≠ some serial) (hc : Consumes f.bytes buf reads buf₁ reads₁)
    (h : Awaited serial fs buf₁ reads₁ buf' reads' r) :
    Awaited serial (f :: fs) buf reads buf' reads' r := by
  cases h with
  | reply skipped rest g hfs hskipped hg hc' =>
    refine .reply (f :: skipped) rest g (by rw [hfs, List.cons_append]) ?_ hg (hc.trans hc')
    exact List.forall_mem_cons.mpr ⟨hf, hskipped⟩
  | failed skipped rest hfs hskipped he hc' =>
    refine .failed (f :: skipped) rest (by rw [hfs, List.cons_append]) ?_ he (hc.trans hc')
    exact List.forall_mem_cons.mpr ⟨hf, hskipped⟩

theorem awaitReply_stream {fs : List Frame} {buf : Slice} {reads : List Read} (hcap : Capped reads)
    (hstream : buf.bytes ++ received reads ++ unread = streamOf fs)
    (h : awaitReply serial buf reads = some (r, buf', reads')) :
    Awaited serial fs buf reads buf' reads' r := by
  obtain ⟨⟨r₁, buf₁, reads₁⟩, hr⟩ : ∃ p, readOneMessage buf reads = some p := by
    cases hr : readOneMessage buf reads with
    | some p => exact ⟨p, rfl⟩
    | none =>
      rw [awaitReply_eq, hr] at h
      cases h
  rw [awaitReply_eq, hr] at h
  rcases readOneMessage_stream hcap hstream hr with ⟨f, fs', rfl, rfl, hc⟩ | ⟨⟨e, rfl, he⟩, hc⟩
  · by_cases hf : f.message.replySerial = some serial
    · simp only [hf, ne_eq, not_true_eq_false, ↓reduceIte] at h
      cases h
      refine .reply [] fs' f rfl (by simp) hf ?_
      simpa [streamOf] using hc
    · simp only [ne_eq, hf, not_false_eq_true, ↓reduceIte] at h
      exact .skip hf hc (awaitReply_stream (hc.capped hcap) (hc.stream hstream) h)
  · cases h
    exact .failed [] fs rfl (by simp) he hc
termination_by fs

def Replied (r : Outcome Message) : Prop := (∃ m, r = .ok m) ∨ ∃ detail, r = fail (callError detail)

theorem not_replied_of_refuses {s : Stop PlatformError} (h : Refuses (.error s : Outcome Message)) :
    ¬Replied (.error s) := by
  rintro (⟨m, ⟨⟩⟩ | ⟨detail, hd⟩)
  cases h _ hd

theorem not_replied_osErr (op : String) (errno : Int32) : ¬Replied (fail (osErr op errno)) := by
  rintro (⟨m, ⟨⟩⟩ | ⟨detail, hd⟩)
  cases congrArg PlatformError.os (Stop.err.inj (Except.error.inj hd))

theorem writeAll_error {bytes : List UInt8} {writes writes' : List Write} {s : Stop PlatformError}
    (h : writeAll bytes writes = some (.error s, writes')) : ¬Replied (.error s) := by
  induction writes generalizing bytes with
  | nil =>
    unfold writeAll at h
    split_ifs at h
    cases h
  | cons w writes ih =>
    unfold writeAll at h
    split_ifs at h
    · cases h
    · rcases w with e | n
      · cases h
        exact not_replied_osErr _ _
      · dsimp only at h
        split_ifs at h
        · cases h
          exact not_replied_of_refuses (refuses_badSignature _)
        · cases h
          exact not_replied_of_refuses refuses_panicked
        · exact ih h

theorem addU32_one {n next : UInt32} (h : (addU32 n 1 : Outcome UInt32) = .ok next) :
    next.toNat = n.toNat + 1 := by
  unfold addU32 at h
  split_ifs at h with hlt
  cases h
  rw [UInt32.toNat_add]
  exact Nat.mod_eq_of_lt hlt

theorem addU32_one_error {n : UInt32} {s : Stop PlatformError}
    (h : (addU32 n 1 : Outcome UInt32) = .error s) : s = .panicked ∧ ¬n.toNat + 1 < 2 ^ 32 := by
  unfold addU32 at h
  split_ifs at h with hlt
  · cases h
  · cases h
    exact ⟨rfl, hlt⟩

theorem call_cases (h : conn.call req sock = some (r, conn', sock')) :
    (conn.nextSerial.toNat + 1 < 2 ^ 32 → conn'.nextSerial.toNat = conn.nextSerial.toNat + 1) ∧
    (¬Replied r ∧ conn'.readBuf = conn.readBuf ∧ sock'.reads = sock.reads ∨
      awaitReply conn.nextSerial conn.readBuf sock.reads = some (r, conn'.readBuf, sock'.reads)) := by
  unfold Connection.call Connection.callWith at h
  dsimp only at h
  cases hnext : (addU32 conn.nextSerial 1 : Outcome UInt32) with
  | error s =>
    obtain ⟨rfl, hlt⟩ := addU32_one_error hnext
    rw [hnext] at h
    cases h
    exact ⟨fun h => absurd h hlt, .inl ⟨not_replied_of_refuses refuses_panicked, rfl, rfl⟩⟩
  | ok next =>
    rw [hnext] at h
    dsimp only at h
    cases henc : encode (.methodCall conn.nextSerial req) with
    | error s =>
      rw [henc] at h
      cases h
      refine ⟨fun _ => addU32_one hnext, .inl ⟨not_replied_of_refuses ?_, rfl, rfl⟩⟩
      rintro e ⟨⟩
      exact refuses_encode _ e henc
    | ok bytes =>
      rw [henc] at h
      dsimp only at h
      cases hw : writeAll bytes sock.writes with
      | none =>
        rw [hw] at h
        cases h
      | some p =>
        obtain ⟨w | u, writes⟩ := p
        · rw [hw] at h
          cases h
          exact ⟨fun _ => addU32_one hnext, .inl ⟨writeAll_error hw, rfl, rfl⟩⟩
        · rw [hw] at h
          dsimp only at h
          cases ha : awaitReplyWith decode conn.nextSerial conn.readBuf sock.reads with
          | none =>
            rw [ha] at h
            cases h
          | some q =>
            rw [ha] at h
            cases h
            exact ⟨fun _ => addU32_one hnext, .inr ha⟩

theorem call_stream (hcap : Capped sock.reads)
    (hstream : conn.readBuf.bytes ++ received sock.reads ++ unread = streamOf fs)
    (h : conn.call req sock = some (r, conn', sock')) :
    (conn.nextSerial.toNat + 1 < 2 ^ 32 → conn'.nextSerial.toNat = conn.nextSerial.toNat + 1) ∧
    (¬Replied r ∧ conn'.readBuf = conn.readBuf ∧ sock'.reads = sock.reads ∨
      Awaited conn.nextSerial fs conn.readBuf sock.reads conn'.readBuf sock'.reads r) := by
  obtain ⟨hserial, hcall⟩ := call_cases h
  exact ⟨hserial, hcall.imp_right (awaitReply_stream hcap hstream)⟩

end Call

def CallStep (s : Connection × Socket) (l : Request × Outcome Message) (s' : Connection × Socket) : Prop :=
  s.1.call l.1 s.2 = some (l.2, s')

structure Synced (fs : List Frame) (unread : List UInt8) (s₀ : Connection × Socket) (calls : ℕ)
    (s : Connection × Socket) (consumed rest : List Frame) : Prop where
  frames : fs = consumed ++ rest
  consumes : Consumes (streamOf consumed) s₀.1.readBuf s₀.2.reads s.1.readBuf s.2.reads
  stream : s.1.readBuf.bytes ++ received s.2.reads ++ unread = streamOf rest
  capped : Capped s.2.reads
  serial : s.1.nextSerial.toNat = s₀.1.nextSerial.toNat + calls

section Runs

variable {fs : List Frame} {unread : List UInt8} {s₀ s s' : Connection × Socket} {n : ℕ}
  {consumed rest : List Frame} {l : Request × Outcome Message} {tr : List (Request × Outcome Message)}

theorem streamOf_append (fs fs' : List Frame) : streamOf (fs ++ fs') = streamOf fs ++ streamOf fs' := by
  simp [streamOf]

theorem Synced.advance {taken rest' : List Frame} (h : Synced fs unread s₀ n s consumed (taken ++ rest'))
    (hc : Consumes (streamOf taken) s.1.readBuf s.2.reads s'.1.readBuf s'.2.reads)
    (hserial : s'.1.nextSerial.toNat = s.1.nextSerial.toNat + 1) :
    Synced fs unread s₀ (n + 1) s' (consumed ++ taken) rest' where
  frames := by rw [h.frames, List.append_assoc]
  consumes := by
    rw [streamOf_append]
    exact h.consumes.trans hc
  stream := by
    apply hc.stream
    rw [h.stream, streamOf_append]
  capped := hc.capped h.capped
  serial := by rw [hserial, h.serial, Nat.add_assoc]

theorem Synced.step (h : Synced fs unread s₀ n s consumed rest) (hs : CallStep s l s')
    (hn : s₀.1.nextSerial.toNat + n + 1 < 2 ^ 32) :
    ∃ taken rest', rest = taken ++ rest' ∧ Synced fs unread s₀ (n + 1) s' (consumed ++ taken) rest' := by
  obtain ⟨hserial, hcall⟩ := call_stream h.capped h.stream hs
  have hserial := hserial (by rw [h.serial]; exact hn)
  rcases hcall with ⟨-, hbuf, hreads⟩ | hcall
  · refine ⟨[], rest, rfl, h.advance ?_ hserial⟩
    rw [hbuf, hreads]
    exact .none _ _
  · generalize l.2 = r at hcall
    cases hcall with
    | reply skipped rest' f hfs _ _ hc =>
      have hfs : rest = skipped ++ [f] ++ rest' := by rw [hfs, List.append_assoc, List.singleton_append]
      subst hfs
      exact ⟨skipped ++ [f], rest', rfl, h.advance hc hserial⟩
    | failed skipped rest' hfs _ _ hc =>
      subst hfs
      exact ⟨skipped, rest', rfl, h.advance hc hserial⟩

theorem synced_of_run (hcap : Capped s₀.2.reads)
    (hstream : s₀.1.readBuf.bytes ++ received s₀.2.reads ++ unread = streamOf fs)
    (h : Run CallStep s₀ tr s) (hn : s₀.1.nextSerial.toNat + tr.length < 2 ^ 32) :
    ∃ consumed rest, Synced fs unread s₀ tr.length s consumed rest := by
  induction h with
  | refl => exact ⟨[], fs, rfl, .none _ _, hstream, hcap, rfl⟩
  | tail _ hs ih =>
    rw [List.length_append, List.length_singleton] at hn
    obtain ⟨consumed, rest, hsync⟩ := ih (by omega)
    obtain ⟨taken, rest', -, hsync'⟩ := hsync.step hs (by omega)
    refine ⟨consumed ++ taken, rest', ?_⟩
    rw [List.length_append]
    exact hsync'

end Runs

section Complete

variable {serial : UInt32} {skipped : List Frame} {f : Frame} {tail : List UInt8} {buf : Slice}
  {chunks : List (List UInt8)}

theorem awaitReply_chunks (hchunks : Chunks chunks)
    (hstream : buf.bytes ++ chunks.flatten = streamOf skipped ++ (f.bytes ++ tail))
    (hskipped : ∀ g ∈ skipped, g.message.replySerial ≠ some serial)
    (hf : f.message.replySerial = some serial) :
    ∃ (buf' : Slice) (chunks' : List (List UInt8)), awaitReply serial buf (chunks.map .ok) =
        some (answerOf f.message, buf', chunks'.map .ok) ∧
      buf'.bytes ++ chunks'.flatten = tail := by
  induction skipped generalizing buf chunks with
  | nil =>
    obtain ⟨buf', chunks', hr, -, -, hs⟩ := readOneMessage_chunks hchunks hstream
    refine ⟨buf', chunks', ?_, hs⟩
    rw [awaitReply_eq, hr]
    simp only [hf, ne_eq, not_true_eq_false, ↓reduceIte]
  | cons g skipped ih =>
    rw [streamOf_cons, List.append_assoc] at hstream
    obtain ⟨buf₁, chunks₁, hr, -, hchunks₁, hs⟩ := readOneMessage_chunks hchunks hstream
    obtain ⟨hg, hskipped⟩ := List.forall_mem_cons.mp hskipped
    obtain ⟨buf', chunks', ha, hrest⟩ := ih hchunks₁ hs hskipped
    refine ⟨buf', chunks', ?_, hrest⟩
    rw [awaitReply_eq, hr]
    simp only [ne_eq, hg, not_false_eq_true, ↓reduceIte, ha]

theorem call_eq (conn : Connection) {req : Request} {next : UInt32} {bytes : List UInt8}
    {reads : List Read} {writes writes' : List Write}
    (hnext : (addU32 conn.nextSerial 1 : Outcome UInt32) = .ok next)
    (henc : encode (.methodCall conn.nextSerial req) = .ok bytes)
    (hwrite : writeAll bytes writes = some (.ok (), writes')) :
    conn.call req ⟨reads, writes⟩ = (awaitReply conn.nextSerial conn.readBuf reads).map
      fun p => (p.1, ⟨next, p.2.1⟩, ⟨p.2.2, writes'⟩) := by
  unfold Connection.call Connection.callWith
  simp only [hnext, henc, hwrite]
  cases h : awaitReply conn.nextSerial conn.readBuf reads with
  | none =>
    have h' : awaitReplyWith decode conn.nextSerial conn.readBuf reads = none := h
    rw [h']
    rfl
  | some p =>
    have h' : awaitReplyWith decode conn.nextSerial conn.readBuf reads = some p := h
    rw [h']
    rfl

theorem writeAll_all {bytes : List UInt8} (h : bytes ≠ []) :
    writeAll bytes [.ok bytes.length] = some (.ok (), []) := by
  have hlen : bytes.length ≠ 0 := by simpa using h
  unfold writeAll
  rw [if_neg h]
  simp only [hlen, ↓reduceIte, Nat.lt_irrefl, List.drop_length]
  unfold writeAll
  rfl

theorem call_chunks (conn : Connection) {req : Request} {next : UInt32} {bytes : List UInt8}
    {writes writes' : List Write} (hnext : (addU32 conn.nextSerial 1 : Outcome UInt32) = .ok next)
    (henc : encode (.methodCall conn.nextSerial req) = .ok bytes)
    (hwrite : writeAll bytes writes = some (.ok (), writes')) (hchunks : Chunks chunks)
    (hstream : conn.readBuf.bytes ++ chunks.flatten = streamOf skipped ++ (f.bytes ++ tail))
    (hskipped : ∀ g ∈ skipped, g.message.replySerial ≠ some conn.nextSerial)
    (hf : f.message.replySerial = some conn.nextSerial) :
    ∃ (buf' : Slice) (chunks' : List (List UInt8)), conn.call req ⟨chunks.map .ok, writes⟩ =
        some (answerOf f.message, ⟨next, buf'⟩, ⟨chunks'.map .ok, writes'⟩) ∧
      buf'.bytes ++ chunks'.flatten = tail := by
  obtain ⟨buf', chunks', ha, hrest⟩ := awaitReply_chunks hchunks hstream hskipped hf
  refine ⟨buf', chunks', ?_, hrest⟩
  rw [call_eq conn hnext henc hwrite, ha]
  rfl

end Complete

def getName : Request where
  destination := "a.b"
  path := "/"
  interface := "a.b"
  member := "N"
  signature := ""
  body := []

def nameReply : Message where
  messageType := typeMethodReturn
  serial := 9
  replySerial := some 1

theorem getName_wellFormed (serial : UInt32) : (Message.methodCall serial getName).WellFormed := by
  have h : (Message.methodCall 1 getName).WellFormed := by
    constructor
    · decide
    · decide
    · exact ⟨[], by decide, trivial⟩
    · trivial
    · decide
    · decide
  exact ⟨h.1, h.2, h.3, h.4, h.5, h.6⟩

theorem nameReply_wellFormed : nameReply.WellFormed := by
  constructor
  · decide
  · decide
  · exact ⟨[], by decide, trivial⟩
  · trivial
  · decide
  · decide

theorem writeAll_getName (serial : UInt32) : writeAll (Message.methodCall serial getName).frame
    [.ok (Message.methodCall serial getName).frame.length] = some (.ok (), []) :=
  writeAll_all (List.cons_ne_nil _ _)

theorem chunks_nameReply : Chunks [nameReply.frame] := by
  intro c hc
  rw [List.mem_singleton.mp hc]
  decide +kernel

end Rustils.Dbus
