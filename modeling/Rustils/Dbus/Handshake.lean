import Rustils.Dbus.Address
import Rustils.Dbus.Serials
import Rustils.Lib.Ticket

namespace Rustils.Dbus.Handshake

open Platform Lib.Fuel Lib.Machine Lib.Utf8
open Lib.Ticket (hexDigit hexDigit_inj)

structure Peer where
  reads : List Read
  writes : List Write
  sent : List UInt8

/-- What runs on a socket returns with the socket as it then is, or is blocked. -/
def Wire (α : Type) : Type := Peer → Option (Outcome α × Peer)

instance : Monad Wire where
  pure a := fun p => some (.ok a, p)
  bind x f := fun p =>
    match x p with
    | none => none
    | some (.error s, p) => some (.error s, p)
    | some (.ok a, p) => f a p

def accepted (bytes : List UInt8) (writes : List Write) : List UInt8 :=
  match writes with
  | .ok n :: writes =>
    if bytes = [] ∨ n = 0 ∨ bytes.length < n then [] else bytes.take n ++ accepted (bytes.drop n) writes
  | _ => []

def writeAll (bytes : List UInt8) : Wire Unit := fun p =>
  (Dbus.writeAll bytes p.writes).map fun (r, writes) => (r, ⟨p.reads, writes, p.sent ++ accepted bytes p.writes⟩)

def readSaslLine : Wire (List UInt8 × List UInt8) := fun p =>
  (Dbus.readSaslLine p.reads).map fun (r, reads) => (r, { p with reads })

def stop {α : Type} (s : Stop PlatformError) : Wire α := fun p => some (.error s, p)

def hexByte (b : UInt8) : List UInt8 := [hexDigit (b.toNat / 16), hexDigit (b.toNat % 16)]

def hexEncode (bytes : List UInt8) : List UInt8 := bytes.flatMap hexByte

def crlf : List UInt8 := [13, 10]

def authLine (uid : UInt32) : List UInt8 := asBytes "AUTH EXTERNAL " ++ hexEncode (asBytes (toString uid.toNat)) ++ crlf

def okPrefix : List UInt8 := asBytes "OK "

def beginLine : List UInt8 := asBytes "BEGIN\r\n"

def rejected : PlatformError := protoErr "D-Bus SASL EXTERNAL authentication was rejected"

def saslExternalHandshake (uid : UInt32) : Wire (List UInt8) := do
  writeAll [0]
  writeAll (authLine uid)
  let (line, leftover) ← readSaslLine
  if okPrefix.isPrefixOf line then do
    writeAll beginLine
    pure leftover
  else stop (.err rejected)

def asSlice (bytes : List UInt8) : Wire Slice :=
  if h : bytes.length < 2 ^ 63 then pure ⟨bytes, h⟩ else stop .panicked

def helloFrame : List UInt8 := (Message.methodCall 1 hello).frame

noncomputable def sayHello (build : Build) (leftover : Slice) : Wire (Connection × String) := fun p =>
  (Dbus.fromFd build leftover ⟨p.reads, p.writes⟩).map fun (r, sock) =>
    (r, ⟨sock.reads, sock.writes, p.sent ++ accepted helloFrame p.writes⟩)

noncomputable def fromFd (build : Build) (uid : UInt32) : Wire (Connection × String) := do
  let leftover ← saslExternalHandshake uid
  let readBuf ← asSlice leftover
  sayHello build readBuf

def noAddress : PlatformError := .new .notFound .none "no usable D-Bus session bus address found"

section Session

-- `connect_one`
variable (connect : Address.UnixAddr → Result Peer)

def connectFirst : List Address.UnixAddr → Option PlatformError → Result Peer
  | [], lastErr => .error (lastErr.getD noAddress)
  | addr :: addrs, _ =>
    match connect addr with
    | .ok p => .ok p
    | .error e => connectFirst addrs (some e)

noncomputable def session (build : Build) (env : Option String) (uid : UInt32) :
    Option (Outcome (Connection × String) × Option Peer) :=
  match connectFirst connect (Address.sessionBusAddresses env uid.toNat) none with
  | .error e => some (fail e, none)
  | .ok p => (fromFd build uid p).map fun (r, p) => (r, some p)

theorem connectFirst_ok {before after : List Address.UnixAddr} {addr : Address.UnixAddr} {p : Peer}
    (hbefore : ∀ a ∈ before, ∃ e, connect a = .error e) (hconnect : connect addr = .ok p)
    (lastErr : Option PlatformError) : connectFirst connect (before ++ addr :: after) lastErr = .ok p := by
  induction before generalizing lastErr with
  | nil => rw [List.nil_append, connectFirst, hconnect]
  | cons a before ih =>
    obtain ⟨⟨e, he⟩, hbefore⟩ := List.forall_mem_cons.mp hbefore
    rw [List.cons_append, connectFirst, he]
    exact ih hbefore (some e)

end Session

section Wire

variable {α β : Type} {x : Wire α} {f : α → Wire β} {p p₁ p' : Peer} {a : α} {r : Outcome β}

theorem bind_eq (x : Wire α) (f : α → Wire β) (p : Peer) :
    (x >>= f) p = match x p with
      | none => none
      | some (.error s, p) => some (.error s, p)
      | some (.ok a, p) => f a p := rfl

theorem bind_some (h : (x >>= f) p = some (r, p')) :
    (∃ s, r = .error s ∧ x p = some (.error s, p')) ∨
      ∃ a p₁, x p = some (.ok a, p₁) ∧ f a p₁ = some (r, p') := by
  rw [bind_eq] at h
  cases hx : x p with
  | none =>
    rw [hx] at h
    cases h
  | some q =>
    obtain ⟨s | a, p₁⟩ := q
    · rw [hx] at h
      cases h
      exact .inl ⟨s, rfl, rfl⟩
    · rw [hx] at h
      exact .inr ⟨a, p₁, rfl, h⟩

theorem bind_ok (h : x p = some (.ok a, p₁)) : (x >>= f) p = f a p₁ := by
  rw [bind_eq, h]

theorem bind_error {s : Stop PlatformError} (h : x p = some (.error s, p')) : (x >>= f) p = some (.error s, p') := by
  rw [bind_eq, h]

end Wire

section Sent

variable {p p' : Peer} {bytes line leftover : List UInt8} {writes writes' : List Write}

theorem accepted_prefix (bytes : List UInt8) (writes : List Write) : accepted bytes writes <+: bytes := by
  induction writes generalizing bytes with
  | nil => exact List.nil_prefix
  | cons w writes ih =>
    rcases w with e | n
    · exact List.nil_prefix
    · rw [accepted]
      split_ifs with h
      · exact List.nil_prefix
      · conv_rhs => rw [← List.take_append_drop n bytes]
        exact (List.prefix_append_right_inj _).mpr (ih _)

theorem accepted_of_ok (h : Dbus.writeAll bytes writes = some (.ok (), writes')) : accepted bytes writes = bytes := by
  induction writes generalizing bytes with
  | nil =>
    unfold Dbus.writeAll at h
    split_ifs at h with hnil
    rw [hnil]
    rfl
  | cons w writes ih =>
    unfold Dbus.writeAll at h
    split_ifs at h with hnil
    · subst hnil
      rcases w with e | n
      · rfl
      · rw [accepted, if_pos (.inl rfl)]
    · rcases w with e | n
      · cases h
      · dsimp only at h
        split_ifs at h with hzero hover
        · cases h
        · cases h
        · rw [accepted, if_neg (by tauto), ih h, List.take_append_drop]

theorem writeAll_sent {r : Outcome Unit} (h : writeAll bytes p = some (r, p')) :
    p'.reads = p.reads ∧ ∃ part, p'.sent = p.sent ++ part ∧ part <+: bytes ∧ (r = .ok () → part = bytes) := by
  obtain ⟨⟨r', writes'⟩, hw, heq⟩ := Option.map_eq_some_iff.mp h
  cases heq
  refine ⟨rfl, _, rfl, accepted_prefix _ _, ?_⟩
  rintro rfl
  exact accepted_of_ok hw

theorem readSaslLine_received (h : readSaslLine p = some (.ok (line, leftover), p')) :
    p'.sent = p.sent ∧ ∃ used, p.reads = used ++ p'.reads ∧ line ++ crlf ++ leftover = received used := by
  obtain ⟨⟨r', reads'⟩, hr, heq⟩ := Option.map_eq_some_iff.mp h
  cases heq
  obtain ⟨used, hused, hline⟩ := readSaslLineLoop_leftover hr
  exact ⟨rfl, used, hused, hline⟩

theorem readSaslLine_failed {s : Stop PlatformError} (h : readSaslLine p = some (.error s, p')) : p'.sent = p.sent := by
  obtain ⟨⟨r', reads'⟩, -, heq⟩ := Option.map_eq_some_iff.mp h
  cases heq
  rfl

end Sent

def greeting (uid : UInt32) : List UInt8 := 0 :: authLine uid

def Accepted (reads : List Read) : Prop :=
  ∃ used line behind, used <+: reads ∧ received used = line ++ crlf ++ behind ∧ okPrefix <+: line

/-- Everything that has gone out is part of the one thing there is to say, and it goes past the greeting only
behind an answer that accepts. -/
def Gated (uid : UInt32) (reads : List Read) (sent : List UInt8) : Prop :=
  sent <+: greeting uid ∨ Accepted reads ∧ sent <+: greeting uid ++ (beginLine ++ helloFrame)

section Gate

variable {uid : UInt32} {build : Build} {p p' : Peer}

theorem greeted_cases {r : Outcome (List UInt8)} (h : saslExternalHandshake uid p = some (r, p'))
    (hsent : p.sent = []) :
    (∃ s, r = .error s ∧ p'.sent <+: greeting uid) ∨
      Accepted p.reads ∧ ∃ part, p'.sent = greeting uid ++ part ∧ part <+: beginLine ∧
        ∀ leftover, r = .ok leftover → part = beginLine := by
  rcases bind_some h with ⟨s, rfl, hnul⟩ | ⟨⟨⟩, p₁, hnul, h⟩
  · obtain ⟨-, part, hpart, hpre, -⟩ := writeAll_sent hnul
    rw [hsent, List.nil_append] at hpart
    refine .inl ⟨s, rfl, hpart ▸ hpre.trans ?_⟩
    exact (List.prefix_append [0] (authLine uid))
  obtain ⟨hreads₁, nul, hsent₁, -, hnul'⟩ := writeAll_sent hnul
  rw [hsent, List.nil_append, hnul' rfl] at hsent₁
  rcases bind_some h with ⟨s, rfl, hauth⟩ | ⟨⟨⟩, p₂, hauth, h⟩
  · obtain ⟨-, part, hpart, hpre, -⟩ := writeAll_sent hauth
    rw [hsent₁] at hpart
    refine .inl ⟨s, rfl, hpart ▸ ?_⟩
    exact (List.prefix_append_right_inj [0]).mpr hpre
  obtain ⟨hreads₂, auth, hsent₂, -, hauth'⟩ := writeAll_sent hauth
  rw [hsent₁, hauth' rfl] at hsent₂
  change p₂.sent = greeting uid at hsent₂
  rcases bind_some h with ⟨s, rfl, hread⟩ | ⟨⟨line, leftover⟩, p₃, hread, h⟩
  · rw [readSaslLine_failed hread, hsent₂]
    exact .inl ⟨s, rfl, List.prefix_rfl⟩
  obtain ⟨hsent₃, used, hused, hline⟩ := readSaslLine_received hread
  rw [hsent₂] at hsent₃
  dsimp only at h
  split_ifs at h with hok
  · have haccepted : Accepted p.reads := by
      refine ⟨used, line, leftover, ⟨p₃.reads, ?_⟩, hline.symm, List.isPrefixOf_iff_prefix.mp hok⟩
      rw [← hused, hreads₂, hreads₁]
    right
    refine ⟨haccepted, ?_⟩
    rcases bind_some h with ⟨s, rfl, hbegin⟩ | ⟨⟨⟩, p₄, hbegin, h⟩
    · obtain ⟨-, part, hpart, hpre, -⟩ := writeAll_sent hbegin
      exact ⟨part, by rw [hpart, hsent₃], hpre, fun leftover hr => by cases hr⟩
    · obtain ⟨-, part, hpart, hpre, hall⟩ := writeAll_sent hbegin
      cases h
      exact ⟨part, by rw [hpart, hsent₃], hpre, fun _ _ => hall rfl⟩
  · cases h
    rw [hsent₃]
    exact .inl ⟨_, rfl, List.prefix_rfl⟩

theorem sayHello_sent {leftover : Slice} {r : Outcome (Connection × String)}
    (h : sayHello build leftover p = some (r, p')) : ∃ part, p'.sent = p.sent ++ part ∧ part <+: helloFrame := by
  obtain ⟨⟨r', sock⟩, -, heq⟩ := Option.map_eq_some_iff.mp h
  cases heq
  exact ⟨_, rfl, accepted_prefix _ _⟩

theorem hello_wellFormed : (Message.methodCall 1 hello).WellFormed := by
  constructor
  · decide
  · decide
  · exact ⟨[], by decide, trivial⟩
  · trivial
  · decide
  · decide

theorem callIn_hello (build : Build) (leftover : Slice) (sock : Socket) :
    Connection.callIn build ⟨1, leftover⟩ hello sock = Connection.call ⟨1, leftover⟩ hello sock := by
  cases build <;> rfl

theorem fromFd_written {leftover : Slice} {sock sock' : Socket} {made : Connection × String}
    (h : Dbus.fromFd build leftover sock = some (.ok made, sock')) :
    ∃ writes', Dbus.writeAll helloFrame sock.writes = some (.ok (), writes') := by
  unfold Dbus.fromFd at h
  rw [callIn_hello] at h
  cases hw : Dbus.writeAll helloFrame sock.writes with
  | none =>
    have hcall : Connection.call ⟨1, leftover⟩ hello sock = none := by
      unfold Connection.call Connection.callWith
      simp only [show (addU32 1 1 : Outcome UInt32) = .ok 2 from rfl, encode_eq_frame hello_wellFormed]
      rw [show (Message.methodCall 1 hello).frame = helloFrame from rfl, hw]
    rw [hcall] at h
    cases h
  | some q =>
    obtain ⟨s | u, writes'⟩ := q
    · have hcall : Connection.call ⟨1, leftover⟩ hello sock =
          some (.error s, ⟨2, leftover⟩, { sock with writes := writes' }) := by
        unfold Connection.call Connection.callWith
        simp only [show (addU32 1 1 : Outcome UInt32) = .ok 2 from rfl, encode_eq_frame hello_wellFormed]
        rw [show (Message.methodCall 1 hello).frame = helloFrame from rfl, hw]
      rw [hcall] at h
      cases h
    · exact ⟨writes', rfl⟩

theorem fromFd_gated {r : Outcome (Connection × String)} (h : fromFd build uid p = some (r, p'))
    (hsent : p.sent = []) :
    Gated uid p.reads p'.sent ∧ ∀ made, r = .ok made → p'.sent = greeting uid ++ (beginLine ++ helloFrame) := by
  rcases bind_some h with ⟨s, rfl, hgreet⟩ | ⟨leftover, p₁, hgreet, h⟩
  · refine ⟨?_, fun made hr => by cases hr⟩
    rcases greeted_cases hgreet hsent with ⟨-, -, hpre⟩ | ⟨haccepted, part, hpart, hpre, -⟩
    · exact .inl hpre
    · rw [hpart]
      exact .inr ⟨haccepted, (List.prefix_append_right_inj _).mpr (hpre.trans (List.prefix_append _ _))⟩
  · rcases greeted_cases hgreet hsent with ⟨s, hr, -⟩ | ⟨haccepted, part, hpart, -, hall⟩
    · cases hr
    rw [hall leftover rfl] at hpart
    have hstage : ∀ rest, rest <+: helloFrame → Gated uid p.reads (p₁.sent ++ rest) := by
      intro rest hrest
      rw [hpart, List.append_assoc]
      exact .inr ⟨haccepted, (List.prefix_append_right_inj _).mpr ((List.prefix_append_right_inj _).mpr hrest)⟩
    rcases bind_some h with ⟨s, rfl, hslice⟩ | ⟨readBuf, p₂, hslice, h⟩
    · unfold asSlice at hslice
      split_ifs at hslice
      · cases hslice
      · cases hslice
        have hgated := hstage [] List.nil_prefix
        rw [List.append_nil] at hgated
        exact ⟨hgated, fun made hr => by cases hr⟩
    · unfold asSlice at hslice
      split_ifs at hslice with hfits
      · cases hslice
        obtain ⟨rest, hrest, hpre⟩ := sayHello_sent h
        refine ⟨hrest ▸ hstage rest hpre, ?_⟩
        rintro made rfl
        obtain ⟨⟨r', sock⟩, hfrom, heq⟩ := Option.map_eq_some_iff.mp h
        cases heq
        obtain ⟨writes', hw⟩ := fromFd_written hfrom
        change p₁.sent ++ accepted helloFrame p₁.writes = _
        rw [accepted_of_ok hw, hpart, List.append_assoc]
      · cases hslice

end Gate

section Exact

def Takes (bytes : List UInt8) (writes : List Write) : Prop :=
  ∃ parts : List (List UInt8), (∀ part ∈ parts, part ≠ []) ∧ parts.flatten = bytes ∧
    writes = parts.map fun part => .ok part.length

variable {uid : UInt32} {bytes line tail out : List UInt8} {writes rest : List Write} {reads : List Read}
  {chunks : List (List UInt8)}

theorem Takes.writeAll (h : Takes bytes writes) (rest : List Write) :
    Dbus.writeAll bytes (writes ++ rest) = some (.ok (), rest) := by
  obtain ⟨parts, hne, rfl, rfl⟩ := h
  induction parts with
  | nil =>
    unfold Dbus.writeAll
    exact if_pos rfl
  | cons part parts ih =>
    obtain ⟨hpart, hne⟩ := List.forall_mem_cons.mp hne
    have hpos : part.length ≠ 0 := fun h => hpart (List.eq_nil_of_length_eq_zero h)
    have hlen : ¬(part ++ parts.flatten).length < part.length := by
      rw [List.length_append]
      omega
    unfold Dbus.writeAll
    rw [List.flatten_cons, if_neg (List.append_ne_nil_of_left_ne_nil hpart _)]
    simp only [List.map_cons, List.cons_append, hpos, ↓reduceIte, hlen, List.drop_left]
    exact ih hne

theorem Takes.sent (h : Takes bytes writes) :
    Handshake.writeAll bytes ⟨reads, writes ++ rest, out⟩ = some (.ok (), ⟨reads, rest, out ++ bytes⟩) := by
  have hw := h.writeAll rest
  unfold Handshake.writeAll
  rw [hw, accepted_of_ok hw]
  rfl

theorem crlfPos_append {buf : List UInt8} {pos : ℕ} (h : crlfPos buf = some pos) (behind : List UInt8) :
    crlfPos (buf ++ behind) = some pos := by
  induction buf generalizing pos with
  | nil => cases h
  | cons a buf ih =>
    cases buf with
    | nil => cases h
    | cons b buf =>
      rw [crlfPos] at h
      rw [List.cons_append, List.cons_append, crlfPos]
      split_ifs at h ⊢ with hcrlf
      · exact h
      · obtain ⟨pos, hpos, rfl⟩ := Option.map_eq_some_iff.mp h
        rw [← List.cons_append, ih hpos]
        rfl

theorem readSaslLineLoop_chunks (hline : crlfPos (line ++ crlf) = some line.length)
    (hmax : line.length + 2 ≤ maxLine) (hchunks : Chunks chunks) (buf : List UInt8) (hbuf : buf.length ≤ 2 * maxLine)
    (hstream : buf ++ chunks.flatten = line ++ crlf ++ tail) :
    ∃ leftover chunks', readSaslLineLoop buf (chunks.map .ok) = some (.ok (line, leftover), chunks'.map .ok) ∧
      leftover ++ chunks'.flatten = tail ∧ Chunks chunks' ∧ leftover.length ≤ 2 * maxLine := by
  induction chunks generalizing buf with
  | nil =>
    rw [List.flatten_nil, List.append_nil] at hstream
    have hpos : crlfPos buf = some line.length := by rw [hstream, crlfPos_append hline]
    refine ⟨tail, [], ?_, List.append_nil _, hchunks, ?_⟩
    · rw [readSaslLineLoop.eq_def, hpos, hstream]
      simp [crlf, List.append_assoc]
    · rw [hstream, List.length_append] at hbuf
      omega
  | cons c chunks ih =>
    cases hpos : crlfPos buf with
    | some pos =>
      have hpos' : some pos = some line.length := by
        rw [← crlfPos_append hpos (c :: chunks).flatten, hstream, crlfPos_append hline]
      cases hpos'
      have hcut := crlfPos_eq_some hpos
      have htake : buf.take line.length = line := by
        have hle : line.length ≤ buf.length := by
          have hlen := congrArg List.length hcut
          simp only [List.length_append, List.length_take, List.length_drop, List.length_cons, List.length_nil] at hlen
          omega
        have hfront := congrArg (List.take line.length) hstream
        rwa [List.take_append_of_le_length hle, List.append_assoc, List.take_left] at hfront
      rw [htake] at hcut
      have htail : buf.drop (line.length + 2) ++ (c :: chunks).flatten = tail := by
        have hall : line ++ crlf ++ (buf.drop (line.length + 2) ++ (c :: chunks).flatten) = line ++ crlf ++ tail := by
          rw [← hstream, ← List.append_assoc]
          exact congrArg (· ++ _) hcut
        exact List.append_cancel_left hall
      refine ⟨buf.drop (line.length + 2), c :: chunks, ?_, htail, hchunks, ?_⟩
      · rw [readSaslLineLoop.eq_def, hpos]
        dsimp only
        rw [htake]
        rfl
      · rw [List.length_drop]
        omega
    | none =>
      have hshort : buf.length < line.length + 2 := by
        by_contra hlong
        have hwhole : line ++ crlf <+: buf ++ (c :: chunks).flatten := by
          rw [hstream]
          exact List.prefix_append _ _
        have hlen : (line ++ crlf).length ≤ buf.length := by
          rw [List.length_append, crlf, List.length_cons, List.length_singleton]
          omega
        obtain ⟨behind, rfl⟩ := List.prefix_of_prefix_length_le hwhole (List.prefix_append _ _) hlen
        rw [crlfPos_append hline] at hpos
        cases hpos
      obtain ⟨hone, hcap⟩ := hchunks c List.mem_cons_self
      have hstep : readSaslLineLoop buf ((c :: chunks).map .ok) = readSaslLineLoop (buf ++ c) (chunks.map .ok) := by
        rw [readSaslLineLoop.eq_def, hpos]
        cases c with
        | nil => cases hone
        | cons b bs => exact if_neg (by omega)
      rw [hstep]
      apply ih (fun c hc => hchunks c (List.mem_cons_of_mem _ hc)) (buf ++ c)
      · rw [List.length_append]
        rw [maxLine] at *
        omega
      · rw [List.append_assoc, ← hstream, List.flatten_cons]

def named (reply : Message) : Outcome String :=
  match reply.body.head? with
  | some (.string name) => pure name
  | _ => fail noName

def welcome (line : List UInt8) (reply : Message) : Outcome String :=
  if okPrefix.isPrefixOf line then answerOf reply >>= named else fail rejected

variable {skipped : List Frame} {f : Frame} {w₀ w₁ w₂ w₃ : List Write}

theorem sayHello_chunks (build : Build) (rest : List Write) (out : List UInt8) {leftover : Slice}
    (hw₃ : Takes helloFrame w₃) (hchunks : Chunks chunks)
    (hstream : leftover.bytes ++ chunks.flatten = streamOf skipped ++ (f.bytes ++ tail))
    (hskipped : ∀ g ∈ skipped, g.message.replySerial ≠ some 1) (hf : f.message.replySerial = some 1) :
    ∃ r p', sayHello build leftover ⟨chunks.map .ok, w₃ ++ rest, out⟩ = some (r, p') ∧
      r.map Prod.snd = (answerOf f.message >>= named) ∧ p'.sent = out ++ helloFrame ∧
      ∀ conn name, r = .ok (conn, name) →
        conn.nextSerial = 2 ∧ conn.readBuf.bytes ++ received p'.reads = tail := by
  have hwrite := hw₃.writeAll rest
  have hnext : (addU32 1 1 : Outcome UInt32) = .ok 2 := rfl
  obtain ⟨buf', chunks', hcall, hrest⟩ :=
    call_chunks ⟨1, leftover⟩ hnext (encode_eq_frame hello_wellFormed) hwrite hchunks
    hstream hskipped hf
  have hsent : accepted helloFrame (w₃ ++ rest) = helloFrame := accepted_of_ok hwrite
  have hrest' : buf'.bytes ++ received (chunks'.map .ok) = tail := by rw [received_chunks, hrest]
  unfold sayHello Dbus.fromFd
  simp only [callIn_hello, hcall]
  cases ha : answerOf f.message with
  | error s => exact ⟨.error s, _, rfl, rfl, congrArg (out ++ ·) hsent, fun conn name hr => by cases hr⟩
  | ok reply =>
    dsimp only
    rw [ok_bind]
    split
    · rename_i name hname
      refine ⟨.ok (⟨2, buf'⟩, name), _, rfl, ?_, congrArg (out ++ ·) hsent, ?_⟩
      · rw [named, hname]
        rfl
      · rintro conn name' hr
        cases hr
        exact ⟨rfl, hrest'⟩
    · rename_i hnone
      refine ⟨fail noName, _, rfl, ?_, congrArg (out ++ ·) hsent, fun conn name hr => by cases hr⟩
      rw [named]
      split
      · rename_i name hname
        exact absurd hname (hnone name)
      · rfl

theorem fromFd_chunks (build : Build) (rest : List Write) (hw₀ : Takes [0] w₀) (hw₁ : Takes (authLine uid) w₁)
    (hw₂ : Takes beginLine w₂) (hw₃ : Takes helloFrame w₃) (hline : crlfPos (line ++ crlf) = some line.length)
    (hmax : line.length + 2 ≤ maxLine) (hchunks : Chunks chunks)
    (hstream : chunks.flatten = line ++ crlf ++ (streamOf skipped ++ (f.bytes ++ tail)))
    (hskipped : ∀ g ∈ skipped, g.message.replySerial ≠ some 1) (hf : f.message.replySerial = some 1) :
    ∃ r p', fromFd build uid ⟨chunks.map .ok, w₀ ++ (w₁ ++ (w₂ ++ (w₃ ++ rest))), []⟩ = some (r, p') ∧
      r.map Prod.snd = welcome line f.message ∧
      ∀ conn name, r = .ok (conn, name) →
        conn.nextSerial = 2 ∧ conn.readBuf.bytes ++ received p'.reads = tail := by
  obtain ⟨leftover, chunks', hread, hrest, hchunks', hleft⟩ :=
    readSaslLineLoop_chunks hline hmax hchunks [] (Nat.zero_le _) hstream
  have hfits : leftover.length < 2 ^ 63 := by
    rw [maxLine] at hleft
    omega
  have hreadLine : readSaslLine ⟨chunks.map .ok, w₂ ++ (w₃ ++ rest), greeting uid⟩ =
      some (.ok (line, leftover), ⟨chunks'.map .ok, w₂ ++ (w₃ ++ rest), greeting uid⟩) := by
    unfold readSaslLine Dbus.readSaslLine
    rw [hread]
    rfl
  unfold welcome
  cases hok : okPrefix.isPrefixOf line with
  | false =>
    have hgreet : saslExternalHandshake uid ⟨chunks.map .ok, w₀ ++ (w₁ ++ (w₂ ++ (w₃ ++ rest))), []⟩ =
        some (fail rejected, ⟨chunks'.map .ok, w₂ ++ (w₃ ++ rest), greeting uid⟩) := by
      rw [saslExternalHandshake, bind_ok hw₀.sent, bind_ok hw₁.sent]
      refine (bind_ok hreadLine).trans ?_
      dsimp only
      rw [hok]
      rfl
    exact ⟨fail rejected, _, bind_error hgreet, rfl, fun conn name hr => by cases hr⟩
  | true =>
    have hgreet : saslExternalHandshake uid ⟨chunks.map .ok, w₀ ++ (w₁ ++ (w₂ ++ (w₃ ++ rest))), []⟩ =
        some (.ok leftover, ⟨chunks'.map .ok, w₃ ++ rest, greeting uid ++ beginLine⟩) := by
      rw [saslExternalHandshake, bind_ok hw₀.sent, bind_ok hw₁.sent]
      refine (bind_ok hreadLine).trans ?_
      dsimp only
      rw [hok, if_pos rfl]
      exact bind_ok hw₂.sent
    have hrest' : (Slice.bytes ⟨leftover, hfits⟩) ++ chunks'.flatten = streamOf skipped ++ (f.bytes ++ tail) := hrest
    obtain ⟨r, p', hhello, hr, -, hstate⟩ :=
      sayHello_chunks build rest (greeting uid ++ beginLine) hw₃ hchunks' hrest' hskipped hf
    refine ⟨r, p', ?_, hr, hstate⟩
    rw [fromFd, bind_ok hgreet, asSlice, dif_pos hfits]
    exact hhello

end Exact

section Session

variable {connect : Address.UnixAddr → Result Peer} {env : Option String} {before after : List Address.UnixAddr}
  {addr : Address.UnixAddr} {uid : UInt32} {build : Build}

theorem session_gated (hfresh : ∀ addr p, connect addr = .ok p → p.sent = []) {r : Outcome (Connection × String)}
    {p' : Peer} (h : session connect build env uid = some (r, some p')) :
    ∃ addr p, connect addr = .ok p ∧ Gated uid p.reads p'.sent ∧
      ∀ made, r = .ok made → p'.sent = greeting uid ++ (beginLine ++ helloFrame) := by
  unfold session at h
  have hfirst : ∀ addrs lastErr p, connectFirst connect addrs lastErr = .ok p → ∃ addr, connect addr = .ok p := by
    intro addrs
    induction addrs with
    | nil =>
      intro lastErr p h
      cases h
    | cons addr addrs ih =>
      intro lastErr p h
      rw [connectFirst] at h
      cases hconnect : connect addr with
      | ok q =>
        rw [hconnect] at h
        exact ⟨addr, hconnect.trans h⟩
      | error e =>
        rw [hconnect] at h
        exact ih (some e) p h
  cases hc : connectFirst connect (Address.sessionBusAddresses env uid.toNat) none with
  | error e =>
    rw [hc] at h
    cases h
  | ok p =>
    rw [hc] at h
    obtain ⟨addr, hconnect⟩ := hfirst _ _ _ hc
    obtain ⟨⟨r', p₁⟩, hfrom, heq⟩ := Option.map_eq_some_iff.mp h
    cases heq
    exact ⟨addr, p, hconnect, fromFd_gated hfrom (hfresh addr p hconnect)⟩

def refusing (_ : Address.UnixAddr) : Result Peer := .ok ⟨[.ok (asBytes "REJECTED\r\n")], [.ok 1, .ok 24], []⟩

theorem takes_all {bytes : List UInt8} (h : bytes ≠ []) : Takes bytes [.ok bytes.length] := by
  refine ⟨[bytes], ?_, List.append_nil _, rfl⟩
  rintro part hpart
  rw [List.mem_singleton.mp hpart]
  exact h

theorem refusing_greeted : saslExternalHandshake 1000 ⟨[.ok (asBytes "REJECTED\r\n")], [.ok 1, .ok 24], []⟩ =
    some (fail rejected, ⟨[], [], greeting 1000⟩) := by
  have hauth : Takes (authLine 1000) [.ok 24] := by
    have hlen : (authLine 1000).length = 24 := by decide +kernel
    rw [← hlen]
    exact takes_all (List.ne_nil_of_length_pos (by rw [hlen]; decide))
  have hread : readSaslLine ⟨[.ok (asBytes "REJECTED\r\n")], [], greeting 1000⟩ =
      some (.ok (asBytes "REJECTED", []), ⟨[], [], greeting 1000⟩) := by rfl
  have hnul : Handshake.writeAll [0] ⟨[.ok (asBytes "REJECTED\r\n")], [.ok 1, .ok 24], []⟩ =
      some (.ok (), ⟨[.ok (asBytes "REJECTED\r\n")], [.ok 24], [0]⟩) := (takes_all (List.cons_ne_nil 0 [])).sent
  rw [saslExternalHandshake]
  refine (bind_ok hnul).trans ((bind_ok hauth.sent).trans ?_)
  exact (bind_ok hread).trans rfl

theorem session_gated_refusing :
    ∃ addr p, refusing addr = .ok p ∧ Gated 1000 p.reads (greeting 1000) ∧
      ∀ made : Connection × String, fail rejected = .ok made →
        greeting 1000 = greeting 1000 ++ (beginLine ++ helloFrame) := by
  have hfresh : ∀ addr p, refusing addr = .ok p → p.sent = [] := by
    rintro addr p ⟨⟩
    rfl
  have hrun : session refusing .release none 1000 = some (fail rejected, some ⟨[], [], greeting 1000⟩) := by
    have hfrom : fromFd .release 1000 ⟨[.ok (asBytes "REJECTED\r\n")], [.ok 1, .ok 24], []⟩ =
        some (fail rejected, ⟨[], [], greeting 1000⟩) := bind_error refusing_greeted
    have hfirst : connectFirst refusing (Address.sessionBusAddresses none 1000) none =
        .ok ⟨[.ok (asBytes "REJECTED\r\n")], [.ok 1, .ok 24], []⟩ := rfl
    unfold session
    rw [show (1000 : UInt32).toNat = 1000 from rfl, hfirst]
    dsimp only
    rw [hfrom]
    rfl
  exact session_gated hfresh hrun

theorem session_exact {line tail : List UInt8} {chunks : List (List UInt8)} {w₀ w₁ w₂ w₃ rest : List Write}
    {skipped : List Frame} {f : Frame} (haddrs : Address.sessionBusAddresses env uid.toNat = before ++ addr :: after)
    (hbefore : ∀ a ∈ before, ∃ e, connect a = .error e)
    (hconnect : connect addr = .ok ⟨chunks.map .ok, w₀ ++ (w₁ ++ (w₂ ++ (w₃ ++ rest))), []⟩)
    (hwrites : Takes [0] w₀ ∧ Takes (authLine uid) w₁ ∧ Takes beginLine w₂ ∧ Takes helloFrame w₃)
    (hline : crlfPos (line ++ crlf) = some line.length) (hmax : line.length + 2 ≤ maxLine) (hchunks : Chunks chunks)
    (hstream : chunks.flatten = line ++ crlf ++ (streamOf skipped ++ (f.bytes ++ tail)))
    (hskipped : ∀ g ∈ skipped, g.message.replySerial ≠ some 1) (hf : f.message.replySerial = some 1) :
    ∃ r p', session connect build env uid = some (r, some p') ∧ r.map Prod.snd = welcome line f.message ∧
      ∀ conn name, r = .ok (conn, name) →
        conn.nextSerial = 2 ∧ conn.readBuf.bytes ++ received p'.reads = tail := by
  obtain ⟨hw₀, hw₁, hw₂, hw₃⟩ := hwrites
  obtain ⟨r, p', hfrom, hr, hstate⟩ :=
    fromFd_chunks build rest hw₀ hw₁ hw₂ hw₃ hline hmax hchunks hstream hskipped hf
  refine ⟨r, p', ?_, hr, hstate⟩
  rw [session, haddrs, connectFirst_ok connect hbefore hconnect]
  dsimp only
  rw [hfrom]
  rfl

def helloReply : Message where
  messageType := typeMethodReturn
  serial := 1
  replySerial := some 1
  signature := "s"
  body := [.string ":1.5"]

theorem helloReply_wellFormed : helloReply.WellFormed := by
  constructor
  · decide
  · decide
  · exact ⟨[.basic .string], by decide, hasTy_basic.mpr (show len ":1.5" < 2 ^ 32 by decide), trivial⟩
  · exact ⟨trivial, trivial⟩
  · decide
  · decide

def welcoming : Peer where
  reads := [asBytes "OK 1\r\n" ++ helloReply.frame].map .ok
  writes := [.ok 1] ++ ([.ok (authLine 1000).length] ++ ([.ok beginLine.length] ++ ([.ok helloFrame.length] ++ [])))
  sent := []

theorem session_exact_welcoming :
    ∃ r p', session (fun _ => .ok welcoming) .debug none 1000 = some (r, some p') ∧ r.map Prod.snd = .ok ":1.5" ∧
      ∀ conn name, r = .ok (conn, name) →
        conn.nextSerial = 2 ∧ conn.readBuf.bytes ++ received p'.reads = [] := by
  have hline : crlfPos (asBytes "OK 1" ++ crlf) = some (asBytes "OK 1").length := by decide +kernel
  have hchunks : Chunks [asBytes "OK 1\r\n" ++ helloReply.frame] := by
    intro c hc
    rw [List.mem_singleton.mp hc]
    decide +kernel
  have hne : authLine 1000 ≠ [] ∧ beginLine ≠ [] ∧ helloFrame ≠ [] := by decide +kernel
  have hstream : [asBytes "OK 1\r\n" ++ helloReply.frame].flatten =
      asBytes "OK 1" ++ crlf ++ (streamOf [] ++ (helloReply_wellFormed.toFrame.bytes ++ [])) := by decide +kernel
  have hwrites : Takes [0] [.ok 1] ∧ Takes (authLine 1000) [.ok (authLine 1000).length] ∧
      Takes beginLine [.ok beginLine.length] ∧ Takes helloFrame [.ok helloFrame.length] :=
    ⟨takes_all (List.cons_ne_nil 0 []), takes_all hne.1, takes_all hne.2.1, takes_all hne.2.2⟩
  have haddrs : Address.sessionBusAddresses none 1000 = [] ++ .path (asBytes "/run/user/1000/bus") :: [] := by
    decide +kernel
  exact session_exact haddrs (fun a ha => absurd ha List.not_mem_nil) rfl hwrites hline (by decide +kernel) hchunks
    hstream (fun g hg => absurd hg List.not_mem_nil) rfl

end Session

end Rustils.Dbus.Handshake
