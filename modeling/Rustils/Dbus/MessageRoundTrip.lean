import Rustils.Dbus.Message
import Rustils.Dbus.RoundTrip

namespace Rustils.Dbus

open Platform Lib.Fuel Lib.Machine Lib.Utf8 Lib.LittleEndian

structure Message.WellFormed (msg : Message) : Prop where
  texts : ∀ x ∈ [msg.path, msg.interface, msg.member, msg.errorName, msg.destination, msg.sender],
    ∀ s ∈ x, len s < 2 ^ 32
  signature : len msg.signature ≤ 255
  body : ∃ ts, msg.signature = sigs ts ∧ HasTys ts msg.body
  arraysFit : AllArraysFit 0 msg.body
  fieldsLen : (wireAll 16 msg.fields).length < 2 ^ 32
  bodyLen : (wireAll 0 msg.body).length < 2 ^ 32

def fieldTy : Ty := .struct (.basic .byte) [.variant]

theorem sig_fieldTy : fieldTy.sig = "(yv)" := by decide

theorem sigs_fields : sigs [.array fieldTy] = "a(yv)" := by decide

theorem hasItems_iff {elem : Ty} {items : List Value} :
    HasItems elem items ↔ ∀ v ∈ items, HasTy elem v := by
  induction items with
  | nil => simp [HasItems]
  | cons v vs ih => simp [HasItems, ih]

theorem allArraysFit_of_forall {vs : List Value} (h : ∀ v ∈ vs, ∀ pos, ArraysFit pos v) (pos : ℕ) :
    AllArraysFit pos vs := by
  induction vs generalizing pos with
  | nil => trivial
  | cons v vs ih => exact ⟨h v (by simp) pos, ih (fun w hw => h w (by simp [hw])) _⟩

theorem mem_optField {α : Type} {value : α → Value} {x : Option α} {code : UInt8} {v : Value}
    (hv : v ∈ optField code value x) (b : Basic) (h : ∀ a ∈ x, b.Has (value a)) :
    ∃ code w b, v = field code w ∧ Basic.Has b w := by
  simp only [optField, Option.mem_toList, Option.map_eq_some_iff] at hv
  obtain ⟨a, ha, rfl⟩ := hv
  exact ⟨code, value a, b, rfl, h a ha⟩

theorem Message.WellFormed.mem_fields {msg : Message} (h : msg.WellFormed) {v : Value}
    (hv : v ∈ msg.fields) : ∃ code w b, v = field code w ∧ Basic.Has b w := by
  simp only [Message.fields, List.mem_append] at hv
  obtain ((((((hv | hv) | hv) | hv) | hv) | hv) | hv) | hv := hv
  · exact mem_optField hv .objectPath (h.texts _ (by simp))
  · exact mem_optField hv .string (h.texts _ (by simp))
  · exact mem_optField hv .string (h.texts _ (by simp))
  · exact mem_optField hv .string (h.texts _ (by simp))
  · exact mem_optField hv (.num .uint32) fun _ _ => rfl
  · exact mem_optField hv .string (h.texts _ (by simp))
  · exact mem_optField hv .string (h.texts _ (by simp))
  · split_ifs at hv
    · cases hv
    · exact ⟨_, _, .signature, List.mem_singleton.mp hv, h.signature⟩

theorem Message.WellFormed.hasTys {msg : Message} (h : msg.WellFormed) :
    HasTys [.array fieldTy] [.array "(yv)" msg.fields] := by
  refine ⟨⟨sig_fieldTy.symm, hasItems_iff.mpr fun v hv => ?_⟩, trivial⟩
  obtain ⟨code, w, b, rfl, hb⟩ := h.mem_fields hv
  refine ⟨hasTy_basic.mpr trivial, ⟨.basic b, hasTy_basic.mpr hb, ?_⟩, trivial⟩
  rw [Ty.sig, b.len_sig]
  decide

theorem Basic.arraysFit {b : Basic} {v : Value} (h : b.Has v) (pos : ℕ) : ArraysFit pos v := by
  rcases b with _ | _ | k | _ | _ | _
  case num => cases k <;> cases v <;> trivial
  all_goals cases v <;> trivial

theorem Message.WellFormed.arraysFit_fields {msg : Message} (h : msg.WellFormed) :
    AllArraysFit 12 [.array "(yv)" msg.fields] := by
  refine ⟨⟨h.fieldsLen, allArraysFit_of_forall (fun v hv pos => ?_) _⟩, trivial⟩
  obtain ⟨code, w, b, rfl, hb⟩ := h.mem_fields hv
  exact ⟨trivial, Basic.arraysFit hb _, trivial⟩

def Message.bare (msg : Message) : Message :=
  { messageType := msg.messageType, flags := msg.flags, serial := msg.serial }

theorem foldl_fields (msg : Message) :
    msg.fields.foldl Message.applyField msg.bare = { msg with body := [] } := by
  have happly {α : Type} (x : Option α) (code : UInt8) (value : α → Value) (m : Message) :
      (optField code value x).foldl Message.applyField m =
        x.elim m fun a => m.applyField (field code (value a)) := by
    cases x <;> rfl
  have hsig (s : String) (m : Message) (hm : m.signature = "") :
      (if s = "" then [] else [field fieldSignature (.signature s)]).foldl Message.applyField m =
        { m with signature := s } := by
    split_ifs with h
    · rw [h, ← hm]
      rfl
    · rfl
  simp only [Message.fields, List.foldl_append, happly]
  rw [hsig]
  · rcases msg with ⟨_, _, _, _ | _, _ | _, _ | _, _ | _, _ | _, _ | _, _ | _, _, _⟩ <;> rfl
  · rcases msg with ⟨_, _, _, _ | _, _ | _, _ | _, _ | _, _ | _, _ | _, _ | _, _, _⟩ <;> rfl

def Message.bodyStart (msg : Message) : ℕ :=
  16 + (wireAll 16 msg.fields).length + padding (16 + (wireAll 16 msg.fields).length) 8

def Message.frame (msg : Message) : List UInt8 :=
  msg.fixed (wireAll 0 msg.body).length ++ wireAll 12 [.array "(yv)" msg.fields] ++
    zeros (padding (16 + (wireAll 16 msg.fields).length) 8) ++ wireAll 0 msg.body

theorem length_fixed (msg : Message) (n : ℕ) : (msg.fixed n).length = 12 := by
  simp [Message.fixed]

theorem length_wire_fields (msg : Message) :
    (wireAll 12 [.array "(yv)" msg.fields]).length = 4 + (wireAll 16 msg.fields).length := by
  have hstart : contentStart 12 "(yv)" = 16 := by decide
  have hpad4 : padding 12 4 = 0 := by decide
  have hpad8 : padding 16 (elemAlign "(yv)") = 0 := by decide
  simp [wireAll, wire, hstart, hpad4, hpad8]

theorem length_frame (msg : Message) :
    msg.frame.length = msg.bodyStart + (wireAll 0 msg.body).length := by
  simp only [Message.frame, Message.bodyStart, List.length_append, length_fixed, length_wire_fields,
    length_zeros]
  omega

theorem Message.WellFormed.bodyBytes_eq {msg : Message} (h : msg.WellFormed) :
    msg.bodyBytes = .ok (wireAll 0 msg.body) := by
  obtain ⟨ts, hsig, hbody⟩ := h.body
  have hlen := h.signature
  rw [hsig] at hlen
  rw [Message.bodyBytes, hsig]
  split_ifs with he
  · match ts, msg.body, hbody with
    | [], [], _ => rfl
    | t :: ts, _, _ => exact absurd he (t.sig_append_ne_empty _)
  · exact marshal_wire hbody (by omega) []

theorem encode_eq_frame {msg : Message} (h : msg.WellFormed) : encode msg = .ok msg.frame := by
  have hfields := marshal_wire h.hasTys (by decide) (msg.fixed (wireAll 0 msg.body).length)
  rw [sigs_fields, length_fixed] at hfields
  rw [encode, h.bodyBytes_eq]
  simp only [ok_bind, hfields, pure_eq_ok, padTo_eq, List.length_append, length_fixed, length_wire_fields,
    ← Nat.add_assoc]
  rfl

theorem byteAt_hasAt {buf : Slice} {i : ℕ} {b : UInt8} (h : HasAt buf i [b]) : byteAt buf i = .ok b := by
  have hget : buf.bytes[i]? = some b := by
    have := congrArg List.head? h.bytes
    simpa [List.head?_take] using this
  rw [byteAt, hget]
  rfl

theorem u32At_hasAt {buf : Slice} {i x : ℕ} (h : HasAt buf i (leBytes 4 x)) :
    u32At buf i = .ok (UInt32.ofNat x) := by
  have hle := h.le
  have hbytes := h.bytes
  rw [length_leBytes] at hle hbytes
  rw [u32At, if_pos hle, hbytes, leNat_leBytes, pure_eq_ok]
  congr 1
  exact UInt32.toNat.inj (by simp)

theorem fixed_hasAt {msg : Message} {n : ℕ} {buf : Slice} (h : HasAt buf 0 (msg.fixed n)) :
    byteAt buf 0 = .ok 0x6C ∧ byteAt buf 1 = .ok msg.messageType ∧ byteAt buf 2 = .ok msg.flags ∧
      u32At buf 4 = .ok (UInt32.ofNat n) ∧ u32At buf 8 = .ok msg.serial := by
  obtain ⟨h, hserial⟩ := hasAt_append.mp h
  obtain ⟨h, hlen⟩ := hasAt_append.mp h
  obtain ⟨hendian, h⟩ := (hasAt_append (x := [0x6C])).mp h
  obtain ⟨htype, h⟩ := (hasAt_append (x := [msg.messageType])).mp h
  obtain ⟨hflags, -⟩ := (hasAt_append (x := [msg.flags])).mp h
  rw [List.length_append, length_leBytes] at hserial
  have hserial' := u32At_hasAt hserial
  rw [UInt32.ofNat_toNat] at hserial'
  exact ⟨byteAt_hasAt hendian, byteAt_hasAt htype, byteAt_hasAt hflags, u32At_hasAt hlen, hserial'⟩

theorem decodeHeader_frame {msg : Message} (h : msg.WellFormed) {buf : Slice} (hat : HasAt buf 0 msg.frame) :
    decodeHeader unmarshal buf = .ok ({ msg with body := [] }, msg.bodyStart, msg.frame.length) := by
  have hle := hat.le
  have hbuf := buf.length_lt
  have hframe := length_frame msg
  obtain ⟨hat, -⟩ := hasAt_append.mp hat
  obtain ⟨hat, -⟩ := hasAt_append.mp hat
  obtain ⟨hat, hfields⟩ := hasAt_append.mp hat
  obtain ⟨-, htype, hflags, hn, hserial⟩ := fixed_hasAt hat
  rw [length_fixed] at hfields
  have hu := unmarshal_wire h.hasTys (by decide) h.arraysFit_fields hfields
  rw [sigs_fields, length_wire_fields, ← Nat.add_assoc] at hu
  have hbodyLen : (UInt32.ofNat (wireAll 0 msg.body).length).toNat = (wireAll 0 msg.body).length := by
    rw [UInt32.toNat_ofNat']
    exact Nat.mod_eq_of_lt h.bodyLen
  have hstart : addUsize (12 + 4 + (wireAll 16 msg.fields).length)
      (padding (12 + 4 + (wireAll 16 msg.fields).length) 8) = (.ok msg.bodyStart : Outcome ℕ) :=
    addUsize_eq rfl (by omega)
  have hend : addUsize msg.bodyStart (wireAll 0 msg.body).length = (.ok msg.frame.length : Outcome ℕ) :=
    addUsize_eq hframe.symm (by omega)
  simp only [decodeHeader, htype, hflags, hn, hserial, ok_bind, hu, shortHeader, hbodyLen, hstart, hend]
  rw [if_neg (by omega)]
  simp only [fieldStructs, pure_eq_ok, ok_bind, ← foldl_fields]
  rfl

theorem decodeBody_frame {msg : Message} (h : msg.WellFormed) {buf : Slice} (hat : HasAt buf 0 msg.frame) :
    decodeBody unmarshal msg.signature buf msg.bodyStart = .ok msg.body := by
  obtain ⟨ts, hsig, hbody⟩ := h.body
  have hlen := h.signature
  obtain ⟨k, hk⟩ : ∃ k, msg.bodyStart = 0 + 8 * k := by
    refine ⟨(16 + (wireAll 16 msg.fields).length + 7) / 8, ?_⟩
    rw [Message.bodyStart, add_padding isAlign_eight]
    omega
  obtain ⟨-, hbodyAt⟩ := hasAt_append.mp hat
  have hstart : 0 + (msg.fixed (wireAll 0 msg.body).length ++ wireAll 12 [.array "(yv)" msg.fields] ++
      zeros (padding (16 + (wireAll 16 msg.fields).length) 8)).length = 0 + 8 * k := by
    rw [← hk, Message.bodyStart]
    simp only [List.length_append, length_fixed, length_wire_fields, length_zeros]
    omega
  rw [hstart, ← wireAll_add_mul 0 k] at hbodyAt
  have hfit := (allArraysFit_add_mul 0 k msg.body).mpr h.arraysFit
  rw [hsig] at hlen
  rw [decodeBody, hsig, hk]
  split_ifs with he
  · match ts, msg.body, hbody with
    | [], [], _ => rfl
    | t :: ts, _, _ => exact absurd he (t.sig_append_ne_empty _)
  · rw [unmarshal_wire hbody (by omega) hfit hbodyAt]
    rfl

theorem decode_frame {msg : Message} (h : msg.WellFormed) {buf : Slice} {rest : List UInt8}
    (hbytes : buf.bytes = msg.frame ++ rest) : decode buf = .ok (msg, msg.frame.length) := by
  have hat : HasAt buf 0 msg.frame := @hasAt_of_append buf [] msg.frame rest hbytes
  have hlen := length_frame msg
  have hle := hat.le
  obtain ⟨hfixed, -⟩ := hasAt_append.mp hat
  obtain ⟨hfixed, -⟩ := hasAt_append.mp hfixed
  obtain ⟨hfixed, -⟩ := hasAt_append.mp hfixed
  rw [Message.bodyStart] at hlen
  rw [decode, decodeWith, if_neg (by omega), (fixed_hasAt hfixed).1]
  simp only [ok_bind, ne_eq, not_true_eq_false, ↓reduceIte, decodeHeader_frame h hat, decodeBody_frame h hat,
    pure_eq_ok]

theorem decode_encode (msg : Message) (h : msg.WellFormed) :
    ∃ bytes, encode msg = .ok bytes ∧
      ∀ rest fits, decode ⟨bytes ++ rest, fits⟩ = .ok (msg, bytes.length) :=
  ⟨msg.frame, encode_eq_frame h, fun _ _ => decode_frame h rfl⟩

def sampleReply : Message where
  messageType := 2
  serial := 9
  replySerial := some 7
  sender := some "a.b"
  signature := "su"
  body := [.string "hi", .uint32 5]

theorem decode_encode_sampleReply :
    ∃ bytes, encode sampleReply = .ok bytes ∧
      ∀ rest fits, decode ⟨bytes ++ rest, fits⟩ = .ok (sampleReply, bytes.length) := by
  refine decode_encode sampleReply ?_
  constructor
  · decide
  · decide
  · refine ⟨[.basic .string, .basic (.num .uint32)], by decide, ?_, ?_, trivial⟩
    · exact hasTy_basic.mpr (by decide : len "hi" < 2 ^ 32)
    · exact hasTy_basic.mpr rfl
  · exact ⟨trivial, trivial, trivial⟩
  · decide
  · decide

end Rustils.Dbus
