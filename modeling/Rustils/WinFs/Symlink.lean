import Rustils.Lib.Buffer
import Rustils.Lib.Utf16
import Rustils.Platform.Error

namespace Rustils.WinFs

open Platform Lib.Fuel Lib.LittleEndian Lib.Buffer
open Lib.Utf16 (wtf8)

abbrev Wide := List UInt16

def IO_REPARSE_TAG_SYMLINK : ℕ := 0xA000000C

def SYMLINK_FLAG_RELATIVE : ℕ := 1

def MAXIMUM_REPARSE_DATA_BUFFER_SIZE : ℕ := 16384

structure Volume where
  create : Wide → Bool → Result Unit
  openLink : Wide → Result Unit
  setReparsePoint : List UInt8 → Result Unit
  getReparsePoint : List UInt8 → Result (List UInt8)
  limited : ∀ buf, setReparsePoint buf = .ok () → buf.length ≤ MAXIMUM_REPARSE_DATA_BUFFER_SIZE
  returned : ∀ buf, setReparsePoint buf = .ok () → getReparsePoint buf = .ok buf

def toWideRaw (s : Wide) : Wide := s

def toWideNtComponent (s : Wide) : Wide := s.map fun u => if u = 0x2F then 0x5C else u

/-- `\??\` or `\??\UNC` before an absolute target. -/
def ntSubstituteName (target : Wide) : Wide × Bool :=
  match target with
  | a :: b :: rest =>
    if b = 0x3A then ([0x5C, 0x3F, 0x3F, 0x5C] ++ target, true)
    else if a = 0x5C ∧ b = 0x5C then ([0x5C, 0x3F, 0x3F, 0x5C, 0x55, 0x4E, 0x43] ++ b :: rest, true)
    else (target, false)
  | _ => (target, false)

def payloadOffset : ℕ := 8

def pathBufferOffset : ℕ := 20

def writeHeader (buf : List UInt8) (reparseDataLength subBytes printBytes : UInt16) (flags : ℕ) :
    Exec PlatformError (List UInt8) := do
  let buf ← write buf 0 (leBytes 4 IO_REPARSE_TAG_SYMLINK)
  let buf ← write buf 4 (leBytes 2 reparseDataLength.toNat)
  -- Reserved @ [6..8] stays zero.
  let buf ← write buf payloadOffset (leBytes 2 0)
  let buf ← write buf (payloadOffset + 2) (leBytes 2 subBytes.toNat)
  let buf ← write buf (payloadOffset + 4) (leBytes 2 subBytes.toNat)
  let buf ← write buf (payloadOffset + 6) (leBytes 2 printBytes.toNat)
  write buf (payloadOffset + 8) (leBytes 4 flags)

def reparseDataBuffer (target : Wide) : Exec PlatformError (List UInt8) := do
  let printName := toWideRaw target
  let (substituteName, isAbsolute) := ntSubstituteName (toWideNtComponent target)
  let flags := if isAbsolute then 0 else SYMLINK_FLAG_RELATIVE
  let subBytes := UInt16.ofNat (substituteName.length * 2)
  let printBytes := UInt16.ofNat (printName.length * 2)
  let totalLen := pathBufferOffset + subBytes.toNat + printBytes.toNat
  let reparseDataLength := UInt16.ofNat (totalLen - payloadOffset)
  let buf ← writeHeader (List.replicate totalLen 0) reparseDataLength subBytes printBytes flags
  let buf ← writeUnits buf pathBufferOffset substituteName
  writeUnits buf (pathBufferOffset + subBytes.toNat) printName

def symlink (v : Volume) (linkName target : Wide) (isDir : Bool) : Exec PlatformError (List UInt8) :=
  match v.create linkName isDir with
  | .error e => fail e
  | .ok () => do
    let buf ← reparseDataBuffer target
    match v.setReparsePoint buf with
    | .error e => fail e
    | .ok () => pure buf

def refused (rel : Wide) : PlatformError := (PlatformError.new .invalidInput .none "read_link").withPath (wtf8 rel)

def readLink (v : Volume) (rel : Wide) (stored : List UInt8) : Exec PlatformError Wide :=
  match v.openLink rel with
  | .error e => fail e
  | .ok () =>
    match v.getReparsePoint stored with
    | .error e => fail e
    | .ok bytes => do
      let buf := bytes ++ List.replicate (MAXIMUM_REPARSE_DATA_BUFFER_SIZE - bytes.length) 0
      if bytes.length < 8 then fail (refused rel)
      else do
        let tag ← readNat buf 0 4
        if tag ≠ IO_REPARSE_TAG_SYMLINK then fail (refused rel)
        else do
          let printNameOffset ← readNat buf (payloadOffset + 4) 2
          let printNameLength ← readNat buf (payloadOffset + 6) 2
          let start := pathBufferOffset + printNameOffset
          if start + printNameLength ≤ MAXIMUM_REPARSE_DATA_BUFFER_SIZE then
            pure (units ((buf.drop start).take printNameLength))
          else panicked

section Built

variable {target : Wide}

def gain : Wide → ℕ
  | a :: b :: _ => if b = 0x3A then 4 else if (a = 0x2F ∨ a = 0x5C) ∧ (b = 0x2F ∨ b = 0x5C) then 6 else 0
  | _ => 0

def substituteName (target : Wide) : Wide := (ntSubstituteName (toWideNtComponent target)).1

theorem length_substituteName (target : Wide) : (substituteName target).length = target.length + gain target := by
  match target with
  | [] | [_] => rfl
  | a :: b :: rest =>
    have hsep (u : UInt16) : (if u = 0x2F then (0x5C : UInt16) else u) = 0x5C ↔ u = 0x2F ∨ u = 0x5C := by
      split_ifs with h <;> simp [h]
    have hcolon : (if b = 0x2F then (0x5C : UInt16) else b) = 0x3A ↔ b = 0x3A := by
      split_ifs with h
      · subst h
        decide
      · rfl
    simp only [substituteName, toWideNtComponent, ntSubstituteName, gain, List.map_cons, hsep, hcolon]
    split_ifs <;> simp

def header (dataLength subBytes printBytes flags : ℕ) : List UInt8 :=
  leBytes 4 IO_REPARSE_TAG_SYMLINK ++ leBytes 2 dataLength ++ leBytes 2 0 ++ leBytes 2 0 ++ leBytes 2 subBytes ++
    leBytes 2 subBytes ++ leBytes 2 printBytes ++ leBytes 4 flags

theorem write_field {front : List UInt8} {start : ℕ} (hstart : front.length = start) (w x m : ℕ) :
    (write (front ++ List.replicate (w + m) 0) start (leBytes w x) : Exec PlatformError _) =
      .ok (front ++ leBytes w x ++ List.replicate m 0) := by
  rw [write_next hstart.symm (by simp), length_leBytes, Nat.add_sub_cancel_left]

theorem writeHeader_eq (dataLength subBytes printBytes : UInt16) (flags n : ℕ) :
    writeHeader (List.replicate (20 + n) 0) dataLength subBytes printBytes flags =
      .ok (header dataLength.toNat subBytes.toNat printBytes.toNat flags ++ List.replicate n 0) := by
  have hsplit : 20 + n = 4 + (2 + (2 + (2 + (2 + (2 + (2 + (4 + n))))))) := by omega
  have hreserved (front : List UInt8) (m : ℕ) :
      front ++ List.replicate (2 + m) 0 = front ++ leBytes 2 0 ++ List.replicate m 0 := by
    rw [← List.replicate_append_replicate, ← List.append_assoc]
    rfl
  have hstart : List.replicate (20 + n) (0 : UInt8) =
      [] ++ List.replicate (4 + (2 + (2 + (2 + (2 + (2 + (2 + (4 + n)))))))) 0 := by
    rw [hsplit, List.nil_append]
  rw [writeHeader, hstart, write_field List.length_nil, ok_bind, write_field (by simp), ok_bind, hreserved,
    write_field (by simp [payloadOffset]), ok_bind, write_field (by simp [payloadOffset]), ok_bind,
    write_field (by simp [payloadOffset]), ok_bind, write_field (by simp [payloadOffset]), ok_bind,
    write_field (by simp [payloadOffset]), List.nil_append, header]

theorem length_header (dataLength subBytes printBytes flags : ℕ) :
    (header dataLength subBytes printBytes flags).length = 20 := by
  simp [header]

def flagsOf (target : Wide) : ℕ :=
  if (ntSubstituteName (toWideNtComponent target)).2 then 0 else SYMLINK_FLAG_RELATIVE

theorem reparseDataBuffer_eq (target : Wide) {sub print : ℕ}
    (hsub : sub = 2 * (substituteName target).length % 65536) (hprint : print = 2 * target.length % 65536) :
    reparseDataBuffer target = (do
      let buf ← writeUnits (header ((12 + sub + print) % 65536) sub print (flagsOf target) ++
        List.replicate (sub + print) 0) 20 (substituteName target)
      writeUnits buf (20 + sub) target) := by
  have hsubBytes : (UInt16.ofNat ((substituteName target).length * 2)).toNat = sub := by
    rw [hsub, Nat.mul_comm]
    rfl
  have hprintBytes : (UInt16.ofNat (target.length * 2)).toNat = print := by
    rw [hprint, Nat.mul_comm]
    rfl
  have hdata : (UInt16.ofNat (20 + sub + print - 8)).toNat = (12 + sub + print) % 65536 := by
    rw [show 20 + sub + print - 8 = 12 + sub + print by omega]
    rfl
  have hunfold : reparseDataBuffer target = (do
      let subBytes := UInt16.ofNat ((substituteName target).length * 2)
      let printBytes := UInt16.ofNat (target.length * 2)
      let totalLen := 20 + subBytes.toNat + printBytes.toNat
      let buf ← writeHeader (List.replicate totalLen 0) (UInt16.ofNat (totalLen - 8)) subBytes printBytes (flagsOf target)
      let buf ← writeUnits buf 20 (substituteName target)
      writeUnits buf (20 + subBytes.toNat) target) := rfl
  rw [hunfold]
  simp only [hsubBytes, hprintBytes, Nat.add_assoc 20, writeHeader_eq, ok_bind]
  rw [← Nat.add_assoc 20, hdata]

theorem reparseDataBuffer_long (h : 32768 ≤ (substituteName target).length) : reparseDataBuffer target = panicked := by
  rw [reparseDataBuffer_eq target rfl rfl, writeUnits_past (length_header ..).symm (by omega), error_bind]

theorem reparseDataBuffer_short (h : (substituteName target).length < 32768) :
    reparseDataBuffer target =
      .ok (header ((12 + 2 * (substituteName target).length + 2 * target.length) % 65536)
        (2 * (substituteName target).length) (2 * target.length) (flagsOf target) ++
          unitBytes (substituteName target) ++ unitBytes target) := by
  have hle := length_substituteName target
  rw [reparseDataBuffer_eq target (Nat.mod_eq_of_lt (by omega)).symm (Nat.mod_eq_of_lt (by omega)).symm,
    writeUnits_next (length_header ..).symm (by omega), ok_bind, writeUnits_next (by simp [length_header]) (by omega)]
  simp

def field (buf : List UInt8) (start : ℕ) : ℕ := leNat ((buf.drop start).take 2)

structure Laid (target : Wide) (buf : List UInt8) : Prop where
  data_length : payloadOffset + field buf 4 = buf.length
  sub_length : field buf (payloadOffset + 2) = 2 * (substituteName target).length
  print_length : field buf (payloadOffset + 6) = 2 * target.length
  disjoint : field buf payloadOffset + field buf (payloadOffset + 2) ≤ field buf (payloadOffset + 4)
  inside : pathBufferOffset + field buf (payloadOffset + 4) + field buf (payloadOffset + 6) ≤ buf.length
  substitute : units ((buf.drop (pathBufferOffset + field buf payloadOffset)).take (field buf (payloadOffset + 2))) =
    substituteName target
  print : units ((buf.drop (pathBufferOffset + field buf (payloadOffset + 4))).take (field buf (payloadOffset + 6))) =
    target

section Fields

variable (d s p f : ℕ) (rest : List UInt8)

theorem field_data : field (header d s p f ++ rest) 4 = d % 65536 := leNat_leBytes 2 d

theorem field_subOffset : field (header d s p f ++ rest) payloadOffset = 0 := leNat_leBytes 2 0

theorem field_subLength : field (header d s p f ++ rest) (payloadOffset + 2) = s % 65536 := leNat_leBytes 2 s

theorem field_printOffset : field (header d s p f ++ rest) (payloadOffset + 4) = s % 65536 := leNat_leBytes 2 s

theorem field_printLength : field (header d s p f ++ rest) (payloadOffset + 6) = p % 65536 := leNat_leBytes 2 p

end Fields

def Fits (target : Wide) : Prop := 12 + 2 * (2 * target.length + gain target) < 65536

theorem laid_iff (h : (substituteName target).length < 32768) {d f : ℕ}
    (hd : d = (12 + 2 * (substituteName target).length + 2 * target.length) % 65536) :
    Laid target (header d (2 * (substituteName target).length) (2 * target.length) f ++
      (unitBytes (substituteName target) ++ unitBytes target)) ↔ Fits target := by
  have hgain := length_substituteName target
  have hlength : (header d (2 * (substituteName target).length) (2 * target.length) f ++
      (unitBytes (substituteName target) ++ unitBytes target)).length =
        20 + 2 * (substituteName target).length + 2 * target.length := by
    simp only [List.length_append, length_header, length_unitBytes]
    omega
  have hsub : 2 * (substituteName target).length % 65536 = 2 * (substituteName target).length :=
    Nat.mod_eq_of_lt (by omega)
  have hprint : 2 * target.length % 65536 = 2 * target.length := Nat.mod_eq_of_lt (by omega)
  constructor
  · intro hlaid
    have hdata := hlaid.data_length
    rw [field_data, hlength, payloadOffset] at hdata
    rw [Fits]
    omega
  · intro hfits
    rw [Fits] at hfits
    refine ⟨?_, ?_, ?_, ?_, ?_, ?_, ?_⟩
    · rw [field_data, hlength, payloadOffset]
      omega
    · rw [field_subLength, hsub]
    · rw [field_printLength, hprint]
    · rw [field_subOffset, field_subLength, field_printOffset, Nat.zero_add]
    · rw [field_printOffset, field_printLength, hlength, hsub, hprint, pathBufferOffset]
    · rw [field_subOffset, field_subLength, hsub, List.drop_left' (show _ = pathBufferOffset + 0 from length_header ..),
        List.take_left' (length_unitBytes _), units_unitBytes]
    · rw [field_printOffset, field_printLength, hsub, hprint, ← List.append_assoc,
        List.drop_left' (by simp [length_header, pathBufferOffset]), List.take_of_length_le (by simp), units_unitBytes]

theorem readLink_stored (v : Volume) (rel : Wide) {d s p f : ℕ} {stored rest : List UInt8}
    (hheader : stored = header d s p f ++ rest) (hlaid : Laid target stored)
    (hset : v.setReparsePoint stored = .ok ()) (hopen : v.openLink rel = .ok ()) :
    readLink v rel stored = .ok target := by
  have hlong : 20 ≤ stored.length := by
    rw [hheader, List.length_append, length_header]
    omega
  have htag : leNat ((stored.drop 0).take 4) = IO_REPARSE_TAG_SYMLINK := by
    rw [hheader]
    exact leNat_leBytes 4 IO_REPARSE_TAG_SYMLINK
  have hinside := hlaid.inside
  have hlimited := v.limited stored hset
  unfold readLink
  rw [hopen, v.returned stored hset]
  dsimp only
  rw [if_neg (by omega), readNat_append (by omega), ok_bind, htag, if_neg (fun h => h rfl),
    readNat_append (by rw [payloadOffset]; omega), ok_bind, readNat_append (by rw [payloadOffset]; omega), ok_bind]
  change (if pathBufferOffset + field stored (payloadOffset + 4) + field stored (payloadOffset + 6) ≤ _ then _ else _) = _
  rw [if_pos (hinside.trans hlimited)]
  exact congrArg Except.ok ((congrArg units (take_drop_append hinside)).trans hlaid.print)

end Built

def RoundTrips (target : Wide) : Prop :=
  (∃ buf, reparseDataBuffer target = .ok buf ∧ Laid target buf) ∧
    ∀ v linkName isDir, (∃ e, symlink v linkName target isDir = fail e) ∨
      ∃ stored, symlink v linkName target isDir = .ok stored ∧ Laid target stored ∧
        (v.openLink linkName = .ok () → readLink v linkName stored = .ok target)

theorem symlink_round_trips_iff (target : Wide) : RoundTrips target ↔ Fits target := by
  have hgain := length_substituteName target
  constructor
  · rintro ⟨⟨buf, hbuf, hlaid⟩, -⟩
    by_cases hshort : (substituteName target).length < 32768
    · rw [reparseDataBuffer_short hshort, List.append_assoc] at hbuf
      cases hbuf
      exact (laid_iff hshort rfl).mp hlaid
    · rw [reparseDataBuffer_long (by omega)] at hbuf
      cases hbuf
  · intro hfits
    have hshort : (substituteName target).length < 32768 := by
      rw [Fits] at hfits
      omega
    have hbuf := reparseDataBuffer_short hshort
    have hlaid := (laid_iff (f := flagsOf target) hshort rfl).mpr hfits
    rw [List.append_assoc] at hbuf
    refine ⟨⟨_, hbuf, hlaid⟩, fun v linkName isDir => ?_⟩
    rw [symlink]
    cases hcreate : v.create linkName isDir with
    | error e => exact .inl ⟨e, rfl⟩
    | ok _ =>
      dsimp only
      rw [hbuf, ok_bind]
      cases hset : v.setReparsePoint _ with
      | error e => exact .inl ⟨e, rfl⟩
      | ok _ => exact .inr ⟨_, rfl, hlaid, readLink_stored v linkName rfl hlaid hset⟩

def lenient : Volume where
  create := fun _ _ => .ok ()
  openLink := fun _ => .ok ()
  setReparsePoint := fun buf =>
    if buf.length ≤ MAXIMUM_REPARSE_DATA_BUFFER_SIZE then .ok () else .error (.new .invalidInput (.win32 87) "DeviceIoControl")
  getReparsePoint := fun buf => .ok buf
  limited := by
    intro buf h
    by_contra hlong
    rw [if_neg hlong] at h
    cases h
  returned := fun _ _ => rfl

theorem symlink_long_panics :
    symlink lenient [0x6C] (List.replicate 32768 0x61) false = panicked ∧ ¬ RoundTrips (List.replicate 32768 0x61) := by
  have hlong : 32768 ≤ (substituteName (List.replicate 32768 0x61)).length := by
    rw [length_substituteName, List.length_replicate]
    omega
  constructor
  · rw [symlink]
    dsimp only [lenient]
    rw [reparseDataBuffer_long hlong, error_bind]
  · rintro ⟨⟨buf, hbuf, -⟩, -⟩
    rw [reparseDataBuffer_long hlong] at hbuf
    cases hbuf

end Rustils.WinFs
