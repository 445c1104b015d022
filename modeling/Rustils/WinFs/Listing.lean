import Rustils.Fs.ReadDir
import Rustils.WinFs.Nt

namespace Rustils.WinFs.Listing

open Platform Lib.LittleEndian Lib.Buffer
open Platform.Errmap (lastWin32Err)
open Fs.ReadDir (FileType)

def FILE_ATTRIBUTE_DIRECTORY : UInt32 := 0x10
def FILE_ATTRIBUTE_REPARSE_POINT : UInt32 := 0x400
def ERROR_NO_MORE_FILES : UInt32 := 18

def bufLen : ℕ := 64 * 1024

def fileAttributesAt : ℕ := 56
def fileNameLengthAt : ℕ := 60
def fileNameAt : ℕ := 68

def fileTypeOfAttributes (attrs : UInt32) : FileType :=
  if attrs &&& FILE_ATTRIBUTE_REPARSE_POINT ≠ 0 then .symlink
  else if attrs &&& FILE_ATTRIBUTE_DIRECTORY ≠ 0 then .dir
  else .file

abbrev Listed := Wide × FileType

/-- A read through a raw pointer. Where it leaves the buffer, what the program does is undefined. -/
def peek (buf : List UInt8) (start width : ℕ) : Option (List UInt8) :=
  if start + width ≤ buf.length then some ((buf.drop start).take width) else none

structure Entry where
  name : Wide
  attrs : UInt32
  next : ℕ

def entryAt (buf : List UInt8) (offset : ℕ) : Option Entry := do
  let nameLength ← peek buf (offset + fileNameLengthAt) 4
  let name ← peek buf (offset + fileNameAt) (2 * (leNat nameLength / 2))
  let attrs ← peek buf (offset + fileAttributesAt) 4
  let next ← peek buf offset 4
  pure ⟨units name, .ofNat (leNat attrs), leNat next⟩

def isDot (name : Wide) : Bool := name = [0x2E] ∨ name = [0x2E, 0x2E]

def push (out : List Listed) (name : Wide) (attrs : UInt32) : List Listed :=
  if isDot name then out else out ++ [(name, fileTypeOfAttributes attrs)]

theorem peek_isSome {buf bytes : List UInt8} {start width : ℕ} (h : peek buf start width = some bytes) :
    start + width ≤ buf.length := by
  unfold peek at h
  split_ifs at h with hle
  exact hle

theorem entryAt_inside {buf : List UInt8} {offset : ℕ} {e : Entry} (h : entryAt buf offset = some e) :
    offset + fileNameAt ≤ buf.length := by
  obtain ⟨nameLength, hlength, h⟩ := Option.bind_eq_some_iff.mp h
  obtain ⟨name, hname, -⟩ := Option.bind_eq_some_iff.mp h
  have hle := peek_isSome hname
  omega

def entriesFrom (buf : List UInt8) (offset : ℕ) (out : List Listed) : Option (List Listed) :=
  match _h : entryAt buf offset with
  | none => none
  | some e =>
    if e.next = 0 then some (push out e.name e.attrs)
    else entriesFrom buf (offset + e.next) (push out e.name e.attrs)
termination_by buf.length - offset
decreasing_by
  have hle := entryAt_inside _h
  rw [fileNameAt] at hle
  omega

/-- The outer loop: the buffer after each call that succeeds, and the error of the one that does not. -/
def readDirEntries (code : UInt32) : List (List UInt8) → List Listed → Option (Result (List Listed))
  | [], out =>
    if code = ERROR_NO_MORE_FILES then some (.ok out)
    else some (.error (lastWin32Err "GetFileInformationByHandleEx" [] code))
  | buf :: bufs, out => (entriesFrom buf 0 out).bind (readDirEntries code bufs)

structure Record where
  name : Wide
  attrs : UInt32
  times : List UInt8
  eaSize : List UInt8
  length_times : times.length = 52
  length_eaSize : eaSize.length = 4

def Record.size (r : Record) : ℕ := fileNameAt + 2 * r.name.length

def Record.fixed (r : Record) (next : ℕ) : List UInt8 :=
  leBytes 4 next ++ r.times ++ leBytes 4 r.attrs.toNat ++ leBytes 4 (2 * r.name.length) ++ r.eaSize

def Record.bytes (r : Record) (next : ℕ) : List UInt8 := r.fixed next ++ unitBytes r.name

inductive Chain : List Record → List UInt8 → Prop
  | last (r : Record) : Chain [r] (r.bytes 0)
  | next (r : Record) (pad : List UInt8) {rs : List Record} {bytes : List UInt8} (haligned : 8 ∣ r.size + pad.length)
    (hrest : Chain rs bytes) : Chain (r :: rs) (r.bytes (r.size + pad.length) ++ pad ++ bytes)

/-- Behind the records the buffer has anything, such as records of the call before. -/
def Filled (rs : List Record) (buf : List UInt8) : Prop :=
  buf.length = bufLen ∧ ∃ bytes tail, buf = bytes ++ tail ∧ Chain rs bytes

def listing (rs : List Record) : List Listed :=
  (rs.filter fun r => !isDot r.name).map fun r => (r.name, fileTypeOfAttributes r.attrs)

section Fields

variable (r : Record) (next : ℕ)

theorem length_fixed : (r.fixed next).length = fileNameAt := by
  simp only [Record.fixed, List.length_append, length_leBytes, r.length_times, r.length_eaSize]
  rfl

theorem length_bytes : (r.bytes next).length = r.size := by
  rw [Record.bytes, List.length_append, length_fixed, length_unitBytes, Record.size]

variable {r next} {before behind : List UInt8}

theorem peek_mid {bytes : List UInt8} {start width : ℕ} (hstart : start = before.length)
    (hwidth : width = bytes.length) : peek (before ++ bytes ++ behind) start width = some bytes := by
  subst hstart hwidth
  rw [peek, if_pos (by simp), List.append_assoc, List.drop_left, List.take_left]

theorem entryAt_bytes (hnext : next < 256 ^ 4) (hname : 2 * r.name.length < 256 ^ 4) :
    entryAt (before ++ r.bytes next ++ behind) before.length = some ⟨r.name, r.attrs, next⟩ := by
  have hlength : peek (before ++ r.bytes next ++ behind) (before.length + fileNameLengthAt) 4 =
      some (leBytes 4 (2 * r.name.length)) := by
    have hsplit : before ++ r.bytes next ++ behind =
        (before ++ (leBytes 4 next ++ r.times ++ leBytes 4 r.attrs.toNat)) ++ leBytes 4 (2 * r.name.length) ++
          (r.eaSize ++ unitBytes r.name ++ behind) := by
      simp only [Record.bytes, Record.fixed, List.append_assoc]
    rw [hsplit]
    exact peek_mid (by simp only [List.length_append, length_leBytes, r.length_times]; rfl) (length_leBytes _ _).symm
  have hname' : peek (before ++ r.bytes next ++ behind) (before.length + fileNameAt) (2 * r.name.length) =
      some (unitBytes r.name) := by
    have hsplit : before ++ r.bytes next ++ behind = (before ++ r.fixed next) ++ unitBytes r.name ++ behind := by
      simp only [Record.bytes, List.append_assoc]
    rw [hsplit]
    exact peek_mid (by rw [List.length_append, length_fixed]) (length_unitBytes _).symm
  have hattrs : peek (before ++ r.bytes next ++ behind) (before.length + fileAttributesAt) 4 =
      some (leBytes 4 r.attrs.toNat) := by
    have hsplit : before ++ r.bytes next ++ behind =
        (before ++ (leBytes 4 next ++ r.times)) ++ leBytes 4 r.attrs.toNat ++
          (leBytes 4 (2 * r.name.length) ++ r.eaSize ++ unitBytes r.name ++ behind) := by
      simp only [Record.bytes, Record.fixed, List.append_assoc]
    rw [hsplit]
    exact peek_mid (by simp only [List.length_append, length_leBytes, r.length_times]; rfl) (length_leBytes _ _).symm
  have hnext' : peek (before ++ r.bytes next ++ behind) before.length 4 = some (leBytes 4 next) := by
    have hsplit : before ++ r.bytes next ++ behind = before ++ leBytes 4 next ++ (r.times ++ leBytes 4 r.attrs.toNat ++
        leBytes 4 (2 * r.name.length) ++ r.eaSize ++ unitBytes r.name ++ behind) := by
      simp only [Record.bytes, Record.fixed, List.append_assoc]
    rw [hsplit]
    exact peek_mid rfl (length_leBytes _ _).symm
  have hhalf : 2 * (leNat (leBytes 4 (2 * r.name.length)) / 2) = 2 * r.name.length := by
    rw [leNat_leBytes, Nat.mod_eq_of_lt hname]
    omega
  have hattrs' : UInt32.ofNat (leNat (leBytes 4 r.attrs.toNat)) = r.attrs := by
    rw [leNat_leBytes, Nat.mod_eq_of_lt (show r.attrs.toNat < 256 ^ 4 from r.attrs.toNat_lt), UInt32.ofNat_toNat]
  simp only [entryAt, Option.bind_eq_bind, hlength, Option.bind_some, hhalf, hname', hattrs, hnext']
  rw [units_unitBytes, hattrs', leNat_leBytes, Nat.mod_eq_of_lt hnext]
  rfl

end Fields

theorem push_eq (out : List Listed) (r : Record) : push out r.name r.attrs = out ++ listing [r] := by
  unfold push listing
  cases h : isDot r.name <;> simp [h]

theorem listing_append (rs rs' : List Record) : listing (rs ++ rs') = listing rs ++ listing rs' := by
  rw [listing, listing, listing, List.filter_append, List.map_append]

theorem entriesFrom_chain {rs : List Record} {bytes : List UInt8} (hchain : Chain rs bytes)
    (hfits : bytes.length ≤ bufLen) (before tail : List UInt8) (out : List Listed) :
    entriesFrom (before ++ bytes ++ tail) before.length out = some (out ++ listing rs) := by
  induction hchain generalizing before out with
  | last r =>
    rw [length_bytes, Record.size, bufLen] at hfits
    rw [entriesFrom.eq_def, entryAt_bytes (by decide) (by omega)]
    exact congrArg some (push_eq out r)
  | next r pad haligned hrest ih =>
    rename_i rs bytes
    rw [List.length_append, List.length_append, length_bytes] at hfits
    have hsize : r.size = fileNameAt + 2 * r.name.length := rfl
    rw [fileNameAt] at hsize
    rw [bufLen] at hfits ih
    have hentry : entryAt (before ++ (r.bytes (r.size + pad.length) ++ pad ++ bytes) ++ tail) before.length =
        some ⟨r.name, r.attrs, r.size + pad.length⟩ := by
      have hsplit : before ++ (r.bytes (r.size + pad.length) ++ pad ++ bytes) ++ tail =
          before ++ r.bytes (r.size + pad.length) ++ (pad ++ bytes ++ tail) := by simp only [List.append_assoc]
      rw [hsplit]
      exact entryAt_bytes (by omega) (by omega)
    have hrest' := ih (by omega) (before ++ (r.bytes (r.size + pad.length) ++ pad)) (out ++ listing [r])
    rw [List.length_append, List.length_append, length_bytes] at hrest'
    rw [entriesFrom.eq_def, hentry]
    simp only [push_eq]
    rw [if_neg (by omega), ← List.append_assoc, hrest', List.append_assoc, ← listing_append, List.singleton_append]

theorem listing_exact {blocks : List (List Record)} {bufs : List (List UInt8)} (h : List.Forall₂ Filled blocks bufs)
    (code : UInt32) :
    readDirEntries code bufs [] =
      some (if code = ERROR_NO_MORE_FILES then .ok (listing blocks.flatten)
        else .error (lastWin32Err "GetFileInformationByHandleEx" [] code)) := by
  have hrun : ∀ out, readDirEntries code bufs out =
      some (if code = ERROR_NO_MORE_FILES then .ok (out ++ listing blocks.flatten)
        else .error (lastWin32Err "GetFileInformationByHandleEx" [] code)) := by
    induction h with
    | nil =>
      intro out
      rw [readDirEntries, List.flatten_nil, show listing [] = [] from rfl, List.append_nil]
      split_ifs <;> rfl
    | cons hfilled hrest ih =>
      intro out
      obtain ⟨hlen, bytes, tail, rfl, hchain⟩ := hfilled
      rw [List.length_append] at hlen
      have hblock := entriesFrom_chain hchain (by omega) [] tail out
      rw [List.nil_append, List.length_nil] at hblock
      rw [readDirEntries, hblock, Option.bind_some, ih, List.flatten_cons, listing_append, List.append_assoc]
  exact hrun []

def sub : Record := ⟨[0x61], FILE_ATTRIBUTE_DIRECTORY, List.replicate 52 0, List.replicate 4 0, rfl, rfl⟩

def self : Record := { sub with name := [0x2E] }

theorem filled_two :
    Filled [self, sub] (self.bytes 72 ++ [0, 0] ++ sub.bytes 0 ++ List.replicate (bufLen - 142) 7) := by
  have hchain : Chain [self, sub] (self.bytes 72 ++ [0, 0] ++ sub.bytes 0) :=
    .next self [0, 0] (by decide) (.last sub)
  refine ⟨?_, _, _, rfl, hchain⟩
  simp only [List.length_append, length_bytes, List.length_replicate]
  rfl

theorem listing_exact_sub :
    readDirEntries 5 [self.bytes 72 ++ [0, 0] ++ sub.bytes 0 ++ List.replicate (bufLen - 142) 7] [] =
        some (.error (lastWin32Err "GetFileInformationByHandleEx" [] 5)) ∧
      readDirEntries 18 [self.bytes 72 ++ [0, 0] ++ sub.bytes 0 ++ List.replicate (bufLen - 142) 7] [] =
        some (.ok [([0x61], .dir)]) :=
  ⟨listing_exact (.cons filled_two .nil) 5, listing_exact (.cons filled_two .nil) 18⟩

end Rustils.WinFs.Listing
