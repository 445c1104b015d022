import Rustils.WinFs.Symlink

namespace Rustils.WinFs

open Platform Lib.Fuel Lib.LittleEndian Lib.Buffer

variable {rel : Wide} {bytes tail : List UInt8}

def printName (rel : Wide) (buf : List UInt8) (bytesReturned : ℕ) : Exec PlatformError Wide :=
  if bytesReturned < 8 then fail (refused rel)
  else do
    let tag ← readNat buf 0 4
    if tag ≠ IO_REPARSE_TAG_SYMLINK then fail (refused rel)
    else do
      let printNameOffset ← readNat buf (payloadOffset + 4) 2
      let printNameLength ← readNat buf (payloadOffset + 6) 2
      let start := pathBufferOffset + printNameOffset
      if start + printNameLength ≤ MAXIMUM_REPARSE_DATA_BUFFER_SIZE then
        pure (units ((buf.drop start).take printNameLength))
      else panicked

def allocated (bytes : List UInt8) : List UInt8 :=
  bytes ++ List.replicate (MAXIMUM_REPARSE_DATA_BUFFER_SIZE - bytes.length) 0

theorem readLink_eq {v : Volume} {stored : List UInt8} (hopen : v.openLink rel = .ok ())
    (hget : v.getReparsePoint stored = .ok bytes) :
    readLink v rel stored = printName rel (allocated bytes) bytes.length := by
  unfold readLink
  rw [hopen, hget]
  rfl

/-- No slice goes past the buffer, and other bytes behind the ones returned change nothing. -/
def Safe (rel : Wide) (bytes : List UInt8) (r : Exec PlatformError Wide) : Prop :=
  r ≠ panicked ∧ ∀ target, r = .ok target → ∀ tail, bytes.length + tail.length = MAXIMUM_REPARSE_DATA_BUFFER_SIZE →
    printName rel (bytes ++ tail) bytes.length = .ok target

def nameStart (buf : List UInt8) : ℕ := pathBufferOffset + field buf (payloadOffset + 4)

def nameEnd (buf : List UInt8) : ℕ := nameStart buf + field buf (payloadOffset + 6)

/-- An odd byte at the end of the name is not looked at. -/
def InBounds (bytes : List UInt8) : Prop :=
  payloadOffset + 8 ≤ bytes.length ∧ nameEnd bytes ≤ MAXIMUM_REPARSE_DATA_BUFFER_SIZE ∧
    (field bytes (payloadOffset + 6) < 2 ∨
      nameStart bytes + 2 * (field bytes (payloadOffset + 6) / 2) ≤ bytes.length)

def printBytes (buf : List UInt8) : List UInt8 := (buf.drop (nameStart buf)).take (field buf (payloadOffset + 6))

theorem length_printBytes {buf : List UInt8} (h : nameEnd buf ≤ buf.length) :
    (printBytes buf).length = field buf (payloadOffset + 6) := by
  rw [nameEnd] at h
  rw [printBytes, List.length_take, List.length_drop]
  omega

theorem printName_eq {buf : List UInt8} {n : ℕ} (hbuf : buf.length = MAXIMUM_REPARSE_DATA_BUFFER_SIZE) (hn : 8 ≤ n)
    (htag : leNat (buf.take 4) = IO_REPARSE_TAG_SYMLINK) :
    printName rel buf n =
      if nameEnd buf ≤ MAXIMUM_REPARSE_DATA_BUFFER_SIZE then .ok (units (printBytes buf)) else panicked := by
  have hread {start width : ℕ} (h : start + width ≤ 16384) :
      (readNat buf start width : Exec PlatformError ℕ) = .ok (leNat ((buf.drop start).take width)) :=
    if_pos (by rw [hbuf]; exact h)
  rw [printName, if_neg (by omega), hread (by decide), ok_bind, List.drop_zero, htag, if_neg (fun h => h rfl),
    hread (by decide), ok_bind, hread (by decide), ok_bind]
  rfl

theorem length_zeros (h : bytes.length ≤ MAXIMUM_REPARSE_DATA_BUFFER_SIZE) :
    bytes.length + (List.replicate (MAXIMUM_REPARSE_DATA_BUFFER_SIZE - bytes.length) (0 : UInt8)).length =
      MAXIMUM_REPARSE_DATA_BUFFER_SIZE := by
  rw [List.length_replicate, Nat.add_sub_cancel' h]

theorem length_allocated (h : bytes.length ≤ MAXIMUM_REPARSE_DATA_BUFFER_SIZE) :
    (allocated bytes).length = MAXIMUM_REPARSE_DATA_BUFFER_SIZE := by
  rw [allocated, List.length_append, length_zeros h]

theorem field_append {start : ℕ} (h : start + 2 ≤ bytes.length) (tail : List UInt8) :
    field (bytes ++ tail) start = field bytes start := congrArg leNat (take_drop_append h)

theorem nameEnd_append (h : payloadOffset + 8 ≤ bytes.length) (tail : List UInt8) :
    nameStart (bytes ++ tail) = nameStart bytes ∧ nameEnd (bytes ++ tail) = nameEnd bytes := by
  have hoffset := field_append (show payloadOffset + 4 + 2 ≤ bytes.length by omega) tail
  rw [nameEnd, nameEnd, nameStart, nameStart, hoffset, field_append (by omega)]
  exact ⟨rfl, rfl⟩

theorem field_eq {buf : List UInt8} {start : ℕ} (h : start + 1 < buf.length) :
    field buf start = buf[start].toNat + 256 * buf[start + 1].toNat := by
  rw [field, List.drop_eq_getElem_cons (by omega), List.drop_eq_getElem_cons h, List.take_succ_cons,
    List.take_succ_cons, List.take_zero, leNat, leNat, leNat]
  omega

def Settled (bytes : List UInt8) : Prop :=
  ∀ tail, bytes.length + tail.length = MAXIMUM_REPARSE_DATA_BUFFER_SIZE →
    nameEnd (bytes ++ tail) ≤ MAXIMUM_REPARSE_DATA_BUFFER_SIZE ∧
      units (printBytes (bytes ++ tail)) = units (printBytes (allocated bytes))

section Filled

variable (hn : 8 ≤ bytes.length) (hmax : bytes.length ≤ MAXIMUM_REPARSE_DATA_BUFFER_SIZE)
  (htag : leNat (bytes.take 4) = IO_REPARSE_TAG_SYMLINK)

include hn htag in
theorem printName_append (htail : bytes.length + tail.length = MAXIMUM_REPARSE_DATA_BUFFER_SIZE) :
    printName rel (bytes ++ tail) bytes.length =
      if nameEnd (bytes ++ tail) ≤ MAXIMUM_REPARSE_DATA_BUFFER_SIZE then .ok (units (printBytes (bytes ++ tail)))
      else panicked := by
  apply printName_eq _ hn
  · rw [List.take_append_of_le_length (by omega), htag]
  · rw [List.length_append, htail]

include hn hmax htag in
theorem safe_iff_settled : Safe rel bytes (printName rel (allocated bytes) bytes.length) ↔ Settled bytes := by
  have hzeros := length_zeros hmax
  have hfirst : printName rel (allocated bytes) bytes.length = _ := printName_append hn htag hzeros
  rw [← allocated] at hfirst
  constructor
  · rintro ⟨hpanic, hsame⟩ tail htail
    by_cases hend : nameEnd (allocated bytes) ≤ MAXIMUM_REPARSE_DATA_BUFFER_SIZE
    · rw [if_pos hend] at hfirst
      have hother := hsame _ hfirst tail htail
      rw [printName_append hn htag htail] at hother
      split_ifs at hother with hend'
      exact ⟨hend', Except.ok.inj hother⟩
    · rw [if_neg hend] at hfirst
      exact absurd hfirst hpanic
  · intro h
    have hend : nameEnd (allocated bytes) ≤ MAXIMUM_REPARSE_DATA_BUFFER_SIZE := (h _ hzeros).1
    rw [hfirst, if_pos hend]
    refine ⟨fun hpanic => (by cases hpanic), fun target htarget tail htail => ?_⟩
    rw [printName_append hn htag htail, if_pos (h tail htail).1, (h tail htail).2]
    exact htarget

include hmax in
theorem exists_tail {j : ℕ} (hj : bytes.length ≤ j) (b : UInt8) :
    ∃ tail, bytes.length + tail.length = MAXIMUM_REPARSE_DATA_BUFFER_SIZE ∧ bytes ++ tail = (allocated bytes).set j b := by
  rw [allocated, List.set_append_right _ _ hj]
  exact ⟨_, by rw [List.length_set, List.length_replicate, Nat.add_sub_cancel' hmax], rfl⟩

theorem getElem?_printBytes {buf : List UInt8} {i : ℕ} (h : i < field buf (payloadOffset + 6)) :
    (printBytes buf)[i]? = buf[nameStart buf + i]? := by
  rw [printBytes, List.getElem?_take_of_lt h, List.getElem?_drop]

theorem getElem?_allocated {j : ℕ} (hj : bytes.length ≤ j) (hlt : j < MAXIMUM_REPARSE_DATA_BUFFER_SIZE) :
    (allocated bytes)[j]? = some 0 := by
  rw [allocated, List.getElem?_append_right hj, List.getElem?_replicate, if_pos (by omega)]

include hmax in
theorem settled_of_inBounds (h : InBounds bytes) : Settled bytes := by
  obtain ⟨hfields, hend, hname⟩ := h
  have htake {tail : List UInt8} (htail : bytes.length + tail.length = MAXIMUM_REPARSE_DATA_BUFFER_SIZE) :
      (printBytes (bytes ++ tail)).length = field bytes (payloadOffset + 6) ∧
        (printBytes (bytes ++ tail)).take (2 * (field bytes (payloadOffset + 6) / 2)) =
          (bytes.drop (nameStart bytes)).take (2 * (field bytes (payloadOffset + 6) / 2)) := by
    obtain ⟨hstart, hend'⟩ := nameEnd_append hfields tail
    have hlen := field_append (show payloadOffset + 6 + 2 ≤ bytes.length from hfields) tail
    constructor
    · rw [length_printBytes (by rw [hend', List.length_append, htail]; exact hend), hlen]
    · rw [printBytes, hstart, hlen, List.take_take, Nat.min_eq_left (by omega)]
      rcases hname with hname | hname
      · rw [Nat.div_eq_of_lt hname, Nat.mul_zero, List.take_zero, List.take_zero]
      · exact take_drop_append hname
  intro tail htail
  have hzeros := length_zeros hmax
  refine ⟨(nameEnd_append hfields tail).2 ▸ hend, ?_⟩
  rw [allocated, units_congr ((htake htail).1.trans (htake hzeros).1.symm), (htake htail).1, (htake htail).2, (htake hzeros).2]

include hmax in
theorem inBounds_of_settled (h : Settled bytes) : InBounds bytes := by
  have hlength := length_allocated hmax
  have hzeros := length_zeros hmax
  have hend : nameEnd (allocated bytes) ≤ MAXIMUM_REPARSE_DATA_BUFFER_SIZE := (h _ hzeros).1
  have hfields : payloadOffset + 8 ≤ bytes.length := by
    -- the high byte of the length would be one of the bytes behind
    by_contra hshort
    rw [payloadOffset] at hshort
    obtain ⟨tail, htail, hset⟩ := exists_tail hmax (show bytes.length ≤ 15 by omega) 1
    obtain ⟨hend', hunits⟩ := h tail htail
    have hlong : 15 < (allocated bytes).length := by
      rw [hlength, MAXIMUM_REPARSE_DATA_BUFFER_SIZE]
      omega
    have hfield : field (bytes ++ tail) (payloadOffset + 6) = field (allocated bytes) (payloadOffset + 6) + 256 := by
      change field _ 14 = field _ 14 + 256
      have hzero := getElem?_allocated (show bytes.length ≤ 15 by omega) (by decide)
      rw [List.getElem?_eq_getElem hlong] at hzero
      rw [hset, field_eq (by rw [List.length_set]; exact hlong), field_eq hlong, List.getElem_set_self,
        List.getElem_set_ne (by decide), Option.some.inj hzero]
      rfl
    have hcount := congrArg List.length hunits
    rw [length_units, length_units, length_printBytes (by rw [List.length_append, htail]; exact hend'),
      length_printBytes (by rw [hlength]; exact hend), hfield] at hcount
    omega
  have hstart := nameEnd_append hfields (List.replicate (MAXIMUM_REPARSE_DATA_BUFFER_SIZE - bytes.length) (0 : UInt8))
  have hlen := field_append hfields (List.replicate (MAXIMUM_REPARSE_DATA_BUFFER_SIZE - bytes.length) (0 : UInt8))
  rw [← allocated] at hstart hlen
  refine ⟨hfields, hstart.2 ▸ hend, ?_⟩
  -- the last byte of the name would be one of the bytes behind
  by_contra hname
  rw [not_or] at hname
  obtain ⟨i, hi⟩ : ∃ i, 2 * (field bytes (payloadOffset + 6) / 2) = i + 1 :=
    ⟨2 * (field bytes (payloadOffset + 6) / 2) - 1, by omega⟩
  rw [nameEnd, hstart.1, hlen] at hend
  obtain ⟨tail, htail, hset⟩ := exists_tail hmax (show bytes.length ≤ nameStart bytes + i by omega) 1
  obtain ⟨hend', hunits⟩ := h tail htail
  have hstart' := (nameEnd_append hfields tail).1
  have hlen' : field (bytes ++ tail) (payloadOffset + 6) = _ := field_append hfields tail
  have hcount : (printBytes (bytes ++ tail)).length = field bytes (payloadOffset + 6) := by
    rw [length_printBytes (by rw [List.length_append, htail]; exact hend'), hlen']
  have hcount' : (printBytes (allocated bytes)).length = field bytes (payloadOffset + 6) := by
    rw [length_printBytes (by rw [hlength, nameEnd, hstart.1, hlen]; exact hend), hlen]
  have htake := (units_congr (hcount.trans hcount'.symm)).mp hunits
  rw [hcount, hi] at htake
  have hbyte := congrArg (fun l => l[i]?) htake
  rw [List.getElem?_take_of_lt i.lt_succ_self, List.getElem?_take_of_lt i.lt_succ_self, getElem?_printBytes (by omega),
    getElem?_printBytes (by omega), hstart', hstart.1, hset, List.getElem?_set_self (by omega),
    getElem?_allocated (by omega) (by omega)] at hbyte
  exact absurd (Option.some.inj hbyte) (by decide)

end Filled

theorem readLink_safe_iff (rel : Wide) (hn : 8 ≤ bytes.length) (hmax : bytes.length ≤ MAXIMUM_REPARSE_DATA_BUFFER_SIZE)
    (htag : leNat (bytes.take 4) = IO_REPARSE_TAG_SYMLINK) :
    (∀ (v : Volume) (stored : List UInt8), v.openLink rel = .ok () → v.getReparsePoint stored = .ok bytes →
      Safe rel bytes (readLink v rel stored)) ↔ InBounds bytes := by
  have hiff : Safe rel bytes (printName rel (allocated bytes) bytes.length) ↔ InBounds bytes :=
    (safe_iff_settled hn hmax htag).trans ⟨inBounds_of_settled hmax, settled_of_inBounds hmax⟩
  rw [← hiff]
  constructor
  · intro h
    have hlenient := h lenient bytes rfl rfl
    rwa [readLink_eq (v := lenient) rfl rfl] at hlenient
  · intro h v stored hopen hget
    rwa [readLink_eq hopen hget]

def oneUnit : List UInt8 := header 16 2 2 1 ++ [0x61, 0, 0x61, 0]

theorem oneUnit_safe : 8 ≤ oneUnit.length ∧ ((∀ (v : Volume) (stored : List UInt8), v.openLink [0x6C] = .ok () →
    v.getReparsePoint stored = .ok oneUnit → Safe [0x6C] oneUnit (readLink v [0x6C] stored)) ↔ InBounds oneUnit) :=
  ⟨by decide, readLink_safe_iff [0x6C] (by decide) (by decide) (by decide)⟩

theorem foreign_links_unsafe :
    readLink lenient [0x6C] [0x0C, 0, 0, 0xA0, 8, 0, 0, 0, 0, 0, 0, 0, 0xFF, 0xFF, 2, 0] = panicked ∧
      readLink lenient [0x6C] [0x0C, 0, 0, 0xA0, 8, 0, 0, 0, 0, 0, 0, 0, 0, 0, 2, 0] = .ok [0] := by
  constructor
  · rw [readLink_eq rfl rfl, printName_eq (length_allocated (by decide)) (by decide) (by decide), if_neg]
    rw [allocated, (nameEnd_append (by decide) _).2]
    decide
  · rw [readLink_eq rfl rfl, printName_eq (length_allocated (by decide)) (by decide) (by decide), if_pos]
    · rfl
    · rw [allocated, (nameEnd_append (by decide) _).2]
      decide

end Rustils.WinFs
