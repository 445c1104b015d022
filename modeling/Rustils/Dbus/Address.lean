import Mathlib.Data.List.Basic
import Rustils.Lib.Utf8
import Rustils.Platform.Error

namespace Rustils.Dbus.Address

open Platform Lib.Utf8

inductive UnixAddr
  | path (p : List UInt8)
  | abstract (name : List UInt8)
  deriving DecidableEq

def UnixAddr.value : UnixAddr → List UInt8
  | .path p => p
  | .abstract name => name

def bytesOf (text : List Char) : List UInt8 := asBytes (String.ofList text)

def parseKv (kv : List Char) : Option UnixAddr :=
  match kv.dropPrefix? "path=".toList with
  | some path => some (.path (bytesOf path))
  | none =>
    match kv.dropPrefix? "abstract=".toList with
    | some name => some (.abstract (bytesOf name))
    | none => none

def parseCandidate (candidate : List Char) : List UnixAddr :=
  match candidate.dropPrefix? "unix:".toList with
  | none => []
  | some rest => (rest.splitOn ',').filterMap parseKv

def parseUnixAddresses (addrStr : String) : List UnixAddr := (addrStr.toList.splitOn ';').flatMap parseCandidate

def sessionBusAddresses (env : Option String) (uid : ℕ) : List UnixAddr :=
  match env with
  | some env =>
    let parsed := parseUnixAddresses env
    if parsed.isEmpty then [.path (asBytes s!"/run/user/{uid}/bus")] else parsed
  | none => [.path (asBytes s!"/run/user/{uid}/bus")]

section Format

def optionallyEscaped (b : UInt8) : Bool :=
  0x30 ≤ b && b ≤ 0x39 || 0x41 ≤ b && b ≤ 0x5A || 0x61 ≤ b && b ≤ 0x7A || b == 0x2D || b == 0x5F || b == 0x2F ||
    b == 0x2E || b == 0x5C || b == 0x2A

variable (upper : Bool)

def hexDigit (n : ℕ) : Char := Char.ofNat (if n < 10 then 0x30 + n else (if upper then 0x41 else 0x61) + (n - 10))

def escapeByte (b : UInt8) : List Char :=
  if optionallyEscaped b then [Char.ofNat b.toNat]
  else ['%', hexDigit upper (b.toNat / 16), hexDigit upper (b.toNat % 16)]

def escape (value : List UInt8) : List Char := value.flatMap (escapeByte upper)

structure Word where
  text : List Char
  plain : ∀ c ∈ text, c ∉ [';', ',', ':', '=']

structure Pair where
  key : Word
  value : List UInt8

def Pair.Foreign (p : Pair) : Prop := p.key.text ≠ "path".toList ∧ p.key.text ≠ "abstract".toList

inductive Entry
  | unix (before : List {p : Pair // p.Foreign}) (addr : UnixAddr) (after : List {p : Pair // p.Foreign})
  | other (transport : Word) (pairs : List Pair) (foreign : transport.text ≠ "unix".toList)

def Entry.unixAddr : Entry → Option UnixAddr
  | .unix _ addr _ => some addr
  | .other _ _ _ => none

def writeKv (key : List Char) (value : List UInt8) : List Char := key ++ '=' :: escape upper value

def Pair.write (p : Pair) : List Char := writeKv upper p.key.text p.value

def UnixAddr.write : UnixAddr → List Char
  | .path p => writeKv upper "path".toList p
  | .abstract name => writeKv upper "abstract".toList name

def Entry.kvs : Entry → List (List Char)
  | .unix before addr after => before.map (·.1.write upper) ++ addr.write upper :: after.map (·.1.write upper)
  | .other _ pairs _ => pairs.map (Pair.write upper)

def Entry.transport : Entry → List Char
  | .unix _ _ _ => "unix".toList
  | .other transport _ _ => transport.text

def Entry.write (a : Entry) : List Char := a.transport ++ ':' :: [','].intercalate (a.kvs upper)

def written (addrs : List Entry) : String := String.ofList ([';'].intercalate (addrs.map (Entry.write upper)))

end Format

section Escape

variable {upper : Bool} {b : UInt8} {value : List UInt8} {c : Char}

theorem escapeByte_separator (upper : Bool) (b : UInt8) : ∀ c ∈ escapeByte upper b, c ∉ [';', ','] := by
  have h : ∀ upper : Bool, ∀ n < 256,
      ((escapeByte upper (UInt8.ofNat n)).all fun c => !([';', ','].contains c)) = true := by decide +kernel
  have hb := h upper b.toNat b.toNat_lt
  rw [UInt8.ofNat_toNat] at hb
  intro c hc
  simpa using List.all_eq_true.mp hb c hc

theorem escape_separator (hc : c ∈ escape upper value) : c ∉ [';', ','] := by
  obtain ⟨b, -, hb⟩ := List.mem_flatMap.mp hc
  exact escapeByte_separator upper b c hb

theorem encode_plain (h : optionallyEscaped b) : String.utf8EncodeChar (Char.ofNat b.toNat) = [b] := by
  have hall : ∀ n < 256, optionallyEscaped (UInt8.ofNat n) = true →
      String.utf8EncodeChar (Char.ofNat (UInt8.ofNat n).toNat) = [UInt8.ofNat n] := by decide +kernel
  have hb := hall b.toNat b.toNat_lt
  rw [UInt8.ofNat_toNat] at hb
  exact hb h

theorem bytesOf_eq (text : List Char) : bytesOf text = text.flatMap String.utf8EncodeChar := by
  rw [bytesOf, asBytes_eq_flatMap, String.toList_ofList]

theorem length_le_bytesOf (text : List Char) : text.length ≤ (bytesOf text).length := by
  rw [bytesOf_eq]
  induction text with
  | nil => exact Nat.zero_le _
  | cons c text ih =>
    have hpos : 0 < (String.utf8EncodeChar c).length := by
      rw [String.length_utf8EncodeChar]
      exact c.utf8Size_pos
    rw [List.flatMap_cons, List.length_append, List.length_cons]
    omega

theorem length_escape (upper : Bool) (value : List UInt8) :
    (escape upper value).length = value.length + 2 * value.countP (! optionallyEscaped ·) := by
  induction value with
  | nil => rfl
  | cons b value ih =>
    rw [escape, List.flatMap_cons, ← escape, List.length_append, ih, List.length_cons, List.countP_cons]
    cases hb : optionallyEscaped b <;> simp [escapeByte, hb] <;> omega

theorem bytesOf_escape_iff (upper : Bool) (value : List UInt8) :
    bytesOf (escape upper value) = value ↔ ∀ b ∈ value, optionallyEscaped b = true := by
  constructor
  · intro h b hb
    by_contra hnot
    have hpos : 0 < value.countP (! optionallyEscaped ·) := List.countP_pos_iff.mpr ⟨b, hb, by simp [hnot]⟩
    have hlen := length_le_bytesOf (escape upper value)
    rw [h, length_escape] at hlen
    omega
  · intro h
    rw [bytesOf_eq]
    induction value with
    | nil => rfl
    | cons b value ih =>
      obtain ⟨hb, hrest⟩ := List.forall_mem_cons.mp h
      rw [escape, List.flatMap_cons, ← escape, List.flatMap_append, ih hrest, escapeByte, if_pos hb,
        List.flatMap_singleton, encode_plain hb, List.singleton_append]

end Escape

section Parse

variable {upper : Bool} {sep : Char}

theorem dropPrefix_word (key word rest : List Char) (hkey : sep ∉ key) (hword : sep ∉ word) :
    (key ++ sep :: rest).dropPrefix? (word ++ [sep]) = if key = word then some rest else none := by
  split_ifs with h
  · rw [h, List.dropPrefix?_eq_some_iff]
    exact ⟨word ++ [sep], by simp, by simp⟩
  · rw [Option.eq_none_iff_forall_not_mem]
    intro s hs
    obtain ⟨p', heq, hp⟩ := List.dropPrefix?_eq_some_iff.mp hs
    rw [eq_of_beq hp, List.append_assoc, List.singleton_append] at heq
    have hsplit := congrArg (List.splitOn sep) heq
    rw [List.splitOn_append_cons_self_of_not_mem hkey, List.splitOn_append_cons_self_of_not_mem hword] at hsplit
    exact h (List.cons.inj hsplit).1

theorem Word.not_mem {c : Char} (w : Word) (hc : c ∈ [';', ',', ':', '=']) : c ∉ w.text := fun h => w.plain c h hc

theorem parseKv_pair {p : Pair} (h : p.Foreign) : parseKv (p.write upper) = none := by
  have hkey : '=' ∉ p.key.text := p.key.not_mem (by decide)
  have hpath := dropPrefix_word _ "path".toList (escape upper p.value) hkey (by decide)
  have habstract := dropPrefix_word _ "abstract".toList (escape upper p.value) hkey (by decide)
  rw [if_neg h.1] at hpath
  rw [if_neg h.2] at habstract
  simp only [parseKv, Pair.write, writeKv, show "path=".toList = "path".toList ++ ['='] from rfl, hpath,
    show "abstract=".toList = "abstract".toList ++ ['='] from rfl, habstract]

def UnixAddr.raw (upper : Bool) : UnixAddr → UnixAddr
  | .path p => .path (bytesOf (escape upper p))
  | .abstract name => .abstract (bytesOf (escape upper name))

theorem parseKv_unix (addr : UnixAddr) : parseKv (addr.write upper) = some (addr.raw upper) := by
  have hmatch : ∀ {word : List Char} (value : List UInt8), '=' ∉ word →
      (writeKv upper word value).dropPrefix? (word ++ ['=']) = some (escape upper value) := by
    intro word value hword
    rw [writeKv, dropPrefix_word word word _ hword hword, if_pos rfl]
  cases addr with
  | path p =>
    simp only [parseKv, UnixAddr.write, show "path=".toList = "path".toList ++ ['='] from rfl,
      hmatch p (show '=' ∉ "path".toList by decide), UnixAddr.raw]
  | abstract name =>
    have hpath : (writeKv upper "abstract".toList name).dropPrefix? ("path".toList ++ ['=']) = none :=
      (dropPrefix_word "abstract".toList "path".toList _ (by decide) (by decide)).trans (if_neg (by decide))
    simp only [parseKv, UnixAddr.write, show "path=".toList = "path".toList ++ ['='] from rfl, hpath,
      show "abstract=".toList = "abstract".toList ++ ['='] from rfl,
      hmatch name (show '=' ∉ "abstract".toList by decide), UnixAddr.raw]

theorem writeKv_separator {c : Char} {key : List Char} (hc : c ∈ [';', ',']) (hkey : c ∉ key) (value : List UInt8) :
    c ∉ writeKv upper key value := by
  rw [writeKv, List.mem_append, List.mem_cons]
  rintro (h | rfl | h)
  · exact hkey h
  · exact absurd hc (by decide)
  · exact escape_separator h hc

theorem Entry.kvs_separator {c : Char} (hc : c ∈ [';', ',']) (a : Entry) : ∀ kv ∈ a.kvs upper, c ∉ kv := by
  have hpair : ∀ p : Pair, c ∉ p.write upper := fun p =>
    writeKv_separator hc (p.key.not_mem (by revert hc; simp; tauto)) p.value
  have hunix : ∀ addr : UnixAddr, c ∉ addr.write upper := by
    rintro (p | name)
    · exact writeKv_separator hc (by revert hc; simp; rintro (rfl | rfl) <;> decide) p
    · exact writeKv_separator hc (by revert hc; simp; rintro (rfl | rfl) <;> decide) name
  intro kv hkv
  cases a with
  | unix before addr after =>
    rcases List.mem_append.mp hkv with h | h
    · obtain ⟨p, -, rfl⟩ := List.mem_map.mp h
      exact hpair p.1
    · rcases List.mem_cons.mp h with rfl | h
      · exact hunix addr
      · obtain ⟨p, -, rfl⟩ := List.mem_map.mp h
        exact hpair p.1
  | other transport pairs foreign =>
    obtain ⟨p, -, rfl⟩ := List.mem_map.mp hkv
    exact hpair p

theorem parseKv_kvs (before after : List {p : Pair // p.Foreign}) (addr : UnixAddr) :
    ((Entry.unix before addr after).kvs upper).filterMap parseKv = [addr.raw upper] := by
  have hpairs : ∀ ps : List {p : Pair // p.Foreign}, (ps.map (·.1.write upper)).filterMap parseKv = [] := by
    intro ps
    rw [List.filterMap_map, List.filterMap_eq_nil_iff]
    intro p _
    exact parseKv_pair p.2
  rw [Entry.kvs, List.filterMap_append, List.filterMap_cons, parseKv_unix, hpairs, hpairs]
  rfl

theorem parseCandidate_write (a : Entry) :
    parseCandidate (a.write upper) = (a.unixAddr.map (UnixAddr.raw upper)).toList := by
  cases a with
  | unix before addr after =>
    have hprefix : ((Entry.unix before addr after).write upper).dropPrefix? "unix:".toList =
        some ([','].intercalate ((Entry.unix before addr after).kvs upper)) :=
      (dropPrefix_word "unix".toList "unix".toList _ (by decide) (by decide)).trans (if_pos rfl)
    have hne : (Entry.unix before addr after).kvs upper ≠ [] := by simp [Entry.kvs]
    rw [parseCandidate, hprefix]
    simp only [List.splitOn_intercalate ',' (Entry.kvs_separator (by decide) _) hne, parseKv_kvs]
    rfl
  | other transport pairs foreign =>
    have hprefix : ((Entry.other transport pairs foreign).write upper).dropPrefix? "unix:".toList = none :=
      (dropPrefix_word _ "unix".toList _ (transport.not_mem (by decide)) (by decide)).trans (if_neg foreign)
    rw [parseCandidate, hprefix]
    rfl

theorem not_mem_intercalate {c : Char} {sep : List Char} {words : List (List Char)} (hsep : c ∉ sep)
    (h : ∀ w ∈ words, c ∉ w) : c ∉ sep.intercalate words := by
  induction words with
  | nil => exact List.not_mem_nil
  | cons w words ih =>
    obtain ⟨hw, hrest⟩ := List.forall_mem_cons.mp h
    cases words with
    | nil => simpa using hw
    | cons w' words =>
      rw [List.intercalate_cons_cons, List.mem_append, List.mem_append, not_or, not_or]
      exact ⟨⟨hw, hsep⟩, ih hrest⟩

theorem Entry.write_separator (a : Entry) : ';' ∉ a.write upper := by
  have hkvs : ';' ∉ [','].intercalate (a.kvs upper) := by
    exact not_mem_intercalate (by decide) (Entry.kvs_separator (by decide) a)
  have htransport : ';' ∉ a.transport := by
    cases a with
    | unix _ _ _ => exact show ';' ∉ "unix".toList by decide
    | other transport _ _ => exact transport.not_mem (by decide)
  simp [Entry.write, hkvs, htransport]

theorem parse_written (addrs : List Entry) :
    parseUnixAddresses (written upper addrs) = (addrs.filterMap Entry.unixAddr).map (UnixAddr.raw upper) := by
  have hcandidates : ∀ as : List Entry, (as.map (Entry.write upper)).flatMap parseCandidate =
      (as.filterMap Entry.unixAddr).map (UnixAddr.raw upper) := by
    intro as
    induction as with
    | nil => rfl
    | cons a as ih =>
      rw [List.map_cons, List.flatMap_cons, ih, parseCandidate_write, List.filterMap_cons]
      cases a.unixAddr <;> rfl
  rw [parseUnixAddresses, written, String.toList_ofList]
  cases addrs with
  | nil => rfl
  | cons a as =>
    have hplain : ∀ l ∈ (a :: as).map (Entry.write upper), ';' ∉ l := by
      intro l hl
      obtain ⟨a', -, rfl⟩ := List.mem_map.mp hl
      exact a'.write_separator
    rw [List.splitOn_intercalate ';' hplain (by simp), hcandidates]

end Parse

theorem UnixAddr.raw_eq_iff (upper : Bool) (addr : UnixAddr) :
    addr.raw upper = addr ↔ ∀ b ∈ addr.value, optionallyEscaped b = true := by
  cases addr with
  | path p => rw [UnixAddr.raw, UnixAddr.path.injEq, bytesOf_escape_iff, UnixAddr.value]
  | abstract name => rw [UnixAddr.raw, UnixAddr.abstract.injEq, bytesOf_escape_iff, UnixAddr.value]

theorem bus_addresses_parsed_iff (upper : Bool) (addrs : List Entry) :
    parseUnixAddresses (written upper addrs) = addrs.filterMap Entry.unixAddr ↔
      ∀ addr ∈ addrs.filterMap Entry.unixAddr, ∀ b ∈ addr.value, optionallyEscaped b = true := by
  rw [parse_written]
  constructor
  · intro h addr hmem
    apply (UnixAddr.raw_eq_iff upper addr).mp
    have hid := List.map_eq_map_iff.mp (h.trans (List.map_id _).symm)
    exact hid addr hmem
  · intro h
    calc (addrs.filterMap Entry.unixAddr).map (UnixAddr.raw upper)
        = (addrs.filterMap Entry.unixAddr).map id :=
          List.map_congr_left fun addr hmem => (UnixAddr.raw_eq_iff upper addr).mpr (h addr hmem)
      _ = addrs.filterMap Entry.unixAddr := List.map_id _

theorem escaped_blank_kept :
    written false [.unix [] (.path [0x61, 0x20, 0x62]) []] = "unix:path=a%20b" ∧
      parseUnixAddresses "unix:path=a%20b" = [.path [0x61, 0x25, 0x32, 0x30, 0x62]] ∧
      parseUnixAddresses (written false [.unix [] (.path [0x61, 0x20, 0x62]) []]) ≠
        [Entry.unix [] (.path [0x61, 0x20, 0x62]) []].filterMap Entry.unixAddr := by
  decide +kernel

end Rustils.Dbus.Address
