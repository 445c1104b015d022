import Mathlib.Data.List.TakeWhile
import Rustils.Lib.LittleEndian
import Rustils.Lib.Utf16
import Rustils.Lib.Utf8
import Rustils.Net.Unix

namespace Rustils.Net

open Platform Lib.LittleEndian Lib.Utf16 Lib.Utf8

def unrecognizedFamily : PlatformError := .new .other .none "unrecognized address family"

/-- Linux takes off the terminator that `to_sockaddr_un` counts in, the BSDs cut at the first NUL byte. -/
def trimPath : Backend → List UInt8 → List UInt8
  | .linux, bytes => if bytes.getLast? = some 0 then bytes.dropLast else bytes
  | .bsd, bytes => bytes.takeWhile (· ≠ 0)

def fromSockaddrUn (b : Backend) (addr : SockaddrUn) (len : ℕ) : Result (Option Path) :=
  if len ≤ sunPathOffset b then .ok none
  else if addr.sunFamily ≠ AF_UNIX then .error unrecognizedFamily
  else
    let pathLen := min (len - sunPathOffset b) (sunPathLen b)
    let bytes := trimPath b (addr.sunPath.take pathLen)
    if bytes = [] then .ok none else .ok (some bytes)

namespace Winsock

def UNIX_PATH_CAP : ℕ := 108

def toStr (path : List UInt16) : Option String := (decode path).map String.ofList

def toSockaddrUn (path : List UInt16) : Result (List UInt8) :=
  match toStr path with
  | none => .error (.new .invalidInput .none "AF_UNIX path is not valid UTF-8")
  | some s =>
    let bytes := asBytes s
    if UNIX_PATH_CAP - 1 < bytes.length then
      .error (.new .invalidInput .none "AF_UNIX path exceeds sun_path's 107-byte usable capacity")
    else .ok (leBytes 2 AF_UNIX ++ (bytes ++ List.replicate (UNIX_PATH_CAP - bytes.length) 0))

def fromSockaddrUn (buf : List UInt8) (len : ℤ) : Result (Option (List UInt16)) :=
  let familySize := 2
  let len := len.toNat
  if len ≤ familySize then .ok none
  else if leNat (buf.take familySize) ≠ AF_UNIX then .error unrecognizedFamily
  else
    let pathEnd := min len buf.length
    let pathBytes := ((buf.take pathEnd).drop familySize).takeWhile (· ≠ 0)
    if pathBytes = [] then .ok none
    else
      match fromUtf8 pathBytes with
      | none => .error (.new .other .none "AF_UNIX peer path is not valid UTF-8")
      | some s => .ok (some (encode s.toList))

end Winsock

inductive Stack
  | unix (b : Backend) | winsock

namespace Stack

@[reducible] def Path : Stack → Type
  | .unix _ => Net.Path
  | .winsock => List UInt16

@[reducible] def Addr : Stack → Type
  | .unix _ => SockaddrUn × ℕ
  | .winsock => List UInt8

def toSockaddrUn : (σ : Stack) → σ.Path → Result σ.Addr
  | .unix b, path => Net.toSockaddrUn b path
  | .winsock, path => Winsock.toSockaddrUn path

/-- The callers of the Windows backend pass the whole buffer. -/
def fromSockaddrUn : (σ : Stack) → σ.Addr → Result (Option σ.Path)
  | .unix b, (addr, len) => Net.fromSockaddrUn b addr len
  | .winsock, buf => Winsock.fromSockaddrUn buf buf.length

variable (σ : Stack)

def RoundTrips (path : σ.Path) : Prop :=
  (∃ e, σ.toSockaddrUn path = .error e ∧ e.kind = .invalidInput) ∨
    ∃ addr, σ.toSockaddrUn path = .ok addr ∧ σ.fromSockaddrUn addr = .ok (some path)

def NamesFile : (σ : Stack) → σ.Addr → Prop
  | .unix b, (addr, len) => sunPathOffset b < len ∧ addr.sunPath.head? ≠ some 0
  | .winsock, buf => (buf.drop 2).head? ≠ some 0

def Sound : (σ : Stack) → σ.Path → Prop
  | .unix _, path => path ≠ []
  | .winsock, path => path ≠ [] ∧ (0 ∈ path → ∀ s, Winsock.toStr path = some s → Winsock.UNIX_PATH_CAP - 1 < len s)

end Stack

theorem takeWhile_zeros (bytes : List UInt8) (n : ℕ) :
    (bytes ++ List.replicate n 0).takeWhile (· ≠ 0) = bytes.takeWhile (· ≠ 0) := by
  induction bytes with
  | nil => cases n <;> simp [List.replicate_succ]
  | cons b bytes ih => rw [List.cons_append, List.takeWhile_cons, List.takeWhile_cons, ih]

theorem takeWhile_named {bytes : List UInt8} (h : 0 ∉ bytes) : bytes.takeWhile (· ≠ 0) = bytes :=
  List.takeWhile_eq_self_iff.mpr fun _ hc => decide_eq_true fun h0 => h (h0 ▸ hc)

theorem takeWhile_padded {path : Path} (h : 0 ∉ path) (n : ℕ) :
    (path ++ List.replicate n 0).takeWhile (· ≠ 0) = path := (takeWhile_zeros path n).trans (takeWhile_named h)

theorem fromSockaddrUn_trimmed {b : Backend} {addr : SockaddrUn} {len : ℕ} {bytes : List UInt8}
    {r : Option Path} (hlen : sunPathOffset b < len) (hfamily : addr.sunFamily = AF_UNIX)
    (htrim : trimPath b (addr.sunPath.take (min (len - sunPathOffset b) (sunPathLen b))) = bytes)
    (hr : (if bytes = [] then none else some bytes) = r) : fromSockaddrUn b addr len = .ok r := by
  rw [fromSockaddrUn, if_neg (by omega), if_neg (not_not.mpr hfamily)]
  dsimp only
  rw [htrim, ← hr]
  split_ifs <;> rfl

theorem fromSockaddrUn_padded {path : Path} (hne : path ≠ []) (hnul : 0 ∉ path) (sunLen : Option UInt8) {len : ℕ}
    (hlen : sunPathOffset .bsd + path.length ≤ len) (hcap : path.length < sunPathLen .bsd) :
    fromSockaddrUn .bsd ⟨sunLen, AF_UNIX, path ++ List.replicate (sunPathLen .bsd - path.length) 0⟩ len =
      .ok (some path) := by
  have hpos := List.length_pos_iff.mpr hne
  have htake : (path ++ List.replicate (sunPathLen .bsd - path.length) (0 : UInt8)).take
      (min (len - sunPathOffset .bsd) (sunPathLen .bsd)) =
        path ++ List.replicate (min (len - sunPathOffset .bsd) (sunPathLen .bsd) - path.length) 0 := by
    rw [List.take_append, List.take_of_length_le (by omega), List.take_replicate]
    congr 2
    omega
  have htrim := takeWhile_padded hnul (min (len - sunPathOffset .bsd) (sunPathLen .bsd) - path.length)
  rw [← htake] at htrim
  exact fromSockaddrUn_trimmed (by omega) rfl htrim (if_neg hne)

theorem fromSockaddrUn_zeros (sunLen : Option UInt8) (len : ℕ) :
    fromSockaddrUn .bsd ⟨sunLen, AF_UNIX, List.replicate (sunPathLen .bsd) 0⟩ len = .ok none := by
  by_cases hlen : len ≤ sunPathOffset .bsd
  · rw [fromSockaddrUn, if_pos hlen]
  · have htrim := takeWhile_padded List.not_mem_nil (min (min (len - sunPathOffset .bsd) (sunPathLen .bsd)) (sunPathLen .bsd))
    rw [List.nil_append, ← List.take_replicate] at htrim
    exact fromSockaddrUn_trimmed (by omega) rfl htrim (if_pos rfl)

theorem bsd_decodes_any_length (path : Path) (sunLen : Option UInt8) (len : ℕ) :
    (path ≠ [] → 0 ∉ path → path.length < sunPathLen .bsd → sunPathOffset .bsd + path.length ≤ len →
      fromSockaddrUn .bsd ⟨sunLen, AF_UNIX, path ++ List.replicate (sunPathLen .bsd - path.length) 0⟩ len =
        .ok (some path)) ∧
    fromSockaddrUn .bsd ⟨sunLen, AF_UNIX, List.replicate (sunPathLen .bsd) 0⟩ len = .ok none :=
  ⟨fun hne hnul hcap hlen => fromSockaddrUn_padded hne hnul sunLen hlen hcap, fromSockaddrUn_zeros sunLen len⟩

theorem bsd_decodes_whole_buffer : fromSockaddrUn .bsd ⟨none, AF_UNIX, 97 :: List.replicate 103 0⟩ 106 = .ok (some [97]) :=
  (bsd_decodes_any_length [97] none 106).1 (by decide) (by decide) (by decide) (by decide)

theorem toSockaddrUn_ok {b : Backend} {path : Path} {addr : SockaddrUn} {len : ℕ}
    (h : toSockaddrUn b path = .ok (addr, len)) :
    0 ∉ path ∧ path.length < sunPathLen b ∧ len = sunPathOffset b + path.length + 1 ∧ addr.sunFamily = AF_UNIX ∧
      addr.sunPath = path ++ List.replicate (sunPathLen b - path.length) 0 := by
  unfold toSockaddrUn at h
  split_ifs at h with hnul hcap
  obtain ⟨rfl, rfl⟩ := Prod.mk.inj (Except.ok.inj h)
  exact ⟨by simpa using hnul, by omega, rfl, rfl, rfl⟩

theorem toSockaddrUn_refusal {b : Backend} {path : Path} {e : PlatformError} (h : toSockaddrUn b path = .error e) :
    e.kind = .invalidInput := by
  unfold toSockaddrUn at h
  split_ifs at h with hnul hcap <;> exact Except.error.inj h ▸ rfl

theorem trimPath_terminated {path : Path} (h : 0 ∉ path) (b : Backend) : trimPath b (path ++ [0]) = path := by
  cases b with
  | linux =>
    rw [trimPath, if_pos List.getLast?_concat]
    exact List.dropLast_concat
  | bsd => exact takeWhile_padded h 1

theorem unix_decodes {b : Backend} {path : Path} {addr : SockaddrUn} {len : ℕ}
    (h : toSockaddrUn b path = .ok (addr, len)) :
    fromSockaddrUn b addr len = .ok (if path = [] then none else some path) := by
  obtain ⟨hnul, hcap, rfl, hfamily, hpath⟩ := toSockaddrUn_ok h
  have htake : addr.sunPath.take (min (sunPathOffset b + path.length + 1 - sunPathOffset b) (sunPathLen b)) =
      path ++ [0] := by
    have hmin : min (sunPathOffset b + path.length + 1 - sunPathOffset b) (sunPathLen b) = path.length + 1 := by omega
    obtain ⟨n, hn⟩ : ∃ n, sunPathLen b - path.length = n + 1 := ⟨sunPathLen b - path.length - 1, by omega⟩
    rw [hmin, hpath, hn, List.replicate_succ, List.take_length_add_append]
    rfl
  have htrim := trimPath_terminated hnul b
  rw [← htake] at htrim
  exact fromSockaddrUn_trimmed (by omega) hfamily htrim rfl

namespace Winsock

variable {path : List UInt16} {s : String} {buf : List UInt8}

theorem toStr_eq_some : toStr path = some s ↔ encode s.toList = path := by
  rw [toStr, Option.map_eq_some_iff]
  constructor
  · rintro ⟨cs, hcs, rfl⟩
    rw [String.toList_ofList]
    exact decode_eq_some.mp hcs
  · intro h
    exact ⟨s.toList, decode_eq_some.mpr h, String.ofList_toList⟩

theorem zero_mem_asBytes (h : toStr path = some s) : 0 ∈ asBytes s ↔ 0 ∈ path := by
  rw [← toStr_eq_some.mp h, mem_asBytes (by decide), mem_encode _ (by decide)]
  rfl

theorem eq_nil_iff (h : toStr path = some s) : asBytes s = [] ↔ path = [] := by
  rw [← toStr_eq_some.mp h, asBytes_eq_nil]
  constructor
  · rintro rfl
    rfl
  · intro h0
    have hnil : s.toList = [] := encode_inj (h0.trans (show [] = encode [] from rfl))
    rw [← String.ofList_toList (s := s), hnil]

theorem toSockaddrUn_refusal {e : PlatformError} (h : toSockaddrUn path = .error e) : e.kind = .invalidInput := by
  unfold toSockaddrUn at h
  split at h
  · exact Except.error.inj h ▸ rfl
  · dsimp only at h
    split_ifs at h
    exact Except.error.inj h ▸ rfl

theorem toSockaddrUn_ok (h : toSockaddrUn path = .ok buf) : ∃ s, toStr path = some s ∧ len s < UNIX_PATH_CAP ∧
    buf = leBytes 2 AF_UNIX ++ (asBytes s ++ List.replicate (UNIX_PATH_CAP - len s) 0) := by
  unfold toSockaddrUn at h
  cases hs : toStr path with
  | none => rw [hs] at h; cases h
  | some s =>
    rw [hs] at h
    dsimp only at h
    split_ifs at h with hcap
    rw [UNIX_PATH_CAP] at hcap ⊢
    exact ⟨s, rfl, by rw [len]; omega, (Except.ok.inj h).symm⟩

theorem winsock_decodes (h : toSockaddrUn path = .ok buf) (hs : toStr path = some s) :
    fromSockaddrUn buf buf.length =
      if (asBytes s).takeWhile (· ≠ 0) = [] then .ok none
      else
        match fromUtf8 ((asBytes s).takeWhile (· ≠ 0)) with
        | none => .error (.new .other .none "AF_UNIX peer path is not valid UTF-8")
        | some s => .ok (some (encode s.toList)) := by
  obtain ⟨t, ht, hcap, rfl⟩ := toSockaddrUn_ok h
  obtain rfl : t = s := Option.some.inj (ht.symm.trans hs)
  rw [fromSockaddrUn, Int.toNat_natCast]
  dsimp only
  rw [if_neg, List.take_left' (length_leBytes ..), leNat_leBytes, if_neg (fun h => h rfl), Nat.min_self, List.take_length,
    List.drop_left' (length_leBytes ..), takeWhile_zeros]
  rw [List.length_append, List.length_append, length_leBytes, List.length_replicate]
  omega

theorem winsock_decodes_sound (h : toSockaddrUn path = .ok buf) (hne : path ≠ []) (hnul : 0 ∉ path) :
    fromSockaddrUn buf buf.length = .ok (some path) := by
  obtain ⟨s, hs, -, -⟩ := toSockaddrUn_ok h
  have hbytes := takeWhile_named (mt (zero_mem_asBytes hs).mp hnul)
  rw [winsock_decodes h hs, hbytes, if_neg (mt (eq_nil_iff hs).mp hne), fromUtf8_asBytes]
  dsimp only
  rw [toStr_eq_some.mp hs]

theorem sound_of_decodes (h : toSockaddrUn path = .ok buf) (hfrom : fromSockaddrUn buf buf.length = .ok (some path)) :
    path ≠ [] ∧ 0 ∉ path := by
  obtain ⟨s, hs, -, -⟩ := toSockaddrUn_ok h
  rw [winsock_decodes h hs] at hfrom
  split_ifs at hfrom with hnone
  · cases hfrom
  · split at hfrom
    · cases hfrom
    · rename_i t ht
      have hts : t = s := by
        have htoStr := toStr_eq_some.mpr (Option.some.inj (Except.ok.inj hfrom))
        exact Option.some.inj (htoStr.symm.trans hs)
      have hbytes := fromUtf8_eq_some.mp ht
      rw [hts] at hbytes
      rw [← hbytes] at hnone
      refine ⟨mt (eq_nil_iff hs).mpr hnone, mt (zero_mem_asBytes hs).mpr fun h0 => ?_⟩
      rw [hbytes] at h0
      simpa using List.mem_takeWhile_imp h0

end Winsock

namespace Stack

theorem toSockaddrUn_refusal {σ : Stack} {path : σ.Path} {e : PlatformError} (h : σ.toSockaddrUn path = .error e) :
    e.kind = .invalidInput := by
  cases σ with
  | unix b => exact Net.toSockaddrUn_refusal h
  | winsock => exact Winsock.toSockaddrUn_refusal h

theorem sound_of_refusal {σ : Stack} {path : σ.Path} {e : PlatformError} (h : σ.toSockaddrUn path = .error e) :
    σ.Sound path := by
  cases σ with
  | unix b =>
    rintro rfl
    cases b <;> cases h
  | winsock =>
    refine ⟨?_, fun _ s hs => ?_⟩
    · rintro rfl
      cases h
    · rw [toSockaddrUn, Winsock.toSockaddrUn, hs] at h
      dsimp only at h
      split_ifs at h with hcap
      exact hcap

theorem winsock_sound_iff {path : List UInt16} {buf : List UInt8} (h : Winsock.toSockaddrUn path = .ok buf) :
    Sound .winsock path ↔ path ≠ [] ∧ 0 ∉ path := by
  obtain ⟨s, hs, hcap, -⟩ := Winsock.toSockaddrUn_ok h
  refine and_congr_right fun _ => ⟨fun hlong hnul => ?_, fun hnul h0 => absurd h0 hnul⟩
  have hlen := hlong hnul s hs
  omega

theorem decodes_iff {σ : Stack} {path : σ.Path} {addr : σ.Addr} (h : σ.toSockaddrUn path = .ok addr) :
    σ.fromSockaddrUn addr = .ok (some path) ↔ σ.Sound path := by
  cases σ with
  | unix b =>
    obtain ⟨addr, len⟩ := addr
    have hdecodes := unix_decodes h
    rw [fromSockaddrUn, Sound, hdecodes]
    by_cases hne : path = [] <;> simp [hne]
  | winsock =>
    rw [winsock_sound_iff h]
    exact ⟨Winsock.sound_of_decodes h, fun hsound => Winsock.winsock_decodes_sound h hsound.1 hsound.2⟩

theorem namesFile_of_sound {σ : Stack} {path : σ.Path} {addr : σ.Addr} (h : σ.toSockaddrUn path = .ok addr)
    (hsound : σ.Sound path) : σ.NamesFile addr := by
  have hhead {bytes zeros : List UInt8} (hne : bytes ≠ []) (hnul : 0 ∉ bytes) : (bytes ++ zeros).head? ≠ some 0 := by
    obtain ⟨c, cs, rfl⟩ := List.exists_cons_of_ne_nil hne
    exact fun hc => hnul (Option.some.inj hc ▸ List.mem_cons_self)
  cases σ with
  | unix b =>
    obtain ⟨addr, len⟩ := addr
    obtain ⟨hnul, -, rfl, -, hpath⟩ := toSockaddrUn_ok h
    refine ⟨by omega, ?_⟩
    rw [hpath]
    exact hhead hsound hnul
  | winsock =>
    obtain ⟨hne, hnul⟩ := (winsock_sound_iff h).mp hsound
    obtain ⟨s, hs, -, rfl⟩ := Winsock.toSockaddrUn_ok h
    rw [NamesFile, List.drop_left' (length_leBytes ..)]
    exact hhead (mt (Winsock.eq_nil_iff hs).mp hne) (mt (Winsock.zero_mem_asBytes hs).mp hnul)

theorem roundTrips_iff {σ : Stack} {path : σ.Path} : σ.RoundTrips path ↔ σ.Sound path := by
  cases h : σ.toSockaddrUn path with
  | error e => exact iff_of_true (.inl ⟨e, h, toSockaddrUn_refusal h⟩) (sound_of_refusal h)
  | ok addr =>
    rw [← decodes_iff h]
    constructor
    · rintro (⟨e, he, -⟩ | ⟨addr', h', hfrom⟩)
      · cases h.symm.trans he
      · cases h.symm.trans h'
        exact hfrom
    · exact fun hfrom => .inr ⟨addr, h, hfrom⟩

end Stack

theorem addresses_sound_iff (σ : Stack) (path : σ.Path) :
    (σ.RoundTrips path ↔ σ.Sound path) ∧
      (σ.Sound path → ∀ addr, σ.toSockaddrUn path = .ok addr →
        σ.NamesFile addr ∧ ∀ q, σ.Sound q → σ.toSockaddrUn q = .ok addr → q = path) := by
  refine ⟨Stack.roundTrips_iff, fun hsound addr h => ⟨Stack.namesFile_of_sound h hsound, fun q hq h' => ?_⟩⟩
  have hboth := ((Stack.decodes_iff h').mpr hq).symm.trans ((Stack.decodes_iff h).mpr hsound)
  exact Option.some.inj (Except.ok.inj hboth)

theorem addresses_confuse_paths :
    ¬Stack.RoundTrips .winsock [0x61, 0] ∧
      Winsock.toSockaddrUn [0x61, 0] = Winsock.toSockaddrUn [0x61] ∧ ∀ σ, ∃ path, ¬Stack.RoundTrips σ path := by
  refine ⟨?_, rfl, fun σ => ?_⟩
  · rw [Stack.roundTrips_iff]
    rintro ⟨-, hlong⟩
    exact absurd (hlong (by decide) "a\x00" rfl) (by decide)
  · cases σ with
    | unix b => exact ⟨[], mt Stack.roundTrips_iff.mp fun h => h rfl⟩
    | winsock => exact ⟨[], mt Stack.roundTrips_iff.mp fun h => h.1 rfl⟩

end Rustils.Net
