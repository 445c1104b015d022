import Rustils.Lib.Pieces
import Rustils.WinFs.Nt

namespace Rustils.Security.Random

open Lib.Pieces Platform Platform.Errmap WinFs.Nt

def EINTR : Int32 := 4
def ENOSYS : Int32 := 38

def errnoErr (op : String) (code : Int32) : PlatformError :=
  .new (if code = ENOSYS then .unsupported else .other) (.errno code) op

def negative : NtStatus → Bool
  | .other code => 0x80000000 ≤ code
  | _ => true

inductive Reply (C : Type)
  | wrote (bytes : List UInt8)
  | failed (code : C)

def Reply.bytes {C : Type} : Reply C → List UInt8
  | .wrote bytes => bytes
  | .failed _ => []

structure Call where
  pieces : List (Piece UInt8)
  returned : Option (Result Unit)

section Loop

variable {C : Type} (refusal : Reply C → Option PlatformError) (len : ℕ)

/-- The turns of the loop over `buf[filled..]`; the generator writes no more than it is asked for. -/
def fillFrom : ℕ → List (Piece UInt8) → List (Reply C) → Call
  | filled, pieces, [] => ⟨pieces, if filled < len then none else some (.ok ())⟩
  | filled, pieces, reply :: replies =>
    if filled < len then
      match refusal reply with
      | some e => ⟨pieces, some (.error e)⟩
      | none =>
        let bytes := reply.bytes.take (len - filled)
        fillFrom (filled + bytes.length) (pieces ++ [⟨filled, bytes⟩]) replies
    else ⟨pieces, some (.ok ())⟩

end Loop

def linuxRefusal : Reply Int32 → Option PlatformError
  | .wrote _ => none
  | .failed code => if code = EINTR then none else some (errnoErr "getrandom" code)

section Windows

-- `RtlNtStatusToDosError`
variable (dosError : NtStatus → UInt32)

def donorRefusal : Reply NtStatus → Option PlatformError
  | .wrote [] => some (.new .other .none "BCryptGenRandom made no progress")
  | .wrote _ => none
  | .failed code => some (ntErr dosError code "BCryptGenRandom" [])

/-- One call for `len as u32` bytes, all of which are written unless the status is negative. -/
def fillWhole (len : ℕ) (status : NtStatus) (source : ℕ → UInt8) : Call :=
  if negative status then ⟨[], some (.error (ntErr dosError status "BCryptGenRandom" []))⟩
  else ⟨[⟨0, (List.range (UInt32.ofNat len).toNat).map source⟩], some (.ok ())⟩

end Windows

inductive Setting
  | linux (replies : List (Reply Int32))
  | trackW (replies : List (Reply NtStatus))
  | windowsSys (status : NtStatus) (source : ℕ → UInt8)

def fillRandom (dosError : NtStatus → UInt32) (len : ℕ) : Setting → Call
  | .linux replies => fillFrom linuxRefusal len 0 [] replies
  | .trackW replies => fillFrom (donorRefusal dosError) len 0 [] replies
  | .windowsSys status source => fillWhole dosError len status source

def Fills (buf : List UInt8) (c : Call) : Prop :=
  c.returned = some (.ok ()) → ∀ i < buf.length, ∃ b, (stored buf c.pieces)[i]? = some b ∧ Once c.pieces i b

def Setting.Narrows : Setting → Prop
  | .windowsSys status _ => negative status = false
  | _ => False

section Loop

variable {C : Type} {refusal : Reply C → Option PlatformError} {len filled : ℕ} {pieces : List (Piece UInt8)}
  {replies : List (Reply C)}

theorem fillFrom_tiled (h : Tiled pieces filled) (hle : filled ≤ len) :
    ∃ n ≤ len, Tiled (fillFrom refusal len filled pieces replies).pieces n ∧
      ((fillFrom refusal len filled pieces replies).returned = some (.ok ()) → n = len) := by
  induction replies generalizing filled pieces with
  | nil =>
    refine ⟨filled, hle, h, ?_⟩
    simp only [fillFrom]
    split_ifs with hlt <;> simp
    omega
  | cons reply replies ih =>
    rw [fillFrom]
    split_ifs with hlt
    · cases refusal reply with
      | some e => exact ⟨filled, hle, h, by simp⟩
      | none =>
        apply ih (h.snoc _)
        simp
        omega
    · exact ⟨filled, hle, h, fun _ => by omega⟩

end Loop

variable {dosError : NtStatus → UInt32} {buf : List UInt8}

theorem fills_of_tiled {c : Call} {n : ℕ} (h : Tiled c.pieces n) (hn : n ≤ buf.length)
    (hall : c.returned = some (.ok ()) → n = buf.length) : Fills buf c := by
  intro hok i hi
  have hlen : i < (c.pieces.flatMap Piece.data).length := by rwa [h.length, hall hok]
  refine ⟨_, ?_, h.once hlen⟩
  rw [h.stored hn, List.getElem?_append_left hlen, List.getElem?_eq_getElem hlen]

theorem fills_loop {C : Type} {refusal : Reply C → Option PlatformError} (replies : List (Reply C)) :
    Fills buf (fillFrom refusal buf.length 0 [] replies) := by
  obtain ⟨n, hn, htiled, hall⟩ : ∃ n ≤ buf.length, Tiled (fillFrom refusal buf.length 0 [] replies).pieces n ∧ _ :=
    fillFrom_tiled .nil (Nat.zero_le _)
  exact fills_of_tiled htiled hn hall

theorem fills_whole_iff {status : NtStatus} {source : ℕ → UInt8} :
    Fills buf (fillWhole dosError buf.length status source) ↔
      (negative status = false → buf.length < 2 ^ 32) := by
  cases hstatus : negative status with
  | true => simp [fillWhole, hstatus, Fills]
  | false =>
    simp only [fillWhole, hstatus, Bool.false_eq_true, if_false, forall_const]
    constructor
    · intro h
      by_contra hlong
      have hlt : (UInt32.ofNat buf.length).toNat < buf.length := by
        simp
        omega
      obtain ⟨b, -, front, p, back, hps, hp, -⟩ := h rfl _ hlt
      have hmem : p ∈ front ++ p :: back := by simp
      rw [← hps, List.mem_singleton] at hmem
      rw [hmem, put_behind (by simp)] at hp
      cases hp
    · intro hlt
      apply fills_of_tiled (Tiled.nil.snoc _)
      · simp
        omega
      · simp
        omega

theorem fill_random_fills_iff (dosError : NtStatus → UInt32) (buf : List UInt8) (s : Setting) :
    Fills buf (fillRandom dosError buf.length s) ↔ (s.Narrows → buf.length < 2 ^ 32) := by
  cases s with
  | linux replies => exact iff_of_true (fills_loop replies) False.elim
  | trackW replies => exact iff_of_true (fills_loop replies) False.elim
  | windowsSys status source => exact fills_whole_iff

theorem long_buffer_left_as_it_was :
    ¬ Fills (List.replicate (2 ^ 32) 0)
      (fillRandom (fun _ => 0) (List.replicate (2 ^ 32) (0 : UInt8)).length (.windowsSys (.other 0) fun _ => 7)) := by
  intro h
  have hlt := fills_whole_iff.mp h rfl
  rw [List.length_replicate] at hlt
  exact Nat.lt_irrefl _ hlt

end Rustils.Security.Random
