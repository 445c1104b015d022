import Rustils.Dbus.SignatureScan
import Rustils.Dbus.Types
import Rustils.Lib.Brackets

namespace Rustils.Dbus

open Platform Lib.Fuel Lib.Machine Lib.Brackets

def tooDeep : ℤ := 0x80000000

/-- Any number of `a`, then a code of one byte or a bracket and what follows it up to the first place
where as many brackets of its kind are closed as opened. -/
inductive Scanned : List UInt8 → Prop
  | basic {x : UInt8} {b : Basic} (h : TypeCode.ofByte x = some (.basic b)) : Scanned [x]
  | variant : Scanned [0x76]
  | array {bs : List UInt8} (h : Scanned bs) : Scanned (0x61 :: bs)
  | parens {bs : List UInt8} (h : Arrives 0x28 0x29 tooDeep 0 1 bs) : Scanned (0x28 :: bs)
  | braces {bs : List UInt8} (h : Arrives 0x7B 0x7D tooDeep 0 1 bs) : Scanned (0x7B :: bs)

inductive Overflowing : List UInt8 → Prop
  | array {bs : List UInt8} (h : Overflowing bs) : Overflowing (0x61 :: bs)
  | parens {bs : List UInt8} (h : Arrives 0x28 0x29 tooDeep tooDeep 1 bs) : Overflowing (0x28 :: bs)
  | braces {bs : List UInt8} (h : Arrives 0x7B 0x7D tooDeep tooDeep 1 bs) : Overflowing (0x7B :: bs)

def Deep (bs : List UInt8) : Prop := ∃ p, p <+: bs ∧ Overflowing p

inductive Complete : List UInt8 → Prop
  | basic {x : UInt8} {b : Basic} (h : TypeCode.ofByte x = some (.basic b)) : Complete [x]
  | variant : Complete [0x76]
  | array {bs : List UInt8} (h : Complete bs) : Complete (0x61 :: bs)
  | dict {x : UInt8} {b : Basic} {bs : List UInt8} (hkey : TypeCode.ofByte x = some (.basic b)) (h : Complete bs) :
      Complete (0x61 :: 0x7B :: (x :: bs ++ [0x7D]))
  | struct {fields : List (List UInt8)} (hne : fields ≠ []) (h : ∀ f ∈ fields, Complete f) :
      Complete (0x28 :: (fields.flatten ++ [0x29]))

theorem exists_prefix_cons {P : List UInt8 → Prop} (hnil : ¬P []) (b : UInt8) (bs : List UInt8) :
    (∃ p, p <+: b :: bs ∧ P p) ↔ ∃ p, p <+: bs ∧ P (b :: p) := by
  constructor
  · rintro ⟨p, hp, hP⟩
    rcases List.prefix_cons_iff.mp hp with rfl | ⟨t, rfl, ht⟩
    · exact absurd hP hnil
    · exact ⟨t, ht, hP⟩
  · rintro ⟨p, hp, hP⟩
    exact ⟨b :: p, List.prefix_cons_iff.mpr (.inr ⟨p, rfl, hp⟩), hP⟩

section Loop

variable {o c : UInt8} (hco : c ≠ o) {d : ℤ} (hd : 0 < d) (hlt : d < tooDeep)

include hco hd hlt

theorem bracketedLoop_cons (b : UInt8) (bs : List UInt8) (i : ℕ) :
    bracketedLoop o c (b :: bs) i d =
      if d + weight o c b = tooDeep then panicked
      else if d + weight o c b = 0 then .ok (i + 1)
      else bracketedLoop o c bs (i + 1) (d + weight o c b) := by
  rw [tooDeep] at hlt ⊢
  have hadd (x : ℤ) (hx : -1 ≤ x) (hle : d + x < 0x80000000) : addI32 d x = (.ok (d + x) : Outcome ℤ) :=
    if_pos ⟨by omega, by omega⟩
  rw [bracketedLoop]
  by_cases ho : b = o
  · rw [if_pos ho, ho, weight_open]
    by_cases hlim : d + 1 = 0x80000000
    · have hover : addI32 d 1 = (panicked : Outcome ℤ) := if_neg (by omega)
      rw [if_pos hlim, hover]
      rfl
    · rw [if_neg hlim, if_neg (by omega), hadd 1 (by omega) (by omega), ok_bind]
  · rw [if_neg ho]
    by_cases hc : b = c
    · have hlim : d + -1 ≠ 0x80000000 := by omega
      rw [if_pos hc, hc, weight_close hco, hadd (-1) (by omega) (by omega), ok_bind, if_neg hlim]
      rfl
    · rw [if_neg hc, weight_other ho hc, Int.add_zero, if_neg hlt.ne, if_neg hd.ne']

theorem bracketedLoop_ok_iff (bs : List UInt8) (i n : ℕ) :
    bracketedLoop o c bs i d = .ok n ↔ ∃ p, p <+: bs ∧ n = i + p.length ∧ Arrives o c tooDeep 0 d p := by
  induction bs generalizing i d with
  | nil =>
    refine iff_of_false (fun h => by cases h) ?_
    rintro ⟨p, hp, -, h⟩
    rw [List.prefix_nil.mp hp, arrives_nil] at h
    exact hd.ne' h
  | cons b bs ih =>
    have hw : -1 ≤ weight o c b ∧ weight o c b ≤ 1 := ⟨neg_one_le_weight b, weight_le_one b⟩
    have hnil : ¬(n = i + ([] : List UInt8).length ∧ Arrives o c tooDeep 0 d []) :=
      fun h => hd.ne' (arrives_nil.mp h.2)
    rw [bracketedLoop_cons hco hd hlt, exists_prefix_cons hnil]
    simp only [arrives_cons, and_iff_right (And.intro hd hlt)]
    split_ifs with hlim hzero
    · refine iff_of_false (fun h => by cases h) ?_
      rintro ⟨p, -, -, h⟩
      rw [hlim, arrives_stopped (by omega)] at h
      exact absurd h.2 (by decide)
    · constructor
      · intro h
        refine ⟨[], List.nil_prefix, (Except.ok.inj h).symm, arrives_nil.mpr hzero⟩
      · rintro ⟨p, -, hn, h⟩
        rw [arrives_stopped (by omega)] at h
        rw [hn, h.1]
        rfl
    · rw [ih (by omega) (by omega)]
      refine exists_congr fun p => and_congr_right fun _ => and_congr_left fun _ => ?_
      rw [List.length_cons]
      omega

theorem bracketedLoop_panicked_iff (bs : List UInt8) (i : ℕ) :
    bracketedLoop o c bs i d = panicked ↔ ∃ p, p <+: bs ∧ Arrives o c tooDeep tooDeep d p := by
  induction bs generalizing i d with
  | nil =>
    refine iff_of_false (fun h => by cases h) ?_
    rintro ⟨p, hp, h⟩
    rw [List.prefix_nil.mp hp, arrives_nil] at h
    exact hlt.ne h
  | cons b bs ih =>
    have hw : -1 ≤ weight o c b ∧ weight o c b ≤ 1 := ⟨neg_one_le_weight b, weight_le_one b⟩
    have hnil : ¬Arrives o c tooDeep tooDeep d [] := fun h => hlt.ne (arrives_nil.mp h)
    rw [bracketedLoop_cons hco hd hlt, exists_prefix_cons hnil]
    simp only [arrives_cons, and_iff_right (And.intro hd hlt)]
    split_ifs with hlim hzero
    · exact iff_of_true rfl ⟨[], List.nil_prefix, arrives_nil.mpr hlim⟩
    · refine iff_of_false (fun h => by cases h) ?_
      rintro ⟨p, -, h⟩
      rw [hzero, arrives_stopped (by omega)] at h
      exact absurd h.2 (by decide)
    · exact ih (by omega) (by omega) (i + 1)

end Loop

theorem bracketedLen_cons (o c : UInt8) (bs : List UInt8) :
    bracketedLen (o :: bs) o c = bracketedLoop o c bs 1 1 := by
  have hone : addI32 0 1 = (.ok 1 : Outcome ℤ) := rfl
  rw [bracketedLen, bracketedLoop, if_pos rfl, hone, ok_bind]

def TypeCode.written : TypeCode → UInt8 → Bool
  | .basic _, b => b ≠ 0x28 ∧ b ≠ 0x29 ∧ b ≠ 0x7B ∧ b ≠ 0x7D
  | .array, b => b = 0x61
  | .struct, b => b = 0x28
  | .variant, b => b = 0x76
  | .dictEntry, b => b = 0x7B

theorem written_of_code {b : UInt8} {code : TypeCode} (h : TypeCode.ofByte b = some code) : code.written b = true := by
  have hall : ∀ n < 256, (TypeCode.ofByte (UInt8.ofNat n)).all (·.written (UInt8.ofNat n)) = true := by decide +kernel
  have hb := hall b.toNat b.toNat_lt
  rwa [UInt8.ofNat_toNat, h] at hb

def Follows (leaf rest : List UInt8 → Prop) (target : ℤ) : TypeCode → List UInt8 → Prop
  | .basic _, bs | .variant, bs => leaf bs
  | .array, bs => rest bs
  | .struct, bs => Arrives 0x28 0x29 tooDeep target 1 bs
  | .dictEntry, bs => Arrives 0x7B 0x7D tooDeep target 1 bs

theorem scanned_cons {b : UInt8} {bs : List UInt8} {code : TypeCode} (h : TypeCode.ofByte b = some code) :
    Scanned (b :: bs) ↔ Follows (· = []) Scanned 0 code bs := by
  constructor
  · intro hs
    cases hs with
    | basic hcode =>
      cases h.symm.trans hcode
      rfl
    | variant =>
      cases h.symm.trans (by decide : TypeCode.ofByte 0x76 = some .variant)
      rfl
    | array hs =>
      cases h.symm.trans (by decide : TypeCode.ofByte 0x61 = some .array)
      exact hs
    | parens hs =>
      cases h.symm.trans (by decide : TypeCode.ofByte 0x28 = some .struct)
      exact hs
    | braces hs =>
      cases h.symm.trans (by decide : TypeCode.ofByte 0x7B = some .dictEntry)
      exact hs
  · intro hf
    have hb := written_of_code h
    rcases code with b | _ | _ | _ | _
    · obtain rfl : bs = [] := hf
      exact .basic h
    · obtain rfl := of_decide_eq_true hb
      exact .array hf
    · obtain rfl := of_decide_eq_true hb
      exact .parens hf
    · obtain rfl := of_decide_eq_true hb
      obtain rfl : bs = [] := hf
      exact .variant
    · obtain rfl := of_decide_eq_true hb
      exact .braces hf

theorem overflowing_cons {b : UInt8} {bs : List UInt8} {code : TypeCode} (h : TypeCode.ofByte b = some code) :
    Overflowing (b :: bs) ↔ Follows (fun _ => False) Overflowing tooDeep code bs := by
  constructor
  · intro hs
    cases hs with
    | array hs =>
      cases h.symm.trans (by decide : TypeCode.ofByte 0x61 = some .array)
      exact hs
    | parens hs =>
      cases h.symm.trans (by decide : TypeCode.ofByte 0x28 = some .struct)
      exact hs
    | braces hs =>
      cases h.symm.trans (by decide : TypeCode.ofByte 0x7B = some .dictEntry)
      exact hs
  · intro hf
    have hb := written_of_code h
    rcases code with b | _ | _ | _ | _
    · cases hf
    · obtain rfl := of_decide_eq_true hb
      exact .array hf
    · obtain rfl := of_decide_eq_true hb
      exact .parens hf
    · cases hf
    · obtain rfl := of_decide_eq_true hb
      exact .braces hf

theorem not_scanned_of_code {b : UInt8} {bs : List UInt8} (h : TypeCode.ofByte b = none) :
    ¬Scanned (b :: bs) ∧ ¬Overflowing (b :: bs) := by
  constructor
  · intro hs
    cases hs with
    | basic hcode => cases h.symm.trans hcode
    | _ => revert h; decide
  · intro hs
    cases hs <;> revert h <;> decide

theorem typeLen_ok_iff (bs : List UInt8) (n : ℕ) :
    typeLen bs = .ok n ↔ ∃ p, p <+: bs ∧ n = p.length ∧ Scanned p := by
  induction bs generalizing n with
  | nil =>
    refine iff_of_false (fun h => by cases h) ?_
    rintro ⟨p, hp, -, hs⟩
    rw [List.prefix_nil.mp hp] at hs
    cases hs
  | cons b bs ih =>
    have hnil : ¬(n = ([] : List UInt8).length ∧ Scanned []) := by
      rintro ⟨-, ⟨⟩⟩
    rw [exists_prefix_cons hnil, typeLen]
    rcases hcode : TypeCode.ofByte b with _ | code
    · refine iff_of_false (fun h => by cases h) ?_
      rintro ⟨p, -, -, hs⟩
      exact (not_scanned_of_code hcode).1 hs
    simp only [scanned_cons hcode, List.length_cons]
    have hleaf : (pure 1 : Outcome ℕ) = .ok n ↔ ∃ p, p <+: bs ∧ n = p.length + 1 ∧ p = [] := by
      constructor
      · intro h
        exact ⟨[], List.nil_prefix, (Except.ok.inj h).symm, rfl⟩
      · rintro ⟨p, -, hn, rfl⟩
        rw [hn]
        rfl
    have hbracket (o c : UInt8) (hco : c ≠ o) : bracketedLen (o :: bs) o c = .ok n ↔
        ∃ p, p <+: bs ∧ n = p.length + 1 ∧ Arrives o c tooDeep 0 1 p := by
      rw [bracketedLen_cons, bracketedLoop_ok_iff hco (by decide) (by decide)]
      simp only [Nat.add_comm 1]
    have hb := written_of_code hcode
    rcases code with _ | _ | _ | _ | _
    · exact hleaf
    · constructor
      · intro h
        obtain ⟨m, hm, hn⟩ := bind_eq_ok.mp h
        obtain ⟨p, hp, rfl, hs⟩ := (ih m).mp hm
        exact ⟨p, hp, (Except.ok.inj hn).symm.trans (Nat.add_comm 1 _), hs⟩
      · rintro ⟨p, hp, rfl, hs⟩
        refine bind_eq_ok.mpr ⟨p.length, (ih _).mpr ⟨p, hp, rfl, hs⟩, ?_⟩
        rw [Nat.add_comm]
        rfl
    · obtain rfl := of_decide_eq_true hb
      exact hbracket 0x28 0x29 (by decide)
    · exact hleaf
    · obtain rfl := of_decide_eq_true hb
      exact hbracket 0x7B 0x7D (by decide)

theorem typeLen_panicked_iff (bs : List UInt8) : typeLen bs = panicked ↔ Deep bs := by
  unfold Deep
  induction bs with
  | nil =>
    refine iff_of_false (fun h => by cases h) ?_
    rintro ⟨p, hp, hs⟩
    rw [List.prefix_nil.mp hp] at hs
    cases hs
  | cons b bs ih =>
    rw [exists_prefix_cons (fun h => by cases h), typeLen]
    rcases hcode : TypeCode.ofByte b with _ | code
    · refine iff_of_false (fun h => by cases h) ?_
      rintro ⟨p, -, hs⟩
      exact (not_scanned_of_code hcode).2 hs
    simp only [overflowing_cons hcode]
    have hleaf : (pure 1 : Outcome ℕ) = panicked ↔ ∃ p, p <+: bs ∧ False := by simp
    have hbracket (o c : UInt8) (hco : c ≠ o) : bracketedLen (o :: bs) o c = panicked ↔
        ∃ p, p <+: bs ∧ Arrives o c tooDeep tooDeep 1 p := by
      rw [bracketedLen_cons, bracketedLoop_panicked_iff hco (by decide) (by decide)]
    have hb := written_of_code hcode
    rcases code with _ | _ | _ | _ | _
    · exact hleaf
    · refine Iff.trans ?_ ih
      constructor
      · intro h
        rcases bind_eq_error.mp h with h | ⟨m, -, h⟩
        · exact h
        · cases h
      · intro h
        exact bind_eq_error.mpr (.inl h)
    · obtain rfl := of_decide_eq_true hb
      exact hbracket 0x28 0x29 (by decide)
    · exact hleaf
    · obtain rfl := of_decide_eq_true hb
      exact hbracket 0x7B 0x7D (by decide)

theorem typeLen_ne_unfinished (bs : List UInt8) : typeLen bs ≠ unfinished :=
  Foreign.typeLen (.inl rfl) bs

theorem Complete.nested {o c : UInt8} (hoc : Brackets o c) {bs : List UInt8} (h : Complete bs) : Nested o c bs := by
  have hother {x : UInt8} (hx : x ≠ 0x28 ∧ x ≠ 0x29 ∧ x ≠ 0x7B ∧ x ≠ 0x7D) : Nested o c [x] := by
    cases hoc
    · exact nested_single hx.1 hx.2.1
    · exact nested_single hx.2.2.1 hx.2.2.2
  have hbasic {x : UInt8} {b : Basic} (hx : TypeCode.ofByte x = some (.basic b)) : Nested o c [x] :=
    hother (of_decide_eq_true (written_of_code hx))
  induction h with
  | basic hx => exact hbasic hx
  | variant => exact hother (by decide)
  | array _ ih => exact (hother (by decide)).append ih
  | @dict x b bs hkey _ ih =>
    have hinner : Nested o c (x :: bs) := (hbasic hkey).append ih
    refine (hother (by decide : _ ∧ _)).append (k := 0x7B :: (x :: bs ++ [0x7D])) ?_
    cases hoc with
    | parens =>
      exact (nested_single (by decide) (by decide)).append (hinner.append (nested_single (by decide) (by decide)))
    | braces => exact hinner.wrap (by decide)
  | struct _ _ ih =>
    have hinner := nested_flatten ih
    cases hoc with
    | parens => exact hinner.wrap (by decide)
    | braces =>
      exact (nested_single (by decide) (by decide)).append (hinner.append (nested_single (by decide) (by decide)))

theorem Complete.scanned {bs : List UInt8} (h : Complete bs) : Scanned bs ∨ Deep bs := by
  induction h with
  | basic hx => exact .inl (.basic hx)
  | variant => exact .inl .variant
  | array _ ih =>
    rcases ih with hs | ⟨p, hp, hs⟩
    · exact .inl (.array hs)
    · exact .inr ⟨_, List.prefix_cons_iff.mpr (.inr ⟨p, rfl, hp⟩), .array hs⟩
  | @dict x b bs hkey h _ =>
    have hinner : Nested 0x7B 0x7D (x :: bs) := (Complete.basic hkey).nested .braces |>.append (h.nested .braces)
    rcases hinner.arrives tooDeep (by decide) (by decide) with hs | ⟨p, ⟨q, hp⟩, hs⟩
    · exact .inl (.array (.braces hs))
    · refine .inr ⟨0x61 :: 0x7B :: p, ⟨q, ?_⟩, .array (.braces hs)⟩
      rw [← hp]
      rfl
  | struct hne h _ =>
    rcases (nested_flatten fun f hf => (h f hf).nested .parens).arrives tooDeep (by decide) (by decide) with hs | ⟨p, ⟨q, hp⟩, hs⟩
    · exact .inl (.parens hs)
    · refine .inr ⟨0x28 :: p, ⟨q, ?_⟩, .parens hs⟩
      rw [← hp]
      rfl

theorem typeLen_scans (bs : List UInt8) :
    (∀ n, typeLen bs = .ok n ↔ n ≤ bs.length ∧ Scanned (bs.take n)) ∧
    (Returns (typeLen bs) ↔ ¬Deep bs) ∧
    ∀ g rest, bs = g ++ rest → Complete g → ¬Deep bs → typeLen bs = .ok g.length := by
  refine ⟨fun n => ?_, ?_, ?_⟩
  · rw [typeLen_ok_iff]
    constructor
    · rintro ⟨p, hp, rfl, hs⟩
      rw [← List.prefix_iff_eq_take.mp hp]
      exact ⟨hp.length_le, hs⟩
    · rintro ⟨hn, hs⟩
      exact ⟨bs.take n, List.take_prefix n bs, (List.length_take_of_le hn).symm, hs⟩
  · rw [returns_iff, ← typeLen_panicked_iff]
    exact and_iff_left (typeLen_ne_unfinished bs)
  · rintro g rest rfl hg hdeep
    rcases hg.scanned with hs | ⟨p, hp, hs⟩
    · exact (typeLen_ok_iff _ _).mpr ⟨g, List.prefix_append g rest, rfl, hs⟩
    · exact absurd ⟨p, hp.trans (List.prefix_append g rest), hs⟩ hdeep

theorem typeLen_takes_empty_struct :
    typeLen [0x28, 0x29] = .ok 2 ∧ ¬Complete (List.take 2 [0x28, 0x29]) := by
  refine ⟨rfl, fun h => ?_⟩
  have hempty : ∀ bs, Complete bs → bs ≠ [] := by
    rintro bs h rfl
    cases h
  generalize hbs : List.take 2 ([0x28, 0x29] : List UInt8) = bs at h
  cases h with
  | @struct fields hne h =>
    have hflat : fields.flatten = [] := by
      have hlen := congrArg List.length hbs
      rw [List.length_cons, List.length_append] at hlen
      exact List.eq_nil_of_length_eq_zero (Nat.succ.inj (Nat.succ.inj hlen)).symm
    obtain ⟨f, fs, rfl⟩ := List.exists_cons_of_ne_nil hne
    have hf := List.flatten_eq_nil_iff.mp hflat f List.mem_cons_self
    exact hempty f (h f List.mem_cons_self) hf
  | _ => cases hbs

end Rustils.Dbus
