import Rustils.Dbus.Signature

namespace Rustils.Dbus

open Platform Lib.Fuel Lib.Machine Lib.Utf8

inductive Ty
  | basic (b : Basic)
  | variant
  | array (elem : Ty)
  | struct (first : Ty) (rest : List Ty)
  | dict (key : Basic) (val : Ty)

def Basic.sig : Basic → String
  | .byte => "y"
  | .boolean => "b"
  | .num .int16 => "n"
  | .num .uint16 => "q"
  | .num .int32 => "i"
  | .num .uint32 => "u"
  | .num .int64 => "x"
  | .num .uint64 => "t"
  | .num .double => "d"
  | .string => "s"
  | .objectPath => "o"
  | .signature => "g"

mutual

def Ty.sig : Ty → String
  | .basic b => b.sig
  | .variant => "v"
  | .array elem => "a" ++ elem.sig
  | .struct first rest => "(" ++ (first.sig ++ sigs rest) ++ ")"
  | .dict key val => "\x7b" ++ (key.sig ++ val.sig) ++ "\x7d"

def sigs : List Ty → String
  | [] => ""
  | t :: ts => t.sig ++ sigs ts

end

def Ty.code : Ty → TypeCode
  | .basic b => .basic b
  | .variant => .variant
  | .array _ => .array
  | .struct _ _ => .struct
  | .dict _ _ => .dictEntry

theorem Basic.exists_sig (b : Basic) :
    ∃ c, asBytes b.sig = [c] ∧ TypeCode.ofByte c = some (.basic b) ∧
      c ≠ 0x28 ∧ c ≠ 0x29 ∧ c ≠ 0x7B ∧ c ≠ 0x7D := by
  rcases b with _ | _ | k | _ | _ | _
  · exact ⟨0x79, by decide⟩
  · exact ⟨0x62, by decide⟩
  · cases k
    · exact ⟨0x6E, by decide⟩
    · exact ⟨0x71, by decide⟩
    · exact ⟨0x69, by decide⟩
    · exact ⟨0x75, by decide⟩
    · exact ⟨0x78, by decide⟩
    · exact ⟨0x74, by decide⟩
    · exact ⟨0x64, by decide⟩
  · exact ⟨0x73, by decide⟩
  · exact ⟨0x6F, by decide⟩
  · exact ⟨0x67, by decide⟩

theorem sig_basic (b : Basic) : (Ty.basic b).sig = b.sig := rfl

theorem sig_variant : Ty.variant.sig = "v" := rfl

theorem sig_array (elem : Ty) : (Ty.array elem).sig = "a" ++ elem.sig := rfl

theorem sig_struct (first : Ty) (rest : List Ty) :
    (Ty.struct first rest).sig = "(" ++ (first.sig ++ sigs rest) ++ ")" := rfl

theorem sig_dict (key : Basic) (val : Ty) :
    (Ty.dict key val).sig = "\x7b" ++ (key.sig ++ val.sig) ++ "\x7d" := rfl

theorem asBytes_v : asBytes "v" = [0x76] := by decide
theorem asBytes_a : asBytes "a" = [0x61] := by decide
theorem asBytes_lparen : asBytes "(" = [0x28] := by decide
theorem asBytes_rparen : asBytes ")" = [0x29] := by decide
theorem asBytes_lbrace : asBytes "\x7b" = [0x7B] := by decide
theorem asBytes_rbrace : asBytes "\x7d" = [0x7D] := by decide

theorem Ty.exists_sig (t : Ty) : ∃ c cs, asBytes t.sig = c :: cs ∧ TypeCode.ofByte c = some t.code := by
  cases t with
  | basic b =>
    obtain ⟨c, hc, hcode, -⟩ := b.exists_sig
    exact ⟨c, [], by rw [sig_basic, hc], hcode⟩
  | variant => exact ⟨0x76, [], by rw [sig_variant, asBytes_v], by decide⟩
  | array elem => exact ⟨0x61, asBytes elem.sig, by rw [sig_array, asBytes_append, asBytes_a]; rfl, rfl⟩
  | struct first rest =>
    refine ⟨0x28, asBytes (first.sig ++ sigs rest) ++ asBytes ")", ?_, rfl⟩
    rw [sig_struct, asBytes_append, asBytes_append, asBytes_lparen]
    rfl
  | dict key val =>
    refine ⟨0x7B, asBytes (key.sig ++ val.sig) ++ asBytes "\x7d", ?_, rfl⟩
    rw [sig_dict, asBytes_append, asBytes_append, asBytes_lbrace]
    rfl

theorem Ty.sig_ne_empty (t : Ty) : t.sig ≠ "" := by
  obtain ⟨c, cs, h, -⟩ := t.exists_sig
  intro he
  rw [he] at h
  cases h

theorem Ty.sig_append_ne_empty (t : Ty) (rest : String) : t.sig ++ rest ≠ "" := by
  intro he
  have := t.sig_ne_empty
  simp_all

theorem len_array (elem : Ty) : len (Ty.array elem).sig = len elem.sig + 1 := by
  rw [sig_array, len_append, len, asBytes_a]
  exact Nat.add_comm _ _

theorem len_struct (first : Ty) (fields : List Ty) :
    len (Ty.struct first fields).sig = len (first.sig ++ sigs fields) + 2 := by
  rw [sig_struct, len_append, len_append, show len "(" = 1 from rfl, show len ")" = 1 from rfl]
  omega

theorem asBytes_struct (first : Ty) (fields : List Ty) (rest : List UInt8) :
    asBytes (Ty.struct first fields).sig ++ rest =
      0x28 :: (asBytes (first.sig ++ sigs fields) ++ 0x29 :: rest) := by
  simp [sig_struct, asBytes_lparen, asBytes_rparen]

theorem len_dict (key : Basic) (val : Ty) : len (Ty.dict key val).sig = len (key.sig ++ val.sig) + 2 := by
  rw [sig_dict, len_append, len_append, show len "\x7b" = 1 from rfl, show len "\x7d" = 1 from rfl]
  omega

theorem asBytes_dict (key : Basic) (val : Ty) (rest : List UInt8) :
    asBytes (Ty.dict key val).sig ++ rest = 0x7B :: (asBytes (key.sig ++ val.sig) ++ 0x7D :: rest) := by
  simp [sig_dict, asBytes_lbrace, asBytes_rbrace]

inductive Brackets : UInt8 → UInt8 → Prop
  | parens : Brackets 0x28 0x29
  | braces : Brackets 0x7B 0x7D

section Scan

variable {o c : UInt8} (hoc : Brackets o c)

include hoc in
theorem bracketedLoop_other {b : UInt8} (h : b ≠ 0x28 ∧ b ≠ 0x29 ∧ b ≠ 0x7B ∧ b ≠ 0x7D)
    (bs : List UInt8) (i : ℕ) (d : ℤ) :
    bracketedLoop o c (b :: bs) i d = bracketedLoop o c bs (i + 1) d := by
  rw [bracketedLoop]
  cases hoc
  · rw [if_neg h.1, if_neg h.2.1]
  · rw [if_neg h.2.2.1, if_neg h.2.2.2]

include hoc in
theorem bracketedLoop_bracketed {l r : UInt8} (hlr : Brackets l r) (inner rest : List UInt8)
    (i : ℕ) (d : ℤ) (hd : 1 ≤ d) (hbound : d + 1 < 2 ^ 31)
    (hinner : ∀ (i : ℕ) (d' : ℤ), 1 ≤ d' → d' ≤ d + 1 →
      bracketedLoop o c (inner ++ r :: rest) i d' = bracketedLoop o c (r :: rest) (i + inner.length) d') :
    bracketedLoop o c (l :: (inner ++ r :: rest)) i d =
      bracketedLoop o c rest (i + (inner.length + 2)) d := by
  have hplus : addI32 d 1 = (.ok (d + 1) : Outcome ℤ) := if_pos ⟨by omega, hbound⟩
  have hminus : addI32 (d + 1) (-1) = (.ok d : Outcome ℤ) := by
    rw [addI32, show d + 1 + -1 = d by omega, if_pos ⟨by omega, by omega⟩]
    rfl
  have hne : d ≠ 0 := by omega
  have hi : i + 1 + inner.length + 1 = i + (inner.length + 2) := by omega
  cases hoc <;> cases hlr
  · rw [bracketedLoop, if_pos rfl, hplus, ok_bind, hinner _ _ (by omega) (by omega), bracketedLoop,
      if_neg (by decide), if_pos rfl, hminus, ok_bind, if_neg hne, hi]
  · rw [bracketedLoop, if_neg (by decide), if_neg (by decide), hinner _ _ hd (by omega), bracketedLoop,
      if_neg (by decide), if_neg (by decide), hi]
  · rw [bracketedLoop, if_neg (by decide), if_neg (by decide), hinner _ _ hd (by omega), bracketedLoop,
      if_neg (by decide), if_neg (by decide), hi]
  · rw [bracketedLoop, if_pos rfl, hplus, ok_bind, hinner _ _ (by omega) (by omega), bracketedLoop,
      if_neg (by decide), if_pos rfl, hminus, ok_bind, if_neg hne, hi]

include hoc in
theorem bracketedLoop_basic (b : Basic) (rest : List UInt8) (i : ℕ) (d : ℤ) :
    bracketedLoop o c (asBytes b.sig ++ rest) i d = bracketedLoop o c rest (i + len b.sig) d := by
  obtain ⟨x, hx, -, hne⟩ := b.exists_sig
  rw [len, hx, List.singleton_append, bracketedLoop_other hoc hne, List.length_singleton]

mutual

theorem bracketedLoop_ty (hoc : Brackets o c) (t : Ty) (rest : List UInt8) (i : ℕ) (d : ℤ) (hd : 1 ≤ d)
    (hb : d + len t.sig < 2 ^ 31) :
    bracketedLoop o c (asBytes t.sig ++ rest) i d = bracketedLoop o c rest (i + len t.sig) d := by
  match t with
  | .basic b => exact bracketedLoop_basic hoc b rest i d
  | .variant =>
    rw [sig_variant, len, asBytes_v, List.singleton_append, bracketedLoop_other hoc (by decide),
      List.length_singleton]
  | .array elem =>
    rw [len_array] at hb ⊢
    rw [sig_array, asBytes_append, asBytes_a, List.singleton_append, List.cons_append,
      bracketedLoop_other hoc (by decide), bracketedLoop_ty hoc elem rest _ d hd (by omega)]
    congr 1
    omega
  | .struct first fields =>
    rw [len_struct] at hb ⊢
    rw [asBytes_struct, bracketedLoop_bracketed hoc .parens _ _ _ _ hd (by omega)]
    · rfl
    · intro i d' hd' hle
      rw [asBytes_append, List.append_assoc, bracketedLoop_ty hoc first _ _ _ hd' (by simp at hb; omega),
        bracketedLoop_sigs hoc fields _ _ _ hd' (by simp at hb; omega)]
      simp [len, Nat.add_assoc]
  | .dict key val =>
    rw [len_dict] at hb ⊢
    rw [asBytes_dict, bracketedLoop_bracketed hoc .braces _ _ _ _ hd (by omega)]
    · rfl
    · intro i d' hd' hle
      rw [asBytes_append, List.append_assoc, bracketedLoop_basic hoc,
        bracketedLoop_ty hoc val _ _ _ hd' (by simp at hb; omega)]
      simp [len, Nat.add_assoc]

theorem bracketedLoop_sigs (hoc : Brackets o c) (ts : List Ty) (rest : List UInt8) (i : ℕ) (d : ℤ)
    (hd : 1 ≤ d) (hb : d + len (sigs ts) < 2 ^ 31) :
    bracketedLoop o c (asBytes (sigs ts) ++ rest) i d = bracketedLoop o c rest (i + len (sigs ts)) d := by
  match ts with
  | [] => rfl
  | t :: ts =>
    rw [sigs, len_append] at hb ⊢
    rw [asBytes_append, List.append_assoc, bracketedLoop_ty hoc t _ _ _ hd (by omega),
      bracketedLoop_sigs hoc ts _ _ _ hd (by omega), Nat.add_assoc]

end

include hoc in
theorem bracketedLen_closed (inner rest : List UInt8)
    (hinner : ∀ i, bracketedLoop o c (inner ++ c :: rest) i 1 = bracketedLoop o c (c :: rest) (i + inner.length) 1) :
    bracketedLen (o :: (inner ++ c :: rest)) o c = .ok (inner.length + 2) := by
  have hplus : addI32 0 1 = (.ok 1 : Outcome ℤ) := rfl
  have hminus : addI32 1 (-1) = (.ok 0 : Outcome ℤ) := rfl
  have hne : c ≠ o := by cases hoc <;> decide
  rw [bracketedLen, bracketedLoop, if_pos rfl, hplus, ok_bind, hinner, bracketedLoop, if_neg hne,
    if_pos rfl, hminus, ok_bind, if_pos rfl]
  congr 1
  omega

end Scan

theorem typeLen_sig (t : Ty) (rest : List UInt8) (hb : len t.sig < 2 ^ 31) :
    typeLen (asBytes t.sig ++ rest) = .ok (len t.sig) := by
  match t with
  | .basic b =>
    obtain ⟨x, hx, hcode, -⟩ := b.exists_sig
    rw [sig_basic, len, hx, List.singleton_append, typeLen, hcode]
    rfl
  | .variant => rfl
  | .array elem =>
    rw [len_array] at hb ⊢
    have hcode : TypeCode.ofByte 0x61 = some .array := by decide
    rw [sig_array, asBytes_append, asBytes_a, List.singleton_append, List.cons_append, typeLen, hcode]
    simp only [typeLen_sig elem rest (by omega), ok_bind, Nat.add_comm 1]
    rfl
  | .struct first fields =>
    have hcode : TypeCode.ofByte 0x28 = some .struct := by decide
    rw [len_struct] at hb ⊢
    rw [asBytes_struct, typeLen, hcode]
    refine bracketedLen_closed .parens _ _ fun i => ?_
    rw [asBytes_append, List.append_assoc, bracketedLoop_ty .parens first _ _ _ (Int.le_refl 1) (by simp at hb; omega),
      bracketedLoop_sigs .parens fields _ _ _ (Int.le_refl 1) (by simp at hb; omega)]
    simp [len, Nat.add_assoc]
  | .dict key val =>
    have hcode : TypeCode.ofByte 0x7B = some .dictEntry := by decide
    rw [len_dict] at hb ⊢
    rw [asBytes_dict, typeLen, hcode]
    refine bracketedLen_closed .braces _ _ fun i => ?_
    rw [asBytes_append, List.append_assoc, bracketedLoop_basic .braces,
      bracketedLoop_ty .braces val _ _ _ (Int.le_refl 1) (by simp at hb; omega)]
    simp [len, Nat.add_assoc]

theorem splitOne_sig (t : Ty) (rest : String) (hb : len t.sig < 2 ^ 31) :
    splitOne (t.sig ++ rest) = .ok (t.sig, rest) := by
  rw [splitOne, asBytes_append, typeLen_sig t _ hb, ok_bind, splitAtOrPanic, splitAt_append]
  rfl

end Rustils.Dbus
