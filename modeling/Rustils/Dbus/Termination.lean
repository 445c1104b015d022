import Mathlib.Data.Prod.Lex
import Rustils.Dbus.Faults

namespace Rustils.Dbus

open Platform Lib.Fuel Lib.Machine Lib.Utf8

variable {buf : Slice} {c c' : Call}

inductive Form
  | types (sig : String)
  | type (ty : String)

/-- The forms whose values take no bytes, once aligned. -/
inductive ZeroSize : Form → Prop
  | nil : ZeroSize (.types "")
  | cons {sig ty rest : String} : sig ≠ "" → splitOne sig = .ok (ty, rest) → ZeroSize (.type ty) →
    ZeroSize (.types rest) → ZeroSize (.types sig)
  | struct {ty inner : String} : leading ty = some .struct → slice ty 1 (len ty - 1) = some inner →
    ZeroSize (.types inner) → ZeroSize (.type ty)
  | dictEntry {ty inner keyTy valTy : String} : leading ty = some .dictEntry →
    slice ty 1 (len ty - 1) = some inner → splitOne inner = .ok (keyTy, valTy) →
    ZeroSize (.type keyTy) → ZeroSize (.type valTy) → ZeroSize (.type ty)

def Form.at (off : ℕ) : Form → Call
  | .types sig => .seq sig off
  | .type ty => .one ty off

theorem Ends.zeroSize {stop : ℕ} (h : Ends buf c stop) (hstop : stop = c.off) (f : Form)
    (hf : c = f.at c.off) : ZeroSize f := by
  induction h generalizing f with
  | empty off =>
    cases f <;> cases hf
    exact .nil
  | seq hne hsplit hone hseq ih ih' =>
    cases f <;> cases hf
    have := hone.le
    have := hseq.le
    simp only [Call.off] at *
    exact .cons hne hsplit (ih (by omega) _ rfl) (ih' (by omega) _ rfl)
  | basic _ hb =>
    have := unmarshalBasic_ok hb
    simp only [Call.off] at hstop
    omega
  | array _ hh _ _ =>
    have := arrayHeader_ok hh
    simp only [Call.off] at hstop
    omega
  | struct hlead hh hseq ih =>
    cases f <;> cases hf
    obtain ⟨hstart, -, hslice⟩ := bracketHeader_ok hh
    have := hseq.le
    simp only [Call.off] at *
    exact .struct hlead hslice (ih (by omega) _ rfl)
  | variant _ hh hone _ =>
    have := variantHeader_ok hh
    have := hone.le
    simp only [Call.off] at *
    omega
  | dictEntry hlead hh hsplit hkey hval ih ih' =>
    cases f <;> cases hf
    obtain ⟨hstart, -, hslice⟩ := bracketHeader_ok hh
    have := hkey.le
    have := hval.le
    simp only [Call.off] at *
    exact .dictEntry hlead hslice hsplit (ih (by omega) _ rfl) (ih' (by omega) _ rfl)
  | done => cases f <;> cases hf
  | item => cases f <;> cases hf

theorem bracketHeader_aligned {ty inner : String} {off : ℕ} (hslice : slice ty 1 (len ty - 1) = some inner)
    (h8 : 8 ∣ off) (hle : off ≤ buf.length) : bracketHeader ty buf off = .ok (inner, off) := by
  have hpad : padding off 8 = 0 := by
    unfold padding
    omega
  have ha : alignRead buf off 8 = .ok (off + padding off 8) := alignRead_of_le isAlign_eight (by omega)
  rw [hpad, Nat.add_zero] at ha
  rw [bracketHeader, ha, ok_bind, sliceOrPanic_ok.mpr hslice, ok_bind, pure_eq_ok]

theorem ZeroSize.ends {f : Form} (h : ZeroSize f) {off : ℕ} (h8 : 8 ∣ off) (hle : off ≤ buf.length) :
    Ends buf (f.at off) off := by
  induction h with
  | nil => exact .empty off
  | cons hne hsplit _ _ ih ih' => exact .seq hne hsplit ih ih'
  | struct hlead hslice _ ih => exact .struct hlead (bracketHeader_aligned hslice h8 hle) ih
  | dictEntry hlead hslice hsplit _ _ ih ih' =>
    exact .dictEntry hlead (bracketHeader_aligned hslice h8 hle) hsplit ih ih'

theorem ZeroSize.elemAlign {ty : String} (h : ZeroSize (.type ty)) : elemAlign ty = 8 := by
  have hlead : leading ty = some .struct ∨ leading ty = some .dictEntry := by
    cases h with
    | struct hlead => exact .inl hlead
    | dictEntry hlead => exact .inr hlead
  have halign {code : TypeCode} (hlead : leading ty = some code) : Dbus.elemAlign ty = code.align := by
    unfold leading at hlead
    unfold Dbus.elemAlign
    split
    case h_1 b bs hb =>
      rw [hb] at hlead
      have : TypeCode.ofByte b = some code := hlead
      simp [alignOf, this]
    case h_2 hb =>
      rw [hb] at hlead
      cases hlead
  rcases hlead with h | h
  · exact halign h
  · exact halign h

def Call.size : Call → ℕ
  | .one ty _ => 2 * len ty
  | .seq sig _ => 2 * len sig + 1
  | .items elemSig _ _ => 2 * len elemSig + 1

def Call.measure (buf : Slice) (c : Call) : ℕ ×ₗ ℕ := toLex (buf.length - c.off, c.size)

theorem Call.measure_lt_of_off (h : c.off < c'.off) (hle : c'.off ≤ buf.length) :
    c'.measure buf < c.measure buf :=
  Prod.Lex.toLex_lt_toLex.mpr (.inl (by omega))

theorem Call.measure_lt_of_size (h : c.off ≤ c'.off) (hsize : c'.size < c.size) :
    c'.measure buf < c.measure buf := by
  rw [Call.measure, Call.measure, Prod.Lex.toLex_lt_toLex]
  rcases Nat.lt_or_ge (buf.length - c'.off) (buf.length - c.off) with hlt | hge
  · exact .inl hlt
  · exact .inr ⟨by simp only; omega, hsize⟩

theorem Calls.measure_lt (h : Calls buf c c') :
    c'.measure buf < c.measure buf ∨
      ∃ elemSig stop off, c = .items elemSig stop off ∧ off < stop ∧ ZeroSize (.type elemSig) := by
  cases h with
  | first hne hsplit =>
    obtain ⟨rfl, -⟩ := splitOne_ok hsplit
    exact .inl (Call.measure_lt_of_size (Nat.le_refl _) (by simp only [Call.size, len_append]; omega))
  | rest hne hsplit hend =>
    obtain ⟨rfl, hpos⟩ := splitOne_ok hsplit
    exact .inl (Call.measure_lt_of_size hend.le (by simp only [Call.size, len_append]; omega))
  | items hlead hh =>
    have := arrayHeader_ok hh
    exact .inl (Call.measure_lt_of_off (by simp only [Call.off]; omega) (by simp only [Call.off]; omega))
  | fields hlead hh =>
    obtain ⟨hstart, -, hslice⟩ := bracketHeader_ok hh
    have := len_inner hslice
    exact .inl (Call.measure_lt_of_size (by simp only [Call.off]; omega) (by simp only [Call.size]; omega))
  | inner hlead hh =>
    obtain ⟨hlt, hle, -⟩ := variantHeader_ok hh
    exact .inl (Call.measure_lt_of_off hlt hle)
  | key hlead hh hsplit =>
    obtain ⟨hstart, -, hslice⟩ := bracketHeader_ok hh
    obtain ⟨rfl, -⟩ := splitOne_ok hsplit
    have := len_inner hslice
    rw [len_append] at this
    exact .inl (Call.measure_lt_of_size (by simp only [Call.off]; omega) (by simp only [Call.size]; omega))
  | val hlead hh hsplit hend =>
    obtain ⟨hstart, -, hslice⟩ := bracketHeader_ok hh
    obtain ⟨rfl, -⟩ := splitOne_ok hsplit
    have := len_inner hslice
    have hle := hend.le
    rw [len_append] at this
    simp only [Call.off] at hle
    exact .inl (Call.measure_lt_of_size (by simp only [Call.off]; omega) (by simp only [Call.size]; omega))
  | item hlt => exact .inl (Call.measure_lt_of_size (Nat.le_refl _) (by simp only [Call.size]; omega))
  | next hlt hend =>
    rcases Nat.eq_or_lt_of_le hend.le with heq | hoff
    · exact .inr ⟨_, _, _, rfl, hlt, hend.zeroSize heq.symm _ rfl⟩
    · exact .inl (Call.measure_lt_of_off hoff hend.one_le)

theorem Call.head_ne_unfinished (buf : Slice) (c : Call) : c.head buf ≠ .error .unfinished := fun h =>
  absurd (Call.head_error (.inl (.inl rfl)) h).1 (by simp)

def EndlessArray (buf : Slice) (c : Call) : Prop :=
  ∃ ty off elemSig start stop, c = .one ty off ∧ leading ty = some .array ∧
    arrayHeader ty buf off = .ok (elemSig, start, stop) ∧ start < stop ∧ ZeroSize (.type elemSig)

theorem items_unfinished {elemSig : String} {stop off : ℕ} (hz : ZeroSize (.type elemSig)) (h8 : 8 ∣ off)
    (hlt : off < stop) (hle : stop ≤ buf.length) : (Call.items elemSig stop off).endOf buf = unfinished := by
  have hone : (Call.one elemSig off).endOf buf = .ok off := (hz.ends h8 (by omega)).endOf
  obtain ⟨fuel, hfuel⟩ := (Call.items elemSig stop off).exists_endFuel buf
  rw [← hfuel]
  clear hfuel
  induction fuel with
  | zero => rw [Call.endFuel, unmarshalItemsFuel]; rfl
  | succ fuel ih =>
    -- the element leaves the offset where it was, so the next iteration is this one again
    rw [Call.endFuel_succ, Call.body, if_pos hlt]
    rcases (Call.one elemSig off).endFuel_extends buf fuel with h | h
    · rw [h, error_bind]
    · rw [h, hone, ok_bind, ih]

theorem EndlessArray.unfinished (h : EndlessArray buf c) : c.endOf buf = unfinished := by
  obtain ⟨ty, off, elemSig, start, stop, rfl, hlead, hh, hlt, hz⟩ := h
  obtain ⟨-, -, hle, -, hstart⟩ := arrayHeader_ok hh
  rw [contentStart, hz.elemAlign, add_padding isAlign_eight] at hstart
  have h8 : 8 ∣ start := hstart ▸ Nat.dvd_mul_left 8 _
  exact (Calls.items hlead hh).error (items_unfinished hz h8 hlt hle)

section NoEndlessArray

variable {root : Call} (hroot : ∀ elemSig stop off, root ≠ .items elemSig stop off)
  (hno : Avoids buf (EndlessArray buf) root)

include hroot hno in
theorem not_zeroSize_of_reaches {elemSig : String} {stop off : ℕ}
    (h : Reaches buf root (.items elemSig stop off)) (hlt : off < stop) : ¬ ZeroSize (.type elemSig) := by
  generalize hc : Call.items elemSig stop off = c at h
  induction h generalizing off with
  | refl => exact absurd hc.symm (hroot _ _ _)
  | tail hreach hcalls ih =>
    subst hc
    cases hcalls with
    | items hlead hh => exact fun hz => hno _ hreach ⟨_, _, _, _, _, rfl, hlead, hh, hlt, hz⟩
    | next hlt' hend => exact ih hlt' rfl

include hroot hno in
theorem endOf_ne_unfinished (c : Call) (h : Reaches buf root c) : c.endOf buf ≠ unfinished := by
  induction hm : c.measure buf using WellFoundedLT.induction generalizing c with
  | ind m ih =>
    subst hm
    intro hc
    rw [Call.endOf_eq] at hc
    obtain hhead | ⟨c', hcalls, hc'⟩ := Call.body_error (fun _ _ => ends_iff.mpr) (.inl (.inl rfl)) hc
    · exact c.head_ne_unfinished buf hhead
    · rcases hcalls.measure_lt with hlt | ⟨elemSig, stop, off, rfl, hoff, hz⟩
      · exact ih _ hlt c' (h.tail hcalls) rfl hc'
      · exact not_zeroSize_of_reaches hroot hno h hoff hz

end NoEndlessArray

theorem seq_ne_unfinished {sig : String} {off : ℕ} :
    (Call.seq sig off).endOf buf ≠ unfinished ↔ Avoids buf (EndlessArray buf) (.seq sig off) := by
  refine ⟨fun h c hreach hendless => h (hreach.error hendless.unfinished), fun h => ?_⟩
  exact endOf_ne_unfinished (fun _ _ _ => Call.noConfusion) h _ .refl

theorem length_le_of_unmarshalItems {elemSig : String} {stop off last : ℕ} {items : List Value}
    (hz : ¬ ZeroSize (.type elemSig)) (h : unmarshalItems elemSig stop buf off = .ok (items, last)) :
    off + items.length ≤ last := by
  obtain ⟨fuel, hfuel⟩ := exists_limit (unmarshalItemsFuel · elemSig stop buf off)
  replace hfuel : unmarshalItemsFuel fuel elemSig stop buf off = .ok (items, last) := hfuel.trans h
  clear h
  induction fuel generalizing off items with
  | zero => rw [unmarshalItemsFuel] at hfuel; cases hfuel
  | succ fuel ih =>
    rw [unmarshalItemsFuel] at hfuel
    split_ifs at hfuel with hlt
    · simp only [bind_eq_ok] at hfuel
      obtain ⟨⟨v, mid⟩, hone, ⟨vs, last'⟩, hitems, h⟩ := hfuel
      cases h
      have hend : Ends buf (.one elemSig off) mid :=
        ends_of_endFuel fuel _ _ (map_eq_ok.mpr ⟨_, hone, rfl⟩)
      have hmid : off < mid := by
        refine Nat.lt_of_le_of_ne hend.le fun heq => hz (hend.zeroSize heq.symm _ rfl)
      have := ih hitems
      simp only [List.length_cons]
      omega
    · cases hfuel
      exact Nat.le_refl _

theorem length_le_of_unmarshalOne {ty elemSig : String} {off start stop last : ℕ} {items : List Value}
    (hlead : leading ty = some .array) (hh : arrayHeader ty buf off = .ok (elemSig, start, stop))
    (h : unmarshalOne ty buf off = .ok (.array elemSig items, last)) : items.length ≤ stop - start := by
  have hend : (Call.one ty off).endOf buf = .ok last := map_eq_ok.mpr ⟨_, h, rfl⟩
  obtain ⟨b, hb, hcode⟩ := firstByte_of_leading hlead
  rw [unmarshalOne_eq] at h
  simp only [hb, ok_bind, hcode, hh, bind_eq_ok] at h
  obtain ⟨⟨vs, last'⟩, hitems, h⟩ := h
  dsimp only at h
  split_ifs at h with hlast
  cases h
  rw [not_not.mp hlast] at hitems
  by_cases hlt : start < stop
  · have hz : ¬ ZeroSize (.type elemSig) := by
      intro hz
      rw [EndlessArray.unfinished ⟨_, _, _, _, _, rfl, hlead, hh, hlt, hz⟩] at hend
      cases hend
    have := length_le_of_unmarshalItems hz hitems
    omega
  · rw [unmarshalItems_eq, if_neg hlt] at hitems
    cases hitems
    exact Nat.zero_le _

theorem unmarshal_terminates_iff (sig : String) (buf : Slice) (off : ℕ) :
    (unmarshal sig buf off ≠ unfinished ∧
      (∀ elemSig stop o mid, Reaches buf (.seq sig off) (.items elemSig stop o) → o < stop →
        Ends buf (.one elemSig o) mid → o < mid) ∧
      (∀ ty o elemSig start stop items last, Reaches buf (.seq sig off) (.one ty o) →
        leading ty = some .array → arrayHeader ty buf o = .ok (elemSig, start, stop) →
        unmarshalOne ty buf o = .ok (.array elemSig items, last) → items.length ≤ stop - start)) ↔
      Avoids buf (EndlessArray buf) (.seq sig off) := by
  have hroot (elemSig : String) (stop o : ℕ) : Call.seq sig off ≠ .items elemSig stop o := nofun
  have hfinish : unmarshal sig buf off ≠ unfinished ↔ Avoids buf (EndlessArray buf) (.seq sig off) := by
    rw [← seq_ne_unfinished, Call.endOf, ne_eq, ne_eq, map_eq_error]
  constructor
  · exact fun h => hfinish.mp h.1
  · intro hno
    refine ⟨hfinish.mpr hno, fun elemSig stop o mid hreach hlt hend => ?_, ?_⟩
    · refine Nat.lt_of_le_of_ne hend.le fun heq => ?_
      exact not_zeroSize_of_reaches hroot hno hreach hlt (hend.zeroSize heq.symm _ rfl)
    · exact fun ty o elemSig start stop items last _ => length_le_of_unmarshalOne

theorem unmarshal_empty_structs_unfinished :
    unmarshal "a()" ⟨[1, 0, 0, 0, 0, 0, 0, 0, 0], by decide⟩ 0 = unfinished := by
  have hsplit : splitOne "a()" = .ok ("a()", "") := by decide
  have hinner : slice "()" 1 (len "()" - 1) = some "" := by decide
  refine map_eq_error.mp (Reaches.error (.single (.first (by decide) hsplit)) (EndlessArray.unfinished ?_))
  exact ⟨"a()", 0, "()", 8, 9, rfl, by decide, by decide, by decide, .struct (by decide) hinner .nil⟩

end Rustils.Dbus
