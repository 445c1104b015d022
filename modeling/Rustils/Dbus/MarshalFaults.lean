import Rustils.Dbus.Faults
import Rustils.Dbus.Grammar
import Rustils.Dbus.MarshalErrors

namespace Rustils.Dbus

open Platform Lib.Fuel Lib.Machine Lib.Utf8 Relation

inductive Job
  | seq (sig : String) (values : List Value)
  | one (ty : String) (v : Value)
  | items (elemSig : String) (vs : List Value)

def Job.run : Job → List UInt8 → Outcome (List UInt8)
  | .seq sig values, buf => marshal sig values buf
  | .one ty v, buf => marshalOne ty v buf
  | .items elemSig vs, buf => marshalItems elemSig vs buf

noncomputable def Job.size : Job → ℕ
  | .seq _ values => sizeOf values
  | .one _ v => sizeOf v
  | .items _ vs => sizeOf vs

/-- The calls a call makes, whatever is in the buffer: a later value is come to once the ones before it
are written. -/
inductive Job.Makes : Job → Job → Prop
  | first {sig ty rest : String} {v : Value} {vs : List Value} : sig ≠ "" → splitOne sig = .ok (ty, rest) →
    Makes (.seq sig (v :: vs)) (.one ty v)
  | rest {sig ty rest : String} {v : Value} {vs : List Value} : sig ≠ "" → splitOne sig = .ok (ty, rest) →
    Accepts ty v → Makes (.seq sig (v :: vs)) (.seq rest vs)
  | item {elemSig : String} {v : Value} {vs : List Value} : Makes (.items elemSig (v :: vs)) (.one elemSig v)
  | items {elemSig : String} {v : Value} {vs : List Value} : Accepts elemSig v →
    Makes (.items elemSig (v :: vs)) (.items elemSig vs)
  | array {ty elemSig : String} {vs : List Value} : leading ty = some .array →
    slice ty 1 (len ty) = some elemSig → elemSig ≠ "" → Makes (.one ty (.array elemSig vs)) (.items elemSig vs)
  | struct {ty inner : String} {vs : List Value} : leading ty = some .struct →
    slice ty 1 (len ty - 1) = some inner → Makes (.one ty (.struct vs)) (.seq inner vs)
  | variant {ty : String} {v : Value} : leading ty = some .variant →
    Makes (.one ty (.variant v)) (.one (signatureOf v) v)
  | key {ty keyTy : String} {key val : Value} : leading ty = some .dictEntry → slice ty 1 2 = some keyTy →
    Makes (.one ty (.dictEntry key val)) (.one keyTy key)
  | val {ty keyTy valTy : String} {key val : Value} : leading ty = some .dictEntry → slice ty 1 2 = some keyTy →
    Accepts keyTy key → slice ty 2 (len ty - 1) = some valTy → Makes (.one ty (.dictEntry key val)) (.one valTy val)

inductive Job.Faulty : Job → Prop
  -- The depth counter of `bracketed_len` overflows.
  | deep {sig : String} {values : List Value} : sig ≠ "" → Deep (asBytes sig) → Faulty (.seq sig values)
  -- `ty.as_bytes()[0]` of an empty type.
  | empty (v : Value) : Faulty (.one "" v)
  -- `elem_sig.as_bytes()[0]` of an array without an element type.
  | noElement (items : List Value) : Faulty (.one "a" (.array "" items))
  -- `&ty[1..ty.len() - 1]` of an opening bracket alone, or before a last character that is not ASCII.
  | unclosed {ty : String} {fields : List Value} : leading ty = some .struct → slice ty 1 (len ty - 1) = none →
    Faulty (.one ty (.struct fields))
  -- `&ty[1..2]` of an opening brace alone, or cutting a character that is not ASCII.
  | noKey {ty : String} {key val : Value} : leading ty = some .dictEntry → slice ty 1 2 = none →
    Faulty (.one ty (.dictEntry key val))
  -- `&ty[2..ty.len() - 1]`, once the key is written.
  | noValue {ty keyTy : String} {key val : Value} : leading ty = some .dictEntry → slice ty 1 2 = some keyTy →
    Accepts keyTy key → slice ty 2 (len ty - 1) = none → Faulty (.one ty (.dictEntry key val))

def Job.Faults (j : Job) : Prop := ∃ k, ReflTransGen Job.Makes j k ∧ k.Faulty

theorem Job.Makes.size_lt {j k : Job} (h : j.Makes k) : k.size < j.size := by
  cases h <;> simp only [Job.size, List.cons.sizeOf_spec, Value.array.sizeOf_spec, Value.struct.sizeOf_spec,
    Value.variant.sizeOf_spec, Value.dictEntry.sizeOf_spec] <;> omega

theorem splitOne_panicked {sig : String} : splitOne sig = panicked ↔ Deep (asBytes sig) := by
  rw [← typeLen_panicked_iff]
  exact splitOne_error

theorem Job.Makes.panics {j k : Job} (h : j.Makes k) (hk : ∀ buf, k.run buf = panicked) (buf : List UInt8) :
    j.run buf = panicked := by
  cases h with
  | @first sig ty rest v vs hne hsplit =>
    have hv : marshalOne ty v buf = panicked := hk buf
    simp only [Job.run, marshal, if_neg hne, hsplit, ok_bind, hv, error_bind]
  | @rest sig ty rest v vs hne hsplit hacc =>
    have hv := (marshalOne_ok ty v buf _).mpr ⟨hacc, rfl⟩
    simp only [Job.run, marshal, if_neg hne, hsplit, ok_bind, hv]
    exact hk _
  | @item elemSig v vs =>
    have hv : marshalOne elemSig v buf = panicked := hk buf
    simp only [Job.run, marshalItems, hv, error_bind]
  | @items elemSig v vs hacc =>
    have hv := (marshalOne_ok elemSig v buf _).mpr ⟨hacc, rfl⟩
    simp only [Job.run, marshalItems, hv, ok_bind]
    exact hk _
  | @array ty elemSig vs hlead hslice hne =>
    obtain ⟨e, he⟩ := exists_firstByte hne
    have hvs : ∀ buf, marshalItems elemSig vs buf = panicked := hk
    rw [Job.run, marshalOne_array hlead (sliceOrPanic_ok.mpr hslice) he vs rfl, hvs, error_bind]
  | @struct ty inner vs hlead hslice =>
    rw [Job.run, marshalOne_struct hlead, sliceOrPanic_ok.mpr hslice, ok_bind]
    exact hk _
  | @variant ty v hlead =>
    rw [Job.run, marshalOne_variant hlead]
    exact hk _
  | @key ty keyTy key val hlead hslice =>
    have hkey : ∀ buf, marshalOne keyTy key buf = panicked := hk
    rw [Job.run, marshalOne_dictEntry hlead, sliceOrPanic_ok.mpr hslice, ok_bind, hkey, error_bind]
  | @val ty keyTy valTy key val hlead hslice hacc hval =>
    have hkey := (marshalOne_ok keyTy key (padTo buf 8) _).mpr ⟨hacc, rfl⟩
    rw [Job.run, marshalOne_dictEntry hlead, sliceOrPanic_ok.mpr hslice, ok_bind, hkey, ok_bind,
      sliceOrPanic_ok.mpr hval, ok_bind]
    exact hk _

theorem Job.Faulty.panics {j : Job} (h : j.Faulty) (buf : List UInt8) : j.run buf = panicked := by
  cases h with
  | @deep sig values hne hdeep =>
    have hsplit := splitOne_panicked.mpr hdeep
    cases values with
    | nil => simp only [Job.run, marshal, if_neg hne, hsplit, error_bind]
    | cons v vs => simp only [Job.run, marshal, if_neg hne, hsplit, error_bind]
  | empty v =>
    unfold Job.run
    unfold marshalOne
    rfl
  | noElement vs =>
    unfold Job.run
    unfold marshalOne
    rfl
  | unclosed hlead hslice =>
    have hpanic := sliceOrPanic_error.mpr ⟨rfl, hslice⟩
    rw [Job.run, marshalOne_struct hlead, hpanic, error_bind]
  | noKey hlead hslice =>
    have hpanic := sliceOrPanic_error.mpr ⟨rfl, hslice⟩
    rw [Job.run, marshalOne_dictEntry hlead, hpanic, error_bind]
  | @noValue ty keyTy key val hlead hslice hacc hval =>
    have hkey := (marshalOne_ok keyTy key (padTo buf 8) _).mpr ⟨hacc, rfl⟩
    have hpanic := sliceOrPanic_error.mpr ⟨rfl, hval⟩
    rw [Job.run, marshalOne_dictEntry hlead, sliceOrPanic_ok.mpr hslice, ok_bind, hkey, ok_bind, hpanic, error_bind]

section Stops

variable {e : Stop PlatformError} (he : ∀ x, e ≠ .err x)

include he

theorem fail_ne_stop {α : Type} {x : PlatformError} : (fail x : Outcome α) ≠ .error e := by
  intro h
  exact he x (Except.error.inj h).symm

theorem marshalBasic_ne_stop (b : Basic) (v : Value) (buf : List UInt8) : marshalBasic b v buf ≠ .error e := by
  unfold marshalBasic
  split
  case h_3 =>
    split
    · nofun
    · exact fail_ne_stop he
  case h_9 => exact fail_ne_stop he
  all_goals nofun

theorem splitOne_stop {sig : String} (h : splitOne sig = .error e) : e = .panicked ∧ Deep (asBytes sig) := by
  rw [splitOne_error] at h
  cases e with
  | err x => exact absurd rfl (he x)
  | panicked => exact ⟨rfl, (typeLen_panicked_iff _).mp h⟩
  | unfinished => exact absurd h (typeLen_ne_unfinished _)

theorem marshalOne_stop {ty : String} {v : Value} {buf : List UInt8} (h : marshalOne ty v buf = .error e) :
    e = .panicked ∧ (Job.one ty v).Faulty ∨ ∃ k buf', (Job.one ty v).Makes k ∧ k.run buf' = .error e := by
  unfold marshalOne at h
  rcases bind_eq_error.mp h with h | ⟨c, hc, h⟩
  · obtain ⟨rfl, rfl⟩ := firstByte_error.mp h
    exact .inl ⟨rfl, .empty v⟩
  have hlead := leading_of_firstByte hc
  rcases hcode : TypeCode.ofByte c with _ | ⟨b | _ | _ | _ | _⟩ <;> rw [hcode] at hlead h <;> dsimp only at h
  · exact absurd h (fail_ne_stop he)
  · exact absurd h (marshalBasic_ne_stop he b v buf)
  · cases v with
    | array elemSig vs =>
      obtain ⟨tail, b, hslice, hbytes, hb⟩ := slice_tail hlead
      dsimp only at h
      rw [sliceOrPanic_ok.mpr hslice, ok_bind] at h
      split_ifs at h with hne
      · exact absurd h (fail_ne_stop he)
      obtain rfl := not_not.mp hne
      rcases bind_eq_error.mp h with h | ⟨first, hfirst, h⟩
      · obtain ⟨rfl, rfl⟩ := firstByte_error.mp h
        obtain rfl := of_decide_eq_true (written_of_code hb)
        obtain rfl : ty = "a" := asBytes_inj.mp hbytes
        exact .inl ⟨rfl, .noElement vs⟩
      · rcases bind_eq_error.mp h with h | ⟨full, -, h⟩
        · have hnil : elemSig ≠ "" := by
            rintro rfl
            cases hfirst
          exact .inr ⟨_, _, .array hlead hslice hnil, h⟩
        · cases h
    | _ => exact absurd h (fail_ne_stop he)
  · cases v with
    | struct fields =>
      rcases bind_eq_error.mp h with h | ⟨inner, hinner, h⟩
      · obtain ⟨rfl, hslice⟩ := sliceOrPanic_error.mp h
        exact .inl ⟨rfl, .unclosed hlead hslice⟩
      · exact .inr ⟨_, _, .struct hlead (sliceOrPanic_ok.mp hinner), h⟩
    | _ => exact absurd h (fail_ne_stop he)
  · cases v with
    | variant inner => exact .inr ⟨_, _, .variant hlead, h⟩
    | _ => exact absurd h (fail_ne_stop he)
  · cases v with
    | dictEntry key val =>
      rcases bind_eq_error.mp h with h | ⟨keyTy, hkeyTy, h⟩
      · obtain ⟨rfl, hslice⟩ := sliceOrPanic_error.mp h
        exact .inl ⟨rfl, .noKey hlead hslice⟩
      rw [sliceOrPanic_ok] at hkeyTy
      rcases bind_eq_error.mp h with h | ⟨mid, hmid, h⟩
      · exact .inr ⟨_, _, .key hlead hkeyTy, h⟩
      have hacc := ((marshalOne_ok keyTy key _ _).mp hmid).1
      rcases bind_eq_error.mp h with h | ⟨valTy, hvalTy, h⟩
      · obtain ⟨rfl, hslice⟩ := sliceOrPanic_error.mp h
        exact .inl ⟨rfl, .noValue hlead hkeyTy hacc hslice⟩
      · exact .inr ⟨_, _, .val hlead hkeyTy hacc (sliceOrPanic_ok.mp hvalTy), h⟩
    | _ => exact absurd h (fail_ne_stop he)

theorem Job.stop_step {j : Job} {buf : List UInt8} (h : j.run buf = .error e) :
    e = .panicked ∧ j.Faulty ∨ ∃ k buf', j.Makes k ∧ k.run buf' = .error e := by
  cases j with
  | seq sig values =>
    cases values with
    | nil =>
      simp only [Job.run, marshal] at h
      split_ifs at h with hsig
      · cases h
      rcases bind_eq_error.mp h with h | ⟨p, -, h⟩
      · obtain ⟨rfl, hdeep⟩ := splitOne_stop he h
        exact .inl ⟨rfl, .deep hsig hdeep⟩
      · exact absurd h (fail_ne_stop he)
    | cons v vs =>
      simp only [Job.run, marshal] at h
      split_ifs at h with hsig
      · exact absurd h (fail_ne_stop he)
      rcases bind_eq_error.mp h with h | ⟨⟨ty, rest⟩, hsplit, h⟩
      · obtain ⟨rfl, hdeep⟩ := splitOne_stop he h
        exact .inl ⟨rfl, .deep hsig hdeep⟩
      rcases bind_eq_error.mp h with h | ⟨mid, hmid, h⟩
      · exact .inr ⟨_, _, .first hsig hsplit, h⟩
      · exact .inr ⟨_, _, .rest hsig hsplit ((marshalOne_ok ty v _ _).mp hmid).1, h⟩
  | one ty v => exact marshalOne_stop he h
  | items elemSig vs =>
    cases vs with
    | nil => cases h
    | cons v vs =>
      rcases bind_eq_error.mp h with h | ⟨mid, hmid, h⟩
      · exact .inr ⟨_, _, .item, h⟩
      · exact .inr ⟨_, _, .items ((marshalOne_ok elemSig v _ _).mp hmid).1, h⟩

theorem Job.stop {j : Job} {buf : List UInt8} (h : j.run buf = .error e) : e = .panicked ∧ j.Faults := by
  induction hn : j.size using Nat.strong_induction_on generalizing j buf with
  | _ n ih =>
    subst hn
    rcases Job.stop_step he h with ⟨hpanic, hfault⟩ | ⟨k, buf', hmakes, hk⟩
    · exact ⟨hpanic, j, .refl, hfault⟩
    · obtain ⟨hpanic, k', hreach, hfault⟩ := ih k.size hmakes.size_lt hk rfl
      exact ⟨hpanic, k', .head hmakes hreach, hfault⟩

end Stops

theorem Job.Faults.panics {j : Job} (h : j.Faults) (buf : List UInt8) : j.run buf = panicked := by
  obtain ⟨k, hreach, hfault⟩ := h
  induction hreach using ReflTransGen.head_induction_on generalizing buf with
  | refl => exact hfault.panics buf
  | head hmakes _ ih => exact hmakes.panics ih buf

theorem Job.returns_iff (j : Job) (buf : List UInt8) : Returns (j.run buf) ↔ ¬j.Faults := by
  rw [Lib.Fuel.returns_iff]
  constructor
  · rintro ⟨hne, -⟩ hf
    exact hne (hf.panics buf)
  · intro hf
    refine ⟨fun h => hf (Job.stop (e := .panicked) nofun h).2, fun h => ?_⟩
    cases (Job.stop (e := .unfinished) nofun h).1

theorem accepts_field {code : UInt8} {v : Value} (h : Accepts (signatureOf v) v) : Accepts "(yv)" (field code v) := by
  refine ⟨by decide, "yv", by decide, by decide, "y", "v", by decide, ⟨.byte, by decide, trivial⟩, ?_⟩
  exact ⟨by decide, "v", "", by decide, ⟨by decide, h⟩, rfl⟩

theorem acceptsItems_iff {elemSig : String} {vs : List Value} :
    AcceptsItems elemSig vs ↔ ∀ v ∈ vs, Accepts elemSig v := by
  induction vs with
  | nil => simp [AcceptsItems]
  | cons v vs ih => simp [AcceptsItems, ih]

theorem accepts_optField {α : Type} {value : α → Value} (h : ∀ a, Accepts (signatureOf (value a)) (value a))
    {code : UInt8} {x : Option α} {v : Value} (hv : v ∈ optField code value x) : Accepts "(yv)" v := by
  simp only [optField, Option.mem_toList, Option.map_eq_some_iff] at hv
  obtain ⟨a, -, rfl⟩ := hv
  exact accepts_field (h a)

theorem Message.accepts_fields (msg : Message) : AcceptsAll "a(yv)" [.array "(yv)" msg.fields] := by
  refine ⟨by decide, "a(yv)", "", by decide, ⟨by decide, by decide, by decide, acceptsItems_iff.mpr ?_⟩, rfl⟩
  have hpath (s : String) : Accepts (signatureOf (.objectPath s)) (.objectPath s) := by
    rw [signatureOf]
    exact ⟨.objectPath, by decide, trivial⟩
  have hstring (s : String) : Accepts (signatureOf (.string s)) (.string s) := by
    rw [signatureOf]
    exact ⟨.string, by decide, trivial⟩
  have hnum (n : UInt32) : Accepts (signatureOf (.uint32 n)) (.uint32 n) := by
    rw [signatureOf]
    exact ⟨.num .uint32, by decide, rfl⟩
  have hsig (s : String) : Accepts (signatureOf (.signature s)) (.signature s) := by
    rw [signatureOf]
    exact ⟨.signature, by decide, trivial⟩
  intro v hv
  simp only [Message.fields, List.mem_append] at hv
  obtain ((((((hv | hv) | hv) | hv) | hv) | hv) | hv) | hv := hv
  · exact accepts_optField hpath hv
  · exact accepts_optField hstring hv
  · exact accepts_optField hstring hv
  · exact accepts_optField hstring hv
  · exact accepts_optField hnum hv
  · exact accepts_optField hstring hv
  · exact accepts_optField hstring hv
  · split_ifs at hv
    · cases hv
    · rw [List.mem_singleton.mp hv]
      exact accepts_field (hsig _)

theorem returns_encode (msg : Message) :
    Returns (encode msg) ↔ msg.signature = "" ∨ ¬(Job.seq msg.signature msg.body).Faults := by
  have hfields (buf : List UInt8) := (marshal_ok "a(yv)" _ buf _).mpr ⟨msg.accepts_fields, rfl⟩
  have hbody : Returns (encode msg) ↔ Returns msg.bodyBytes := by
    unfold encode
    rcases msg.bodyBytes with e | bytes
    · rw [error_bind]
    · rw [ok_bind, hfields]
      exact iff_of_true (.inl ⟨_, rfl⟩) (.inl ⟨_, rfl⟩)
  rw [hbody, Message.bodyBytes]
  split_ifs with hsig
  · exact iff_of_true (.inl ⟨_, rfl⟩) (.inl hsig)
  · rw [or_iff_right hsig]
    exact (Job.seq msg.signature msg.body).returns_iff []

theorem writers_return_iff (sig : String) (values : List Value) (buf : List UInt8) (msg : Message) :
    (Returns (marshal sig values buf) ↔ ¬(Job.seq sig values).Faults) ∧
    (Returns (encode msg) ↔ msg.signature = "" ∨ ¬(Job.seq msg.signature msg.body).Faults) :=
  ⟨(Job.seq sig values).returns_iff buf, returns_encode msg⟩

theorem empty_element_panics :
    marshal "v" [.variant (.array "" [])] [] = panicked ∧
      encode { messageType := 1, flags := 0, serial := 1, signature := "v", body := [.variant (.array "" [])] } =
        panicked := by
  have h : marshal "v" [.variant (.array "" [])] [] = panicked := by
    have hsplit : splitOne "v" = .ok ("v", "") := by decide
    have hfault : (Job.seq "v" [.variant (.array "" [])]).Faults := by
      refine ⟨.one "a" (.array "" []), ?_, .noElement []⟩
      exact .head (.first (by decide) hsplit) (.single (.variant (by decide)))
    exact hfault.panics []
  refine ⟨h, ?_⟩
  rw [encode, Message.bodyBytes, if_neg (by decide), h]
  rfl

end Rustils.Dbus
