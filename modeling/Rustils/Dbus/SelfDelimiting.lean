import Rustils.Dbus.Grammar

namespace Rustils.Dbus

open Platform Lib.Fuel Lib.Machine Lib.Utf8 Lib.Brackets

def splitAll (fuel : ℕ) (sig : String) : Outcome (List String) :=
  if sig = "" then pure []
  else match fuel with
    | 0 => unfinished
    | fuel + 1 => do
      let (this, rest) ← splitOne sig
      let parts ← splitAll fuel rest
      pure (this :: parts)

def Value.basic : Value → Option Basic
  | .byte _ => some .byte
  | .boolean _ => some .boolean
  | .int16 _ => some (.num .int16)
  | .uint16 _ => some (.num .uint16)
  | .int32 _ => some (.num .int32)
  | .uint32 _ => some (.num .uint32)
  | .int64 _ => some (.num .int64)
  | .uint64 _ => some (.num .uint64)
  | .double _ => some (.num .double)
  | .string _ => some .string
  | .objectPath _ => some .objectPath
  | .signature _ => some .signature
  | .array _ _ | .struct _ | .variant _ | .dictEntry _ _ => none

/-- The element signature of an array is a complete type or a dict entry, so that an `a` before it
makes a complete type. -/
inductive Value.WellFormed : Value → Prop
  | basic {v : Value} {b : Basic} (h : v.basic = some b) : WellFormed v
  | variant (inner : Value) : WellFormed (.variant inner)
  | array {elemSig : String} (items : List Value) (h : Complete (0x61 :: asBytes elemSig)) :
      WellFormed (.array elemSig items)
  | struct {fields : List Value} (hne : fields ≠ []) (h : ∀ f ∈ fields, WellFormed f) : WellFormed (.struct fields)
  | dictEntry {key val : Value} {b : Basic} (hkey : key.basic = some b) (h : WellFormed val) :
      WellFormed (.dictEntry key val)

theorem signatureOf_basic {v : Value} {b : Basic} (h : v.basic = some b) : signatureOf v = b.sig := by
  cases v <;> cases h <;> rw [signatureOf, Basic.sig]

theorem asBytes_signaturesOf (vs : List Value) :
    asBytes (signaturesOf vs) = (vs.map fun v => asBytes (signatureOf v)).flatten := by
  induction vs with
  | nil => rfl
  | cons v vs ih => rw [signaturesOf, asBytes_append, ih, List.map_cons, List.flatten_cons]

theorem asBytes_signatureOf_array (elemSig : String) (items : List Value) :
    asBytes (signatureOf (.array elemSig items)) = 0x61 :: asBytes elemSig := by
  rw [signatureOf, asBytes_append, asBytes_a, List.singleton_append]

theorem asBytes_signatureOf_struct (fields : List Value) :
    asBytes (signatureOf (.struct fields)) = 0x28 :: (asBytes (signaturesOf fields) ++ [0x29]) := by
  simp [signatureOf, asBytes_lparen, asBytes_rparen]

theorem asBytes_signatureOf_dictEntry (key val : Value) :
    asBytes (signatureOf (.dictEntry key val)) =
      0x7B :: (asBytes (signatureOf key) ++ asBytes (signatureOf val) ++ [0x7D]) := by
  simp [signatureOf, asBytes_lbrace, asBytes_rbrace]

theorem complete_basic {v : Value} {b : Basic} (h : v.basic = some b) : Complete (asBytes (signatureOf v)) := by
  obtain ⟨c, hc, hcode, -⟩ := b.exists_sig
  rw [signatureOf_basic h, hc]
  exact .basic hcode

theorem Value.WellFormed.nested {v : Value} (h : v.WellFormed) {o c : UInt8} (hoc : Brackets o c) :
    Nested o c (asBytes (signatureOf v)) := by
  induction h with
  | basic h => exact (complete_basic h).nested hoc
  | variant inner => exact Complete.variant.nested hoc
  | array items h =>
    rw [asBytes_signatureOf_array]
    exact h.nested hoc
  | @struct fields _ _ ih =>
    have hinner : Nested o c (asBytes (signaturesOf fields)) := by
      rw [asBytes_signaturesOf]
      apply nested_flatten
      simpa using ih
    rw [asBytes_signatureOf_struct]
    cases hoc with
    | parens => exact hinner.wrap (by decide)
    | braces =>
      exact (nested_single (by decide) (by decide)).append (hinner.append (nested_single (by decide) (by decide)))
  | dictEntry hkey _ ih =>
    have hinner := ((complete_basic hkey).nested hoc).append ih
    rw [asBytes_signatureOf_dictEntry]
    cases hoc with
    | parens =>
      exact (nested_single (by decide) (by decide)).append (hinner.append (nested_single (by decide) (by decide)))
    | braces => exact hinner.wrap (by decide)

theorem Value.WellFormed.scanned {v : Value} (h : v.WellFormed) :
    Scanned (asBytes (signatureOf v)) ∨ Deep (asBytes (signatureOf v)) := by
  cases h with
  | basic h => exact (complete_basic h).scanned
  | variant inner => exact .inl .variant
  | array items h =>
    rw [asBytes_signatureOf_array]
    exact h.scanned
  | @struct fields hne h =>
    have hinner : Nested 0x28 0x29 (asBytes (signaturesOf fields)) := by
      rw [asBytes_signaturesOf]
      apply nested_flatten
      simpa using fun f hf => (h f hf).nested .parens
    rw [asBytes_signatureOf_struct]
    rcases hinner.arrives tooDeep (by decide) (by decide) with hs | ⟨p, hp, hs⟩
    · exact .inl (.parens hs)
    · exact .inr ⟨0x28 :: p, List.prefix_cons_iff.mpr (.inr ⟨p, rfl, hp⟩), .parens hs⟩
  | dictEntry hkey h =>
    have hinner := ((complete_basic hkey).nested .braces).append (h.nested .braces)
    rw [asBytes_signatureOf_dictEntry]
    rcases hinner.arrives tooDeep (by decide) (by decide) with hs | ⟨p, hp, hs⟩
    · exact .inl (.braces hs)
    · exact .inr ⟨0x7B :: p, List.prefix_cons_iff.mpr (.inr ⟨p, rfl, hp⟩), .braces hs⟩

theorem Value.WellFormed.typeLen_iff {v : Value} (h : v.WellFormed) :
    (∀ rest, typeLen (asBytes (signatureOf v) ++ rest) = .ok (len (signatureOf v))) ↔
      ¬Deep (asBytes (signatureOf v)) := by
  constructor
  · intro hlen hdeep
    have hpanics := (typeLen_panicked_iff _).mpr hdeep
    rw [← List.append_nil (asBytes _), hlen] at hpanics
    cases hpanics
  · intro hdeep rest
    exact (typeLen_ok_iff _ _).mpr ⟨_, List.prefix_append _ rest, rfl, h.scanned.resolve_right hdeep⟩

theorem splitAll_cons (fuel : ℕ) {ty rest : String} (h : typeLen (asBytes (ty ++ rest)) = .ok (len ty)) :
    splitAll (fuel + 1) (ty ++ rest) = splitAll fuel rest >>= fun parts => pure (ty :: parts) := by
  have hne : ty ++ rest ≠ "" := by
    intro hempty
    rw [hempty] at h
    cases h
  have hsplit : splitOne (ty ++ rest) = .ok (ty, rest) := by
    rw [splitOne, h, ok_bind, splitAtOrPanic, splitAt_append]
    rfl
  rw [splitAll, if_neg hne, hsplit, ok_bind]

theorem splitAll_signaturesOf {vs : List Value}
    (h : ∀ v ∈ vs, ∀ rest, typeLen (asBytes (signatureOf v) ++ rest) = .ok (len (signatureOf v)))
    {fuel : ℕ} (hfuel : vs.length ≤ fuel) : splitAll fuel (signaturesOf vs) = .ok (vs.map signatureOf) := by
  induction vs generalizing fuel with
  | nil =>
    rw [splitAll.eq_def, signaturesOf, if_pos rfl]
    rfl
  | cons v vs ih =>
    rw [List.forall_mem_cons] at h
    obtain ⟨fuel, rfl⟩ := Nat.exists_eq_add_of_lt hfuel
    rw [signaturesOf, splitAll_cons _ (by rw [asBytes_append, h.1]), ih h.2 (by omega), ok_bind]
    rfl

def SelfDelimiting (vs : List Value) : Prop :=
  (∀ v ∈ vs, ∀ rest, typeLen (asBytes (signatureOf v) ++ rest) = .ok (len (signatureOf v))) ∧
  ∀ fuel, vs.length ≤ fuel → splitAll fuel (signaturesOf vs) = .ok (vs.map signatureOf)

theorem selfDelimiting_iff (vs : List Value) (h : ∀ v ∈ vs, v.WellFormed) :
    SelfDelimiting vs ↔ ∀ v ∈ vs, ¬Deep (asBytes (signatureOf v)) := by
  constructor
  · intro hself v hv
    exact (h v hv).typeLen_iff.mp (hself.1 v hv)
  · intro hdeep
    have hlen : ∀ v ∈ vs, ∀ rest, typeLen (asBytes (signatureOf v) ++ rest) = .ok (len (signatureOf v)) :=
      fun v hv => (h v hv).typeLen_iff.mpr (hdeep v hv)
    exact ⟨hlen, fun fuel hfuel => splitAll_signaturesOf hlen hfuel⟩

theorem not_deep_of_short {bs : List UInt8} (h : bs.length < 2 ^ 31) : ¬Deep bs := by
  intro hdeep
  exact typeLen_ne_panicked h ((typeLen_panicked_iff bs).mpr hdeep)

def threeValues : List Value :=
  [.string "x", .array "\x7bsv\x7d" [], .struct [.byte 1, .array "(uv)" [], .variant (.boolean true)]]

theorem threeValues_wellFormed : ∀ v ∈ threeValues, v.WellFormed := by
  have hdict : Complete (0x61 :: asBytes "\x7bsv\x7d") := .dict (b := .string) (by decide) .variant
  have hstruct : Complete (0x61 :: asBytes "(uv)") := by
    apply Complete.array
    apply @Complete.struct [[0x75], [0x76]] (by decide)
    simpa using ⟨.basic (b := .num .uint32) (by decide), .variant⟩
  simp only [threeValues, List.forall_mem_cons, List.not_mem_nil, false_implies, implies_true, and_true]
  refine ⟨.basic rfl, .array [] hdict, .struct (by decide) ?_⟩
  simpa using ⟨.basic rfl, .array [] hstruct, .variant _⟩

theorem threeValues_selfDelimiting : SelfDelimiting threeValues := by
  apply (selfDelimiting_iff threeValues threeValues_wellFormed).mpr
  intro v hv
  apply not_deep_of_short
  revert v hv
  decide

def nestedSig : ℕ → String
  | 0 => "s"
  | n + 1 => "(" ++ nestedSig n ++ ")"

theorem complete_nestedSig (n : ℕ) : Complete (asBytes (nestedSig n)) := by
  induction n with
  | zero => exact Complete.basic (b := .string) (by decide)
  | succ n ih =>
    have hfields := Complete.struct (List.cons_ne_nil _ []) (List.forall_mem_singleton.mpr ih)
    simpa [nestedSig, asBytes_lparen, asBytes_rparen] using hfields

theorem replicate_nestedSig (n : ℕ) : List.replicate n 0x28 <+: asBytes (nestedSig n) := by
  induction n with
  | zero => exact List.nil_prefix
  | succ n ih =>
    rw [nestedSig, asBytes_append, asBytes_append, asBytes_lparen, List.replicate_succ, List.append_assoc]
    exact List.prefix_cons_iff.mpr (.inr ⟨_, rfl, ih.trans (List.prefix_append _ _)⟩)

theorem deep_nestedSig {n : ℕ} (h : tooDeep ≤ n) : Deep (0x61 :: asBytes (nestedSig n)) := by
  obtain ⟨m, k, rfl, hm⟩ : ∃ m k : ℕ, n = 1 + m + k ∧ 1 + (m : ℤ) = tooDeep := by
    have hpos : 0 < tooDeep := by decide
    exact ⟨(tooDeep - 1).toNat, n - tooDeep.toNat, by omega, by omega⟩
  have harrives : Arrives 0x28 0x29 tooDeep tooDeep 1 (List.replicate m (0x28 : UInt8)) :=
    arrives_replicate m (by decide) hm
  refine ⟨_, ?_, .array (.parens harrives)⟩
  apply List.prefix_cons_iff.mpr
  refine .inr ⟨_, rfl, List.IsPrefix.trans ⟨List.replicate k 0x28, ?_⟩ (replicate_nestedSig (1 + m + k))⟩
  rw [← List.replicate_append_replicate, ← List.replicate_append_replicate]
  rfl

theorem deep_structs_not_measured :
    Value.WellFormed (.array (nestedSig (2 ^ 31)) []) ∧ ¬SelfDelimiting [.array (nestedSig (2 ^ 31)) []] := by
  have hwf : Value.WellFormed (.array (nestedSig (2 ^ 31)) []) := .array [] (.array (complete_nestedSig _))
  refine ⟨hwf, fun hself => ?_⟩
  apply hwf.typeLen_iff.mp (hself.1 _ List.mem_cons_self)
  rw [asBytes_signatureOf_array]
  exact deep_nestedSig (by decide)

end Rustils.Dbus
