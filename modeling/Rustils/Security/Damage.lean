import Mathlib.Data.List.TakeWhile
import Rustils.Security.Pem

namespace Rustils.Security.TrustAnchors

open Lib.Utf8 Lib.Base64 Lib.Search
open scoped List

/-- A block that has lost a part of its END line. -/
structure Cut where
  block : Block
  left : String
  part : asBytes left <+ asBytes (END ++ block.endEol.text)
  missing : left ≠ END ++ block.endEol.text

inductive Damaged
  | malformed (b : Block)
  | cut (x : Cut)

def Damaged.render : Damaged → String
  | .malformed b => b.text
  | .cut x => BEGIN ++ (x.block.inner ++ x.left)

def intact (cs : List Cert) : String := document (cs.map .cert)

def ders (cs : List Cert) : List (List UInt8) := cs.map Cert.der

def Kept (before : List Cert) (x : Damaged) (after : List Cert) : Prop :=
  ∃ out, pemToDers (intact before ++ (x.render ++ intact after)) = some out ∧
    ders before ++ ders after <+ out

def Damaged.Terminated : Damaged → Prop
  | .malformed _ => True
  | .cut x => asBytes END <+: asBytes x.left

/-- The dashes of the next BEGIN marker make up for those that are missing. -/
def Cut.Completed (x : Cut) : Prop :=
  ∃ m < 25, 20 ≤ m ∧ asBytes x.left = (asBytes END).take m

instance (x : Cut) : Decidable x.Completed :=
  inferInstanceAs (Decidable (∃ m < 25, 20 ≤ m ∧ asBytes x.left = (asBytes END).take m))

def Damaged.salvaged : Damaged → Option (List UInt8)
  | .malformed _ => none
  | .cut x =>
    if x.Completed ∨ PAD ∈ asBytes x.block.body.text then anchor (asBytes x.block.body.text) else none

theorem eq_nil_of_sublist {α : Type} {p a b c : List α} {x : α} (hc : x ∉ c)
    (h : p ++ a ++ x :: b <+ a ++ x :: c) : p = [] := by
  obtain ⟨r₁, r₂, hr, h₁, h₂⟩ := List.append_sublist_iff.mp h
  have hx : x ∈ r₂ := h₂.subset List.mem_cons_self
  have hle : r₁.length ≤ a.length := by
    by_contra hlt
    have hend : a ++ [x] <+: a ++ x :: c := ⟨c, by simp⟩
    have hpre : a ++ [x] <+: r₁ := by
      apply List.prefix_of_prefix_length_le hend ⟨r₂, hr.symm⟩
      rw [List.length_append, List.length_singleton]
      omega
    obtain ⟨t, rfl⟩ := hpre
    have ht : t ++ r₂ = c := by simpa using hr.symm
    exact hc (ht ▸ List.mem_append_right t hx)
  have hlen := h₁.length_le
  rw [List.length_append] at hlen
  exact List.length_eq_zero_iff.mp (by omega)

theorem asBytes_BEGIN : asBytes BEGIN =
    [0x2D, 0x2D, 0x2D, 0x2D, 0x2D, 0x42, 0x45, 0x47, 0x49, 0x4E, 0x20, 0x43, 0x45, 0x52, 0x54, 0x49, 0x46, 0x49, 0x43,
      0x41, 0x54, 0x45, 0x2D, 0x2D, 0x2D, 0x2D, 0x2D] := rfl

theorem asBytes_END : asBytes END =
    [0x2D, 0x2D, 0x2D, 0x2D, 0x2D, 0x45, 0x4E, 0x44, 0x20, 0x43, 0x45, 0x52, 0x54, 0x49, 0x46, 0x49, 0x43, 0x41, 0x54,
      0x45, 0x2D, 0x2D, 0x2D, 0x2D, 0x2D] := rfl

theorem end_eq : asBytes END = (asBytes END).take 8 ++ 0x20 :: (asBytes END).drop 9 ∧
    (asBytes END).take 9 = (asBytes END).take 8 ++ [0x20] ∧ 0x20 ∉ (asBytes END).drop 9 := by
  rw [asBytes_END]
  decide

theorem not_mem_eol (e : Eol) : 0x20 ∉ asBytes e.text ∧ PAD ∉ asBytes e.text := by
  cases e with
  | lf => decide
  | crlf => decide

theorem Cut.eq_nil (x : Cut) {p q : List UInt8}
    (h : asBytes x.left = p ++ ((asBytes END).take 9 ++ q)) : p = [] := by
  obtain ⟨hend, htake, hspace⟩ := end_eq
  have hline : asBytes (END ++ x.block.endEol.text) =
      (asBytes END).take 8 ++ 0x20 :: ((asBytes END).drop 9 ++ asBytes x.block.endEol.text) := by
    rw [asBytes_append]
    conv_lhs => rw [hend]
    rw [List.append_assoc, List.cons_append]
  have hpart := x.part
  rw [h, htake, hline] at hpart
  apply eq_nil_of_sublist (a := (asBytes END).take 8) (b := q) (x := 0x20)
    (c := (asBytes END).drop 9 ++ asBytes x.block.endEol.text)
  · rw [List.mem_append, not_or]
    exact ⟨hspace, (not_mem_eol _).1⟩
  · simpa using hpart

theorem overlap : ∀ m < 25, 0 < m → (asBytes END).drop m <+: asBytes BEGIN → 20 ≤ m := by
  rw [asBytes_END, asBytes_BEGIN]
  decide

theorem take_end {m : ℕ} (hm : 9 ≤ m) :
    (asBytes END).take m = (asBytes END).take 9 ++ ((asBytes END).take m).drop 9 := by
  conv_lhs => rw [← List.take_append_drop 9 ((asBytes END).take m)]
  rw [List.take_take, Nat.min_eq_left hm]

theorem Cut.cases (x : Cut) : asBytes END <+: asBytes x.left ∨ x.Completed ∨
    ∀ post, ∀ i < (asBytes x.left).length,
      ¬asBytes END <+: (asBytes x.left ++ (asBytes BEGIN ++ post)).drop i := by
  by_cases hno : ∀ post, ∀ i < (asBytes x.left).length,
      ¬asBytes END <+: (asBytes x.left ++ (asBytes BEGIN ++ post)).drop i
  · exact .inr (.inr hno)
  · push Not at hno
    obtain ⟨post, i, hi, h⟩ := hno
    have hlen : (asBytes END).length = 25 := len_END
    have hsplit := List.take_append_drop i (asBytes x.left)
    have hpos : 0 < ((asBytes x.left).drop i).length := by
      rw [List.length_drop]
      omega
    rw [List.drop_append_of_le_length (Nat.le_of_lt hi)] at h
    generalize (asBytes x.left).drop i = l at h hsplit hpos
    by_cases hle : 25 ≤ l.length
    · -- the marker is within what is left
      obtain ⟨q, rfl⟩ := List.prefix_of_prefix_length_le h (List.prefix_append l _) (hlen ▸ hle)
      have hnil := x.eq_nil (p := (asBytes x.left).take i) (q := (asBytes END).drop 9 ++ q) (by
        rw [← List.append_assoc ((asBytes END).take 9), List.take_append_drop]
        exact hsplit.symm)
      rw [hnil, List.nil_append] at hsplit
      exact .inl ⟨q, hsplit⟩
    · have hl : l <+: asBytes END :=
        List.prefix_of_prefix_length_le (List.prefix_append l _) h (by omega)
      have hl' : l = (asBytes END).take l.length := List.prefix_iff_eq_take.mp hl
      have hrest : (asBytes END).drop l.length <+: asBytes BEGIN := by
        have hend : asBytes END = l ++ (asBytes END).drop l.length := by
          conv_lhs => rw [← List.take_append_drop l.length (asBytes END)]
          rw [← hl']
        rw [hend, List.prefix_append_right_inj] at h
        apply List.prefix_of_prefix_length_le h (List.prefix_append _ post)
        have hbegin : (asBytes BEGIN).length = 27 := congrArg List.length asBytes_BEGIN
        rw [List.length_drop]
        omega
      have hm : 20 ≤ l.length := overlap l.length (by omega) hpos hrest
      have hnil := x.eq_nil (p := (asBytes x.left).take i) (q := ((asBytes END).take l.length).drop 9) (by
        rw [← take_end (by omega), ← hl']
        exact hsplit.symm)
      rw [hnil, List.nil_append] at hsplit
      exact .inr (.inl ⟨l.length, by omega, hm, hsplit ▸ hl'⟩)

variable {pre : String} {out : List (List UInt8)}

theorem document_certs (cs : List Cert) : (cs.map Item.cert).filterMap Item.der? = ders cs := by
  rw [List.filterMap_map]
  exact congrFun (List.filterMap_eq_map (f := Cert.der)) cs

theorem pemLoop_intact (hpre : Clear (asBytes BEGIN) (asBytes pre)) (cs : List Cert) :
    pemLoop (pre ++ intact cs) out = some (out ++ ders cs) := by
  obtain ⟨pre', hpre', h⟩ := pemLoop_document (cs.map .cert) hpre "" out
  rw [document_certs] at h
  simp only [String.append_empty] at h
  rw [intact, h, pemLoop_end hpre']

theorem pemToDers_before (before : List Cert) (s : String) :
    ∃ pre, Clear (asBytes BEGIN) (asBytes pre) ∧
      pemToDers (intact before ++ s) = pemLoop (pre ++ s) (ders before) := by
  have hnil : Clear (asBytes BEGIN) (asBytes "") := Clear.nil
  obtain ⟨pre, hpre, h⟩ := pemLoop_document (before.map .cert) hnil s []
  rw [document_certs, List.nil_append, String.empty_append] at h
  exact ⟨pre, hpre, h⟩

theorem pemLoop_malformed (hpre : Clear (asBytes BEGIN) (asBytes pre)) (b : Block) (after : List Cert) :
    pemLoop (pre ++ (b.text ++ intact after)) out =
      some (out ++ (anchor (asBytes b.body.text)).toList ++ ders after) := by
  rw [pemLoop_closed hpre, pemLoop_intact (clear_begin_eol b.endEol)]

theorem Cut.terminated (x : Cut) (h : asBytes END <+: asBytes x.left) :
    ∃ q, x.left = END ++ q ∧ Clear (asBytes BEGIN) (asBytes q) := by
  obtain ⟨q, hq⟩ := h
  have hlast : asBytes END = (asBytes END).take 24 ++ [0x2D] := by
    rw [asBytes_END]
    rfl
  have hsplit : asBytes x.left = (asBytes END).take 24 ++ 0x2D :: q := by
    rw [← hq]
    conv_lhs => rw [hlast]
    rw [List.append_assoc, List.singleton_append]
  obtain ⟨s, c, y, hleft, hs, hc, hy⟩ := split_ascii (by decide) hsplit
  have hend : s ++ c = END := by
    rw [← asBytes_inj, asBytes_append, hs, hc, ← hlast]
  refine ⟨y, by rw [hleft, hend], ?_⟩
  have hpart := x.part
  rw [← hq, asBytes_append, List.append_sublist_append_left] at hpart
  rw [hy]
  exact clear_eols begin_bytes.1 begin_bytes.2.1 begin_bytes.2.2 x.block.endEol hpart

theorem pemLoop_terminated (hpre : Clear (asBytes BEGIN) (asBytes pre)) (x : Cut)
    (h : asBytes END <+: asBytes x.left) (after : List Cert) :
    pemLoop (pre ++ ((Damaged.cut x).render ++ intact after)) out =
      some (out ++ (anchor (asBytes x.block.body.text)).toList ++ ders after) := by
  obtain ⟨q, hq, hclear⟩ := x.terminated h
  have htext : (Damaged.cut x).render ++ intact after =
      BEGIN ++ (x.block.inner ++ (END ++ (q ++ intact after))) := by
    simp only [Damaged.render, hq, String.append_assoc]
  rw [htext, pemLoop_block hpre (find_clear x.block.clear_inner), pemLoop_intact hclear, anchor_inner]

theorem pemLoop_last (hpre : Clear (asBytes BEGIN) (asBytes pre)) (x : Cut)
    (h : ¬asBytes END <+: asBytes x.left) :
    pemLoop (pre ++ ((Damaged.cut x).render ++ intact [])) out = some out := by
  have htext : (Damaged.cut x).render ++ intact [] = BEGIN ++ (x.block.inner ++ x.left) :=
    String.append_empty
  rw [htext]
  apply pemLoop_open hpre
  rw [find, asBytes_append, x.block.clear_inner.find, Option.map_eq_none_iff, find_eq_none]
  rintro ⟨p, q, hpq⟩
  have hnil := x.eq_nil (p := p) (q := (asBytes END).drop 9 ++ q) (by
    rw [← hpq, ← List.append_assoc ((asBytes END).take 9), List.take_append_drop, List.append_assoc])
  rw [hnil, List.nil_append] at hpq
  exact h ⟨q, hpq⟩

theorem Cut.Completed.shares {x : Cut} (h : x.Completed) :
    ∃ d t, END = x.left ++ d ∧ BEGIN = d ++ t ∧ ¬asBytes BEGIN <:+: asBytes t := by
  obtain ⟨m, hm, hm', hleft⟩ := h
  have hend (d : String) (hd : asBytes END = (asBytes END).take m ++ asBytes d) : END = x.left ++ d := by
    rw [← asBytes_inj, asBytes_append, hleft, ← hd]
  interval_cases m
  · exact ⟨"-----", "BEGIN CERTIFICATE-----", hend _ rfl, by decide, by decide⟩
  · exact ⟨"----", "-BEGIN CERTIFICATE-----", hend _ rfl, by decide, by decide⟩
  · exact ⟨"---", "--BEGIN CERTIFICATE-----", hend _ rfl, by decide, by decide⟩
  · exact ⟨"--", "---BEGIN CERTIFICATE-----", hend _ rfl, by decide, by decide⟩
  · exact ⟨"-", "----BEGIN CERTIFICATE-----", hend _ rfl, by decide, by decide⟩

theorem pemLoop_completed (hpre : Clear (asBytes BEGIN) (asBytes pre)) (x : Cut) (h : x.Completed)
    (c : Cert) (after : List Cert) :
    pemLoop (pre ++ ((Damaged.cut x).render ++ intact (c :: after))) out =
      some (out ++ (anchor (asBytes x.block.body.text)).toList ++ ders after) := by
  obtain ⟨d, t, hend, hbegin, ht⟩ := h.shares
  have htext : (Damaged.cut x).render ++ intact (c :: after) =
      BEGIN ++ (x.block.inner ++ (END ++ (t ++ c.block.inner ++ (END ++ c.block.endEol.text) ++ intact after))) := by
    have hshift (z : String) : x.left ++ (BEGIN ++ z) = END ++ (t ++ z) := by
      rw [hbegin, hend, String.append_assoc, String.append_assoc]
    simp only [Damaged.render, intact, List.map_cons, document, Item.render, Block.text, String.append_assoc,
      hshift]
  have hline : Clear (asBytes BEGIN) (asBytes (t ++ c.block.beginEol.text)) :=
    clear_eol begin_bytes.1 begin_bytes.2.1 ht _
  have hbody : Clear (asBytes BEGIN) (asBytes (c.block.body.text ++ c.block.bodyEol.text)) :=
    clear_eol begin_bytes.1 begin_bytes.2.1 c.block.body.noBegin _
  have hlast : Clear (asBytes BEGIN) (asBytes (END ++ c.block.endEol.text)) :=
    clear_eol begin_bytes.1 begin_bytes.2.1 (by rw [asBytes_BEGIN, asBytes_END]; decide) _
  have hclear : Clear (asBytes BEGIN) (asBytes (t ++ c.block.inner ++ (END ++ c.block.endEol.text))) := by
    rw [asBytes_append, Block.inner, ← String.append_assoc, asBytes_append]
    exact (hline.append hbody).append hlast
  rw [htext, pemLoop_block hpre (find_clear x.block.clear_inner), pemLoop_intact hclear, anchor_inner]

theorem pemLoop_merged (hpre : Clear (asBytes BEGIN) (asBytes pre)) (x : Cut)
    (h : ∀ post, ∀ i < (asBytes x.left).length,
      ¬asBytes END <+: (asBytes x.left ++ (asBytes BEGIN ++ post)).drop i)
    (c : Cert) (after : List Cert) :
    pemLoop (pre ++ ((Damaged.cut x).render ++ intact (c :: after))) out =
      some (out ++ (anchor (asBytes (x.block.inner ++ (x.left ++ (BEGIN ++ c.block.inner))))).toList ++
        ders after) := by
  have htext : (Damaged.cut x).render ++ intact (c :: after) =
      BEGIN ++ (x.block.inner ++ (x.left ++ (BEGIN ++ c.block.inner)) ++
        (END ++ (c.block.endEol.text ++ intact after))) := by
    simp only [Damaged.render, intact, List.map_cons, document, Item.render, Block.text, String.append_assoc]
  have hbegin : Clear (asBytes END) (asBytes (BEGIN ++ c.block.inner)) := by
    have hb : Clear (asBytes END) (asBytes (BEGIN ++ c.block.beginEol.text)) :=
      clear_eol end_bytes.1 end_bytes.2.1 (by rw [asBytes_BEGIN, asBytes_END]; decide) _
    have hbody : Clear (asBytes END) (asBytes (c.block.body.text ++ c.block.bodyEol.text)) :=
      clear_eol end_bytes.1 end_bytes.2.1 c.block.body.noEnd _
    rw [Block.inner, ← String.append_assoc, asBytes_append]
    exact hb.append hbody
  have hmarker : find (BEGIN ++ c.block.inner ++ (END ++ (c.block.endEol.text ++ intact after))) END =
      some (len (BEGIN ++ c.block.inner)) := find_clear hbegin
  have hleft (z : String) :
      find (x.left ++ (BEGIN ++ z)) END = (find (BEGIN ++ z) END).map (· + len x.left) := by
    rw [find, asBytes_append, asBytes_append]
    rw [find_skip (h (asBytes z)), find, asBytes_append, len]
  have hinner (z : String) :
      find (x.block.inner ++ z) END = (find z END).map (· + len x.block.inner) := by
    rw [find, asBytes_append, x.block.clear_inner.find, find, len]
  rw [htext, pemLoop_block hpre, pemLoop_intact (clear_begin_eol c.block.endEol)]
  rw [String.append_assoc, hinner, String.append_assoc, String.append_assoc, hleft, ← String.append_assoc,
    hmarker]
  simp only [Option.map_some, len_append]
  congr 1
  omega

theorem anchor_merged (x : Cut) (s : String) :
    anchor (asBytes (x.block.inner ++ (x.left ++ (BEGIN ++ s)))) =
      if PAD ∈ asBytes x.block.body.text then anchor (asBytes x.block.body.text) else none := by
  split_ifs with hpad
  · apply anchor_congr
    have hmem : PAD ∈ stripped (asBytes x.block.body.text) :=
      List.mem_filter.mpr ⟨hpad, by decide⟩
    have hstop : ((stripped (asBytes x.block.body.text)).takeWhile (· != PAD)).length ≠
        (stripped (asBytes x.block.body.text)).length := by
      intro hlen
      have hall := (List.takeWhile_prefix _).eq_of_length hlen
      rw [← hall] at hmem
      simpa using List.mem_takeWhile_imp hmem
    rw [digits_eq, digits_eq, asBytes_append, stripped_append, stripped_inner, List.takeWhile_append,
      if_neg hstop]
  · apply anchor_broken
    refine ⟨0x2D, ?_, by decide⟩
    have hinner : PAD ∉ asBytes x.block.inner := by
      simp [Block.inner, hpad, (not_mem_eol _).2]
    have hleft : PAD ∉ asBytes x.left := by
      intro hmem
      have hline := x.part.subset hmem
      rw [asBytes_append, List.mem_append] at hline
      rcases hline with hline | hline
      · rw [asBytes_END] at hline
        exact absurd hline (by decide)
      · exact (not_mem_eol _).2 hline
    have hu : ∀ c ∈ asBytes x.block.inner ++ asBytes x.left, (c != PAD) = true := by
      intro c hc
      rw [bne_iff_ne]
      rintro rfl
      rcases List.mem_append.mp hc with hc | hc
      · exact hinner hc
      · exact hleft hc
    have hbegin : asBytes BEGIN = 0x2D :: (asBytes BEGIN).tail := by
      rw [asBytes_BEGIN]
      rfl
    rw [digits, List.mem_filter]
    refine ⟨?_, by decide⟩
    rw [asBytes_append, asBytes_append, asBytes_append, hbegin, ← List.append_assoc,
      List.takeWhile_append_of_pos hu, List.cons_append, List.takeWhile_cons_of_pos (by decide)]
    exact List.mem_append_right _ List.mem_cons_self

theorem pemLoop_unterminated (hpre : Clear (asBytes BEGIN) (asBytes pre)) (x : Cut)
    (h : ¬asBytes END <+: asBytes x.left) (c : Cert) (after : List Cert) :
    pemLoop (pre ++ ((Damaged.cut x).render ++ intact (c :: after))) out =
      some (out ++ (Damaged.cut x).salvaged.toList ++ ders after) := by
  rw [Damaged.salvaged]
  by_cases hcomp : x.Completed
  · rw [if_pos (.inl hcomp), pemLoop_completed hpre x hcomp]
  · rcases x.cases with hterm | hcomp' | hmerged
    · exact absurd hterm h
    · exact absurd hcomp' hcomp
    · simp only [hcomp, false_or]
      rw [pemLoop_merged hpre x hmerged, anchor_merged]

theorem lost_iff {before rest : List Cert} {c : Cert} {mid : Option (List UInt8)} :
    (∃ out, some (ders before ++ mid.toList ++ ders rest) = some out ∧
      ders before ++ ders (c :: rest) <+ out) ↔ mid = some c.der := by
  simp only [Option.some.injEq, exists_eq_left', List.append_assoc, List.append_sublist_append_left]
  rw [ders, List.map_cons]
  cases mid with
  | none =>
    simp only [Option.toList_none, List.nil_append, reduceCtorEq, iff_false]
    intro h
    exact absurd h.length_le (by simp [ders])
  | some d =>
    rw [Option.toList_some, List.singleton_append, Option.some.injEq]
    constructor
    · intro h
      have heq := h.eq_of_length (by simp [ders])
      exact (List.cons.inj heq).1.symm
    · rintro rfl
      exact List.Sublist.refl _

theorem kept_iff (before : List Cert) (x : Damaged) (after : List Cert) :
    Kept before x after ↔ ∀ c rest, after = c :: rest → x.Terminated ∨ x.salvaged = some c.der := by
  obtain ⟨pre, hpre, hbefore⟩ := pemToDers_before before (x.render ++ intact after)
  rw [Kept, hbefore]
  by_cases hterm : x.Terminated
  · have hfound : ∃ mid, pemLoop (pre ++ (x.render ++ intact after)) (ders before) =
        some (ders before ++ mid ++ ders after) := by
      cases x with
      | malformed b => exact ⟨_, pemLoop_malformed hpre b after⟩
      | cut x => exact ⟨_, pemLoop_terminated hpre x hterm after⟩
    obtain ⟨mid, hfound⟩ := hfound
    refine ⟨fun _ _ _ _ => .inl hterm, fun _ => ⟨_, hfound, ?_⟩⟩
    rw [List.append_assoc, List.append_sublist_append_left]
    exact List.sublist_append_right mid _
  · cases x with
    | malformed b => exact absurd trivial hterm
    | cut x =>
      cases after with
      | nil =>
        refine ⟨fun _ _ _ h => (List.cons_ne_nil _ _ h.symm).elim, fun _ => ⟨_, pemLoop_last hpre x hterm, ?_⟩⟩
        rw [ders, ders, List.map_nil, List.append_nil]
      | cons c rest =>
        rw [pemLoop_unterminated hpre x hterm, lost_iff]
        constructor
        · rintro h _ _ ⟨⟩
          exact .inr h
        · intro h
          exact (h c rest rfl).resolve_left hterm

def sampleCert : Cert where
  block := ⟨⟨"MIIBCg==", by decide +kernel, by decide +kernel⟩, .lf, .lf, .lf⟩
  der := [0x30, 0x82, 0x01, 0x0A]
  nonempty := by decide
  encoded := by decide +kernel

def unterminated : Cut where
  block := ⟨⟨"AAAA", by decide +kernel, by decide +kernel⟩, .lf, .lf, .lf⟩
  left := ""
  part := List.nil_sublist _
  missing := by decide +kernel

theorem unterminated_costs_next : ¬Kept [] (.cut unterminated) [sampleCert] := by
  obtain ⟨pre, hpre, hbefore⟩ := pemToDers_before [] ((Damaged.cut unterminated).render ++ intact [sampleCert])
  have hsalvaged : (Damaged.cut unterminated).salvaged = none := by decide +kernel
  rw [Kept, hbefore, pemLoop_unterminated hpre unterminated (by decide +kernel), lost_iff, hsalvaged]
  rintro ⟨⟩

end Rustils.Security.TrustAnchors
