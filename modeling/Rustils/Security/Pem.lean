import Rustils.Security.TrustAnchors

namespace Rustils.Security.TrustAnchors

open Lib.Utf8 Lib.Base64 Lib.Search
open scoped List

inductive Eol
  | lf
  | crlf

def Eol.text : Eol → String
  | .lf => "\n"
  | .crlf => "\r\n"

structure Body where
  text : String
  noBegin : ¬asBytes BEGIN <:+: asBytes text
  noEnd : ¬asBytes END <:+: asBytes text

structure Block where
  body : Body
  beginEol : Eol
  bodyEol : Eol
  endEol : Eol

def Block.inner (b : Block) : String := b.beginEol.text ++ (b.body.text ++ b.bodyEol.text)

def Block.text (b : Block) : String := BEGIN ++ (b.inner ++ (END ++ b.endEol.text))

structure Cert where
  block : Block
  der : List UInt8
  nonempty : der ≠ []
  encoded : stripped (asBytes block.body.text) = encode der

inductive Item
  | text (chunk : String) (noBegin : ¬asBytes BEGIN <:+: asBytes chunk)
  | cert (c : Cert)
  | broken (b : Block) (outside : ∃ c ∈ digits (asBytes b.body.text), ∀ v < 64, c ≠ letter v)

def Item.render : Item → String
  | .text chunk _ => chunk ++ "\n"
  | .cert c => c.block.text
  | .broken b _ => b.text

def Item.der? : Item → Option (List UInt8)
  | .cert c => some c.der
  | _ => none

def document : List Item → String
  | [] => ""
  | i :: items => i.render ++ document items

def anchor (body : List UInt8) : Option (List UInt8) := (b64Decode body).filter fun der => !der.isEmpty

theorem asBytes_lf : asBytes "\n" = [0x0A] := rfl

theorem asBytes_crlf : asBytes "\r\n" = [0x0D, 0x0A] := rfl

theorem clear_eol {pat : List UInt8} {t : String} (hn : 0x0A ∉ pat) (hr : 0x0D ∉ pat)
    (h : ¬pat <:+: asBytes t) (e : Eol) : Clear pat (asBytes (t ++ e.text)) := by
  cases e with
  | lf =>
    rw [asBytes_append, Eol.text, asBytes_lf]
    exact Clear.line hn h
  | crlf =>
    have hnil : ¬pat <:+: [] := by
      intro hp
      exact h (hp.trans List.nil_infix)
    rw [asBytes_append, Eol.text, asBytes_crlf, ← List.singleton_append, ← List.append_assoc]
    exact (Clear.line hr h).append (Clear.line hn hnil)

theorem begin_bytes : 0x0A ∉ asBytes BEGIN ∧ 0x0D ∉ asBytes BEGIN ∧ asBytes BEGIN ≠ [] := by
  decide +kernel

theorem end_bytes : 0x0A ∉ asBytes END ∧ 0x0D ∉ asBytes END ∧ asBytes END ≠ [] := by
  decide +kernel

theorem find_clear {pre pat s : String} (h : Clear (asBytes pat) (asBytes pre)) :
    find (pre ++ (pat ++ s)) pat = some (len pre) := by
  rw [find, asBytes_append, h.find, asBytes_append, find_of_prefix (List.prefix_append _ _)]
  rw [Option.map_some, Nat.zero_add, len]

theorem slice_after (pre pat s : String) :
    slice (pre ++ (pat ++ s)) (len pre + len pat) (len (pre ++ (pat ++ s))) = some s := by
  rw [slice_eq_some]
  refine ⟨pre ++ pat, "", ?_, ?_, ?_⟩
  · simp [String.append_assoc]
  · rw [len_append]
  · simp only [len_append]
    omega

theorem pushDer_inner (out : List (List UInt8)) (inner rest : String) :
    pushDer out (b64Decode ((asBytes (inner ++ rest)).take (len inner))) =
      out ++ (anchor (asBytes inner)).toList := by
  have htake : (asBytes (inner ++ rest)).take (len inner) = asBytes inner := by
    rw [asBytes_append, len, List.take_left]
  rw [htake, anchor]
  cases b64Decode (asBytes inner) with
  | none => simp [pushDer]
  | some der =>
    cases der with
    | nil => simp [pushDer]
    | cons b bs => rfl

theorem pemLoop_none {rest : String} (h : find rest BEGIN = none) (out : List (List UInt8)) :
    pemLoop rest out = some out := by
  rw [pemLoop]
  split
  · rfl
  · rename_i hs
    rw [h] at hs
    cases hs

theorem pemLoop_open {pre after : String} (hpre : Clear (asBytes BEGIN) (asBytes pre))
    (hafter : find after END = none) (out : List (List UInt8)) :
    pemLoop (pre ++ (BEGIN ++ after)) out = some out := by
  rw [pemLoop]
  split
  · rfl
  · rename_i start hs
    cases (find_clear hpre).symm.trans hs
    split
    · rename_i hnone
      cases (slice_after pre BEGIN after).symm.trans hnone
    · rename_i a ha
      cases (slice_after pre BEGIN after).symm.trans ha
      split
      · rfl
      · rename_i he
        cases hafter.symm.trans he

theorem pemLoop_block {pre inner rest : String} (hpre : Clear (asBytes BEGIN) (asBytes pre))
    (hinner : find (inner ++ (END ++ rest)) END = some (len inner)) (out : List (List UInt8)) :
    pemLoop (pre ++ (BEGIN ++ (inner ++ (END ++ rest)))) out =
      pemLoop rest (out ++ (anchor (asBytes inner)).toList) := by
  conv_lhs => rw [pemLoop]
  split
  · rename_i hs
    cases (find_clear hpre).symm.trans hs
  · rename_i start hs
    cases (find_clear hpre).symm.trans hs
    split
    · rename_i hnone
      cases (slice_after pre BEGIN _).symm.trans hnone
    · rename_i after ha
      cases (slice_after pre BEGIN _).symm.trans ha
      split
      · rename_i he
        cases hinner.symm.trans he
      · rename_i stop he
        cases hinner.symm.trans he
        split
        · rename_i hnone
          cases (slice_after inner END rest).symm.trans hnone
        · rename_i rest' hrest
          cases (slice_after inner END rest).symm.trans hrest
          rw [pushDer_inner]

theorem stripped_append (s t : List UInt8) : stripped (s ++ t) = stripped s ++ stripped t :=
  List.filter_append ..

theorem stripped_eol (e : Eol) : stripped (asBytes e.text) = [] := by
  cases e with
  | lf => rw [Eol.text, asBytes_lf]; rfl
  | crlf => rw [Eol.text, asBytes_crlf]; rfl

theorem anchor_congr {s t : List UInt8} (h : digits s = digits t) : anchor s = anchor t := by
  rw [anchor, anchor, b64Decode_eq, b64Decode_eq, h]

theorem stripped_inner (b : Block) : stripped (asBytes b.inner) = stripped (asBytes b.body.text) := by
  simp only [Block.inner, asBytes_append, stripped_append, stripped_eol, List.nil_append, List.append_nil]

theorem anchor_inner (b : Block) : anchor (asBytes b.inner) = anchor (asBytes b.body.text) := by
  apply anchor_congr
  rw [digits_eq, digits_eq, stripped_inner]

theorem Cert.anchor_eq (c : Cert) : anchor (asBytes c.block.body.text) = some c.der := by
  have hvs : ∀ v ∈ sextetsOf c.der, v < 64 := fun v hv => sextetsOf_lt hv
  have hd : digits (asBytes c.block.body.text) = (sextetsOf c.der).map letter := by
    rw [digits_eq, c.encoded, encode, takeWhile_letters hvs]
  rw [anchor, b64Decode_letters hvs hd, bytesOf_sextetsOf]
  simpa [Option.filter] using c.nonempty

theorem anchor_broken {body : List UInt8} (h : ∃ c ∈ digits body, ∀ v < 64, c ≠ letter v) :
    anchor body = none := by
  obtain ⟨c, hc, hout⟩ := h
  have hnone : b64Decode body = none := by
    rw [Option.eq_none_iff_forall_ne_some]
    intro out hsome
    obtain ⟨vs, hvs, hd, -⟩ := b64Decode_eq_some.mp hsome
    rw [hd] at hc
    obtain ⟨v, hv, rfl⟩ := List.mem_map.mp hc
    exact hout v (hvs v hv) rfl
  rw [anchor, hnone]
  rfl

theorem clear_eols {pat : List UInt8} (hn : 0x0A ∉ pat) (hr : 0x0D ∉ pat) (hne : pat ≠ []) (e : Eol)
    {s : List UInt8} (hs : s <+ asBytes e.text) : Clear pat s := by
  apply Clear.of_disjoint hne
  intro x hx
  have hmem := hs.subset hx
  cases e with
  | lf =>
    rw [Eol.text, asBytes_lf, List.mem_singleton] at hmem
    exact hmem ▸ hn
  | crlf =>
    rw [Eol.text, asBytes_crlf, List.mem_pair] at hmem
    rcases hmem with rfl | rfl
    · exact hr
    · exact hn

theorem clear_begin_eol (e : Eol) : Clear (asBytes BEGIN) (asBytes e.text) :=
  clear_eols begin_bytes.1 begin_bytes.2.1 begin_bytes.2.2 e (List.Sublist.refl _)

theorem Block.clear_inner (b : Block) : Clear (asBytes END) (asBytes b.inner) := by
  rw [Block.inner, asBytes_append]
  apply Clear.append
  · exact clear_eols end_bytes.1 end_bytes.2.1 end_bytes.2.2 b.beginEol (List.Sublist.refl _)
  · exact clear_eol end_bytes.1 end_bytes.2.1 b.body.noEnd b.bodyEol

theorem pemLoop_closed {pre : String} (hpre : Clear (asBytes BEGIN) (asBytes pre)) (b : Block) (s : String)
    (out : List (List UInt8)) :
    pemLoop (pre ++ (b.text ++ s)) out =
      pemLoop (b.endEol.text ++ s) (out ++ (anchor (asBytes b.body.text)).toList) := by
  have htext : b.text ++ s = BEGIN ++ (b.inner ++ (END ++ (b.endEol.text ++ s))) := by
    simp only [Block.text, String.append_assoc]
  rw [htext, pemLoop_block hpre (find_clear b.clear_inner), anchor_inner]

theorem pemLoop_document (items : List Item) {pre : String} (hpre : Clear (asBytes BEGIN) (asBytes pre))
    (s : String) (out : List (List UInt8)) :
    ∃ pre', Clear (asBytes BEGIN) (asBytes pre') ∧
      pemLoop (pre ++ (document items ++ s)) out = pemLoop (pre' ++ s) (out ++ items.filterMap Item.der?) := by
  induction items generalizing pre out with
  | nil =>
    refine ⟨pre, hpre, ?_⟩
    simp [document]
  | cons i items ih =>
    cases i with
    | text chunk noBegin =>
      have hchunk : Clear (asBytes BEGIN) (asBytes (pre ++ (chunk ++ "\n"))) := by
        rw [asBytes_append]
        exact hpre.append (clear_eol begin_bytes.1 begin_bytes.2.1 noBegin .lf)
      obtain ⟨pre', hpre', h⟩ := ih hchunk out
      refine ⟨pre', hpre', ?_⟩
      rw [List.filterMap_cons_none rfl]
      simpa [document, Item.render, String.append_assoc] using h
    | cert c =>
      obtain ⟨pre', hpre', h⟩ := ih (clear_begin_eol c.block.endEol) (out ++ [c.der])
      refine ⟨pre', hpre', ?_⟩
      rw [document, Item.render, String.append_assoc, pemLoop_closed hpre, c.anchor_eq]
      simpa [Item.der?] using h
    | broken b outside =>
      obtain ⟨pre', hpre', h⟩ := ih (clear_begin_eol b.endEol) out
      refine ⟨pre', hpre', ?_⟩
      rw [document, Item.render, String.append_assoc, pemLoop_closed hpre, anchor_broken outside,
        List.filterMap_cons_none rfl]
      simpa using h

theorem pemLoop_end {pre : String} (hpre : Clear (asBytes BEGIN) (asBytes pre)) (out : List (List UInt8)) :
    pemLoop pre out = some out := by
  apply pemLoop_none
  have h := hpre.find []
  have hnil : Lib.Search.find (asBytes BEGIN) [] = none := if_neg begin_bytes.2.2
  rw [List.append_nil, hnil] at h
  exact h

theorem pem_exact (items : List Item) : pemToDers (document items) = some (items.filterMap Item.der?) := by
  have hnil : Clear (asBytes BEGIN) (asBytes "") := Clear.nil
  obtain ⟨pre, hpre, h⟩ := pemLoop_document items hnil "" []
  have hdoc : "" ++ (document items ++ "") = document items := by simp
  have hrest : pre ++ "" = pre := by simp
  rw [hdoc, hrest, pemLoop_end hpre, List.nil_append] at h
  exact h

end Rustils.Security.TrustAnchors
