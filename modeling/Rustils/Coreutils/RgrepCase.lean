import Rustils.Coreutils.FindName
import Rustils.Coreutils.Rgrep
import Rustils.Lib.Respell

namespace Rustils.Coreutils.Rgrep

open Lib.CaseFold Lib.Ere

structure Unicode extends Letters where
  cased : Char → Bool
  caseIgnorable : Char → Bool
  newline : ∀ {c}, lower '\n' = lower c → c = '\n'

/-- What is used of `rusty_regx`: for each regex there is an expression of POSIX whose matches it finds. -/
structure Engine where
  Regex : Type
  new : String → Except String Regex
  isMatch : Regex → String → Bool
  expr : Regex → Expr
  isMatch_iff : ∀ {re text}, isMatch re text = true ↔ Search (expr re) text.toList

section Main

variable (unicode : Unicode) (engine : Engine)

def caseIgnorableThenCased (text : List Char) : Bool :=
  match text.dropWhile unicode.caseIgnorable with
  | c :: _ => unicode.cased c
  | [] => false

/-- `str::to_lowercase` behind `seen`, the latest first: a capital sigma at the end of a word is lowered
to another letter than elsewhere. -/
def lowerFrom (seen : List Char) : List Char → List Char
  | [] => []
  | c :: rest =>
    (if c = 'Σ' then
      [if caseIgnorableThenCased unicode seen && !caseIgnorableThenCased unicode rest then 'ς' else 'σ']
    else unicode.lower c) ++ lowerFrom (c :: seen) rest

def toLowercase (s : String) : String := String.ofList (lowerFrom unicode [] s.toList)

def compile (ignoreCase invert lineNums : Bool) (pattern : String) : Except String Options :=
  let finalPattern := if ignoreCase then toLowercase unicode pattern else pattern
  match engine.new finalPattern with
  | .ok re => .ok ⟨engine.isMatch re, invert, lineNums⟩
  | .error e => .error s!"Invalid regex '{pattern}': {e}"

def selects (ignoreCase invert : Bool) (pattern line : String) : Bool :=
  match compile unicode engine ignoreCase invert false pattern with
  | .ok o => line ∈ (searchReader o "" false 0 [some line]).1
  | .error _ => false

end Main

def IsLine (text : List Char) : Prop := '\n' ∉ text

structure Pattern (engine : Engine) where
  text : String
  re : engine.Regex
  compiled : engine.new text = .ok re

section Case

variable {engine : Engine} (unicode : Unicode)

structure IgnoresCase (p : Pattern engine) : Prop where
  line : ∀ invert l l', IsLine l.toList → IsLine l'.toList → unicode.SameText l.toList l'.toList →
    selects unicode engine true invert p.text l = selects unicode engine true invert p.text l'
  pattern : ∀ invert q l, toLowercase unicode q = toLowercase unicode p.text →
    selects unicode engine true invert q l = selects unicode engine true invert p.text l
  wider : ∀ l, IsLine l.toList →
    selects unicode engine false false p.text l = true → selects unicode engine true false p.text l = true
  narrower : ∀ l, IsLine l.toList →
    selects unicode engine true true p.text l = true → selects unicode engine false true p.text l = true

def FoldBlind (e : Expr) : Prop := ∀ text, IsLine text → Search (fold unicode.toLetters e) text → Search e text

structure LoweredBlind (p : Pattern engine) : Prop where
  blind : ∀ re, engine.new (toLowercase unicode p.text) = .ok re → FoldBlind unicode (engine.expr re)
  kept : ∀ text, IsLine text → Search (engine.expr p.re) text →
    ∃ re, engine.new (toLowercase unicode p.text) = .ok re ∧ Search (fold unicode.toLetters (engine.expr re)) text

variable {unicode}

theorem selects_ok {ignoreCase invert : Bool} {q l : String} {re : engine.Regex}
    (h : engine.new (if ignoreCase then toLowercase unicode q else q) = .ok re) :
    selects unicode engine ignoreCase invert q l = true ↔ (Search (engine.expr re) l.toList ↔ invert = false) := by
  rw [← engine.isMatch_iff]
  cases hm : engine.isMatch re l <;> cases invert <;> simp [selects, compile, h, searchReader, hm]

theorem written_ok {invert : Bool} {q l : String} {re : engine.Regex} (h : engine.new q = .ok re) :
    selects unicode engine false invert q l = true ↔ (Search (engine.expr re) l.toList ↔ invert = false) := selects_ok h

theorem lowered_ok {invert : Bool} {q l : String} {re : engine.Regex} (h : engine.new (toLowercase unicode q) = .ok re) :
    selects unicode engine true invert q l = true ↔ (Search (engine.expr re) l.toList ↔ invert = false) := selects_ok h

theorem lowered_error {invert : Bool} {q l e : String} (h : engine.new (toLowercase unicode q) = .error e) :
    selects unicode engine true invert q l = false := by
  simp [selects, compile, h]

theorem isLine_congr {text text' : List Char} (h : unicode.SameText text text') (ht : IsLine text) : IsLine text' := by
  induction h with
  | nil => exact ht
  | @cons c c' text text' hc _ ih =>
    simp only [IsLine, List.mem_cons, not_or] at ht ih ⊢
    refine ⟨?_, ih ht.2⟩
    rintro rfl
    exact ht.1 (unicode.newline hc.symm).symm

theorem selects_same {invert : Bool} {q q' l l' : String} (hq : toLowercase unicode q = toLowercase unicode q')
    (h : ∀ re, engine.new (toLowercase unicode q') = .ok re →
      (Search (engine.expr re) l.toList ↔ Search (engine.expr re) l'.toList)) :
    selects unicode engine true invert q l = selects unicode engine true invert q' l' := by
  cases hnew : engine.new (toLowercase unicode q') with
  | error e => rw [lowered_error hnew, lowered_error (hq ▸ hnew)]
  | ok re =>
    apply Bool.eq_iff_iff.mpr
    rw [lowered_ok hnew, lowered_ok (hq ▸ hnew), h re hnew]

theorem ignoresCase_iff (p : Pattern engine) : IgnoresCase unicode p ↔ LoweredBlind unicode p := by
  constructor
  · intro h
    refine ⟨fun re hre => ?_, fun text ht hfound => ?_⟩
    · apply (closed_iff_fold isLine_congr).mp
      intro text text' ht ht' hs hfound
      have hsel := h.line false (String.ofList text) (String.ofList text')
      rw [Bool.eq_iff_iff, lowered_ok hre, lowered_ok hre] at hsel
      simp only [String.toList_ofList, iff_true] at hsel
      exact (hsel ht ht' hs).mpr hfound
    · have hsel := h.wider (String.ofList text)
      rw [written_ok p.compiled] at hsel
      simp only [String.toList_ofList, iff_true] at hsel
      cases hre : engine.new (toLowercase unicode p.text) with
      | error e =>
        rw [lowered_error hre] at hsel
        cases hsel ht hfound
      | ok re =>
        simp only [lowered_ok hre, String.toList_ofList, iff_true] at hsel
        exact ⟨re, rfl, search_fold.mpr ⟨text, .refl text, hsel ht hfound⟩⟩
  · intro h
    have hwider : ∀ {l : String}, IsLine l.toList → Search (engine.expr p.re) l.toList →
        ∃ re, engine.new (toLowercase unicode p.text) = .ok re ∧ Search (engine.expr re) l.toList := by
      intro l hl hfound
      obtain ⟨re, hre, hfold⟩ := h.kept _ hl hfound
      exact ⟨re, hre, h.blind re hre _ hl hfold⟩
    refine ⟨fun invert l l' hl hl' hs => ?_, fun invert q l hq => ?_, fun l hl hsel => ?_, fun l hl hsel => ?_⟩
    · apply selects_same rfl
      intro re hre
      have hclosed := (closed_iff_fold isLine_congr).mpr (h.blind re hre)
      exact ⟨hclosed _ _ hl' hl hs.symm, hclosed _ _ hl hl' hs⟩
    · exact selects_same hq fun _ _ => Iff.rfl
    · obtain ⟨re, hre, hfound⟩ := hwider hl (((written_ok p.compiled).mp hsel).mpr rfl)
      exact (lowered_ok hre).mpr (iff_of_true hfound rfl)
    · apply (written_ok p.compiled).mpr
      refine iff_of_false (fun hfound => ?_) (by decide)
      obtain ⟨re, hre, hfound⟩ := hwider hl hfound
      cases ((lowered_ok hre).mp hsel).mp hfound

end Case

section Read

variable {unicode : Unicode} {engine : Engine}

def Engine.Conforms (engine : Engine) : Prop :=
  ∀ s e, Lib.Ere.read s.toList = some e →
    ∃ re, engine.new s = .ok re ∧ ∀ text, Search (engine.expr re) text ↔ Search e text

/-- What a letter is lowered to is lowered already, and is nothing that has a meaning in an expression. -/
structure Unicode.Settled (unicode : Unicode) : Prop where
  lowered : ∀ {c d}, unicode.lower c = [d] → unicode.lower d = [d]
  special : ∀ {c d}, d ∈ ']' :: '-' :: specials → (unicode.lower c = [d] ↔ c = d)

def Unicode.Simple (unicode : Unicode) (c : Char) : Prop := c ≠ 'Σ' ∧ ∃ d, unicode.lower c = [d]

structure ReadsAs (unicode : Unicode) (pattern : String) (e : Expr) : Prop where
  read : Lib.Ere.read pattern.toList = some e
  simple : ∀ c ∈ pattern.toList, unicode.Simple c

def single (unicode : Unicode) (c : Char) : Char :=
  match unicode.lower c with
  | [d] => d
  | _ => c

theorem single_eq {c d : Char} (h : unicode.lower c = [d]) : single unicode c = d := by
  simp [single, h]

theorem single_cases (c : Char) : unicode.lower c = [single unicode c] ∨ single unicode c = c := by
  unfold single
  split
  · exact .inl ‹_›
  · exact .inr rfl

theorem lower_single {c : Char} (hc : unicode.Simple c) : unicode.lower c = [single unicode c] := by
  obtain ⟨-, d, hd⟩ := hc
  rw [single_eq hd, hd]

theorem lowerFrom_simple {seen text : List Char} (h : ∀ c ∈ text, unicode.Simple c) :
    lowerFrom unicode seen text = text.map (single unicode) := by
  induction text generalizing seen with
  | nil => rfl
  | cons c text ih =>
    obtain ⟨hc, h⟩ := List.forall_mem_cons.mp h
    rw [lowerFrom, if_neg hc.1, lower_single hc, ih h]
    rfl

theorem toLowercase_simple {s : String} (h : ∀ c ∈ s.toList, unicode.Simple c) :
    toLowercase unicode s = String.ofList (s.toList.map (single unicode)) := by
  rw [toLowercase, lowerFrom_simple h]

section Settled

variable (hu : unicode.Settled)

include hu

theorem single_same (c : Char) : unicode.Same (single unicode c) c := by
  obtain h | h := @single_cases unicode c
  · exact (hu.lowered h).trans h.symm
  · rw [h]
    rfl

theorem single_single (c : Char) : single unicode (single unicode c) = single unicode c := by
  obtain h | h := @single_cases unicode c
  · exact single_eq (hu.lowered h)
  · rw [h, h]

theorem single_keeps : KeepsSyntax (single unicode) := by
  rintro c (hc | hc)
  · exact single_eq ((hu.special hc).mpr rfl)
  · obtain h | h := @single_cases unicode c
    · exact ((hu.special hc).mp h).symm
    · exact h

theorem read_lowered {s : String} {e : Expr} (he : Lib.Ere.read s.toList = some e) (hs : ∀ c ∈ s.toList, unicode.Simple c) :
    Lib.Ere.read (toLowercase unicode s).toList = some (e.respell (single unicode)) := by
  rw [toLowercase_simple hs, String.toList_ofList, read_respell (single_keeps hu), he]
  rfl

theorem kept_of_read (hc : engine.Conforms) {p : Pattern engine} {e : Expr} (he : Lib.Ere.read p.text.toList = some e)
    (hs : ∀ c ∈ p.text.toList, unicode.Simple c) {text : List Char} (hfound : Search (engine.expr p.re) text) :
    ∃ re, engine.new (toLowercase unicode p.text) = .ok re ∧ Search (fold unicode.toLetters (engine.expr re)) text := by
  obtain ⟨re₀, hre₀, hsame₀⟩ := hc _ _ he
  obtain rfl := Except.ok.inj (hre₀.symm.trans p.compiled)
  obtain ⟨re, hre, hsame⟩ := hc _ _ (read_lowered hu he hs)
  refine ⟨re, hre, ?_⟩
  obtain ⟨text', ht, hf⟩ := search_fold.mp (search_respell (single_same hu) (single_single hu) ((hsame₀ text).mp hfound))
  exact search_fold.mpr ⟨text', ht, (hsame text').mpr hf⟩

theorem read_ignoresCase_iff (hc : engine.Conforms) {p : Pattern engine} {e : Expr} (he : ReadsAs unicode p.text e) :
    IgnoresCase unicode p ↔ FoldBlind unicode (e.respell (single unicode)) := by
  obtain ⟨re, hre, hsame⟩ := hc _ _ (read_lowered hu he.read he.simple)
  have hfold (text : List Char) : Search (fold unicode.toLetters (engine.expr re)) text ↔
      Search (fold unicode.toLetters (e.respell (single unicode))) text := by
    simp only [search_fold, hsame]
  rw [ignoresCase_iff]
  constructor
  · intro h text ht hfound
    exact (hsame text).mp (h.blind re hre text ht ((hfold text).mpr hfound))
  · intro h
    refine ⟨fun re' hre' text ht hfound => ?_, fun text _ hfound => kept_of_read hu hc he.read he.simple hfound⟩
    obtain rfl := Except.ok.inj (hre.symm.trans hre')
    exact (hsame text).mpr (h text ht ((hfold text).mp hfound))

theorem items_ignoresCase_iff (hc : engine.Conforms) {p : Pattern engine} {a es b : List Expr}
    (he : ReadsAs unicode p.text (inSequence (a ++ es ++ b))) (ha : a = [] ∨ a = [.start]) (hb : b = [] ∨ b = [.finish])
    (hes : ∀ e ∈ es, e.single = true ∧ ∃ c, c ≠ '\n' ∧ Takes (e.respell (single unicode)) c) :
    IgnoresCase unicode p ↔ ∀ e ∈ es, Blind unicode.toLetters (e.respell (single unicode)) := by
  have ha' : a.map (Expr.respell (single unicode)) = a := by
    obtain rfl | rfl := ha <;> rfl
  have hb' : b.map (Expr.respell (single unicode)) = b := by
    obtain rfl | rfl := hb <;> rfl
  rw [read_ignoresCase_iff hu hc he, ← inSequence_respell, List.map_append, List.map_append, ha', hb']
  constructor
  · intro h e hmem
    have hok {c d : Char} (hcd : unicode.Same c d) (hne : c ≠ d) : c ≠ '\n' := by
      rintro rfl
      exact hne (unicode.newline hcd).symm
    refine blind_of_fold ha hb ?_ hok ?_ (fun text ht => h text fun hnl => ht _ hnl rfl) _ (List.mem_map_of_mem hmem)
    · rw [List.forall_mem_map]
      exact fun x hx => (respell_single x).trans (hes x hx).1
    · rw [List.forall_mem_map]
      exact fun x hx => (hes x hx).2
  · intro h text _
    apply search_blind
    rw [blind_inSequence]
    simp only [List.forall_mem_append, List.forall_mem_map]
    refine ⟨⟨?_, h⟩, ?_⟩
    · obtain rfl | rfl := ha <;> simp [Blind]
    · obtain rfl | rfl := hb <;> simp [Blind]

end Settled

theorem lowered_ignoresCase_iff {p : Pattern engine} (h : toLowercase unicode p.text = p.text) :
    IgnoresCase unicode p ↔ FoldBlind unicode (engine.expr p.re) := by
  rw [ignoresCase_iff]
  constructor
  · intro hp
    apply hp.blind
    rw [h, p.compiled]
  · intro hp
    refine ⟨fun re hre => ?_, fun text _ hfound => ⟨p.re, by rw [h, p.compiled], ?_⟩⟩
    · rw [h, p.compiled] at hre
      obtain rfl := Except.ok.inj hre
      exact hp
    · exact search_fold.mpr ⟨text, .refl text, hfound⟩

end Read

/-- The pattern in lower case, read as POSIX says, or as the engine does where there is nothing to lower. -/
def CaseBlind {engine : Engine} (unicode : Unicode) (p : Pattern engine) : Prop :=
  (∃ e, ReadsAs unicode p.text e ∧ FoldBlind unicode (e.respell (single unicode))) ∨
    toLowercase unicode p.text = p.text ∧ FoldBlind unicode (engine.expr p.re)

def posixEngine : Engine where
  Regex := Expr
  new s := match Lib.Ere.read s.toList with
    | some e => .ok e
    | none => .error "not an expression"
  isMatch e text := decide (Search e text.toList)
  expr := id
  isMatch_iff := decide_eq_true_iff

def unicodeA : Unicode where
  lower c := if c = 'A' then ['a'] else [c]
  variants c := if c = 'a' ∨ c = 'A' then ['a', 'A'] else [c]
  mem_variants := by
    intro c d
    split_ifs <;> simp_all [eq_comm]
  cased c := c = 'a' ∨ c = 'A'
  caseIgnorable _ := false
  newline := by
    intro c
    split_ifs <;> simp_all [eq_comm]

theorem unicodeA_lower {c : Char} (hc : c ≠ 'A') : unicodeA.lower c = [c] := if_neg hc

theorem unicodeA_same {c d : Char} (hc : c ≠ 'A') (hc' : c ≠ 'a') (h : unicodeA.Same c d) : d = c := by
  rw [Letters.Same, unicodeA_lower hc] at h
  by_cases hd : d = 'A'
  · rw [hd] at h
    exact absurd (List.cons.inj h).1 hc'
  · rw [unicodeA_lower hd] at h
    exact (List.cons.inj h).1.symm

theorem unicodeA_settled : unicodeA.Settled := by
  constructor
  · intro c d h
    by_cases hc : c = 'A'
    · rw [hc] at h
      obtain ⟨rfl, -⟩ := List.cons.inj h
      rfl
    · rw [unicodeA_lower hc] at h
      obtain ⟨rfl, -⟩ := List.cons.inj h
      exact unicodeA_lower hc
  · intro c d hd
    have hspecial : d ≠ 'A' ∧ d ≠ 'a' := by
      constructor <;> rintro rfl <;> simp [specials] at hd
    constructor
    · intro h
      exact unicodeA_same hspecial.1 hspecial.2 ((unicodeA_lower hspecial.1).trans h.symm)
    · rintro rfl
      exact unicodeA_lower hspecial.1

theorem posixEngine_conforms : posixEngine.Conforms := by
  intro s e he
  exact ⟨e, by simp [posixEngine, he], fun _ => Iff.rfl⟩

theorem unicodeA_simple {text : List Char} (h : 'Σ' ∉ text) : ∀ c ∈ text, unicodeA.Simple c := by
  intro c hc
  refine ⟨fun heq => h (heq ▸ hc), ?_⟩
  by_cases hA : c = 'A'
  · rw [hA]
    exact ⟨'a', rfl⟩
  · exact ⟨c, unicodeA_lower hA⟩

end Rustils.Coreutils.Rgrep
