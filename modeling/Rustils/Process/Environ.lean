import Mathlib.Data.List.Perm.Basic
import Rustils.Platform.Error

namespace Rustils.Process

open Platform
open scoped List

variable {α : Type}

structure EnvMap (α : Type) where
  entries : List (List α × List α)
  keys_nodup : (entries.map Prod.fst).Nodup

inductive EnvSpec (α : Type)
  | inherit
  | explicit (map : EnvMap α)

namespace Environ

def toCstring (s : List UInt8) (op : String) : Result (List UInt8) :=
  if 0 ∈ s then .error ((PlatformError.new .invalidInput .none op).withPath s) else .ok s

/-- `varsOs` is the environment of the parent. -/
def buildEnv (varsOs : List (List UInt8 × List UInt8)) (env : EnvSpec UInt8) :
    Result (List (List UInt8)) :=
  let pairs := match env with
    | .inherit => varsOs
    | .explicit map => map.entries
  pairs.mapM fun kv => toCstring (kv.1 ++ 0x3D :: kv.2) "posix_spawn env"

def envBlock : EnvSpec UInt16 → Option (List UInt16)
  | .inherit => none
  | .explicit map =>
    let block := (map.entries.flatMap fun kv => kv.1 ++ 0x3D :: (kv.2 ++ [0])) ++ [0]
    some (if block.length = 1 then block ++ [0] else block)

def splitFirst [DecidableEq α] (x : α) : List α → Option (List α × List α)
  | [] => none
  | y :: ys => if y = x then some ([], ys) else (splitFirst x ys).map fun (a, b) => (y :: a, b)

def parseStrings (strings : List (List UInt8)) : List (List UInt8 × List UInt8) :=
  strings.filterMap (splitFirst 0x3D)

def blockStrings : List UInt16 → List UInt16 → List (List UInt16)
  | _, [] => []
  | cur, u :: us =>
    if u = 0 then if cur = [] then [] else cur :: blockStrings [] us else blockStrings (cur ++ [u]) us

/-- A name is not empty, so a sign at its start belongs to it. -/
def splitVar : List UInt16 → Option (List UInt16 × List UInt16)
  | [] => none
  | u :: us => (splitFirst 0x3D us).map fun (name, value) => (u :: name, value)

def parseBlock (block : List UInt16) : List (List UInt16 × List UInt16) :=
  (blockStrings [] block).filterMap splitVar

section SplitFirst

variable [DecidableEq α] {x : α} {a b s : List α}

theorem splitFirst_append (h : x ∉ a) : splitFirst x (a ++ x :: b) = some (a, b) := by
  induction a with
  | nil => rw [List.nil_append, splitFirst, if_pos rfl]
  | cons y a ih =>
    rw [List.mem_cons, not_or] at h
    rw [List.cons_append, splitFirst, if_neg (Ne.symm h.1), ih h.2]
    rfl

theorem splitFirst_eq_some (h : splitFirst x s = some (a, b)) : s = a ++ x :: b ∧ x ∉ a := by
  induction s generalizing a with
  | nil => cases h
  | cons y s ih =>
    rw [splitFirst] at h
    split_ifs at h with hy
    · cases h
      rw [hy]
      exact ⟨rfl, List.not_mem_nil⟩
    · obtain ⟨⟨a', b'⟩, hs, he⟩ := Option.map_eq_some_iff.mp h
      cases he
      obtain ⟨rfl, hx⟩ := ih hs
      exact ⟨rfl, by simp [Ne.symm hy, hx]⟩

end SplitFirst

section Linux

variable {varsOs : List (List UInt8 × List UInt8)} {m : EnvMap UInt8}

def Clean (kv : List UInt8 × List UInt8) : Prop := 0 ∉ kv.1 ∧ 0 ∉ kv.2

theorem toCstring_eq_ok {kv : List UInt8 × List UInt8} {op : String} {s : List UInt8} :
    toCstring (kv.1 ++ 0x3D :: kv.2) op = .ok s ↔ Clean kv ∧ s = kv.1 ++ 0x3D :: kv.2 := by
  have hmem : 0 ∈ kv.1 ++ 0x3D :: kv.2 ↔ ¬Clean kv := by
    rw [Clean, List.mem_append, List.mem_cons]
    simp only [show (0 : UInt8) ≠ 0x3D by decide, false_or]
    tauto
  rw [toCstring]
  split_ifs with h
  · simp [hmem.mp h]
  · rw [hmem, not_not] at h
    simp [h, eq_comm]

theorem mapM_toCstring {entries : List (List UInt8 × List UInt8)} {op : String}
    {block : List (List UInt8)} :
    (entries.mapM fun kv => toCstring (kv.1 ++ 0x3D :: kv.2) op) = .ok block ↔
      (∀ kv ∈ entries, Clean kv) ∧ block = entries.map fun kv => kv.1 ++ 0x3D :: kv.2 := by
  induction entries generalizing block with
  | nil =>
    rw [List.mapM_nil]
    simp [pure, Except.pure, eq_comm]
  | cons kv entries ih =>
    rw [List.mapM_cons, List.forall_mem_cons, List.map_cons]
    cases hs : toCstring (kv.1 ++ 0x3D :: kv.2) op with
    | error e =>
      have hkv : ¬Clean kv := by
        intro hclean
        rw [toCstring_eq_ok.mpr ⟨hclean, rfl⟩] at hs
        cases hs
      exact iff_of_false (by rintro ⟨⟩) fun h => hkv h.1.1
    | ok s =>
      obtain ⟨hkv, rfl⟩ := toCstring_eq_ok.mp hs
      cases hrest : entries.mapM fun kv => toCstring (kv.1 ++ 0x3D :: kv.2) op with
      | error e =>
        have hno : ¬∀ kv ∈ entries, Clean kv := by
          intro hall
          rw [ih.mpr ⟨hall, rfl⟩] at hrest
          cases hrest
        exact iff_of_false (by rintro ⟨⟩) fun h => hno h.1.2
      | ok rest =>
        obtain ⟨hall, rfl⟩ := ih.mp hrest
        constructor
        · rintro ⟨⟩
          exact ⟨⟨hkv, hall⟩, rfl⟩
        · rintro ⟨-, rfl⟩
          rfl

def Unsafe (m : EnvMap UInt8) : Prop :=
  ∃ kv ∈ m.entries, kv.1 = [] ∨ 0x3D ∈ kv.1 ∨ ¬Clean kv

structure LinuxLaw (varsOs : List (List UInt8 × List UInt8)) (m : EnvMap UInt8) : Prop where
  roundTrip : ∀ block, buildEnv varsOs (.explicit m) = .ok block → parseStrings block ~ m.entries
  refused : Unsafe m → ∃ e, buildEnv varsOs (.explicit m) = .error e

theorem parseStrings_map {entries : List (List UInt8 × List UInt8)} (h : ∀ kv ∈ entries, 0x3D ∉ kv.1) :
    parseStrings (entries.map fun kv => kv.1 ++ 0x3D :: kv.2) = entries := by
  induction entries with
  | nil => rfl
  | cons kv entries ih =>
    rw [List.map_cons, parseStrings, List.filterMap_cons_some (splitFirst_append (h kv List.mem_cons_self))]
    congr 1
    exact ih fun kv' hkv' => h kv' (List.mem_cons_of_mem kv hkv')

theorem linuxLaw_iff : LinuxLaw varsOs m ↔
    (∃ kv ∈ m.entries, ¬Clean kv) ∨ ∀ kv ∈ m.entries, kv.1 ≠ [] ∧ 0x3D ∉ kv.1 := by
  by_cases hclean : ∀ kv ∈ m.entries, Clean kv
  · have hok : buildEnv varsOs (.explicit m) = .ok (m.entries.map fun kv => kv.1 ++ 0x3D :: kv.2) :=
      mapM_toCstring.mpr ⟨hclean, rfl⟩
    have hno : ¬∃ kv ∈ m.entries, ¬Clean kv := by
      rintro ⟨kv, hkv, hbad⟩
      exact hbad (hclean kv hkv)
    simp only [hno, false_or]
    constructor
    · intro h kv hkv
      by_contra hbad
      have hunsafe : Unsafe m := ⟨kv, hkv, by tauto⟩
      obtain ⟨e, he⟩ := h.refused hunsafe
      rw [hok] at he
      cases he
    · intro h
      refine ⟨?_, ?_⟩
      · intro block hblock
        cases hok.symm.trans hblock
        rw [parseStrings_map fun kv hkv => (h kv hkv).2]
      · rintro ⟨kv, hkv, hbad⟩
        have hgood := h kv hkv
        have hkv' := hclean kv hkv
        tauto
  · have herr : ∀ block, buildEnv varsOs (.explicit m) ≠ .ok block := by
      intro block hblock
      exact hclean (mapM_toCstring.mp hblock).1
    have hbad : ∃ kv ∈ m.entries, ¬Clean kv := by simpa using hclean
    refine ⟨fun _ => .inl hbad, fun _ => ⟨fun block h => absurd h (herr block), fun _ => ?_⟩⟩
    cases h : buildEnv varsOs (.explicit m) with
    | error e => exact ⟨e, rfl⟩
    | ok block => exact absurd h (herr block)

end Linux

section Windows

variable {m : EnvMap UInt16}

def Safe (kv : List UInt16 × List UInt16) : Prop :=
  kv.1 ≠ [] ∧ 0x3D ∉ kv.1.tail ∧ 0 ∉ kv.1 ∧ 0 ∉ kv.2

structure WindowsLaw (m : EnvMap UInt16) : Prop where
  roundTrip : ∀ block, envBlock (.explicit m) = some block → parseBlock block ~ m.entries
  refused : (∃ kv ∈ m.entries, ¬Safe kv) → envBlock (.explicit m) = none

theorem blockStrings_append {cur s rest : List UInt16} (hs : 0 ∉ s) (hne : cur ++ s ≠ []) :
    blockStrings cur (s ++ 0 :: rest) = (cur ++ s) :: blockStrings [] rest := by
  induction s generalizing cur with
  | nil =>
    rw [List.append_nil] at hne
    rw [List.nil_append, blockStrings, if_pos rfl, if_neg hne, List.append_nil]
  | cons u s ih =>
    rw [List.mem_cons, not_or] at hs
    rw [List.cons_append, blockStrings, if_neg (Ne.symm hs.1), ih hs.2 (by simp)]
    simp

theorem parseBlock_flatMap {entries : List (List UInt16 × List UInt16)} (h : ∀ kv ∈ entries, Safe kv)
    (rest : List UInt16) :
    parseBlock ((entries.flatMap fun kv => kv.1 ++ 0x3D :: (kv.2 ++ [0])) ++ 0 :: rest) = entries := by
  induction entries with
  | nil => rfl
  | cons kv entries ih =>
    obtain ⟨hne, heq, hk, hv⟩ := h kv List.mem_cons_self
    obtain ⟨_ | ⟨u, k⟩, v⟩ := kv
    · exact absurd rfl hne
    have hstr : 0 ∉ u :: k ++ 0x3D :: v := by
      rw [List.mem_append, List.mem_cons (b := 0x3D)]
      simp only [show (0 : UInt16) ≠ 0x3D by decide, false_or, not_or]
      exact ⟨hk, hv⟩
    have hsplit : splitVar (u :: k ++ 0x3D :: v) = some (u :: k, v) := by
      have hk' : splitFirst 0x3D (k ++ 0x3D :: v) = some (k, v) := splitFirst_append heq
      rw [List.cons_append, splitVar, hk']
      rfl
    have hblock : (((u :: k, v) :: entries).flatMap fun kv => kv.1 ++ 0x3D :: (kv.2 ++ [0])) ++ 0 :: rest =
        (u :: k ++ 0x3D :: v) ++ 0 ::
          ((entries.flatMap fun kv => kv.1 ++ 0x3D :: (kv.2 ++ [0])) ++ 0 :: rest) := by
      simp
    rw [hblock, parseBlock, blockStrings_append hstr (by simp), List.nil_append,
      List.filterMap_cons_some hsplit]
    congr 1
    exact ih fun kv' hkv' => h kv' (List.mem_cons_of_mem _ hkv')

theorem zero_not_mem_blockStrings {cur us s : List UInt16} (hcur : 0 ∉ cur)
    (h : s ∈ blockStrings cur us) : 0 ∉ s := by
  induction us generalizing cur with
  | nil => cases h
  | cons u us ih =>
    rw [blockStrings] at h
    split_ifs at h with hu hnil
    · cases h
    · rcases List.mem_cons.mp h with rfl | h
      · exact hcur
      · exact ih List.not_mem_nil h
    · exact ih (by simp [hcur, Ne.symm hu]) h

theorem safe_of_mem_parseBlock {block : List UInt16} {kv : List UInt16 × List UInt16}
    (h : kv ∈ parseBlock block) : Safe kv := by
  obtain ⟨s, hs, hsplit⟩ := List.mem_filterMap.mp h
  have hzero := zero_not_mem_blockStrings List.not_mem_nil hs
  cases s with
  | nil => cases hsplit
  | cons u us =>
    obtain ⟨⟨name, value⟩, hfirst, he⟩ := Option.map_eq_some_iff.mp hsplit
    cases he
    obtain ⟨rfl, heq⟩ := splitFirst_eq_some hfirst
    simp only [List.mem_cons, List.mem_append, not_or] at hzero
    refine ⟨List.cons_ne_nil _ _, heq, ?_, hzero.2.2.2⟩
    rw [List.mem_cons, not_or]
    exact ⟨hzero.1, hzero.2.1⟩

theorem windowsLaw_iff : WindowsLaw m ↔ ∀ kv ∈ m.entries, Safe kv := by
  constructor
  · intro h kv hkv
    have hback := h.roundTrip _ rfl
    exact safe_of_mem_parseBlock (hback.mem_iff.mpr hkv)
  · intro h
    constructor
    · intro block hblock
      rw [envBlock, Option.some.injEq] at hblock
      subst hblock
      split_ifs
      · rw [List.append_assoc, List.singleton_append, parseBlock_flatMap h]
      · rw [parseBlock_flatMap h]
    · rintro ⟨kv, hkv, hbad⟩
      exact absurd (h kv hkv) hbad

end Windows

theorem environment_survives_iff (varsOs : List (List UInt8 × List UInt8)) (m : EnvMap UInt8)
    (m' : EnvMap UInt16) :
    (LinuxLaw varsOs m ↔
      (∃ kv ∈ m.entries, ¬Clean kv) ∨ ∀ kv ∈ m.entries, kv.1 ≠ [] ∧ 0x3D ∉ kv.1) ∧
    (WindowsLaw m' ↔ ∀ kv ∈ m'.entries, Safe kv) :=
  ⟨linuxLaw_iff, windowsLaw_iff⟩

theorem variables_injected :
    (∃ m : EnvMap UInt8, m.entries = [([0x41, 0x3D, 0x42], [0x43])] ∧ ¬LinuxLaw [] m) ∧
    ∃ m : EnvMap UInt16, m.entries = [([0x41], [0x78, 0, 0x42, 0x3D, 0x79])] ∧
      (envBlock (.explicit m)).map parseBlock = some [([0x41], [0x78]), ([0x42], [0x79])] ∧
      ¬WindowsLaw m := by
  constructor
  · refine ⟨⟨_, by decide⟩, rfl, ?_⟩
    intro h
    have hback := h.roundTrip [[0x41, 0x3D, 0x42, 0x3D, 0x43]] (by decide)
    have hmem : ([0x41, 0x3D, 0x42], [0x43]) ∈ parseStrings [[0x41, 0x3D, 0x42, 0x3D, 0x43]] :=
      hback.mem_iff.mpr List.mem_cons_self
    revert hmem
    decide
  · refine ⟨⟨_, by decide⟩, rfl, by decide, ?_⟩
    intro h
    have hback := h.roundTrip _ rfl
    exact absurd hback.length_eq (by decide)

end Environ

end Rustils.Process
