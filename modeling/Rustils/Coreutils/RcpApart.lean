import Rustils.Coreutils.Rcp

namespace Rustils.Coreutils.Rcp

open Files

def Within (d : Disk) (p : Path) (n : ℕ) : Prop := ∀ c, d.node (c ++ p) ≠ none → c.length ≤ n

theorem exists_within (d : Disk) (p : Path) : ∃ n, Within d p n := by
  have hrows : ∀ rows : List (Path × Node), ∃ n, ∀ row ∈ rows, row.1.length ≤ n := by
    intro rows
    induction rows with
    | nil => exact ⟨0, by simp⟩
    | cons row rows ih =>
      obtain ⟨n, hn⟩ := ih
      refine ⟨max row.1.length n, List.forall_mem_cons.mpr ⟨Nat.le_max_left _ _, fun r hr => ?_⟩⟩
      exact (hn r hr).trans (Nat.le_max_right _ _)
  obtain ⟨n, hn⟩ := hrows d.rows
  refine ⟨n, fun c hc => ?_⟩
  rw [Disk.node, nodeIn] at hc
  split_ifs at hc with hnil
  · simp [(List.append_eq_nil_iff.mp hnil).1]
  · rw [ne_eq, Option.map_eq_none_iff, List.find?_eq_none] at hc
    push Not at hc
    obtain ⟨row, hrow, heq⟩ := hc
    have hlen := hn row hrow
    rw [of_decide_eq_true heq, List.length_append] at hlen
    omega

theorem Within.child {d : Disk} {p : Path} {n : Name} {k : ℕ} (h : Within d p k)
    (hn : d.node (n :: p) ≠ none) : ∃ j, k = j + 1 ∧ Within d (n :: p) j := by
  obtain ⟨j, rfl⟩ := Nat.exists_eq_add_one_of_ne_zero (Nat.ne_of_gt (h [n] hn))
  refine ⟨j, rfl, fun c hc => ?_⟩
  have hlen := h (c ++ [n]) (by rwa [List.append_assoc, List.singleton_append])
  rw [List.length_append, List.length_singleton] at hlen
  omega

theorem Within.congr {d d' : Disk} {p : Path} {n : ℕ} (h : Within d p n)
    (hnode : ∀ c, d'.node (c ++ p) = d.node (c ++ p)) : Within d' p n := by
  intro c hc
  rw [hnode] at hc
  exact h c hc

def Apart (src dst : Path) : Prop := ¬ src <:+ dst ∧ ¬ dst <:+ src

def Fits (d : Disk) (src dst : Path) : Prop :=
  ∀ c x, d.node (c ++ dst) = some x → ∃ y, d.node (c ++ src) = some y ∧ (x = .dir ↔ y = .dir)

theorem append_cons (c p : Path) (n : Name) : c ++ n :: p = (c ++ [n]) ++ p := by
  rw [List.append_assoc, List.singleton_append]

theorem sibling {p c : Path} {n m : Name} (h : n ≠ m) : ¬ n :: p <:+ c ++ m :: p := by
  intro hsuf
  have hm : m :: p <:+ c ++ m :: p := List.suffix_append c (m :: p)
  have heq := (List.suffix_of_suffix_length_le hsuf hm (by simp)).eq_of_length (by simp)
  exact h (List.cons.inj heq).1

theorem Apart.child {src dst : Path} (h : Apart src dst) (n : Name) : Apart (n :: src) (n :: dst) := by
  have hcons : ∀ {a b : Path}, ¬ a <:+ b → ¬ n :: a <:+ n :: b := by
    intro a b hab hsuf
    obtain heq | hsuf := List.suffix_cons_iff.mp hsuf
    · exact hab ((List.cons.inj heq).2 ▸ List.suffix_rfl)
    · exact hab ((List.suffix_cons n a).trans hsuf)
  exact ⟨hcons h.1, hcons h.2⟩

theorem Apart.not_under {src dst : Path} (h : Apart src dst) (c : Path) : ¬ dst <:+ c ++ src := by
  intro hsuf
  obtain hs | hs := List.suffix_or_suffix_of_suffix hsuf (List.suffix_append c src)
  · exact h.2 hs
  · exact h.1 hs

theorem under_cases {p q : Path} (h : p <:+ q) : q = p ∨ ∃ n c, q = c ++ n :: p := by
  obtain ⟨c, rfl⟩ := h
  obtain rfl | ⟨c, n, rfl⟩ := List.eq_nil_or_concat' c
  · exact .inl rfl
  · exact .inr ⟨n, c, by rw [List.append_assoc, List.singleton_append]⟩

theorem Grows.kept_of_dir {dst p : Path} {n : Name} {d d' : Disk} (h : Grows (n :: dst) d d')
    (hdst : d.node dst = some .dir) (hp : ¬ n :: dst <:+ p) : d'.node p = d.node p := by
  apply h.kept p hp
  intro hsuf
  obtain rfl | hsuf := List.suffix_cons_iff.mp hsuf
  · exact absurd List.suffix_rfl hp
  · have hne : d.node dst ≠ none := by simp [hdst]
    by_cases heq : p = dst
    · rwa [heq]
    · simp [Disk.above_dir hne hsuf heq]

section Apart

variable {src dst : Path}

theorem copyEntries_apart (hapart : Apart src dst) {copy : Path → Path → Disk → Outcome} {d₀ : Disk}
    (hcopy : ∀ n d, d₀.node (n :: src) ≠ none → (∀ c, d.node (c ++ src) = d₀.node (c ++ src)) →
      d.node dst = some .dir → Fits d (n :: src) (n :: dst) →
      ∃ d', copy (n :: src) (n :: dst) d = some (d', .ok ()) ∧ Grows (n :: dst) d d' ∧
        ∀ c, d'.node (c ++ n :: dst) = d₀.node (c ++ n :: src))
    {names : List Name} (hnodup : names.Nodup) (hnames : ∀ n ∈ names, d₀.node (n :: src) ≠ none)
    {d : Disk} (hsrc : ∀ c, d.node (c ++ src) = d₀.node (c ++ src)) (hdst : d.node dst = some .dir)
    (hfits : ∀ n ∈ names, Fits d (n :: src) (n :: dst)) :
    ∃ d', copyEntries copy src dst names d = some (d', .ok ()) ∧
      (∀ n ∈ names, ∀ c, d'.node (c ++ n :: dst) = d₀.node (c ++ n :: src)) ∧
      ∀ p, (∀ n ∈ names, ¬ n :: dst <:+ p) → d'.node p = d.node p := by
  induction names generalizing d with
  | nil => exact ⟨d, rfl, by simp, fun _ _ => rfl⟩
  | cons n names ih =>
    obtain ⟨hn, hnodup⟩ := List.nodup_cons.mp hnodup
    obtain ⟨hnone, hnames⟩ := List.forall_mem_cons.mp hnames
    obtain ⟨hfit, hfits⟩ := List.forall_mem_cons.mp hfits
    obtain ⟨d₁, hd₁, hgrows, hcopied⟩ := hcopy n d hnone hsrc hdst hfit
    have hother : ∀ p, ¬ n :: dst <:+ p → d₁.node p = d.node p := fun p hp => hgrows.kept_of_dir hdst hp
    have hsrc₁ : ∀ c, d₁.node (c ++ src) = d.node (c ++ src) := by
      intro c
      apply hother
      exact fun hsuf => hapart.not_under c ((List.suffix_cons n dst).trans hsuf)
    have hfits₁ : ∀ m ∈ names, Fits d₁ (m :: src) (m :: dst) := by
      intro m hm c x hx
      rw [hother _ (sibling (by rintro rfl; exact hn hm))] at hx
      obtain ⟨y, hy, hxy⟩ := hfits m hm c x hx
      have hsame := hsrc₁ (c ++ [m])
      rw [List.append_assoc, List.singleton_append] at hsame
      exact ⟨y, by rw [hsame, hy], hxy⟩
    obtain ⟨d', hd', hin, hout⟩ := ih hnodup hnames (fun c => (hsrc₁ c).trans (hsrc c))
      (hgrows.dir dst hdst) hfits₁
    refine ⟨d', ?_, List.forall_mem_cons.mpr ⟨fun c => ?_, hin⟩, fun p hp => ?_⟩
    · rw [copyEntries, hd₁]
      exact hd'
    · rw [hout _ fun m hm => sibling (by rintro rfl; exact hn hm), hcopied]
    · obtain ⟨hp, hps⟩ := List.forall_mem_cons.mp hp
      rw [hout p hps, hother p hp]

theorem copy_file_apart (listing : Listing) {fuel : ℕ} {d : Disk} {bytes : List UInt8}
    (hapart : Apart src dst) (hsrc : d.node src = some (.file bytes)) (hway : d.onFile dst.tail = false)
    (hfits : Fits d src dst) :
    ∃ d', copyRecursive listing (fuel + 1) src dst d = some (d', .ok ()) ∧
      ∀ c, d'.node (c ++ dst) = d.node (c ++ src) := by
  cases dst with
  | nil => exact absurd List.nil_suffix hapart.2
  | cons n parent =>
    obtain ⟨d₁, hd₁, hnode₁⟩ := createParent_ok hway
    rw [List.tail_cons] at hnode₁
    have hsrc₁ : d₁.node src = some (.file bytes) := by
      rw [hnode₁, if_neg, hsrc]
      exact fun hsuf => hapart.1 (hsuf.trans (List.suffix_cons n parent))
    have hparent : d₁.node parent = some .dir := by rw [hnode₁, if_pos List.suffix_rfl]
    have hdst : d₁.node (n :: parent) ≠ some .dir := by
      rw [hnode₁, if_neg (Disk.cons_not_suffix n parent)]
      intro hdir
      obtain ⟨y, hy, hkind⟩ := hfits [] .dir hdir
      rw [List.nil_append, hsrc] at hy
      obtain rfl := Option.some.inj hy
      exact absurd (hkind.mp rfl) (by nofun)
    obtain ⟨d₂, hd₂, hnode₂⟩ := Disk.copyFile_ok hsrc₁ hparent hdst
    have hne : src ≠ n :: parent := by
      rintro rfl
      exact hapart.1 List.suffix_rfl
    rw [if_neg hne] at hnode₂
    refine ⟨d₂, ?_, fun c => ?_⟩
    · rw [copyRecursive_file (by rw [hsrc]; nofun) hd₁, hd₂]
    · have hfile : d₂.node (n :: parent) = some (.file bytes) := by rw [hnode₂, if_pos rfl]
      by_cases hc : c = []
      · rw [hc, List.nil_append, List.nil_append, hfile, hsrc]
      · rw [Disk.none_below_file hfile hc, Disk.none_below_file hsrc hc]

theorem Fits.not_onFile {d : Disk} (hfits : Fits d src dst) (hsrc : d.node src = some .dir)
    (hway : d.onFile dst.tail = false) : d.onFile dst = false := by
  cases dst with
  | nil => rfl
  | cons n parent =>
    rw [Disk.onFile, Bool.or_eq_false_iff]
    refine ⟨?_, hway⟩
    rw [← Bool.not_eq_true, Disk.isFile_iff]
    rintro ⟨bytes, hfile⟩
    obtain ⟨y, hy, hkind⟩ := hfits [] (.file bytes) hfile
    rw [List.nil_append, hsrc] at hy
    obtain rfl := Option.some.inj hy
    cases hkind.mpr rfl

theorem Fits.none_below {d : Disk} {n : Name} (hfits : Fits d src dst) (hn : d.node (n :: src) = none) (c : Path) :
    d.node (c ++ n :: dst) = none ∧ d.node (c ++ n :: src) = none := by
  have hsrc : d.node (c ++ n :: src) = none := by
    by_contra hne
    exact Disk.exists_above hne hn
  refine ⟨?_, hsrc⟩
  by_contra hne
  obtain ⟨y, hy⟩ := Option.ne_none_iff_exists'.mp hne
  obtain ⟨z, hz, -⟩ := hfits (c ++ [n]) y (by rw [← append_cons, hy])
  rw [← append_cons, hsrc] at hz
  cases hz

theorem createDirAll_apart {d : Disk} (hapart : Apart src dst) (hway : d.onFile dst = false) :
    ∃ d₁, d.createDirAll dst = .ok d₁ ∧ d₁.node dst = some .dir ∧
      (∀ c, d₁.node (c ++ src) = d.node (c ++ src)) ∧ ∀ n c, d₁.node (c ++ n :: dst) = d.node (c ++ n :: dst) := by
  obtain ⟨d₁, hd₁, hnode₁⟩ := Disk.createDirAll_ok hway
  refine ⟨d₁, hd₁, by rw [hnode₁, if_pos List.suffix_rfl], fun c => ?_, fun n c => ?_⟩
  · rw [hnode₁, if_neg]
    exact fun hsuf => hapart.1 ((List.suffix_append c src).trans hsuf)
  · rw [hnode₁, if_neg]
    exact fun hsuf => Disk.cons_not_suffix n dst ((List.suffix_append c _).trans hsuf)

theorem copy_apart (listing : Listing) {depth : ℕ} {d : Disk} (hapart : Apart src dst)
    (hsrc : d.node src ≠ none) (hdepth : Within d src depth) (hway : d.onFile dst.tail = false)
    (hfits : Fits d src dst) :
    ∃ d', copyRecursive listing (depth + 1) src dst d = some (d', .ok ()) ∧
      ∀ c, d'.node (c ++ dst) = d.node (c ++ src) := by
  induction depth using Nat.strong_induction_on generalizing src dst d with
  | _ depth ih =>
    obtain ⟨x, hx⟩ := Option.ne_none_iff_exists'.mp hsrc
    cases x with
    | file bytes => exact copy_file_apart listing hapart hx hway hfits
    | dir =>
      obtain ⟨d₁, hd₁, hdst₁, hsame, hold⟩ := createDirAll_apart hapart (hfits.not_onFile hx hway)
      have hchild : ∀ n d₂, d.node (n :: src) ≠ none → (∀ c, d₂.node (c ++ src) = d.node (c ++ src)) →
          d₂.node dst = some .dir → Fits d₂ (n :: src) (n :: dst) →
          ∃ d₃, copyRecursive listing depth (n :: src) (n :: dst) d₂ = some (d₃, .ok ()) ∧
            Grows (n :: dst) d₂ d₃ ∧ ∀ c, d₃.node (c ++ n :: dst) = d.node (c ++ n :: src) := by
        intro n d₂ hn hsrc₂ hdst₂ hfit₂
        obtain ⟨j, rfl, hj⟩ := hdepth.child hn
        have hn₂ : ∀ c, d₂.node (c ++ n :: src) = d.node (c ++ n :: src) := by
          intro c
          rw [append_cons, hsrc₂]
        have hexists : d₂.node (n :: src) ≠ none := by
          rw [← List.nil_append (n :: src), hn₂]
          exact hn
        obtain ⟨d₃, hd₃, hcopied⟩ := ih j (Nat.lt_succ_self j) (hapart.child n) hexists (hj.congr hn₂)
          (Disk.not_onFile_of_dir hdst₂) hfit₂
        exact ⟨d₃, hd₃, copyRecursive_grows hd₃, fun c => by rw [hcopied, hn₂]⟩
      have hnames : ∀ n, n ∈ listing.arrange d₁ src ↔ d.node (n :: src) ≠ none := by
        intro n
        rw [mem_arrange, ← List.singleton_append, hsame]
      have hfits₁ : ∀ n ∈ listing.arrange d₁ src, Fits d₁ (n :: src) (n :: dst) := by
        intro n _ c x hx
        rw [hold, append_cons] at hx
        obtain ⟨y, hy, hkind⟩ := hfits (c ++ [n]) x hx
        exact ⟨y, by rw [append_cons, hsame, hy], hkind⟩
      obtain ⟨d', hd', hin, hout⟩ :=
        copyEntries_apart hapart hchild nodup_arrange (fun n hn => (hnames n).mp hn) hsame hdst₁ hfits₁
      refine ⟨d', by rw [copyRecursive_dir hx hd₁, hd'], fun c => ?_⟩
      obtain rfl | ⟨c, n, rfl⟩ := List.eq_nil_or_concat' c
      · rw [List.nil_append, List.nil_append, hout, hdst₁, hx]
        exact fun n _ => Disk.cons_not_suffix n dst
      · rw [← append_cons, ← append_cons]
        by_cases hn : n ∈ listing.arrange d₁ src
        · exact hin n hn c
        · obtain ⟨hdst, hsrc⟩ := hfits.none_below (by_contra (mt (hnames n).mpr hn)) c
          rw [hout, hold, hdst, hsrc]
          intro m hm
          apply sibling
          rintro rfl
          exact hn hm

end Apart

end Rustils.Coreutils.Rcp
