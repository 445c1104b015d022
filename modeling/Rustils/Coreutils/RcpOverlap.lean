import Rustils.Coreutils.RcpApart

namespace Rustils.Coreutils.Rcp

open Files

def emptied : Node → Node
  | .dir => .dir
  | .file _ => .file []

def Emptied (p : Path) (d d' : Disk) : Prop :=
  ∀ q, d'.node q = if p <:+ q then (d.node q).map emptied else d.node q

section Self

variable {src : Path}

theorem copyEntries_self {copy : Path → Path → Disk → Outcome} {depth : ℕ}
    (hcopy : ∀ n d, d.node (n :: src) ≠ none → Within d src depth →
      ∃ d', copy (n :: src) (n :: src) d = some (d', .ok ()) ∧ Emptied (n :: src) d d')
    {names : List Name} (hnodup : names.Nodup) {d : Disk} (hdepth : Within d src depth)
    (hnames : ∀ n ∈ names, d.node (n :: src) ≠ none) :
    ∃ d', copyEntries copy src src names d = some (d', .ok ()) ∧
      ∀ q, d'.node q = if ∃ n ∈ names, n :: src <:+ q then (d.node q).map emptied else d.node q := by
  induction names generalizing d with
  | nil => exact ⟨d, rfl, by simp⟩
  | cons n names ih =>
    obtain ⟨hn, hnodup⟩ := List.nodup_cons.mp hnodup
    obtain ⟨hnone, hnames⟩ := List.forall_mem_cons.mp hnames
    obtain ⟨d₁, hd₁, hemptied⟩ := hcopy n d hnone hdepth
    have hiff : ∀ q, d₁.node q ≠ none ↔ d.node q ≠ none := by
      intro q
      rw [hemptied]
      split_ifs <;> simp
    obtain ⟨d', hd', hnode⟩ := ih hnodup (fun c hc => hdepth c ((hiff _).mp hc))
      fun m hm => (hiff _).mpr (hnames m hm)
    refine ⟨d', by rw [copyEntries, hd₁]; exact hd', fun q => ?_⟩
    rw [hnode, hemptied]
    simp only [List.mem_cons, exists_eq_or_imp]
    by_cases hq : n :: src <:+ q
    · obtain ⟨c, rfl⟩ := hq
      have hnot : ¬ ∃ m ∈ names, m :: src <:+ c ++ n :: src := by
        rintro ⟨m, hm, hsuf⟩
        exact sibling (by rintro rfl; exact hn hm) hsuf
      simp [hnot]
    · simp [hq]

theorem copy_self (listing : Listing) {depth : ℕ} {d : Disk} (hsrc : d.node src ≠ none)
    (hdepth : Within d src depth) :
    ∃ d', copyRecursive listing (depth + 1) src src d = some (d', .ok ()) ∧ Emptied src d d' := by
  induction depth using Nat.strong_induction_on generalizing src d with
  | _ depth ih =>
    obtain ⟨x, hx⟩ := Option.ne_none_iff_exists'.mp hsrc
    cases x with
    | file bytes =>
      cases src with
      | nil => cases hx
      | cons n parent =>
        have hparent : d.node parent = some .dir := Disk.parent_dir hsrc
        obtain ⟨d₁, hd₁, hnode₁⟩ := createParent_dir (show d.node (n :: parent).tail = some .dir from hparent)
        obtain ⟨d₂, hd₂, hnode₂⟩ := Disk.copyFile_ok (show d₁.node (n :: parent) = _ by rw [hnode₁, hx])
          (show d₁.node parent = some .dir by rw [hnode₁, hparent]) (by rw [hnode₁, hx]; nofun)
        refine ⟨d₂, by rw [copyRecursive_file (by rw [hx]; nofun) hd₁, hd₂], fun q => ?_⟩
        rw [hnode₂, if_pos rfl, hnode₁]
        by_cases hq : n :: parent <:+ q
        · obtain ⟨c, rfl⟩ := hq
          by_cases hc : c = []
          · simp [hc, hx, emptied]
          · simp [hc, Disk.none_below_file hx hc]
        · rw [if_neg hq, if_neg]
          rintro rfl
          exact hq List.suffix_rfl
    | dir =>
      obtain ⟨d₁, hd₁, hnode₁⟩ := Disk.createDirAll_dir hx
      have hchild : ∀ n d₂, d₂.node (n :: src) ≠ none → Within d₂ src depth →
          ∃ d₃, copyRecursive listing depth (n :: src) (n :: src) d₂ = some (d₃, .ok ()) ∧
            Emptied (n :: src) d₂ d₃ := by
        intro n d₂ hn hdepth₂
        obtain ⟨j, rfl, hj⟩ := hdepth₂.child hn
        exact ih j (Nat.lt_succ_self j) hn hj
      obtain ⟨d', hd', hnode⟩ := copyEntries_self hchild nodup_arrange
        (hdepth.congr fun c => by rw [hnode₁]) fun n hn => (@mem_arrange listing _ _ _).mp hn
      refine ⟨d', by rw [copyRecursive_dir hx hd₁, hd'], fun q => ?_⟩
      rw [hnode, hnode₁]
      by_cases hq : src <:+ q
      · rw [if_pos hq]
        obtain rfl | ⟨n, c, rfl⟩ := under_cases hq
        · rw [if_neg, hx]
          · rfl
          · rintro ⟨n, -, hsuf⟩
            exact Disk.cons_not_suffix n q hsuf
        · cases hc : d.node (c ++ n :: src) with
          | none => simp
          | some y =>
            rw [if_pos]
            refine ⟨n, ?_, List.suffix_append c _⟩
            rw [mem_arrange, hnode₁]
            exact Disk.exists_above (by rw [hc]; nofun)
      · rw [if_neg hq, if_neg]
        rintro ⟨n, -, hsuf⟩
        exact hq ((List.suffix_cons n src).trans hsuf)

end Self

section Inside

variable {src dst q : Path} {d : Disk}

theorem copyEntries_keeps {Inv : Disk → Prop} {copy : Path → Path → Disk → Outcome} {names : List Name}
    (hcopy : ∀ n ∈ names, ∀ d, Inv d → ∃ d' r, copy (n :: src) (n :: dst) d = some (d', r) ∧ Inv d')
    (hd : Inv d) : ∃ d' r, copyEntries copy src dst names d = some (d', r) ∧ Inv d' := by
  induction names generalizing d with
  | nil => exact ⟨d, .ok (), rfl, hd⟩
  | cons n names ih =>
    rw [List.forall_mem_cons] at hcopy
    obtain ⟨d₁, r, hd₁, hinv⟩ := hcopy.1 d hd
    cases r with
    | error e =>
      refine ⟨d₁, .error e, ?_, hinv⟩
      rw [copyEntries, hd₁]
      rfl
    | ok u =>
      obtain ⟨d', r, hd', hinv'⟩ := ih hcopy.2 hinv
      refine ⟨d', r, ?_, hinv'⟩
      rw [copyEntries, hd₁]
      exact hd'

/-- Whatever of the source comes to a directory at the destination finds its like there, or a thing that it is refused
by. -/
def Settled (d : Disk) (src dst : Path) : Prop :=
  ∀ c x, d.node (c ++ src) = some x → d.node (c ++ dst).tail = some .dir →
    ∃ y, d.node (c ++ dst) = some y ∧ ∀ bytes, x = .file bytes → y = .file bytes ∨ y = .dir

theorem tail_dir {p : Path} (h : d.node p ≠ none) : d.node p.tail = some .dir := by
  cases p with
  | nil => rfl
  | cons n p => exact Disk.parent_dir h

theorem settled_of_file {bytes : List UInt8} (hsrc : d.node src = some (.file bytes)) (hdst : d.node dst = some .dir) :
    Settled d src dst := by
  intro c x hx _
  by_cases hc : c = []
  · exact ⟨.dir, by rw [hc, List.nil_append, hdst], fun _ _ => .inr rfl⟩
  · rw [Disk.none_below_file hsrc hc] at hx
    cases hx

theorem Settled.congr {d' : Disk} (h : Settled d src dst) (hnode : d'.node = d.node) : Settled d' src dst := by
  rw [Settled, hnode]
  exact h

theorem Settled.child (h : Settled d src dst) (n : Name) : Settled d (n :: src) (n :: dst) := by
  intro c x hx htail
  rw [append_cons] at hx htail ⊢
  exact h _ x hx htail

theorem settled_file {bytes : List UInt8} (h : Settled d src dst) (hne : src ≠ dst)
    (hsrc : d.node src = some (.file bytes)) (hparent : d.node dst.tail = some .dir) (listing : Listing) (fuel : ℕ) :
    ∃ d' r, copyRecursive listing (fuel + 1) src dst d = some (d', r) ∧ d'.node = d.node := by
  obtain ⟨d₁, hd₁, hnode₁⟩ := createParent_dir hparent
  have hnot : d.node src ≠ some .dir := by
    rw [hsrc]
    nofun
  rw [copyRecursive_file hnot hd₁]
  obtain ⟨y, hy, hkind⟩ := h [] (.file bytes) hsrc hparent
  rw [List.nil_append] at hy
  rcases hkind bytes rfl with rfl | rfl
  · cases dst with
    | nil => cases hy
    | cons n parent =>
      obtain ⟨d₂, hd₂, hnode₂⟩ := Disk.copyFile_ok (show d₁.node src = _ by rw [hnode₁, hsrc])
        (show d₁.node parent = some .dir by rw [hnode₁]; exact hparent) (by rw [hnode₁, hy]; nofun)
      refine ⟨d₂, .ok (), by rw [hd₂], funext fun q => ?_⟩
      rw [hnode₂, if_neg hne, hnode₁]
      split_ifs with hq
      · rw [hq, hy]
      · rfl
  · rw [Disk.copyFile_dir (by rw [hnode₁, hsrc]) (by rw [hnode₁, hy])]
    exact ⟨d₁, .error .eisdir, rfl, hnode₁⟩

theorem copy_settled (listing : Listing) {depth : ℕ} (h : Settled d src dst) (hne : src ≠ dst)
    (hsrc : d.node src ≠ none) (hdepth : Within d src depth) (hparent : d.node dst.tail = some .dir) :
    ∃ d' r, copyRecursive listing (depth + 1) src dst d = some (d', r) ∧ d'.node = d.node := by
  induction depth using Nat.strong_induction_on generalizing src dst d with
  | _ depth ih =>
    obtain ⟨x, hx⟩ := Option.ne_none_iff_exists'.mp hsrc
    cases x with
    | file bytes => exact settled_file h hne hx hparent listing depth
    | dir =>
      obtain ⟨y, hy, -⟩ := h [] .dir hx hparent
      rw [List.nil_append] at hy
      cases y with
      | file bytes =>
        obtain ⟨e, he⟩ := Disk.createDirAll_error (Disk.onFile_iff.mpr ⟨dst, List.suffix_rfl, bytes, hy⟩)
        refine ⟨d, .error e, ?_, rfl⟩
        rw [copyRecursive, if_pos (by simpa [Disk.isDir] using hx), he]
      | dir =>
        obtain ⟨d₁, hd₁, hnode₁⟩ := Disk.createDirAll_dir hy
        rw [copyRecursive_dir hx hd₁]
        apply @copyEntries_keeps _ _ d₁ (fun d' => d'.node = d.node)
        · intro n hn d₂ hd₂
          have hnone : d.node (n :: src) ≠ none := by
            rwa [mem_arrange, hnode₁] at hn
          obtain ⟨j, rfl, hj⟩ := hdepth.child hnone
          obtain ⟨d₃, r, hd₃, hnode₃⟩ := ih j (Nat.lt_succ_self j) ((h.child n).congr hd₂)
            (fun heq => hne (List.cons.inj heq).2) (by rwa [hd₂]) (hj.congr fun c => by rw [hd₂])
            (by rw [hd₂]; exact hy)
          exact ⟨d₃, r, hd₃, hnode₃.trans hd₂⟩
        · exact hnode₁

theorem Settled.of_under {f : Path} {d' : Disk} (h : Settled d (q ++ f) f) (hf : d.node f = some .dir)
    (hkept : ∀ p, f <:+ p → d'.node p = d.node p) : Settled d' (q ++ f) f := by
  intro c x hx htail
  have hf' : d'.node f = some .dir := (hkept f List.suffix_rfl).trans hf
  cases c with
  | nil => exact ⟨.dir, hf', fun _ _ => .inr rfl⟩
  | cons n c =>
    rw [hkept _ ((List.suffix_append q f).trans (List.suffix_append _ _))] at hx
    rw [List.cons_append, List.tail_cons, hkept _ (List.suffix_append c f)] at htail
    rw [hkept _ (List.suffix_append _ f)]
    exact h _ x hx htail

theorem copy_file_outside (listing : Listing) {root : Path} {fuel : ℕ} (hnot : d.node src ≠ some .dir)
    (hout : ∀ {p}, root <:+ p → ¬ p <:+ dst) :
    ∃ d' r, copyRecursive listing (fuel + 1) src dst d = some (d', r) ∧ ∀ p, root <:+ p → d'.node p = d.node p := by
  cases hway : d.onFile dst.tail with
  | true =>
    obtain ⟨e, he⟩ := createParent_error hway
    refine ⟨d, .error e, ?_, fun _ _ => rfl⟩
    rw [copyRecursive, if_neg (by simpa [Disk.isDir] using hnot), he]
  | false =>
    obtain ⟨d₁, hd₁, hnode₁⟩ := createParent_ok hway
    have hkept : ∀ p, root <:+ p → d₁.node p = d.node p := by
      intro p hp
      rw [hnode₁, if_neg]
      exact fun hsuf => hout hp (hsuf.trans (List.tail_suffix _))
    rw [copyRecursive_file hnot hd₁]
    cases hcopied : d₁.copyFile src dst with
    | error e => exact ⟨d₁, .error e, rfl, hkept⟩
    | ok d₂ =>
      refine ⟨d₂, .ok (), rfl, fun p hp => ?_⟩
      rw [Disk.copyFile_other hcopied, hkept p hp]
      rintro rfl
      exact hout hp List.suffix_rfl

theorem copy_to_above (listing : Listing) {f q : Path} {depth : ℕ} {c : Path} (hq : ¬ q <:+ c) (hnil : q ≠ [])
    (hsrc : d.node (c ++ (q ++ f)) ≠ none) (hdepth : Within d (c ++ (q ++ f)) depth)
    (hsettled : Settled d (q ++ (q ++ f)) (q ++ f)) (hf : d.node (q ++ f) = some .dir) :
    ∃ d' r, copyRecursive listing (depth + 1) (c ++ (q ++ f)) (c ++ f) d = some (d', r) ∧
      ∀ p, q ++ f <:+ p → d'.node p = d.node p := by
  induction depth using Nat.strong_induction_on generalizing c d with
  | _ depth ih =>
    have hout : ∀ {p}, q ++ f <:+ p → ¬ p <:+ c ++ f := by
      intro p hp hsuf
      obtain ⟨x, hx⟩ := hp.trans hsuf
      rw [← List.append_assoc] at hx
      exact hq ⟨x, List.append_cancel_right hx⟩
    obtain ⟨x, hx⟩ := Option.ne_none_iff_exists'.mp hsrc
    cases x with
    | file bytes =>
      refine copy_file_outside listing ?_ hout
      simp [hx]
    | dir =>
      cases hway : d.onFile (c ++ f) with
      | true =>
        obtain ⟨e, he⟩ := Disk.createDirAll_error hway
        refine ⟨d, .error e, ?_, fun _ _ => rfl⟩
        rw [copyRecursive, if_pos (by simpa [Disk.isDir] using hx), he]
      | false =>
        obtain ⟨d₁, hd₁, hnode₁⟩ := Disk.createDirAll_ok hway
        rw [copyRecursive_dir hx hd₁]
        apply @copyEntries_keeps _ _ d₁ (fun d' => ∀ p, q ++ f <:+ p → d'.node p = d.node p)
        · intro n hn d₂ hd₂
          have hunder : ∀ e : Path, q ++ f <:+ e ++ (q ++ f) := fun e => List.suffix_append e _
          have hnone : d.node (n :: (c ++ (q ++ f))) ≠ none := by
            have hnot : ¬ n :: (c ++ (q ++ f)) <:+ c ++ f := hout (hunder (n :: c))
            rwa [mem_arrange, hnode₁, if_neg hnot] at hn
          obtain ⟨j, rfl, hj⟩ := hdepth.child hnone
          have hnone₂ : d₂.node ((n :: c) ++ (q ++ f)) ≠ none := by
            rw [hd₂ _ (hunder (n :: c))]
            exact hnone
          have hsettled₂ : Settled d₂ (q ++ (q ++ f)) (q ++ f) := hsettled.of_under hf hd₂
          have hf₂ : d₂.node (q ++ f) = some .dir := by rw [hd₂ _ List.suffix_rfl, hf]
          by_cases hqn : q <:+ n :: c
          · -- this entry would go where the source itself is
            obtain rfl := (List.suffix_cons_iff.mp hqn).resolve_right hq
            have hparent : d₂.node (n :: c ++ f).tail = some .dir := tail_dir (by rw [hf₂]; exact Option.some_ne_none _)
            have hshift : n :: c ++ (n :: c ++ f) ≠ n :: c ++ f := by
              intro heq
              have := congrArg List.length heq
              simp only [List.length_append, List.length_cons] at this
              omega
            obtain ⟨d₃, r, hd₃, hnode₃⟩ := copy_settled listing hsettled₂ hshift hnone₂
              (hj.congr fun e => hd₂ _ ((hunder (n :: c)).trans (List.suffix_append e _))) hparent
            refine ⟨d₃, r, hd₃, fun p hp => ?_⟩
            rw [hnode₃, hd₂ p hp]
          · obtain ⟨d₃, r, hd₃, hkept⟩ := ih j (Nat.lt_succ_self j) hqn hnone₂
              (hj.congr fun e => hd₂ _ ((hunder (n :: c)).trans (List.suffix_append e _))) hsettled₂ hf₂
            refine ⟨d₃, r, hd₃, fun p hp => ?_⟩
            rw [hkept p hp, hd₂ p hp]
        · intro p hp
          rw [hnode₁, if_neg (hout hp)]

theorem copy_blocked (listing : Listing) {p : Path} (hp : p ≠ []) (hsrc : d.node src ≠ none)
    (hway : d.onFile (p ++ src) = true) :
    ∃ e, copyRecursive listing 1 src (p ++ src) d = some (d, .error e) := by
  by_cases hdir : d.node src = some .dir
  · obtain ⟨e, he⟩ := Disk.createDirAll_error hway
    refine ⟨e, ?_⟩
    rw [copyRecursive, if_pos (by simpa [Disk.isDir] using hdir), he]
  · obtain ⟨n, p, rfl⟩ := List.exists_cons_of_ne_nil hp
    have hfile : ∃ bytes, d.node src = some (.file bytes) := by
      obtain ⟨x, hx⟩ := Option.ne_none_iff_exists'.mp hsrc
      cases x with
      | dir => exact absurd hx hdir
      | file bytes => exact ⟨bytes, hx⟩
    obtain ⟨e, he⟩ := createParent_error (show d.onFile (n :: p ++ src).tail = true from
      Disk.onFile_iff.mpr ⟨src, List.suffix_append p src, hfile⟩)
    refine ⟨e, ?_⟩
    rw [copyRecursive, if_neg (by simpa [Disk.isDir] using hdir), he]

theorem made_of_ends {listing : Listing} {fuel : ℕ} {d' : Disk} {r : Except Errno Unit}
    (hsrc : d.node src = some .dir) (hway : d.onFile dst = false)
    (h : copyRecursive listing fuel src dst d = some (d', r)) : d'.node dst = some .dir := by
  cases fuel with
  | zero => cases h
  | succ fuel =>
    obtain ⟨d₁, hd₁, hnode₁⟩ := Disk.createDirAll_ok hway
    rw [copyRecursive_dir hsrc hd₁] at h
    apply (copyEntries_grows copyRecursive_grows h).dir
    rw [hnode₁, if_pos List.suffix_rfl]

theorem copyEntries_ok {copy : Path → Path → Disk → Outcome} {names : List Name} {d' : Disk}
    (hcopy : ∀ {src dst d d' r}, copy src dst d = some (d', r) → Grows dst d d')
    (h : copyEntries copy src dst names d = some (d', .ok ())) {n : Name} (hn : n ∈ names) :
    ∃ d₁ d₂, copy (n :: src) (n :: dst) d₁ = some (d₂, .ok ()) ∧ Grows dst d d₁ := by
  induction names generalizing d with
  | nil => cases hn
  | cons m names ih =>
    obtain ⟨⟨d₁, r₁⟩, hd₁, h⟩ := Option.bind_eq_some_iff.mp h
    cases r₁ with
    | error e => cases h
    | ok u =>
      obtain rfl | hn := List.mem_cons.mp hn
      · exact ⟨d, d₁, hd₁, .refl dst d⟩
      · obtain ⟨d₂, d₃, hd₃, hgrows⟩ := ih h hn
        exact ⟨d₂, d₃, hd₃, (hcopy hd₁).of_child.trans hgrows⟩

theorem never_copied_inside (listing : Listing) {fuel : ℕ} {p : Path} {d' : Disk} (hp : p ≠ [])
    (hsrc : d.node src = some .dir) :
    copyRecursive listing fuel src (p ++ src) d ≠ some (d', .ok ()) := by
  induction fuel generalizing src p d d' with
  | zero => nofun
  | succ fuel ih =>
    intro h
    cases hway : d.onFile (p ++ src) with
    | true =>
      obtain ⟨e, he⟩ := copy_blocked listing hp (by rw [hsrc]; nofun) hway
      cases copyRecursive_unique h he
    | false =>
      obtain ⟨d₁, hd₁, hnode₁⟩ := Disk.createDirAll_ok hway
      rw [copyRecursive_dir hsrc hd₁] at h
      obtain ⟨p, n, rfl⟩ := (List.eq_nil_or_concat' p).resolve_left hp
      -- the entry on the way to the destination goes into itself as well
      have hn : d₁.node (n :: src) = some .dir := by
        rw [hnode₁, if_pos]
        exact ⟨p, append_cons p src n⟩
      obtain ⟨d₂, d₃, hd₃, hgrows⟩ := copyEntries_ok copyRecursive_grows h
        (mem_arrange.mpr (show d₁.node (n :: src) ≠ none by rw [hn]; nofun))
      rw [← append_cons, ← List.cons_append] at hd₃
      exact ih (List.cons_ne_nil n p) (hgrows.dir _ hn) hd₃

end Inside

structure Preserved (src dst : Path) (d d' : Disk) : Prop where
  source : ∀ c, d'.node (c ++ src) = d.node (c ++ src)
  copied : Apart src dst → ∀ c, d'.node (c ++ dst) = d.node (c ++ src)

/-- Where a copy does what it should, or is refused before it does anything. -/
structure Harmless (d : Disk) (src dst : Path) : Prop where
  same : dst = src → ∀ c bytes, d.node (c ++ src) = some (.file bytes) → bytes = []
  inside : ∀ p, p ≠ [] → dst = p ++ src → d.onFile dst = true ∨ d.node dst = some .dir ∧ Settled d src dst
  above : ∀ q, q ≠ [] → src = q ++ dst → Settled d (q ++ src) src
  apart : Apart src dst → d.onFile dst.tail = false ∧ Fits d src dst

section Towards

variable {src dst target : Path} {d d' : Disk} {fuel : ℕ} {r : Except Errno Unit}

def towards (target : Path) : Listing where
  arrange d p :=
    match (d.names p).find? fun n => n :: p <:+ target with
    | some n => n :: (d.names p).erase n
    | none => d.names p
  perm d p := by
    cases h : (d.names p).find? fun n => n :: p <:+ target with
    | none => exact .refl _
    | some n => exact (List.perm_cons_erase (List.mem_of_find?_eq_some h)).symm

theorem towards_arrange {n : Name} (hn : d.node (n :: src) ≠ none) (htarget : n :: src <:+ target) :
    ∃ names, (towards target).arrange d src = n :: names := by
  cases h : (d.names src).find? fun n => n :: src <:+ target with
  | none =>
    have hnot := List.find?_eq_none.mp h n (Disk.mem_names.mpr hn)
    exact absurd (decide_eq_true htarget) hnot
  | some m =>
    have hm : m :: src <:+ target := by simpa using List.find?_some h
    have heq := (List.suffix_of_suffix_length_le hm htarget (by simp)).eq_of_length (by simp)
    obtain ⟨rfl, -⟩ := List.cons.inj heq
    exact ⟨(d.names src).erase m, by simp only [towards, h]⟩

theorem copyEntries_aside {copy : Path → Path → Disk → Outcome} {n : Name} {names : List Name}
    (hcopy : ∀ {src dst d d' r}, copy src dst d = some (d', r) → Grows dst d d') (hn : n ∉ names)
    (h : copyEntries copy src dst names d = some (d', r)) {q : Path} (hq : n :: dst <:+ q) (hnone : d.node q ≠ none) :
    d'.node q = d.node q := by
  induction names generalizing d with
  | nil =>
    obtain ⟨rfl, -⟩ := Prod.mk.inj (Option.some.inj h)
    rfl
  | cons m names ih =>
    rw [List.mem_cons, not_or] at hn
    obtain ⟨⟨d₁, r₁⟩, hd₁, h⟩ := Option.bind_eq_some_iff.mp h
    obtain ⟨c, rfl⟩ := hq
    have hkept : d₁.node (c ++ n :: dst) = d.node (c ++ n :: dst) :=
      (hcopy hd₁).kept _ (sibling (Ne.symm hn.1)) fun _ => hnone
    cases r₁ with
    | ok u => rw [ih hn.2 h (by rwa [hkept]), hkept]
    | error e =>
      obtain ⟨rfl, -⟩ := Prod.mk.inj (Option.some.inj h)
      exact hkept

def Reached (x : Node) (y : Option Node) : Prop :=
  y ≠ none ∧ ∀ bytes, x = .file bytes → y = some (.file bytes) ∨ y = some .dir

theorem reached_here {x : Node} {listing : Listing} (hne : src ≠ dst) (hx : d.node src = some x)
    (hparent : d.node dst.tail = some .dir) (h : copyRecursive listing fuel src dst d = some (d', r)) :
    Reached x (d'.node dst) := by
  have hgrows := copyRecursive_grows h
  cases x with
  | dir =>
    refine ⟨?_, nofun⟩
    cases hway : d.onFile dst with
    | false =>
      rw [made_of_ends hx hway h]
      nofun
    | true =>
      obtain ⟨g, hg, hfile⟩ := Disk.onFile_iff.mp hway
      obtain ⟨bytes, hg'⟩ := Disk.isFile_iff.mp (hgrows.file g (Disk.isFile_iff.mpr hfile))
      by_cases heq : g = dst
      · rw [← heq, hg']
        nofun
      · cases dst with
        | nil => exact absurd (List.suffix_nil.mp hg) heq
        | cons n parent =>
          have hon : d.onFile parent = true :=
            Disk.onFile_iff.mpr ⟨g, (List.suffix_cons_iff.mp hg).resolve_left heq, hfile⟩
          rw [Disk.not_onFile_of_dir (show d.node parent = some .dir from hparent)] at hon
          cases hon
  | file bytes =>
    suffices hy : d'.node dst = some (.file bytes) ∨ d'.node dst = some .dir by
      refine ⟨?_, fun bytes' heq => ?_⟩
      · rcases hy with hy | hy <;> rw [hy] <;> nofun
      · cases heq
        exact hy
    by_cases hdst : d.node dst = some .dir
    · exact .inr (hgrows.dir dst hdst)
    cases fuel with
    | zero => cases h
    | succ fuel =>
      obtain ⟨d₁, hd₁, hnode₁⟩ := createParent_dir hparent
      rw [copyRecursive_file (by rw [hx]; nofun) hd₁] at h
      cases dst with
      | nil => exact absurd rfl hdst
      | cons n parent =>
        obtain ⟨d₂, hd₂, hnode₂⟩ := Disk.copyFile_ok (show d₁.node src = _ by rw [hnode₁, hx])
          (show d₁.node parent = some .dir by rw [hnode₁]; exact hparent) (by rwa [hnode₁])
        rw [hd₂] at h
        obtain ⟨rfl, -⟩ := Prod.mk.inj (Option.some.inj h)
        rw [hnode₂, if_pos rfl, if_neg hne]
        exact .inl rfl

theorem reached_first {c : Path} {x : Node} (hne : src ≠ dst) (hx : d.node (c ++ src) = some x)
    (htail : d.node (c ++ dst).tail = some .dir)
    (h : copyRecursive (towards (c ++ src)) fuel src dst d = some (d', r)) : Reached x (d'.node (c ++ dst)) := by
  induction c using List.reverseRecOn generalizing src dst d d' r fuel with
  | nil => exact reached_here hne hx htail h
  | append_singleton c n ih =>
    rw [← append_cons] at hx htail h ⊢
    have hn : d.node (n :: src) ≠ none := Disk.exists_above (by rw [hx]; nofun)
    have hsrc : d.node src = some .dir := Disk.parent_dir hn
    have hdst : d.node dst = some .dir := by
      cases c with
      | nil => exact htail
      | cons m c =>
        have hway : d.node (c ++ n :: dst) = some .dir := htail
        exact Disk.parent_dir (Disk.exists_above (by rw [hway]; nofun))
    cases fuel with
    | zero => cases h
    | succ fuel =>
      obtain ⟨d₁, hd₁, hnode₁⟩ := Disk.createDirAll_dir hdst
      rw [copyRecursive_dir hsrc hd₁] at h
      obtain ⟨names, harrange⟩ : ∃ names, (towards (c ++ n :: src)).arrange d₁ src = n :: names :=
        towards_arrange (by rwa [hnode₁]) (List.suffix_append c _)
      have hnodup : ((towards (c ++ n :: src)).arrange d₁ src).Nodup := nodup_arrange
      rw [harrange] at h hnodup
      obtain ⟨⟨d₂, r₂⟩, hd₂, h⟩ := Option.bind_eq_some_iff.mp h
      have hreached := ih (fun heq => hne (List.cons.inj heq).2) (by rwa [hnode₁]) (by rwa [hnode₁]) hd₂
      cases r₂ with
      | error e =>
        obtain ⟨rfl, -⟩ := Prod.mk.inj (Option.some.inj h)
        exact hreached
      | ok u =>
        rw [copyEntries_aside copyRecursive_grows (List.nodup_cons.mp hnodup).1 h (List.suffix_append c _) hreached.1]
        exact hreached

end Towards

section Preserved

variable {d : Disk} {src dst : Path}

theorem Harmless.preserved (listing : Listing) (hsrc : d.node src ≠ none) (h : Harmless d src dst) :
    ∃ fuel d' r, copyRecursive listing fuel src dst d = some (d', r) ∧ Preserved src dst d d' := by
  obtain ⟨depth, hdepth⟩ := exists_within d src
  by_cases hin : src <:+ dst
  · have hnot : ¬ Apart src dst := fun hapart => hapart.1 hin
    obtain ⟨p, rfl⟩ := hin
    by_cases hp : p = []
    · subst hp
      obtain ⟨d', hd', hemptied⟩ := copy_self listing hsrc hdepth
      refine ⟨depth + 1, d', .ok (), hd', ⟨fun c => ?_, fun hapart => absurd hapart hnot⟩⟩
      rw [hemptied, if_pos (List.suffix_append c src)]
      cases hx : d.node (c ++ src) with
      | none => rfl
      | some x =>
        cases x with
        | dir => rfl
        | file bytes => rw [h.same rfl c bytes hx, Option.map_some, emptied]
    · rcases h.inside p hp rfl with hway | ⟨hdir, hsettled⟩
      · obtain ⟨e, he⟩ := copy_blocked listing hp hsrc hway
        exact ⟨1, d, .error e, he, ⟨fun _ => rfl, fun hapart => absurd hapart hnot⟩⟩
      · obtain ⟨d', r, hd', hnode⟩ := copy_settled listing hsettled (by simpa using hp) hsrc hdepth
          (tail_dir (by rw [hdir]; nofun))
        exact ⟨depth + 1, d', r, hd', ⟨fun c => by rw [hnode], fun hapart => absurd hapart hnot⟩⟩
  · by_cases habove : dst <:+ src
    · have hnot : ¬ Apart src dst := fun hapart => hapart.2 habove
      obtain ⟨q, rfl⟩ := habove
      have hq : q ≠ [] := by
        rintro rfl
        exact hin List.suffix_rfl
      have hne : dst ≠ q ++ dst := fun heq => hin (heq ▸ List.suffix_rfl)
      have hdst : d.node dst = some .dir := Disk.above_dir hsrc (List.suffix_append q dst) hne
      obtain ⟨x, hx⟩ := Option.ne_none_iff_exists'.mp hsrc
      cases x with
      | file bytes =>
        obtain ⟨d', r, hd', hnode⟩ := copy_settled listing (settled_of_file hx hdst) hne.symm hsrc hdepth
          (tail_dir (by rw [hdst]; nofun))
        exact ⟨depth + 1, d', r, hd', ⟨fun c => by rw [hnode], fun hapart => absurd hapart hnot⟩⟩
      | dir =>
        have hnil : ¬ q <:+ [] := fun hsuf => hq (List.suffix_nil.mp hsuf)
        obtain ⟨d', r, hd', hkept⟩ := copy_to_above listing hnil hq hsrc hdepth (h.above q hq rfl) hx
        refine ⟨depth + 1, d', r, hd', ⟨fun c => ?_, fun hapart => absurd hapart hnot⟩⟩
        exact hkept _ (List.suffix_append c _)
    · obtain ⟨hway, hfits⟩ := h.apart ⟨hin, habove⟩
      obtain ⟨d', hd', hcopied⟩ := copy_apart listing ⟨hin, habove⟩ hsrc hdepth hway hfits
      refine ⟨depth + 1, d', .ok (), hd', ⟨fun c => ?_, fun _ => hcopied⟩⟩
      have hgrows := copyRecursive_grows hd'
      apply hgrows.kept
      · exact Apart.not_under ⟨hin, habove⟩ c
      · exact fun hsuf => absurd ((List.suffix_append c src).trans hsuf) hin

theorem settled_of_preserved {x : Node} (hne : src ≠ dst)
    (h : ∀ listing, ∃ fuel d' r, copyRecursive listing fuel src dst d = some (d', r) ∧ Preserved src dst d d')
    {c e : Path} (he : c ++ dst = e ++ src) (hx : d.node (c ++ src) = some x)
    (htail : d.node (c ++ dst).tail = some .dir) :
    ∃ y, d.node (e ++ src) = some y ∧ ∀ bytes, x = .file bytes → y = .file bytes ∨ y = .dir := by
  obtain ⟨fuel, d', r, hd', hkept⟩ := h (towards (c ++ src))
  obtain ⟨hnone, hkind⟩ := reached_first hne hx htail hd'
  rw [he, hkept.source] at hnone hkind
  obtain ⟨y, hy⟩ := Option.ne_none_iff_exists'.mp hnone
  refine ⟨y, hy, fun bytes heq => ?_⟩
  simpa [hy] using hkind bytes heq

theorem harmless_of_preserved (hsrc : d.node src ≠ none)
    (h : ∀ listing, ∃ fuel d' r, copyRecursive listing fuel src dst d = some (d', r) ∧ Preserved src dst d d') :
    Harmless d src dst := by
  obtain ⟨fuel, d', r, hd', hkept⟩ := h (towards src)
  have hgrows := copyRecursive_grows hd'
  constructor
  · rintro rfl c bytes hfile
    obtain ⟨depth, hdepth⟩ := exists_within d dst
    obtain ⟨_, hd₁, hemptied⟩ := copy_self (towards dst) hsrc hdepth
    obtain ⟨rfl, -⟩ := Prod.mk.inj (copyRecursive_unique hd' hd₁)
    have hnode := hkept.source c
    rw [hemptied, if_pos (List.suffix_append c dst), hfile] at hnode
    exact (Node.file.inj (Option.some.inj hnode)).symm
  · rintro p hp rfl
    by_cases hway : d.onFile (p ++ src) = true
    · exact .inl hway
    rw [Bool.not_eq_true] at hway
    have hdir : d.node src = some .dir := by
      obtain ⟨x, hx⟩ := Option.ne_none_iff_exists'.mp hsrc
      cases x with
      | dir => exact hx
      | file bytes =>
        rw [Disk.onFile_iff.mpr ⟨src, List.suffix_append p src, bytes, hx⟩] at hway
        cases hway
    have hmade := made_of_ends hdir hway hd'
    rw [hkept.source] at hmade
    refine .inr ⟨hmade, fun c x hx htail => ?_⟩
    rw [← List.append_assoc]
    exact settled_of_preserved (by simpa using hp.symm) h (List.append_assoc c p src).symm hx htail
  · rintro q hq rfl c x hx htail
    rw [← List.append_assoc] at hx htail
    exact settled_of_preserved (by simpa using hq) h (List.append_assoc c q dst) hx htail
  · intro hapart
    have hcopied := hkept.copied hapart
    constructor
    · by_contra hway
      rw [Bool.not_eq_false, Disk.onFile_iff] at hway
      obtain ⟨g, hg, hfile⟩ := hway
      obtain ⟨bytes, hx⟩ := Disk.isFile_iff.mp (hgrows.file g (Disk.isFile_iff.mpr hfile))
      cases dst with
      | nil => exact hapart.2 List.nil_suffix
      | cons n parent =>
        have hdst : d'.node (n :: parent) ≠ none := by
          rw [← List.nil_append (n :: parent), hcopied]
          exact hsrc
        have hne : g ≠ n :: parent := by
          rintro rfl
          exact Disk.cons_not_suffix n parent hg
        rw [Disk.above_dir hdst (hg.trans (List.suffix_cons n parent)) hne] at hx
        cases hx
    · intro c x hx
      cases x with
      | dir => exact ⟨.dir, by rw [← hcopied, hgrows.dir _ hx], Iff.rfl⟩
      | file bytes =>
        obtain ⟨bytes', hx'⟩ := Disk.isFile_iff.mp (hgrows.file _ (Disk.isFile_iff.mpr ⟨bytes, hx⟩))
        exact ⟨.file bytes', by rw [← hcopied, hx'], by simp⟩

end Preserved

theorem copy_preserves_iff (d : Disk) (recursive : Bool) (dst : Path) (src : Arg) (hsrc : d.node src.path ≠ none)
    (hrec : d.node src.path = some .dir → recursive = true) :
    (∀ listing, ∃ f fuel d' r, finalDst d dst src = some f ∧
      copySource listing fuel recursive dst src d = some (d', .copied r) ∧ Preserved src.path f d d') ↔
      ∃ f, finalDst d dst src = some f ∧ Harmless d src.path f := by
  have hcopy : ∀ listing f fuel d' r, finalDst d dst src = some f →
      (copySource listing fuel recursive dst src d = some (d', .copied r) ↔
        copyRecursive listing fuel src.path f d = some (d', r)) := by
    intro listing f fuel d' r hf
    have hgo : (d.isDir src.path && !recursive) = false := by
      cases hdir : d.isDir src.path with
      | false => rfl
      | true => rw [hrec (by simpa [Disk.isDir] using hdir)]; rfl
    rw [copySource, if_neg hsrc, hf]
    dsimp only
    rw [hgo, if_neg (by simp), Option.map_eq_some_iff]
    simp
  constructor
  · intro h
    obtain ⟨f, -, -, -, hf, -⟩ := h (towards [])
    refine ⟨f, hf, harmless_of_preserved hsrc fun listing => ?_⟩
    obtain ⟨f', fuel, d', r, hf', hd', hkept⟩ := h listing
    cases hf.symm.trans hf'
    exact ⟨fuel, d', r, (hcopy _ _ _ _ _ hf).mp hd', hkept⟩
  · rintro ⟨f, hf, h⟩ listing
    obtain ⟨fuel, d', r, hd', hkept⟩ := h.preserved listing hsrc
    exact ⟨f, fuel, d', r, hf, (hcopy _ _ _ _ _ hf).mpr hd', hkept⟩

def plainListing : Listing := ⟨Disk.names, fun _ _ => .refl _⟩

def oneFile : Disk where
  rows := [([[0x78]], .file [0x31])]
  closed n p h := by
    rw [nodeIn, if_neg (List.cons_ne_nil n p)] at h
    have hp : n :: p = [[0x78]] := by
      by_contra hne
      simp [Ne.symm hne] at h
    rw [(List.cons.inj hp).2]
    rfl

theorem oneFile_node {p : Path} (h : oneFile.node p ≠ none) : p = [] ∨ p = [[0x78]] := by
  by_contra hnot
  push Not at hnot
  apply h
  rw [Disk.node, nodeIn, if_neg hnot.1]
  simp [oneFile, hnot.2.symm]

theorem one_file_copied : ∃ f fuel d' r, finalDst oneFile [[0x79]] ⟨[[0x78]], some [0x78]⟩ = some f ∧
    copySource plainListing fuel false [[0x79]] ⟨[[0x78]], some [0x78]⟩ oneFile = some (d', .copied r) ∧
      Preserved [[0x78]] f oneFile d' := by
  refine (copy_preserves_iff oneFile false [[0x79]] ⟨[[0x78]], some [0x78]⟩ (by decide) (by decide)).mpr
    ⟨[[0x79]], rfl, ?_, ?_, ?_, ?_⟩ plainListing
  · intro h
    exact absurd h (by decide)
  · intro p hp h
    have hlen := congrArg List.length h
    simp [hp] at hlen
  · intro q hq h
    have hlen := congrArg List.length h
    simp [hq] at hlen
  · intro _
    refine ⟨rfl, fun c x hx => ?_⟩
    obtain h | h := oneFile_node (show oneFile.node (c ++ [[0x79]]) ≠ none by rw [hx]; nofun)
    · simp at h
    · have hlast := congrArg List.getLast? h
      simp at hlast

def NoFiles (d : Disk) : Prop := ∀ p bytes, d.node p ≠ some (.file bytes)

theorem NoFiles.dir {d : Disk} (h : NoFiles d) {p : Path} (hp : d.node p ≠ none) : d.node p = some .dir := by
  obtain ⟨x, hx⟩ := Option.ne_none_iff_exists'.mp hp
  cases x with
  | dir => exact hx
  | file bytes => exact absurd hx (h p bytes)

theorem copyEntries_no_files {copy : Path → Path → Disk → Outcome} {src dst : Path} {names : List Name}
    {d d' : Disk} {r : Except Errno Unit}
    (hcopy : ∀ n ∈ names, ∀ d d' r, NoFiles d → d.node (n :: src) = some .dir →
      copy (n :: src) (n :: dst) d = some (d', r) → r = .ok () ∧ NoFiles d' ∧ Grows (n :: dst) d d')
    (hd : NoFiles d) (hnames : ∀ n ∈ names, d.node (n :: src) = some .dir)
    (h : copyEntries copy src dst names d = some (d', r)) : r = .ok () ∧ NoFiles d' := by
  induction names generalizing d with
  | nil =>
    obtain ⟨rfl, rfl⟩ := Prod.mk.inj (Option.some.inj h)
    exact ⟨rfl, hd⟩
  | cons n names ih =>
    rw [List.forall_mem_cons] at hcopy hnames
    obtain ⟨⟨d₁, r₁⟩, hd₁, h⟩ := Option.bind_eq_some_iff.mp h
    obtain ⟨rfl, hnone, hgrows⟩ := hcopy.1 d d₁ r₁ hd hnames.1 hd₁
    exact ih hcopy.2 hnone (fun m hm => hgrows.dir _ (hnames.2 m hm)) h

theorem copy_no_files {listing : Listing} {fuel : ℕ} {src dst : Path} {d d' : Disk} {r : Except Errno Unit}
    (hd : NoFiles d) (hsrc : d.node src = some .dir)
    (h : copyRecursive listing fuel src dst d = some (d', r)) : r = .ok () ∧ NoFiles d' := by
  induction fuel generalizing src dst d d' r with
  | zero => cases h
  | succ fuel ih =>
    have hway : d.onFile dst = false := by
      rw [← Bool.not_eq_true, Disk.onFile_iff]
      rintro ⟨q, -, bytes, hfile⟩
      exact hd q bytes hfile
    obtain ⟨d₁, hd₁, hnode₁⟩ := Disk.createDirAll_ok hway
    have hnone : NoFiles d₁ := by
      intro p bytes hfile
      rw [hnode₁] at hfile
      split_ifs at hfile
      · cases hfile
      · exact hd p bytes hfile
    rw [copyRecursive_dir hsrc hd₁] at h
    apply copyEntries_no_files _ hnone _ h
    · intro n _ d₂ d₃ r₂ hd₂ hn hcopied
      obtain ⟨hr, hd₃⟩ := ih hd₂ hn hcopied
      exact ⟨hr, hd₃, copyRecursive_grows hcopied⟩
    · exact fun n hn => hnone.dir (mem_arrange.mp hn)

def oneDir : Disk where
  rows := [([[0x61]], .dir)]
  closed n p h := by
    rw [nodeIn, if_neg (List.cons_ne_nil n p)] at h
    have hp : n :: p = [[0x61]] := by
      by_contra hne
      simp [Ne.symm hne] at h
    rw [(List.cons.inj hp).2]
    rfl

theorem oneDir_no_files : NoFiles oneDir := by
  intro p bytes h
  rw [Disk.node, nodeIn] at h
  split_ifs at h
  · cases h
  · obtain ⟨row, hrow, hnode⟩ := Option.map_eq_some_iff.mp h
    obtain rfl := List.mem_singleton.mp (List.mem_of_find?_eq_some hrow)
    cases hnode

theorem copies_to_themselves :
    (copySource plainListing 1 false [[0x78]] ⟨[[0x78]], some [0x78]⟩ oneFile).map
        (fun (d, _) => d.node [[0x78]]) = some (some (.file [])) ∧
      ∀ fuel, copySource plainListing fuel true [[0x61]] ⟨[[0x61]], some [0x61]⟩ oneDir = none := by
  refine ⟨rfl, fun fuel => ?_⟩
  have hnever : copyRecursive plainListing fuel [[0x61]] [[0x61], [0x61]] oneDir = none := by
    by_contra hne
    obtain ⟨⟨d', r⟩, h⟩ := Option.ne_none_iff_exists'.mp hne
    obtain ⟨rfl, -⟩ := copy_no_files oneDir_no_files rfl h
    exact @never_copied_inside _ _ plainListing fuel [[0x61]] d' (List.cons_ne_nil _ _) rfl h
  change (copyRecursive plainListing fuel [[0x61]] [[0x61], [0x61]] oneDir).map _ = none
  rw [hnever, Option.map_none]

end Rustils.Coreutils.Rcp
