import Mathlib.Data.List.TakeWhile
import Rustils.Lib.Program
import Rustils.Lib.Trace
import Rustils.Lib.Utf16
import Rustils.Platform.Errmap

namespace Rustils.Security

open Platform Platform.Errmap Lib.Program Lib.Trace Lib.Utf16

def toWideNul (s : String) : List UInt16 := encode s.toList ++ [0]

structure Credential where
  targetName : List UInt16
  credentialBlobSize : UInt32
  credentialBlob : List UInt8
  userName : List UInt16

inductive CredOp
  | credWriteW (cred : Credential)
  | credReadW (targetName : List UInt16)

@[reducible] def CredAnswer : CredOp → Type
  | .credWriteW _ => Except UInt32 Unit
  | .credReadW _ => Except UInt32 (List UInt8)

abbrev Vault := List UInt16 → Option (List UInt8)

def wideName (w : List UInt16) : List UInt16 := w.takeWhile (· != 0)

/-- Any call may fail; a read fails with an error that says "not found" only where nothing is. -/
def credManager : Env Vault CredAnswer
  | v, .credWriteW cred, .ok _, v' =>
    v' = Function.update v (wideName cred.targetName)
      (some (cred.credentialBlob.take cred.credentialBlobSize.toNat))
  | v, .credWriteW _, .error _, v' => v' = v
  | v, .credReadW target, .ok blob, v' => v' = v ∧ v (wideName target) = some blob
  | v, .credReadW target, .error code, v' =>
    v' = v ∧ (kindOfWin32 code = .notFound → v (wideName target) = none)

def win32 (o : CredOp) : Prog CredAnswer (CredAnswer o) := .call o

def credentialSet (targetName userName : String) (secret : List UInt8) :
    Prog CredAnswer (Result Unit) := do
  let cred : Credential :=
    ⟨toWideNul targetName, UInt32.ofNat secret.length, secret, toWideNul userName⟩
  match ← win32 (.credWriteW cred) with
  | .error code => return .error (lastWin32Err "CredWriteW" [] code)
  | .ok _ => return .ok ()

def credentialGet (targetName : String) : Prog CredAnswer (Result (Option (List UInt8))) := do
  match ← win32 (.credReadW (toWideNul targetName)) with
  | .error code =>
    let e := lastWin32Err "CredReadW" [] code
    return if e.kind = .notFound then .ok none else .error e
  | .ok blob => return .ok (some blob)

def credentialTargetName (service account : String) : String :=
  "rustils\x01" ++ service ++ "\x01" ++ account

namespace WindowsCredentialStore

def get (service account : String) : Prog CredAnswer (Result (Option (List UInt8))) :=
  credentialGet (credentialTargetName service account)

def set (service account : String) (secret : List UInt8) : Prog CredAnswer (Result Unit) :=
  credentialSet (credentialTargetName service account) account secret

end WindowsCredentialStore

inductive CredEvent
  | set (service account : String) (secret : List UInt8) (r : Result Unit)
  | get (service account : String) (r : Result (Option (List UInt8)))

inductive CredStep (v : Vault) : CredEvent → Vault → Prop
  | set {service account : String} {secret : List UInt8} {r : Result Unit} {v' : Vault}
    (h : Reaches credManager (WindowsCredentialStore.set service account secret, v) (.ret r, v')) :
    CredStep v (.set service account secret r) v'
  | get {service account : String} {r : Result (Option (List UInt8))} {v' : Vault}
    (h : Reaches credManager (WindowsCredentialStore.get service account, v) (.ret r, v')) :
    CredStep v (.get service account r) v'

def vaultKey (service account : String) : List UInt16 :=
  wideName (toWideNul (credentialTargetName service account))

section Calls

variable {v v' : Vault} {service account : String} {secret : List UInt8}

theorem reaches_set {r : Result Unit}
    (h : Reaches credManager (WindowsCredentialStore.set service account secret, v) (.ret r, v')) :
    (∃ code, r = .error (lastWin32Err "CredWriteW" [] code) ∧ v' = v) ∨
      r = .ok () ∧ v' = Function.update v (vaultKey service account)
        (some (secret.take (secret.length % 2 ^ 32))) := by
  obtain h | ⟨a, v₁, he, h⟩ := reaches_op.mp h
  · cases h
  rcases a with code | ⟨⟩
  · cases reaches_ret.mp h
    exact .inl ⟨code, rfl, he⟩
  · cases reaches_ret.mp h
    refine .inr ⟨rfl, he.trans ?_⟩
    rw [UInt32.toNat_ofNat']
    rfl

theorem reaches_get {r : Result (Option (List UInt8))}
    (h : Reaches credManager (WindowsCredentialStore.get service account, v) (.ret r, v')) :
    v' = v ∧ ∀ found, r = .ok found → found = v (vaultKey service account) := by
  obtain h | ⟨a, v₁, he, h⟩ := reaches_op.mp h
  · cases h
  rcases a with code | blob
  · cases reaches_ret.mp h
    refine ⟨he.1, ?_⟩
    intro found hfound
    split_ifs at hfound with hkind
    cases hfound
    exact (he.2 hkind).symm
  · cases reaches_ret.mp h
    refine ⟨he.1, ?_⟩
    rintro found ⟨⟩
    exact he.2.symm

end Calls

def Plain (service account : String) : Prop :=
  '\x01' ∉ service.toList ∧ '\x00' ∉ service.toList ∧ '\x00' ∉ account.toList

instance (service account : String) : Decidable (Plain service account) :=
  inferInstanceAs (Decidable (_ ∧ _ ∧ _))

section Key

variable {service account service' account' : String}

theorem soh_toList : "\x01".toList = ['\x01'] := rfl

def targetHead : List Char := "rustils\x01".toList

theorem nul_not_mem_targetHead : '\x00' ∉ targetHead := by decide

def targetChars (service account : String) : List Char :=
  targetHead ++ (service.toList ++ '\x01' :: account.toList)

theorem toList_credentialTargetName (service account : String) :
    (credentialTargetName service account).toList = targetChars service account := by
  unfold credentialTargetName targetChars targetHead
  simp only [String.toList_append, soh_toList, List.append_assoc, List.singleton_append]

theorem vaultKey_eq (service account : String) :
    vaultKey service account = wideName (encode (targetChars service account) ++ [0]) := by
  rw [vaultKey, toWideNul, toList_credentialTargetName]

theorem zero_mem_encode (s : List Char) : (0 : UInt16) ∈ encode s ↔ '\x00' ∈ s := by
  rw [mem_encode s (by decide)]
  constructor
  · rintro ⟨c, hc, h⟩
    have hnul : c = '\x00' := Char.toNat_inj.mp h
    rwa [hnul] at hc
  · intro h
    exact ⟨_, h, rfl⟩

theorem wideName_of_not_mem {w : List UInt16} (h : 0 ∉ w) : wideName (w ++ [0]) = w := by
  unfold wideName
  rw [List.takeWhile_append_of_pos]
  · simp
  · intro u hu
    apply bne_iff_ne.mpr
    rintro rfl
    exact h hu

theorem wideName_append {w : List UInt16} (h : 0 ∈ w) (t : List UInt16) :
    wideName (w ++ t) = wideName w := by
  unfold wideName
  rw [List.takeWhile_append, if_neg]
  intro hlen
  rw [← (List.takeWhile_prefix _).eq_of_length hlen] at h
  have hne := List.mem_takeWhile_imp (p := (· != (0 : UInt16))) h
  exact bne_iff_ne.mp hne rfl

theorem plain_targetChars (h : Plain service account) : '\x00' ∉ targetChars service account := by
  rw [targetChars, List.mem_append, List.mem_append, List.mem_cons, not_or, not_or, not_or]
  exact ⟨nul_not_mem_targetHead, h.2.1, by decide, h.2.2⟩

theorem append_cons_inj {c : Char} {x y z w : List Char} (hx : c ∉ x) (hy : c ∉ y)
    (h : x ++ c :: z = y ++ c :: w) : x = y ∧ z = w := by
  induction x generalizing y with
  | nil =>
    cases y with
    | nil => exact ⟨rfl, List.tail_eq_of_cons_eq h⟩
    | cons d y => exact absurd (List.head_eq_of_cons_eq h ▸ List.mem_cons_self) hy
  | cons d x ih =>
    cases y with
    | nil => exact absurd (List.head_eq_of_cons_eq h ▸ List.mem_cons_self) hx
    | cons e y =>
      rw [List.mem_cons, not_or] at hx hy
      obtain ⟨hd, htail⟩ := List.cons_eq_cons.mp h
      obtain ⟨hxy, hzw⟩ := ih hx.2 hy.2 htail
      exact ⟨by rw [hd, hxy], hzw⟩

theorem vaultKey_inj (h : Plain service account) (h' : Plain service' account')
    (hkey : vaultKey service account = vaultKey service' account') :
    service = service' ∧ account = account' := by
  rw [vaultKey_eq, vaultKey_eq, wideName_of_not_mem (mt (zero_mem_encode _).mp (plain_targetChars h)),
    wideName_of_not_mem (mt (zero_mem_encode _).mp (plain_targetChars h'))] at hkey
  have hchars := List.append_cancel_left (encode_inj hkey)
  obtain ⟨hs, ha⟩ := append_cons_inj h.1 h'.1 hchars
  exact ⟨String.toList_inj.mp hs, String.toList_inj.mp ha⟩

theorem exists_vaultKey_eq (h : ¬ Plain service account) :
    ∃ service' account', ¬ (service' = service ∧ account' = account) ∧
      vaultKey service' account' = vaultKey service account := by
  by_cases hsoh : '\x01' ∈ service.toList
  · obtain ⟨x, y, hxy⟩ := List.append_of_mem hsoh
    refine ⟨.ofList x, .ofList (y ++ '\x01' :: account.toList), ?_, ?_⟩
    · rintro ⟨hs, -⟩
      rw [← hs, String.toList_ofList] at hxy
      have hlen := congrArg List.length hxy
      rw [List.length_append, List.length_cons] at hlen
      omega
    · rw [vaultKey_eq, vaultKey_eq, targetChars, targetChars, String.toList_ofList,
        String.toList_ofList, hxy, List.append_assoc x, List.cons_append]
  · have hnul : '\x00' ∈ targetChars service account := by
      rw [targetChars, List.mem_append, List.mem_append, List.mem_cons]
      by_contra hn
      push Not at hn
      exact h ⟨hsoh, hn.2.1, hn.2.2.2⟩
    refine ⟨service, account ++ "a", ?_, ?_⟩
    · rintro ⟨-, ha⟩
      have hlen := congrArg (fun s : String => s.toList.length) ha
      simp at hlen
    · have hmore : targetChars service (account ++ "a") = targetChars service account ++ ['a'] := by
        rw [targetChars, targetChars, String.toList_append, List.append_assoc, List.append_assoc,
          List.cons_append]
        rfl
      have hzero := (zero_mem_encode _).mpr hnul
      rw [vaultKey_eq, vaultKey_eq, hmore, encode_append, List.append_assoc, wideName_append hzero,
        wideName_append hzero]

end Key

namespace CredEvent

def Plain : CredEvent → Prop
  | .set service account secret _ => Security.Plain service account ∧ secret.length < 2 ^ 32
  | .get service account _ => Security.Plain service account

def record (service account : String) (last : Option (List UInt8)) : CredEvent → Option (List UInt8)
  | .set s a secret (.ok _) => if s = service ∧ a = account then some secret else last
  | _ => last

end CredEvent

def lastSet (service account : String) (tr : List CredEvent) : Option (List UInt8) :=
  tr.foldl (CredEvent.record service account) none

theorem lastSet_concat (service account : String) (tr : List CredEvent) (e : CredEvent) :
    lastSet service account (tr ++ [e]) = e.record service account (lastSet service account tr) := by
  rw [lastSet, List.foldl_append]
  rfl

def Kept (tr : List CredEvent) (v : Vault) : Prop :=
  ∀ service account, Plain service account →
    v (vaultKey service account) = lastSet service account tr

theorem Kept.step {tr : List CredEvent} {v v' : Vault} {e : CredEvent} (h : Kept tr v)
    (hs : CredStep v e v') (he : e.Plain) : Kept (tr ++ [e]) v' := by
  intro service account hp
  rw [lastSet_concat]
  cases hs with
  | @set s a secret r _ hr =>
    obtain ⟨code, rfl, rfl⟩ | ⟨rfl, rfl⟩ := reaches_set hr
    · exact h service account hp
    · rw [Nat.mod_eq_of_lt he.2, List.take_length, CredEvent.record]
      by_cases hkey : s = service ∧ a = account
      · obtain ⟨rfl, rfl⟩ := hkey
        rw [if_pos ⟨rfl, rfl⟩, Function.update_self]
      · rw [if_neg hkey, Function.update_of_ne]
        · exact h service account hp
        · intro heq
          exact hkey (vaultKey_inj he.1 hp heq.symm)
  | get hr =>
    rw [(reaches_get hr).1]
    exact h service account hp

theorem kept_of_run {tr : List CredEvent} {v₀ v : Vault}
    (h₀ : ∀ service account, v₀ (vaultKey service account) = none) (h : Run CredStep v₀ tr v)
    (htr : ∀ e ∈ tr, e.Plain) : Kept tr v := by
  induction h with
  | refl => exact fun service account _ => h₀ service account
  | @tail tr _ _ e _ hs ih =>
    apply (ih fun e he => htr e (List.mem_append_left _ he)).step hs
    exact htr e (List.mem_append_right _ (List.mem_singleton_self e))

section Steps

variable (v : Vault) (service account : String)

theorem credStep_set (secret : List UInt8) : CredStep v (.set service account secret (.ok ()))
    (Function.update v (vaultKey service account)
      (some (secret.take (secret.length % 2 ^ 32)))) := by
  apply CredStep.set
  apply reaches_op.mpr
  refine .inr ⟨.ok (), _, ?_, reaches_ret.mpr rfl⟩
  rw [← UInt32.toNat_ofNat']
  rfl

theorem credStep_get : CredStep v (.get service account (.ok (v (vaultKey service account)))) v := by
  apply CredStep.get
  apply reaches_op.mpr
  rcases hv : v (vaultKey service account) with _ | blob
  · exact .inr ⟨.error ERROR_NOT_FOUND, v, ⟨rfl, fun _ => hv⟩, reaches_ret.mpr rfl⟩
  · exact .inr ⟨.ok blob, v, ⟨rfl, hv⟩, reaches_ret.mpr rfl⟩

theorem found_under_other {service' account' : String} (secret : List UInt8)
    (hlen : secret.length < 2 ^ 32) (hkey : vaultKey service' account' = vaultKey service account) :
    ∃ v', Run CredStep v [.set service account secret (.ok ())] v' ∧
      CredStep v' (.get service' account' (.ok (some secret))) v' := by
  have hset := credStep_set v service account secret
  rw [Nat.mod_eq_of_lt hlen, List.take_length] at hset
  refine ⟨_, .tail .refl hset, ?_⟩
  have hget := credStep_get (Function.update v (vaultKey service account) (some secret)) service' account'
  rwa [hkey, Function.update_self] at hget

end Steps

theorem credentials_kept_apart (service account : String) :
    (Plain service account → ∀ (tr : List CredEvent) (v₀ v v' : Vault),
      (∀ s a, v₀ (vaultKey s a) = none) → Run CredStep v₀ tr v → (∀ e ∈ tr, e.Plain) →
      ∀ found, CredStep v (.get service account (.ok found)) v' →
        found = lastSet service account tr) ∧
    (¬ Plain service account → ∃ service' account',
      ¬ (service' = service ∧ account' = account) ∧ ∀ v : Vault, ∃ v',
        Run CredStep v [.set service account [7] (.ok ())] v' ∧
        CredStep v' (.get service' account' (.ok (some [7]))) v') := by
  constructor
  · intro hp tr v₀ v v' h₀ h htr found hget
    cases hget with
    | get hr =>
      rw [(reaches_get hr).2 found rfl]
      exact kept_of_run h₀ h htr service account hp
  · intro hp
    obtain ⟨service', account', hne, hkey⟩ := exists_vaultKey_eq hp
    exact ⟨service', account', hne, fun v => found_under_other v service account [7] (by decide) hkey⟩

def storing : List CredEvent :=
  [.set "a" "b" [7] (.ok ()), .set "a" "c" [8] (.ok ()), .get "a" "c" (.ok (some [8])), .set "a" "b" [9] (.ok ())]

theorem credential_comes_back : ∃ v, Run CredStep (fun _ => none) storing v ∧
    CredStep v (.get "a" "b" (.ok (some [9]))) v ∧ some [9] = lastSet "a" "b" storing := by
  let v₁ : Vault := Function.update (fun _ => none) (vaultKey "a" "b") (some [7])
  let v₂ : Vault := Function.update v₁ (vaultKey "a" "c") (some [8])
  let v₃ : Vault := Function.update v₂ (vaultKey "a" "b") (some [9])
  have hfound := credStep_get v₂ "a" "c"
  have hget := credStep_get v₃ "a" "b"
  rw [show v₂ (vaultKey "a" "c") = some [8] from Function.update_self ..] at hfound
  rw [show v₃ (vaultKey "a" "b") = some [9] from Function.update_self ..] at hget
  have hrun : Run CredStep (fun _ => none) storing v₃ :=
    .tail (.tail (.tail (.tail .refl (credStep_set _ "a" "b" [7])) (credStep_set v₁ "a" "c" [8])) hfound)
      (credStep_set v₂ "a" "b" [9])
  refine ⟨v₃, hrun, hget, (credentials_kept_apart "a" "b").1 (by decide) _ _ v₃ v₃ (fun _ _ => rfl) hrun ?_ _ hget⟩
  simp only [storing, List.forall_mem_cons, List.not_mem_nil, false_imp_iff, implies_true, and_true, CredEvent.Plain]
  decide

theorem credentials_collide :
    (∃ v, Run CredStep (fun _ => none) [.set "a\x01b" "c" [7] (.ok ())] v ∧
      CredStep v (.get "a" "b\x01c" (.ok (some [7]))) v ∧
      lastSet "a" "b\x01c" [.set "a\x01b" "c" [7] (.ok ())] = none) ∧
    ∃ v, Run CredStep (fun _ => none) [.set "a" "b\x00c" [7] (.ok ())] v ∧
      CredStep v (.get "a" "b\x00d" (.ok (some [7]))) v ∧
      lastSet "a" "b\x00d" [.set "a" "b\x00c" [7] (.ok ())] = none := by
  constructor
  · obtain ⟨v, hrun, hget⟩ := found_under_other (fun _ => none) "a\x01b" "c" [7] (by decide)
      (by decide : vaultKey "a" "b\x01c" = vaultKey "a\x01b" "c")
    exact ⟨v, hrun, hget, by decide⟩
  · obtain ⟨v, hrun, hget⟩ := found_under_other (fun _ => none) "a" "b\x00c" [7] (by decide)
      (by decide : vaultKey "a" "b\x00d" = vaultKey "a" "b\x00c")
    exact ⟨v, hrun, hget, by decide⟩

end Rustils.Security
