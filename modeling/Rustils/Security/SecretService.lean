import Mathlib.Data.Finset.Insert
import Mathlib.Data.Fintype.EquivFin
import Mathlib.Data.List.AList
import Rustils.Dbus.Connection
import Rustils.Dbus.MessageRoundTrip
import Rustils.Lib.Program

namespace Rustils.Security

open Platform Lib.Program
open Dbus (Value Request)

namespace SecretService

def SERVICE_DEST : String := "org.freedesktop.secrets"
def COLLECTION_IFACE : String := "org.freedesktop.Secret.Collection"
def ITEM_IFACE : String := "org.freedesktop.Secret.Item"
def NULL_PATH : String := "/"

def protoErr (detail : String) : PlatformError := .new .invalidInput .none detail

@[reducible] def Answer (_ : Request) : Type := Result (List Value)

def attributesValue (service account : String) : Value :=
  .array "\x7bss\x7d"
    [.dictEntry (.string "service") (.string service),
      .dictEntry (.string "account") (.string account)]

def byteOf : Value → Result UInt8
  | .byte b => .ok b
  | _ => .error (protoErr "Secret value array contained a non-byte element")

def secretBytes (body : List Value) : Result (Option (List UInt8)) :=
  match body.head? with
  | some (.struct fields) =>
    match fields[2]? with
    | some (Value.array _ byteValues) => (byteValues.mapM byteOf).map some
    | _ => .error (protoErr "Secret struct did not contain the expected value byte array")
  | _ => .error (protoErr "GetSecret did not return the expected Secret struct")

def getWith (sessionPath collectionPath service account : String) :
    Prog Answer (Result (Option (List UInt8))) :=
  .op ⟨SERVICE_DEST, collectionPath, COLLECTION_IFACE, "SearchItems", "a\x7bss\x7d",
      [attributesValue service account]⟩ fun
    | .error e => .ret (.error e)
    | .ok search =>
      match search.head? with
      | some (.array _ items) =>
        match items.head? with
        | some (.objectPath itemPath) =>
          .op ⟨SERVICE_DEST, itemPath, ITEM_IFACE, "GetSecret", "o", [.objectPath sessionPath]⟩ fun
            | .error e => .ret (.error e)
            | .ok secretReply => .ret (secretBytes secretReply)
        | _ => .ret (.ok none)
      | _ => .ret (.error (protoErr "SearchItems did not return the expected array"))

def properties (service account : String) : Value :=
  .array "\x7bsv\x7d"
    [.dictEntry (.string "org.freedesktop.Secret.Item.Label")
        (.variant (.string ("rustils: " ++ service ++ " (" ++ account ++ ")"))),
      .dictEntry (.string "org.freedesktop.Secret.Item.Attributes")
        (.variant (attributesValue service account))]

def secretStruct (sessionPath : String) (secret : List UInt8) : Value :=
  .struct [.objectPath sessionPath, .array "y" [], .array "y" (secret.map .byte),
    .string "text/plain"]

def created (body : List Value) : Result Unit :=
  match body.head?, body[1]? with
  | some (.objectPath _), some (Value.objectPath prompt) =>
    if prompt ≠ NULL_PATH then
      .error (protoErr "CreateItem unexpectedly required an interactive prompt")
    else .ok ()
  | _, _ => .error (protoErr "CreateItem did not return the expected reply shape")

def setWith (sessionPath collectionPath service account : String) (secret : List UInt8) :
    Prog Answer (Result Unit) :=
  .op ⟨SERVICE_DEST, collectionPath, COLLECTION_IFACE, "CreateItem", "a\x7bsv\x7d(oayays)b",
      [properties service account, secretStruct sessionPath secret, .boolean true]⟩ fun
    | .error e => .ret (.error e)
    | .ok reply => .ret (created reply)

structure Item where
  attributes : Finset (String × String)
  secret : List UInt8
  contentType : String

abbrev Collection := AList fun _ : String => Item

def Collection.matching (coll : Collection) (pairs : Finset (String × String)) : List String :=
  (coll.entries.filter fun i => pairs ⊆ i.2.attributes).map Sigma.fst

def pairOf : Value → Option (String × String)
  | .dictEntry (.string key) (.string value) => some (key, value)
  | _ => none

def attributesOf : Value → Option (Finset (String × String))
  | .array _ entries => (entries.mapM pairOf).map List.toFinset
  | _ => none

def property (name : String) : Value → Option Value
  | .array _ entries => entries.findSome? fun
    | .dictEntry (.string key) (.variant v) => if key = name then some v else none
    | _ => none
  | _ => none

def itemOf (props secret : Value) : Option Item :=
  match property "org.freedesktop.Secret.Item.Attributes" props, secret with
  | some attributes, .struct [_, _, .array _ bytes, .string contentType] => do
    let attributes ← attributesOf attributes
    let secret ← (bytes.mapM byteOf).toOption
    pure ⟨attributes, secret, contentType⟩
  | _, _ => none

inductive Method
  | searchItems
  | getSecret
  | createItem

def methodOf (req : Request) : Option Method :=
  if req.destination ≠ SERVICE_DEST then none
  else if req.interface = COLLECTION_IFACE ∧ req.member = "SearchItems" then some .searchItems
  else if req.interface = ITEM_IFACE ∧ req.member = "GetSecret" then some .getSecret
  else if req.interface = COLLECTION_IFACE ∧ req.member = "CreateItem" then some .createItem
  else none

def secretReply (sessionPath : String) (item : Item) : List Value :=
  [.struct [.objectPath sessionPath, .array "y" [], .array "y" (item.secret.map .byte),
    .string item.contentType]]

/-- `CreateItem` with `replace`: an item with the same attributes is overwritten. -/
inductive Creates (coll : Collection) (item : Item) (path : String) : Prop
  | overwrite {old : Item} (ho : coll.lookup path = some old) (ha : old.attributes = item.attributes)
  | add (hp : coll.lookup path = none)
      (ha : ∀ p old, coll.lookup p = some old → old.attributes ≠ item.attributes)

/-- The Secret Service, with its collection at `collectionPath`. A search finds the items in any
order; `CreateItem` may fail. -/
def serves (sessionPath collectionPath : String) : Env Collection Answer := fun coll req r coll' =>
  match methodOf req, req.body, r with
  | some .searchItems, [v], .ok reply =>
    req.path = collectionPath ∧ coll' = coll ∧ ∃ pairs paths, attributesOf v = some pairs ∧
      List.Perm paths (coll.matching pairs) ∧ reply = [.array "o" (paths.map .objectPath)]
  | some .getSecret, [.objectPath session], .ok reply =>
    session = sessionPath ∧ coll' = coll ∧
      ∃ item, coll.lookup req.path = some item ∧ reply = secretReply sessionPath item
  | some .createItem, [props, secret, .boolean true], .ok reply =>
    req.path = collectionPath ∧ ∃ item path, itemOf props secret = some item ∧
      Creates coll item path ∧ coll' = coll.insert path item ∧
      reply = [.objectPath path, .objectPath NULL_PATH]
  | some .createItem, _, .error _ => coll' = coll
  | _, _, _ => False

def pair (service account : String) : Finset (String × String) :=
  {("service", service), ("account", account)}

theorem attributesOf_attributesValue (service account : String) :
    attributesOf (attributesValue service account) = some (pair service account) := rfl

theorem mapM_byteOf (bytes : List UInt8) : (bytes.map Value.byte).mapM byteOf = .ok bytes := by
  induction bytes with
  | nil => rfl
  | cons b bytes ih =>
    rw [List.map_cons, List.mapM_cons, ih]
    rfl

theorem itemOf_setWith (sessionPath service account : String) (secret : List UInt8) :
    itemOf (properties service account) (secretStruct sessionPath secret) =
      some ⟨pair service account, secret, "text/plain"⟩ := by
  have hattr : property "org.freedesktop.Secret.Item.Attributes" (properties service account) =
      some (attributesValue service account) := rfl
  simp only [itemOf, hattr, secretStruct, attributesOf_attributesValue, mapM_byteOf]
  rfl

theorem secretBytes_getSecret (sessionPath : String) (item : Item) :
    secretBytes (secretReply sessionPath item) = .ok (some item.secret) := by
  have hbytes := mapM_byteOf item.secret
  simp only [secretBytes, secretReply, List.head?_cons, List.getElem?_cons_succ, List.getElem?_cons_zero, hbytes]
  rfl

variable {sessionPath collectionPath service account : String} {secret : List UInt8}
  {coll coll' : Collection} {pairs : Finset (String × String)}

theorem mem_matching {path : String} :
    path ∈ coll.matching pairs ↔ ∃ item, coll.lookup path = some item ∧ pairs ⊆ item.attributes := by
  simp only [Collection.matching, List.mem_map, List.mem_filter, decide_eq_true_eq]
  constructor
  · rintro ⟨⟨p, item⟩, ⟨hmem, hsub⟩, rfl⟩
    exact ⟨item, AList.mem_lookup_iff.mpr hmem, hsub⟩
  · rintro ⟨item, hi, hsub⟩
    exact ⟨⟨path, item⟩, ⟨AList.mem_lookup_iff.mp hi, hsub⟩, rfl⟩

def FirstOf (coll : Collection) (paths : List String) (r : Result (Option (List UInt8))) : Prop :=
  match paths with
  | [] => r = .ok none
  | path :: _ => ∃ item, coll.lookup path = some item ∧ r = .ok (some item.secret)

theorem getWith_returns {r : Result (Option (List UInt8))} :
    Reaches (serves sessionPath collectionPath)
        (getWith sessionPath collectionPath service account, coll) (.ret r, coll') ↔
      coll' = coll ∧ ∃ paths, paths.Perm (coll.matching (pair service account)) ∧
        FirstOf coll paths r := by
  constructor
  · intro h
    rcases reaches_op.mp h with ⟨⟨⟩⟩ | ⟨answer, coll₁, hs, h⟩
    cases answer with
    | error e => exact hs.elim
    | ok reply =>
      obtain ⟨-, rfl, pairs, paths, hv, hp, rfl⟩ := hs
      cases hv
      cases paths with
      | nil =>
        cases reaches_ret.mp h
        exact ⟨rfl, [], hp, rfl⟩
      | cons path paths =>
        rcases reaches_op.mp h with ⟨⟨⟩⟩ | ⟨answer, coll₂, hs, h⟩
        cases answer with
        | error e => exact hs.elim
        | ok reply =>
          obtain ⟨-, rfl, item, hi, rfl⟩ := hs
          cases reaches_ret.mp h
          exact ⟨rfl, path :: paths, hp, item, hi, secretBytes_getSecret sessionPath item⟩
  · rintro ⟨rfl, paths, hp, hr⟩
    refine reaches_op.mpr (.inr ⟨.ok _, _, ⟨rfl, rfl, _, paths, rfl, hp, rfl⟩, ?_⟩)
    cases paths with
    | nil =>
      cases hr
      exact .refl
    | cons path paths =>
      obtain ⟨item, hi, rfl⟩ := hr
      refine reaches_op.mpr (.inr ⟨.ok _, _, ⟨rfl, rfl, item, hi, rfl⟩, ?_⟩)
      rw [reaches_ret, secretBytes_getSecret]

theorem setWith_returns :
    Reaches (serves sessionPath collectionPath)
        (setWith sessionPath collectionPath service account secret, coll) (.ret (.ok ()), coll') ↔
      ∃ path, Creates coll ⟨pair service account, secret, "text/plain"⟩ path ∧
        coll' = coll.insert path ⟨pair service account, secret, "text/plain"⟩ := by
  have hitem := itemOf_setWith sessionPath service account secret
  constructor
  · intro h
    rcases reaches_op.mp h with ⟨⟨⟩⟩ | ⟨answer, coll₁, hs, h⟩
    cases answer with
    | error e => cases reaches_ret.mp h
    | ok reply =>
      obtain ⟨-, item, path, hi, hc, rfl, rfl⟩ := hs
      rw [hitem] at hi
      cases hi
      cases reaches_ret.mp h
      exact ⟨path, hc, rfl⟩
  · rintro ⟨path, hc, rfl⟩
    exact reaches_op.mpr (.inr ⟨.ok _, _, ⟨rfl, _, path, hitem, hc, rfl, rfl⟩, .refl⟩)

def Returns {α : Type} (env : Env Collection Answer) (p : Prog Answer α) (coll : Collection) (a : α) :
    Prop :=
  (∃ coll', Reaches env (p, coll) (.ret a, coll')) ∧
    ∀ a' coll', Reaches env (p, coll) (.ret a', coll') → a' = a

structure SecretLaw (sessionPath collectionPath service account : String) (coll : Collection) :
    Prop where
  stored : ∀ secret coll', Reaches (serves sessionPath collectionPath)
    (setWith sessionPath collectionPath service account secret, coll) (.ret (.ok ()), coll') →
    Returns (serves sessionPath collectionPath)
      (getWith sessionPath collectionPath service account) coll' (.ok (some secret))
  missing : (∀ path item, coll.lookup path = some item → item.attributes ≠ pair service account) →
    Returns (serves sessionPath collectionPath)
      (getWith sessionPath collectionPath service account) coll (.ok none)

structure Sole (coll : Collection) (pairs : Finset (String × String)) : Prop where
  exact : ∀ path item, coll.lookup path = some item → pairs ⊆ item.attributes →
    item.attributes = pairs
  single : ∀ path path' item item', coll.lookup path = some item → coll.lookup path' = some item' →
    item.attributes = pairs → item'.attributes = pairs → path = path'

theorem getWith_all {secret : List UInt8} (hne : coll.matching (pair service account) ≠ [])
    (hall : ∀ path item, coll.lookup path = some item → pair service account ⊆ item.attributes →
      item.secret = secret) :
    Returns (serves sessionPath collectionPath)
      (getWith sessionPath collectionPath service account) coll (.ok (some secret)) := by
  have hfirst : ∀ paths r, List.Perm paths (coll.matching (pair service account)) →
      FirstOf coll paths r → r = .ok (some secret) := by
    intro paths r hp hr
    cases paths with
    | nil => exact absurd hp.symm.eq_nil hne
    | cons path paths =>
      obtain ⟨item, hi, rfl⟩ := hr
      obtain ⟨item', hi', hsub⟩ := mem_matching.mp (hp.subset (List.mem_cons_self ..))
      rw [hi] at hi'
      cases hi'
      rw [hall path item hi hsub]
  constructor
  · obtain ⟨path, paths, hm⟩ := List.exists_cons_of_ne_nil hne
    obtain ⟨item, hi, hsub⟩ := mem_matching.mp (hm ▸ List.mem_cons_self ..)
    refine ⟨coll, getWith_returns.mpr ⟨rfl, path :: paths, hm ▸ .refl _, item, hi, ?_⟩⟩
    rw [hall path item hi hsub]
  · intro r coll' h
    obtain ⟨-, paths, hp, hr⟩ := getWith_returns.mp h
    exact hfirst paths r hp hr

theorem getWith_none (hnil : coll.matching (pair service account) = []) :
    Returns (serves sessionPath collectionPath)
      (getWith sessionPath collectionPath service account) coll (.ok none) := by
  constructor
  · exact ⟨coll, getWith_returns.mpr ⟨rfl, [], by rw [hnil], rfl⟩⟩
  · intro r coll' h
    obtain ⟨-, paths, hp, hr⟩ := getWith_returns.mp h
    rw [hnil] at hp
    rw [hp.eq_nil] at hr
    exact hr

theorem getWith_any {path : String} {item : Item} (hi : coll.lookup path = some item)
    (hsub : pair service account ⊆ item.attributes) :
    Reaches (serves sessionPath collectionPath)
      (getWith sessionPath collectionPath service account, coll)
      (.ret (.ok (some item.secret)), coll) := by
  have hmem : path ∈ coll.matching (pair service account) := mem_matching.mpr ⟨item, hi, hsub⟩
  refine getWith_returns.mpr ⟨rfl, path :: (coll.matching (pair service account)).erase path, ?_, ?_⟩
  · exact (List.perm_cons_erase hmem).symm
  · exact ⟨item, hi, rfl⟩

theorem exists_unused (coll : Collection) : ∃ path, coll.lookup path = none := by
  obtain ⟨path, hp⟩ := Infinite.exists_notMem_finset coll.keys.toFinset
  refine ⟨path, AList.lookup_eq_none.mpr ?_⟩
  rw [AList.mem_keys]
  simpa using hp

theorem exists_creates (coll : Collection) (item : Item) : ∃ path, Creates coll item path := by
  by_cases h : ∃ path old, coll.lookup path = some old ∧ old.attributes = item.attributes
  · obtain ⟨path, old, ho, ha⟩ := h
    exact ⟨path, .overwrite ho ha⟩
  · obtain ⟨path, hp⟩ := exists_unused coll
    refine ⟨path, .add hp ?_⟩
    intro p old ho ha
    exact h ⟨p, old, ho, ha⟩

theorem Sole.law (h : Sole coll (pair service account)) :
    SecretLaw sessionPath collectionPath service account coll := by
  constructor
  · intro secret coll' hset
    obtain ⟨path, hc, rfl⟩ := setWith_returns.mp hset
    apply getWith_all
    · apply List.ne_nil_of_mem (a := path)
      exact mem_matching.mpr ⟨_, AList.lookup_insert coll, Finset.Subset.refl _⟩
    · intro p item hi hsub
      by_cases hp : p = path
      · subst hp
        rw [AList.lookup_insert] at hi
        cases hi
        rfl
      · rw [AList.lookup_insert_ne hp] at hi
        have ha := h.exact p item hi hsub
        cases hc with
        | overwrite ho ha' => exact absurd (h.single p path item _ hi ho ha ha') hp
        | add _ hnone => exact absurd ha (hnone p item hi)
  · intro hnone
    apply getWith_none
    apply List.eq_nil_iff_forall_not_mem.mpr
    intro path hmem
    obtain ⟨item, hi, hsub⟩ := mem_matching.mp hmem
    exact hnone path item hi (h.exact path item hi hsub)

theorem SecretLaw.only (h : SecretLaw sessionPath collectionPath service account coll)
    {path other : String} {item : Item} (hi : coll.lookup other = some item)
    (hsub : pair service account ⊆ item.attributes)
    (hc : Creates coll ⟨pair service account, item.secret ++ [0], "text/plain"⟩ path) :
    other = path := by
  by_contra hne
  have hgot := (h.stored _ _ (setWith_returns.mpr ⟨path, hc, rfl⟩)).2 _ _
    (getWith_any ((AList.lookup_insert_ne hne).trans hi) hsub)
  simp at hgot

theorem secretLaw_iff_sole (sessionPath collectionPath service account : String) (coll : Collection) :
    SecretLaw sessionPath collectionPath service account coll ↔ Sole coll (pair service account) := by
  constructor
  · intro h
    constructor
    · intro other item hi hsub
      obtain ⟨path, hc⟩ := exists_creates coll ⟨pair service account, item.secret ++ [0], "text/plain"⟩
      cases h.only hi hsub hc
      cases hc with
      | overwrite ho ha =>
        rw [hi] at ho
        cases ho
        exact ha
      | add hp _ =>
        rw [hi] at hp
        cases hp
    · intro path path' item item' hi hi' ha ha'
      have hsub : pair service account ⊆ item.attributes := by rw [ha]
      exact h.only hi hsub (.overwrite hi' ha')
  · exact Sole.law

def foreignItem : Item where
  attributes := insert ("xdg:schema", "org.gnome.keyring.NetworkPassword") (pair "mail" "me")
  secret := [1]
  contentType := "text/plain"

theorem foreign_secret_got :
    ∃ coll : Collection,
      (∀ path item, coll.lookup path = some item → item.attributes ≠ pair "mail" "me") ∧
      Reaches (serves "/session" "/login") (getWith "/session" "/login" "mail" "me", coll)
        (.ret (.ok (some [1])), coll) := by
  refine ⟨(∅ : Collection).insert "/login/1" foreignItem, ?_, ?_⟩
  · intro path item hi
    by_cases hp : path = "/login/1"
    · subst hp
      rw [AList.lookup_insert] at hi
      cases hi
      decide
    · rw [AList.lookup_insert_ne hp] at hi
      cases hi
  · exact getWith_any (AList.lookup_insert _) (Finset.subset_insert _ _)

end SecretService

end Rustils.Security
