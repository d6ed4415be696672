import GarageConsole.Garage.Client

/-! # The rows of the lists

What the console decodes of Garage's answers about buckets and keys, and the rows of GET /api/buckets and
GET /api/keys. A slice is `none` when it is nil: a row shows the empty list instead, except for the keys of a bucket
that Garage could not be asked about.
-/

namespace GarageConsole.Lists

open Foundations Foundations.GoJson GarageConsole.Garage

set_option autoImplicit false

/-! ## What Garage answers -/

structure BucketLocalAlias where
  accessKeyID : String := ""
  localAlias : String := ""
  deriving DecidableEq

structure BucketQuotas where
  maxSize : Option ℕ := none
  maxObjects : Option ℕ := none
  deriving DecidableEq

structure KeyPermissions where
  read : Bool := false
  write : Bool := false
  owner : Bool := false
  deriving DecidableEq

/-- A key in a bucket's info. -/
structure BucketInfoKey where
  accessKeyID : String := ""
  bucketLocalAliases : Option (List String) := none
  permissions : KeyPermissions := {}
  deriving DecidableEq

structure GarageBucketInfo where
  id : String := ""
  created : Option String := none
  globalAliases : Option (List String) := none
  keys : Option (List BucketInfoKey) := none
  objects : ℤ := 0
  bytes : ℤ := 0
  unfinishedMultipartUploads : ℤ := 0
  quotas : BucketQuotas := {}
  deriving DecidableEq

structure GarageBucketListItem where
  id : String := ""
  created : Option String := none
  globalAliases : Option (List String) := none
  localAliases : Option (List BucketLocalAlias) := none
  deriving DecidableEq

structure GarageKeyInfo where
  accessKeyID : String := ""
  name : String := ""
  created : Option String := none
  expiration : Option String := none
  expired : Bool := false
  buckets : Option (List (Option Json)) := none
  deriving DecidableEq

structure GarageKeyListItem where
  id : String := ""
  name : String := ""
  created : Option String := none
  expiration : Option String := none
  expired : Bool := false
  deriving DecidableEq

def bucketLocalAlias : Decoder BucketLocalAlias := struct
  [("accessKeyId", fun a v => (string a.accessKeyID v).map ({ a with accessKeyID := · })),
   ("alias", fun a v => (string a.localAlias v).map ({ a with localAlias := · }))]

def bucketQuotas : Decoder BucketQuotas := struct
  [("maxSize", fun q v => (pointer 0 uint64 q.maxSize v).map ({ q with maxSize := · })),
   ("maxObjects", fun q v => (pointer 0 uint64 q.maxObjects v).map ({ q with maxObjects := · }))]

def keyPermissions : Decoder KeyPermissions := struct
  [("read", fun p v => (bool p.read v).map ({ p with read := · })),
   ("write", fun p v => (bool p.write v).map ({ p with write := · })),
   ("owner", fun p v => (bool p.owner v).map ({ p with owner := · }))]

def bucketInfoKey : Decoder BucketInfoKey := struct
  [("accessKeyId", fun k v => (string k.accessKeyID v).map ({ k with accessKeyID := · })),
   ("bucketLocalAliases", fun k v =>
      (slice "" string k.bucketLocalAliases v).map ({ k with bucketLocalAliases := · })),
   ("permissions", fun k v => (keyPermissions k.permissions v).map ({ k with permissions := · }))]

def garageBucketInfo : Decoder GarageBucketInfo := struct
  [("id", fun b v => (string b.id v).map ({ b with id := · })),
   ("created", fun b v => (pointer "" string b.created v).map ({ b with created := · })),
   ("globalAliases", fun b v => (slice "" string b.globalAliases v).map ({ b with globalAliases := · })),
   ("keys", fun b v => (slice {} bucketInfoKey b.keys v).map ({ b with keys := · })),
   ("objects", fun b v => (int64 b.objects v).map ({ b with objects := · })),
   ("bytes", fun b v => (int64 b.bytes v).map ({ b with bytes := · })),
   ("unfinishedMultipartUploads", fun b v =>
      (int64 b.unfinishedMultipartUploads v).map ({ b with unfinishedMultipartUploads := · })),
   ("quotas", fun b v => (bucketQuotas b.quotas v).map ({ b with quotas := · }))]

def garageBucketListItem : Decoder GarageBucketListItem := struct
  [("id", fun b v => (string b.id v).map ({ b with id := · })),
   ("created", fun b v => (pointer "" string b.created v).map ({ b with created := · })),
   ("globalAliases", fun b v => (slice "" string b.globalAliases v).map ({ b with globalAliases := · })),
   ("localAliases", fun b v => (slice {} bucketLocalAlias b.localAliases v).map ({ b with localAliases := · }))]

def garageKeyInfo : Decoder GarageKeyInfo := struct
  [("accessKeyId", fun k v => (string k.accessKeyID v).map ({ k with accessKeyID := · })),
   ("name", fun k v => (string k.name v).map ({ k with name := · })),
   ("created", fun k v => (pointer "" string k.created v).map ({ k with created := · })),
   ("expiration", fun k v => (pointer "" string k.expiration v).map ({ k with expiration := · })),
   ("expired", fun k v => (bool k.expired v).map ({ k with expired := · })),
   ("buckets", fun k v => (slice none raw k.buckets v).map ({ k with buckets := · }))]

def garageKeyListItem : Decoder GarageKeyListItem := struct
  [("id", fun k v => (string k.id v).map ({ k with id := · })),
   ("name", fun k v => (string k.name v).map ({ k with name := · })),
   ("created", fun k v => (pointer "" string k.created v).map ({ k with created := · })),
   ("expiration", fun k v => (pointer "" string k.expiration v).map ({ k with expiration := · })),
   ("expired", fun k v => (bool k.expired v).map ({ k with expired := · }))]

/-! ## The rows -/

structure BucketListKey where
  accessKeyID : String
  read : Bool
  write : Bool
  owner : Bool
  deriving DecidableEq

structure BucketListItem where
  id : String
  globalAliases : Option (List String) := none
  localAliases : Option (List BucketLocalAlias) := none
  created : Option String := none
  objects : Option ℤ := none
  bytes : Option ℤ := none
  unfinishedMultipartUploads : Option ℤ := none
  keyCount : Option ℕ := none
  keys : Option (List BucketListKey) := none
  quotas : Option BucketQuotas := none
  deriving DecidableEq

structure KeyListItem where
  id : String
  name : String
  created : Option String
  expiration : Option String
  expired : Bool
  bucketCount : Option ℕ := none
  deriving DecidableEq

/-- The row with the stats of Garage's info, if there is one. -/
def BucketListItem.withInfo (item : BucketListItem) (info : Option GarageBucketInfo) : BucketListItem :=
  let item := { item with
    globalAliases := some (item.globalAliases.getD [])
    localAliases := some (item.localAliases.getD []) }
  match info with
  | none => item
  | some info => { item with
      objects := some info.objects
      bytes := some info.bytes
      unfinishedMultipartUploads := some info.unfinishedMultipartUploads
      keyCount := some (info.keys.getD []).length
      keys := some ((info.keys.getD []).map fun k =>
        ⟨k.accessKeyID, k.permissions.read, k.permissions.write, k.permissions.owner⟩)
      quotas := some info.quotas
      created := item.created.or info.created }

/-- A slice with one more item. -/
def appendTo {α : Type} (s : Option (List α)) (a : α) : Option (List α) := some (s.getD [] ++ [a])

/-- The loop over the aliases that hang off each key. -/
def flattenAliases (keys : List BucketInfoKey) : Option (List BucketLocalAlias) :=
  keys.foldl (fun out k =>
    (k.bucketLocalAliases.getD []).foldl (fun out a => appendTo out ⟨k.accessKeyID, a⟩) out) none

/-- A row from a ListBucketsInfo entry. -/
def bucketItemFromInfo (info : GarageBucketInfo) : BucketListItem :=
  BucketListItem.withInfo { id := info.id, globalAliases := info.globalAliases,
                            localAliases := flattenAliases (info.keys.getD []) } (some info)

/-- A row from a ListBuckets entry and what was looked up for it. -/
def bucketItemFromList (b : GarageBucketListItem) (info : Option GarageBucketInfo) : BucketListItem :=
  BucketListItem.withInfo { id := b.id, globalAliases := b.globalAliases, localAliases := b.localAliases,
                            created := b.created } info

def keyItemFromInfo (k : GarageKeyInfo) : KeyListItem :=
  { id := k.accessKeyID, name := k.name, created := k.created, expiration := k.expiration, expired := k.expired,
    bucketCount := some (k.buckets.getD []).length }

def keyItemFromList (k : GarageKeyListItem) (info : Option GarageKeyInfo) : KeyListItem :=
  { id := k.id, name := k.name, created := k.created, expiration := k.expiration, expired := k.expired,
    bucketCount := info.map fun d => (d.buckets.getD []).length }

/-! ## The documents -/

def orNull {α : Type} (f : α → Json) : Option α → Json
  | none => .null
  | some a => f a

def arrayOf {α : Type} (f : α → Json) (l : List α) : Json := .arr (l.map f)

def natJson (n : ℕ) : Json := .num (.int n)

def BucketLocalAlias.toJson (a : BucketLocalAlias) : Json :=
  .obj [("accessKeyId", .str a.accessKeyID), ("alias", .str a.localAlias)]

def BucketQuotas.toJson (q : BucketQuotas) : Json :=
  .obj [("maxSize", orNull natJson q.maxSize), ("maxObjects", orNull natJson q.maxObjects)]

def BucketListKey.toJson (k : BucketListKey) : Json :=
  .obj [("accessKeyId", .str k.accessKeyID), ("read", .bool k.read), ("write", .bool k.write), ("owner", .bool k.owner)]

def BucketListItem.toJson (b : BucketListItem) : Json :=
  .obj [("id", .str b.id),
    ("globalAliases", orNull (arrayOf .str) b.globalAliases),
    ("localAliases", orNull (arrayOf BucketLocalAlias.toJson) b.localAliases),
    ("created", orNull .str b.created),
    ("objects", orNull (fun n => .num (.int n)) b.objects),
    ("bytes", orNull (fun n => .num (.int n)) b.bytes),
    ("unfinishedMultipartUploads", orNull (fun n => .num (.int n)) b.unfinishedMultipartUploads),
    ("keyCount", orNull natJson b.keyCount),
    ("keys", orNull (arrayOf BucketListKey.toJson) b.keys),
    ("quotas", orNull BucketQuotas.toJson b.quotas)]

def KeyListItem.toJson (k : KeyListItem) : Json :=
  .obj [("id", .str k.id), ("name", .str k.name), ("created", orNull .str k.created),
    ("expiration", orNull .str k.expiration), ("expired", .bool k.expired),
    ("bucketCount", orNull natJson k.bucketCount)]

def writeListJSON {Row : Type} (toJson : Row → Json) (items : List Row) (truncated : Bool) : Response :=
  ⟨200, .json (.obj [("items", arrayOf toJson items), ("truncated", .bool truncated)])⟩

def writeListError : GarageError → Response
  | .status _ status contentType body =>
    ⟨status, .forwarded (if contentType = "" then "application/json" else contentType) (some body)⟩
  | _ => ⟨502, .text "Bad Gateway"⟩

/-! ## Entries of the short lists -/

def GarageBucketInfo.localAliases (b : GarageBucketInfo) : List BucketLocalAlias :=
  (b.keys.getD []).flatMap fun k => (k.bucketLocalAliases.getD []).map (⟨k.accessKeyID, ·⟩)

/-- The entry shows this bucket: the aliases that are local to its keys stand in the order of the keys. A list
without elements may be nil on one side only. -/
structure GarageBucketListItem.Projects (item : GarageBucketListItem) (b : GarageBucketInfo) : Prop where
  id : item.id = b.id
  created : item.created = b.created
  globalAliases : item.globalAliases.getD [] = b.globalAliases.getD []
  localAliases : item.localAliases.getD [] = b.localAliases

structure GarageKeyListItem.Projects (item : GarageKeyListItem) (k : GarageKeyInfo) : Prop where
  id : item.id = k.accessKeyID
  name : item.name = k.name
  created : item.created = k.created
  expiration : item.expiration = k.expiration
  expired : item.expired = k.expired

theorem foldl_appendTo {α β : Type} (f : β → α) (l : List β) : ∀ out : Option (List α),
    (l.foldl (fun out b => appendTo out (f b)) out).getD [] = out.getD [] ++ l.map f := by
  induction l with
  | nil => simp
  | cons b l ih =>
    intro out
    rw [List.foldl_cons, ih, List.map_cons]
    simp [appendTo]

theorem foldl_aliases (keys : List BucketInfoKey) : ∀ out : Option (List BucketLocalAlias),
    (keys.foldl (fun out k =>
      (k.bucketLocalAliases.getD []).foldl (fun out a => appendTo out ⟨k.accessKeyID, a⟩) out) out).getD [] =
      out.getD [] ++ keys.flatMap fun k => (k.bucketLocalAliases.getD []).map (⟨k.accessKeyID, ·⟩) := by
  induction keys with
  | nil => simp
  | cons k keys ih =>
    intro out
    rw [List.foldl_cons, ih, foldl_appendTo, List.flatMap_cons, List.append_assoc]

theorem flattenAliases_getD (b : GarageBucketInfo) : (flattenAliases (b.keys.getD [])).getD [] = b.localAliases :=
  foldl_aliases _ none

/-- A bucket has one row, whichever endpoint it is listed by. -/
theorem GarageBucketListItem.Projects.row_eq {item : GarageBucketListItem} {b : GarageBucketInfo}
    (h : item.Projects b) : bucketItemFromList item (some b) = bucketItemFromInfo b := by
  simp only [bucketItemFromList, bucketItemFromInfo, BucketListItem.withInfo, flattenAliases_getD]
  rw [h.id, h.created, h.globalAliases, h.localAliases]
  cases b.created <;> rfl

theorem GarageKeyListItem.Projects.row_eq {item : GarageKeyListItem} {k : GarageKeyInfo} (h : item.Projects k) :
    keyItemFromList item (some k) = keyItemFromInfo k := by
  simp only [keyItemFromList, keyItemFromInfo]
  rw [h.id, h.name, h.created, h.expiration, h.expired]
  rfl

end GarageConsole.Lists
