import Mathlib.Data.List.Dedup
import Mathlib.Data.List.GetD
import Mathlib.Data.List.Induction
import GarageConsole.Foundations.Json

/-! # Decoding documents into typed values, the `encoding/json` way

A `Decoder α` stores a JSON value over a value of type `α` already there. It answers `none` when the
document does not fit the type; the Go decoder then goes on with the remaining fields and reports
the error at the end, and what it stored meanwhile is not described here.

* `null` stores nothing in a string, number, boolean or struct, and the nil value in a pointer,
  slice or map.
* The members of an object are stored in the order of the text, so the last one wins. A struct field
  takes a member of exactly its name, or else one that equals it under `foldName`.
* `raw` keeps the syntax tree of a value for later, `null` included.
* A slice decodes its items over the ones already there; a map decodes every item afresh and keeps
  the items it already has.
-/

namespace Foundations.GoJson

open Text Json

set_option autoImplicit false

variable {α σ : Type}

abbrev Decoder (α : Type) := α → Json → Option α

def string : Decoder String
  | old, .null => some old
  | _, .str s => some s
  | _, _ => none

def bool : Decoder Bool
  | old, .null => some old
  | _, .bool b => some b
  | _, _ => none

def int64Bound : ℤ := 9223372036854775808

def int64 : Decoder ℤ
  | old, .null => some old
  | _, .num (.int n) => if -int64Bound ≤ n ∧ n < int64Bound then some n else none
  | _, .num .minusZero => some 0
  | _, _ => none

/-- A sign is refused, that of zero too. -/
def uint64 : Decoder ℕ
  | old, .null => some old
  | _, .num (.int n) => if 0 ≤ n ∧ n < 2 * int64Bound then some n.toNat else none
  | _, _ => none

def pointer (zero : α) (dec : Decoder α) : Decoder (Option α)
  | _, .null => some none
  | old, v => (dec (old.getD zero) v).map some

/-- A value kept undecoded (`json.RawMessage`); `none` when it was never set. -/
def raw : Decoder (Option Json) := fun _ v => some (some v)

def items (zero : α) (dec : Decoder α) : List α → List Json → Option (List α)
  | _, [] => some []
  | old, v :: vs => do
    let item ← dec (old.head?.getD zero) v
    let rest ← items zero dec old.tail vs
    return item :: rest

/-- Each item is decoded over what stands at its position. -/
theorem items_spec {zero : α} {dec : Decoder α} {vs : List Json} : ∀ {old new : List α},
    items zero dec old vs = some new → new.length = vs.length ∧
      ∀ i v, vs[i]? = some v → dec (old.getD i zero) v = some (new.getD i zero) := by
  induction vs with
  | nil =>
    intro old new h
    cases h
    exact ⟨rfl, nofun⟩
  | cons v vs ih =>
    intro old new h
    obtain ⟨item, hitem, hrest⟩ := Option.bind_eq_some_iff.mp h
    obtain ⟨rest, hitems, heq⟩ := Option.bind_eq_some_iff.mp hrest
    cases heq
    obtain ⟨hlength, hat⟩ := ih hitems
    refine ⟨congrArg (· + 1) hlength, ?_⟩
    intro i w hw
    cases i with
    | zero =>
      cases hw
      rw [List.getD_cons_zero, ← hitem]
      cases old <;> rfl
    | succ i =>
      have hold : old.getD (i + 1) zero = old.tail.getD i zero := by
        cases old with
        | nil => rfl
        | cons a old => exact List.getD_cons_succ
      rw [hold, List.getD_cons_succ]
      exact hat i w hw

/-- A slice; `none` is nil. -/
def slice (zero : α) (dec : Decoder α) : Decoder (Option (List α))
  | _, .null => some none
  | old, .arr vs => (items zero dec (old.getD []) vs).map some
  | _, _ => none

/-- A slice that may be decoded into more than once: its items, `none` for nil, and what longer contents before
them left in the array behind it. -/
structure GoSlice (α : Type) where
  items : Option (List α) := none
  spare : List α := []

/-- All that the array behind the slice holds. -/
def GoSlice.held (s : GoSlice α) : List α := s.items.getD [] ++ s.spare

/-- A slice that decodes its items over all that its array holds. -/
def reusedSlice (zero : α) (dec : Decoder α) : Decoder (GoSlice α)
  | _, .null => some {}
  | _, .arr [] => some { items := some [] }
  | old, .arr vs => (items zero dec old.held vs).map fun new => ⟨some new, old.held.drop vs.length⟩
  | _, _ => none

theorem GoSlice.getD_held {s : GoSlice α} {i : ℕ} (zero : α) (h : i < (s.items.getD []).length) :
    s.held.getD i zero = (s.items.getD []).getD i zero := by
  rw [held, List.getD_append _ _ _ _ h]

/-- A map with string keys: entries with different keys, in no particular order. -/
structure GoMap (α : Type) where
  entries : List (String × α)
  nodup : (entries.map Prod.fst).Nodup
  deriving DecidableEq

namespace GoMap

def empty : GoMap α := ⟨[], List.nodup_nil⟩

instance : Inhabited (GoMap α) := ⟨empty⟩

def get (m : GoMap α) (key : String) : Option α := m.entries.lookup key

def set (m : GoMap α) (key : String) (v : α) : GoMap α where
  entries := (key, v) :: m.entries.filter fun entry => entry.1 ≠ key
  nodup := by
    rw [List.map_cons, List.nodup_cons]
    refine ⟨?_, m.nodup.sublist (List.filter_sublist.map Prod.fst)⟩
    intro hmem
    obtain ⟨entry, hentry, heq⟩ := List.mem_map.mp hmem
    have := (List.mem_filter.mp hentry).2
    simp [heq] at this

theorem lookup_filter_ne {l : List (String × α)} {key other : String} (h : other ≠ key) :
    (l.filter fun entry => entry.1 ≠ key).lookup other = l.lookup other := by
  induction l with
  | nil => rfl
  | cons entry l ih =>
    obtain ⟨k, w⟩ := entry
    by_cases hk : k = key
    · subst hk
      have hbeq : (other == k) = false := by simpa using h
      rw [List.filter_cons_of_neg (by simp), ih, List.lookup_cons, hbeq]
    · rw [List.filter_cons_of_pos (by simpa using hk), List.lookup_cons, List.lookup_cons, ih]

theorem get_set (m : GoMap α) (key other : String) (v : α) :
    (m.set key v).get other = if other = key then some v else m.get other := by
  by_cases h : other = key
  · subst h
    simp [get, set]
  · have hbeq : (other == key) = false := by simpa using h
    rw [if_neg h, get, set, List.lookup_cons, hbeq]
    exact lookup_filter_ne h

theorem mem_entries_iff (m : GoMap α) {key : String} {v : α} : (key, v) ∈ m.entries ↔ m.get key = some v := by
  obtain ⟨entries, hnodup⟩ := m
  unfold get
  induction entries with
  | nil => simp
  | cons entry entries ih =>
    obtain ⟨k, w⟩ := entry
    rw [List.map_cons, List.nodup_cons] at hnodup
    have ih := ih hnodup.2
    by_cases hk : key = k
    · subst hk
      have hnot : (key, v) ∉ entries := fun hmem => hnodup.1 (List.mem_map.mpr ⟨_, hmem, rfl⟩)
      simp [hnot, eq_comm]
    · have hbeq : (key == k) = false := by simpa using hk
      simpa [List.lookup_cons, hbeq, hk] using ih

theorem mem_entries_set {m : GoMap α} {key : String} {v : α} {entry : String × α}
    (h : entry ∈ (m.set key v).entries) : entry = (key, v) ∨ entry ∈ m.entries := by
  rcases List.mem_cons.mp h with h | h
  · exact .inl h
  · exact .inr (List.mem_of_mem_filter h)

def filter (p : String × α → Bool) (m : GoMap α) : GoMap α where
  entries := m.entries.filter p
  nodup := m.nodup.sublist (List.filter_sublist.map Prod.fst)

def mapValues {β : Type} (f : α → β) (m : GoMap α) : GoMap β where
  entries := m.entries.map fun entry => (entry.1, f entry.2)
  nodup := by
    rw [List.map_map]
    exact m.nodup

def keys (m : GoMap α) : List String := m.entries.map Prod.fst

theorem mem_keys_iff (m : GoMap α) {key : String} : key ∈ m.keys ↔ ∃ v, m.get key = some v := by
  rw [keys, List.mem_map]
  constructor
  · rintro ⟨⟨k, v⟩, hmem, rfl⟩
    exact ⟨v, m.mem_entries_iff.mp hmem⟩
  · rintro ⟨v, hget⟩
    exact ⟨(key, v), m.mem_entries_iff.mpr hget, rfl⟩

theorem get_filter (m : GoMap α) (p : String × α → Bool) (key : String) (v : α) :
    (m.filter p).get key = some v ↔ m.get key = some v ∧ p (key, v) = true := by
  rw [← mem_entries_iff, ← mem_entries_iff, filter, List.mem_filter]

/-- The entries of `n` put into `m` one after the other. -/
def merge (m n : GoMap α) : GoMap α where
  entries := n.entries ++ m.entries.filter fun entry => entry.1 ∉ n.keys
  nodup := by
    rw [List.map_append, List.nodup_append]
    refine ⟨n.nodup, m.nodup.sublist (List.filter_sublist.map Prod.fst), ?_⟩
    rintro key hkey _ hmem rfl
    obtain ⟨entry, hentry, rfl⟩ := List.mem_map.mp hmem
    have hnot := (List.mem_filter.mp hentry).2
    simp only [decide_eq_true_eq] at hnot
    exact hnot hkey

theorem get_merge (m n : GoMap α) (key : String) (v : α) :
    (m.merge n).get key = some v ↔ n.get key = some v ∨ (key ∉ n.keys ∧ m.get key = some v) := by
  rw [← mem_entries_iff, ← mem_entries_iff, ← mem_entries_iff, merge, List.mem_append, List.mem_filter]
  simp [and_comm]

theorem mem_keys_merge {m n : GoMap α} {key : String} : key ∈ (m.merge n).keys ↔ key ∈ n.keys ∨ key ∈ m.keys := by
  simp only [mem_keys_iff, get_merge]
  constructor
  · rintro ⟨v, h | ⟨-, h⟩⟩
    · exact .inl ⟨v, h⟩
    · exact .inr ⟨v, h⟩
  · rintro (⟨v, h⟩ | ⟨v, h⟩)
    · exact ⟨v, .inl h⟩
    · by_cases hn : ∃ w, n.get key = some w
      · obtain ⟨w, hw⟩ := hn
        exact ⟨w, .inl hw⟩
      · exact ⟨v, .inr ⟨hn, h⟩⟩

/-- The map with the given keys. -/
def ofKeys (f : String → α) (ks : List String) : GoMap α where
  entries := ks.dedup.map fun key => (key, f key)
  nodup := by
    rw [List.map_map]
    exact (List.nodup_dedup ks).map fun _ _ h => h

theorem mem_ofKeys {f : String → α} {ks : List String} {key : String} {v : α} :
    (key, v) ∈ (ofKeys f ks).entries ↔ key ∈ ks ∧ v = f key := by
  simp only [ofKeys, List.mem_map, List.mem_dedup, Prod.mk.injEq]
  constructor
  · rintro ⟨key, hmem, rfl, rfl⟩
    exact ⟨hmem, rfl⟩
  · rintro ⟨hmem, rfl⟩
    exact ⟨key, hmem, rfl, rfl⟩

theorem lookup_map_values {β : Type} (f : α → β) (l : List (String × α)) (key : String) :
    (l.map fun entry => (entry.1, f entry.2)).lookup key = (l.lookup key).map f := by
  induction l with
  | nil => rfl
  | cons entry l ih =>
    obtain ⟨k, w⟩ := entry
    rw [List.map_cons, List.lookup_cons, List.lookup_cons]
    cases key == k with
    | true => rfl
    | false => exact ih

theorem keys_mapValues {β : Type} (f : α → β) (m : GoMap α) : (m.mapValues f).keys = m.keys := by
  rw [keys, mapValues, List.map_map]
  rfl

theorem get_mapValues {β : Type} (f : α → β) (m : GoMap α) (key : String) :
    (m.mapValues f).get key = (m.get key).map f :=
  lookup_map_values f m.entries key

end GoMap

/-- A map; the nil map is empty. -/
def map (zero : α) (dec : Decoder α) : Decoder (GoMap α)
  | _, .null => some .empty
  | old, .obj members => members.foldlM (fun m entry => (dec zero entry.2).map (m.set entry.1)) old
  | _, _ => none

/-! ## Values of any type -/

/-- Half a unit in the last place above the largest double: what is at least this is rounded to infinity. -/
def doubleLimit : ℕ := Nat.pow 2 1024 - Nat.pow 2 970

def fitsDouble : Number → Bool
  | .int n => n.natAbs < doubleLimit
  | .minusZero => true
  | .dec mantissa exponent =>
    if 0 ≤ exponent then mantissa.natAbs * Nat.pow 10 exponent.toNat < doubleLimit
    else mantissa.natAbs < doubleLimit * Nat.pow 10 (-exponent).toNat

mutual

/-- Whether a value decodes into `any`: every number in it is a double. -/
def fitsAny : Json → Bool
  | .num n => fitsDouble n
  | .arr items => fitsAnyItems items
  | .obj members => fitsAnyMembers members
  | _ => true

def fitsAnyItems : List Json → Bool
  | [] => true
  | v :: rest => fitsAny v && fitsAnyItems rest

def fitsAnyMembers : List (String × Json) → Bool
  | [] => true
  | (_, v) :: rest => fitsAny v && fitsAnyMembers rest

end

/-- A value of type `any`, kept as it is written. -/
def anyValue : Decoder Json := fun _ v => if fitsAny v then some v else none

/-- The simple case folding that field names are compared under. The only characters outside ASCII
that fold to an ASCII letter are U+017F and U+212A; folding among the others is left out, since no
field name has one. -/
def foldRune (c : Char) : Char :=
  if 'a' ≤ c ∧ c ≤ 'z' then Char.ofNat (c.toNat - 32)
  else if c = '\u017F' then 'S'
  else if c = '\u212A' then 'K'
  else c

def foldName (name : String) : List Char := name.toList.map foldRune

abbrev Field (σ : Type) := String × Decoder σ

/-- The field a member of this name goes to: the one of exactly that name, or the first one of the
same folded name. -/
def fieldOf (fields : List (Field σ)) (name : String) : Option (Decoder σ) :=
  ((fields.find? fun f => f.1 = name).or (fields.find? fun f => foldName f.1 = foldName name)).map Prod.snd

def storeMember (fields : List (Field σ)) (s : σ) (member : String × Json) : Option σ :=
  match fieldOf fields member.1 with
  | some dec => dec s member.2
  | none => some s

def struct (fields : List (Field σ)) : Decoder σ
  | old, .null => some old
  | old, .obj members => members.foldlM (storeMember fields) old
  | _, _ => none

/-- A struct whose decoder disallows unknown fields. -/
def strictStruct (fields : List (Field σ)) : Decoder σ
  | old, .null => some old
  | old, .obj members => members.foldlM (fun s m => (fieldOf fields m.1).bind fun dec => dec s m.2) old
  | _, _ => none

@[simp] theorem struct_null (fields : List (Field σ)) (old : σ) : struct fields old .null = some old := rfl

@[simp] theorem struct_obj (fields : List (Field σ)) (old : σ) (members : List (String × Json)) :
    struct fields old (.obj members) = members.foldlM (storeMember fields) old := rfl

def maxNestingDepth : ℕ := 10000

/-- `json.Unmarshal`: the text holds one value and nothing else, and the value fits. -/
def unmarshal (dec : Decoder α) (zero : α) (text : Bytes) : Option α := do
  let v ← parse text
  if v.depth ≤ maxNestingDepth then dec zero v else none

/-- `Decoder.Decode`: the first value of the text fits; what follows it is not read. -/
def decodeFirst (dec : Decoder α) (zero : α) (text : Bytes) : Option α := do
  let (v, _) ← parsePrefix text
  if v.depth ≤ maxNestingDepth then dec zero v else none

theorem fieldOf_eq_none {fields : List (Field σ)} {name : String}
    (h : (fields.all fun f => foldName f.1 ≠ foldName name) = true) : fieldOf fields name = none := by
  have hfold : ∀ f ∈ fields, foldName f.1 ≠ foldName name := by simpa using h
  have hexact : fields.find? (fun f => f.1 = name) = none := by
    rw [List.find?_eq_none]
    intro f hf heq
    exact hfold f hf (by rw [of_decide_eq_true heq])
  have hloose : fields.find? (fun f => foldName f.1 = foldName name) = none := by
    rw [List.find?_eq_none]
    intro f hf heq
    exact hfold f hf (of_decide_eq_true heq)
  simp [fieldOf, hexact, hloose]

/-! ## Structs with one field -/

theorem fieldOf_singleton (name key : String) (dec : Decoder σ) :
    fieldOf [(name, dec)] key = if foldName name = foldName key then some dec else none := by
  by_cases h : name = key
  · subst h
    simp [fieldOf]
  · by_cases hf : foldName name = foldName key <;> simp [fieldOf, h, hf]

theorem storeMember_singleton (name : String) (dec : Decoder σ) (s : σ) (member : String × Json) :
    storeMember [(name, dec)] s member =
      if foldName name = foldName member.1 then dec s member.2 else some s := by
  unfold storeMember
  rw [fieldOf_singleton]
  by_cases h : foldName name = foldName member.1 <;> simp [h]

/-- The value under the last member whose name folds to `name`. -/
def lastMember (name : String) (members : List (String × Json)) : Option Json :=
  (members.reverse.find? fun m => foldName name = foldName m.1).map Prod.snd

theorem lastMember_append (name : String) (members : List (String × Json)) (m : String × Json) :
    lastMember name (members ++ [m]) =
      if foldName name = foldName m.1 then some m.2 else lastMember name members := by
  unfold lastMember
  by_cases h : foldName name = foldName m.1 <;> simp [h]

theorem struct_raw_singleton (name : String) (old : Option Json) (members : List (String × Json)) :
    struct [(name, raw)] old (.obj members) = some ((lastMember name members).or old) := by
  rw [struct_obj]
  induction members using List.reverseRecOn with
  | nil => rfl
  | append_singleton members m ih =>
    rw [List.foldlM_append, ih, lastMember_append]
    by_cases h : foldName name = foldName m.1 <;> simp [storeMember_singleton, h, raw]

end Foundations.GoJson
