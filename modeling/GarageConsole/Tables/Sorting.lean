import Mathlib.Data.String.Basic
import GarageConsole.Dashboard.Attention
import GarageConsole.Foundations.Comparators
import GarageConsole.Scopes.AdminScopes

/-! # Sorted tables

The tables of buckets, keys and admin tokens are sorted by a column in either direction. A column has numbers or texts;
a row without a value stays at the end in both directions (`sorted_by_column`). So a bucket without an alias comes after
all others, whatever the comment at its column says.
-/

namespace GarageConsole.Tables

open Foundations Foundations.StableSort
open Dashboard (bucketDisplayName)

set_option autoImplicit false

inductive SortDirection where
  | asc
  | desc
  deriving DecidableEq

structure SortState (K : Type) where
  key : K
  direction : SortDirection

inductive SortValue where
  | missing
  | number (n : ℤ)
  | text (s : String)

/-- `null`, `undefined` and `''`. -/
def SortValue.isMissing : SortValue → Bool
  | .missing => true
  | .number _ => false
  | .text s => s = ""

def SortValue.string : SortValue → String
  | .missing => "null"
  | .number n => toString n
  | .text s => s

section Sorting

variable (collate : Comparator String)

/-- How values compare that are there; `collate` is the collator's comparison of texts. -/
def compareValues : SortValue → SortValue → ℤ
  | .number m, .number n => m - n
  | a, b => collate a.string b.string

def compareSortValues (a b : SortValue) (direction : SortDirection) : ℤ :=
  if a.isMissing || b.isMissing then if a.isMissing = b.isMissing then 0 else if a.isMissing then 1 else -1
  else match direction with
    | .asc => compareValues collate a b
    | .desc => -compareValues collate a b

def sortRows {R K : Type} (rows : List R) (sort : SortState K) (value : R → K → SortValue) : List R :=
  Comparator.sort (fun a b => compareSortValues collate (value a sort.key) (value b sort.key) sort.direction) rows

end Sorting

/-! ## The columns of the pages -/

section Columns

variable (parse : String → Option ℤ)

/-- The time of a date; `parse` stands for `Date.parse`. -/
def timeValue : Option String → SortValue
  | none => .missing
  | some iso => if iso = "" then .missing else (parse iso).elim .missing .number

def countValue (n : Option ℤ) : SortValue := n.elim .missing .number

structure BucketRow where
  id : String
  globalAliases : List String
  /-- The aliases of the local ones. -/
  localAliases : List String
  created : Option String
  objects : Option ℤ
  bytes : Option ℤ
  keyCount : Option ℤ

inductive BucketSortKey where
  | aliasName
  | id
  | objects
  | bytes
  | keyCount
  | created

def bucketSortValue (b : BucketRow) : BucketSortKey → SortValue
  | .aliasName =>
    let name := bucketDisplayName b.id b.globalAliases b.localAliases
    .text (if name.source = .id then "" else name.name)
  | .id => .text b.id
  | .objects => countValue b.objects
  | .bytes => countValue b.bytes
  | .keyCount => countValue b.keyCount
  | .created => timeValue parse b.created

structure KeyRow where
  id : String
  name : String
  created : Option String
  expiration : Option String
  bucketCount : Option ℤ

inductive KeySortKey where
  | name
  | id
  | bucketCount
  | created
  | expiration

def keySortValue (k : KeyRow) : KeySortKey → SortValue
  | .name => .text k.name
  | .id => .text k.id
  | .bucketCount => countValue k.bucketCount
  | .created => timeValue parse k.created
  | .expiration => timeValue parse k.expiration

structure TokenRow where
  name : String
  scope : List Utf16.Units
  created : Option String
  expiration : Option String

inductive TokenSortKey where
  | name
  | scope
  | created
  | expiration

/-- `*` ranks above every list; the other number is the largest safe integer. -/
def scopeScore (scope : List Utf16.Units) : ℤ :=
  if Scopes.isFullScope scope then 9007199254740991 else scope.length

def tokenSortValue (t : TokenRow) : TokenSortKey → SortValue
  | .name => .text t.name
  | .scope => .number (scopeScore t.scope)
  | .created => timeValue parse t.created
  | .expiration => timeValue parse t.expiration

end Columns

/-! ## Columns -/

/-- The values of a column that are there are numbers, or they are texts. -/
inductive Column {R : Type} (value : R → SortValue) : Prop where
  | numbers : (∀ r, (value r).isMissing = false → ∃ n, value r = .number n) → Column value
  | texts : (∀ r, (value r).isMissing = false → ∃ s, value r = .text s) → Column value

section Columns

variable {R : Type}

theorem column_number {f : R → Option ℤ} : Column fun r => countValue (f r) := by
  refine .numbers fun r hr => ?_
  cases hf : f r with
  | none =>
    rw [hf] at hr
    cases hr
  | some n => exact ⟨n, rfl⟩

theorem column_text {f : R → String} : Column fun r => .text (f r) := .texts fun r _ => ⟨f r, rfl⟩

theorem column_time {parse : String → Option ℤ} {f : R → Option String} : Column fun r => timeValue parse (f r) := by
  refine .numbers fun r hr => ?_
  cases hf : f r with
  | none =>
    rw [hf] at hr
    cases hr
  | some iso =>
    rw [hf, timeValue] at hr
    rw [timeValue]
    split_ifs at hr ⊢ with hempty
    · cases hr
    · cases hparse : parse iso with
      | none =>
        rw [hparse] at hr
        cases hr
      | some n => exact ⟨n, rfl⟩

/-- Every column of the three tables is one. -/
theorem pages_columns (parse : String → Option ℤ) :
    (∀ key, Column fun b => bucketSortValue parse b key) ∧ (∀ key, Column fun k => keySortValue parse k key) ∧
      ∀ key, Column fun t => tokenSortValue parse t key := by
  refine ⟨fun key => ?_, fun key => ?_, fun key => ?_⟩
  · cases key with
    | aliasName => exact column_text
    | id => exact column_text
    | objects => exact column_number
    | bytes => exact column_number
    | keyCount => exact column_number
    | created => exact column_time
  · cases key with
    | name => exact column_text
    | id => exact column_text
    | bucketCount => exact column_number
    | created => exact column_time
    | expiration => exact column_time
  · cases key with
    | name => exact column_text
    | scope => exact .numbers fun t _ => ⟨_, rfl⟩
    | created => exact column_time
    | expiration => exact column_time

end Columns

/-! ## Sorting by a column -/

section Sorted

variable {R : Type} {collate : Comparator String} {value : R → SortValue}

/-- The values of a column compare like keys of one kind. -/
theorem Column.exists_key (h : Column value) (hcollate : collate.Consistent) :
    ∃ k : Comparator R, k.Consistent ∧ ∀ a b, (value a).isMissing = false → (value b).isMissing = false →
      compareValues collate (value a) (value b) = k a b := by
  cases h with
  | numbers hnumbers =>
    refine ⟨Comparator.byNumber.on fun r => match value r with | .number n => n | _ => 0,
      Comparator.consistent_byNumber.on _, fun a b ha hb => ?_⟩
    obtain ⟨m, hm⟩ := hnumbers a ha
    obtain ⟨n, hn⟩ := hnumbers b hb
    simp only [Comparator.on, hm, hn]
    rfl
  | texts htexts =>
    refine ⟨collate.on fun r => (value r).string, hcollate.on _, fun a b ha hb => ?_⟩
    obtain ⟨s, hs⟩ := htexts a ha
    obtain ⟨t, ht⟩ := htexts b hb
    simp only [Comparator.on, hs, ht]
    rfl

/-- The order of a direction. -/
def directed (direction : SortDirection) (c : Comparator R) : Comparator R :=
  match direction with
  | .asc => c
  | .desc => c.backwards

theorem consistent_directed {c : Comparator R} (h : c.Consistent) (direction : SortDirection) :
    (directed direction c).Consistent := by
  cases direction with
  | asc => exact h
  | desc => exact h.backwards

theorem directed_eq_zero {c : Comparator R} {direction : SortDirection} {a b : R} :
    directed direction c a b = 0 ↔ c a b = 0 := by
  cases direction with
  | asc => exact Iff.rfl
  | desc => exact neg_eq_zero

theorem compareSortValues_eq {direction : SortDirection} : (fun a b => compareSortValues collate (value a) (value b)
    direction) = Comparator.last (fun r => (value r).isMissing)
      (directed direction fun a b => compareValues collate (value a) (value b)) := by
  funext a b
  cases direction <;> rfl

/-- Whether two values stand in the order of a direction; `c` is how they compare. -/
def InOrder (direction : SortDirection) (c : ℤ) : Prop :=
  match direction with
  | .asc => c ≤ 0
  | .desc => 0 ≤ c

theorem inOrder_of_directed {c : Comparator R} {direction : SortDirection} {a b : R}
    (h : directed direction c a b ≤ 0) : InOrder direction (c a b) := by
  cases direction with
  | asc => exact h
  | desc => exact neg_nonpos.mp h

/-- `out` has the rows with a value first, in the order of the direction, where rows that compare alike stay as they
were; then, whatever the direction, the rows without one as they were. -/
structure SortedByColumn (collate : Comparator String) (value : R → SortValue) (direction : SortDirection)
    (rows out : List R) : Prop where
  perm : out.Perm rows
  missingLast : out = (out.filter fun r => !(value r).isMissing) ++ rows.filter fun r => (value r).isMissing
  ordered : (out.filter fun r => !(value r).isMissing).Pairwise fun a b =>
    InOrder direction (compareValues collate (value a) (value b))
  stable : ∀ r, (value r).isMissing = false →
    (out.filter fun a => !(value a).isMissing && compareValues collate (value r) (value a) = 0) =
      rows.filter fun a => !(value a).isMissing && compareValues collate (value r) (value a) = 0

theorem Column.sorted {K : Type} {value : R → K → SortValue} {sort : SortState K}
    (hcolumn : Column fun r => value r sort.key) (hcollate : collate.Consistent) (rows : List R) :
    SortedByColumn collate (fun r => value r sort.key) sort.direction rows (sortRows collate rows sort value) := by
  obtain ⟨k, hk, hagree⟩ := hcolumn.exists_key hcollate
  have hdirected (a b : R) (ha : (value a sort.key).isMissing = false) (hb : (value b sort.key).isMissing = false) :
      directed sort.direction (fun a b => compareValues collate (value a sort.key) (value b sort.key)) a b =
        directed sort.direction k a b := by
    cases sort.direction with
    | asc => exact hagree a b ha hb
    | desc => exact congrArg Neg.neg (hagree a b ha hb)
  have hconsistent := consistent_directed hk sort.direction
  have hrows : sortRows collate rows sort value =
      (directed sort.direction k).sort (rows.filter fun r => !(value r sort.key).isMissing) ++
        rows.filter fun r => (value r sort.key).isMissing := by
    rw [sortRows, compareSortValues_eq, Comparator.last_congr hdirected, Comparator.sort_last hconsistent]
  have hsome : ∀ r ∈ (directed sort.direction k).sort (rows.filter fun r => !(value r sort.key).isMissing),
      (value r sort.key).isMissing = false := fun r hr => by
    simpa using (List.mem_filter.mp (Comparator.mem_sort.mp hr)).2
  -- the rows that the table has in front
  have hfront : (sortRows collate rows sort value).filter (fun r => !(value r sort.key).isMissing) =
      (directed sort.direction k).sort (rows.filter fun r => !(value r sort.key).isMissing) := by
    have hnone : (rows.filter fun r => (value r sort.key).isMissing).filter (fun r => !(value r sort.key).isMissing) =
        [] := List.filter_eq_nil_iff.mpr fun r hr => by simp [(List.mem_filter.mp hr).2]
    rw [hrows, List.filter_append, hnone, List.append_nil]
    exact List.filter_eq_self.mpr fun r hr => by rw [hsome r hr]; rfl
  constructor
  · exact Comparator.sort_perm _ rows
  · rw [hfront]
    exact hrows
  · rw [hfront]
    refine (hconsistent.pairwise_sort _).imp_of_mem fun {a b} ha hb hab => ?_
    rw [hagree a b (hsome a ha) (hsome b hb)]
    exact inOrder_of_directed hab
  · intro r hr
    have hsame {a : R} (ha : (value a sort.key).isMissing = false) :
        decide (compareValues collate (value r sort.key) (value a sort.key) = 0) =
          decide (directed sort.direction k r a = 0) := by
      rw [Bool.eq_iff_iff, decide_eq_true_iff, decide_eq_true_iff, hagree r a hr ha, directed_eq_zero]
    have hboth (l : List R) : (l.filter fun a => !(value a sort.key).isMissing &&
        compareValues collate (value r sort.key) (value a sort.key) = 0) =
        (l.filter fun a => !(value a sort.key).isMissing).filter fun a => directed sort.direction k r a = 0 := by
      rw [List.filter_filter]
      refine List.filter_congr fun a _ => ?_
      cases ha : (value a sort.key).isMissing with
      | true => simp
      | false => rw [hsame ha, Bool.and_comm]
    rw [hboth, hboth, hfront, hconsistent.filter_sort]

/-- The three tables by any of their columns, in either direction. -/
theorem sorted_by_column (parse : String → Option ℤ) (hcollate : collate.Consistent) :
    (∀ sort rows, SortedByColumn collate (fun b => bucketSortValue parse b sort.key) sort.direction rows
        (sortRows collate rows sort (bucketSortValue parse))) ∧
      (∀ sort rows, SortedByColumn collate (fun k => keySortValue parse k sort.key) sort.direction rows
        (sortRows collate rows sort (keySortValue parse))) ∧
      ∀ sort rows, SortedByColumn collate (fun t => tokenSortValue parse t sort.key) sort.direction rows
        (sortRows collate rows sort (tokenSortValue parse)) := by
  obtain ⟨hbuckets, hkeys, htokens⟩ := pages_columns parse
  exact ⟨fun sort => (hbuckets sort.key).sorted hcollate, fun sort => (hkeys sort.key).sorted hcollate,
    fun sort => (htokens sort.key).sorted hcollate⟩

/-- Buckets by name, the last first. -/
theorem sorted_by_column_aliases : SortedByColumn Comparator.byOrder
    (fun b => bucketSortValue (fun _ => none) b .aliasName) .desc
    [⟨"1f", [], [], none, none, none, none⟩, ⟨"2e", ["photos"], [], none, none, none, none⟩]
    (sortRows Comparator.byOrder
      [⟨"1f", [], [], none, none, none, none⟩, ⟨"2e", ["photos"], [], none, none, none, none⟩]
      ⟨.aliasName, .desc⟩ (bucketSortValue fun _ => none)) :=
  (sorted_by_column _ Comparator.consistent_byOrder).1 ⟨.aliasName, .desc⟩ _

end Sorted

end GarageConsole.Tables
