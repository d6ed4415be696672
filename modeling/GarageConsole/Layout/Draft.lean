import GarageConsole.Foundations.Numbers
import GarageConsole.Foundations.Separated
import GarageConsole.Layout.Roles
import GarageConsole.Maintenance.Metrics
import Mathlib.Data.ENat.Basic

/-! # The form of the layout

A row of the form is filled from the role that the node has in the next layout, or from its applied role where the
removal of that is staged. The fields are texts: tags are joined by commas and the capacity is a rounded number of
GiB. What the operator leaves as it was is recognised by its text (`draftToChange`).
-/

namespace GarageConsole.Layout

open Foundations Foundations.Numbers Maintenance Utf16

set_option autoImplicit false

def gib : ℕ := 1073741824

structure RoleFields where
  zone : Units
  capacityGiB : Units
  tags : Units
  deriving DecidableEq

structure RoleDraft extends RoleFields where
  id : String
  hostname : Option String
  applied : Option LayoutNodeRole
  /-- None if the node has no role or the removal of its role is staged. -/
  effective : Option EffectiveRole
  original : RoleFields
  originalCapacity : Option ℕ
  remove : Bool

/-- `String(Math.round((capacity / GIB) * 100) / 100)` -/
def capacityToGiB : Option ℕ → Units
  | some capacity => text (quotient (mathRound (times (quotient capacity gib) 100)) 100)
  | none => []

def comma : UInt16 := 0x2C

def space : UInt16 := 0x20

def joinTags (tags : List Units) : Units := [comma, space].intercalate tags

def parseTags (s : Units) : List Units := ((s.splitOn comma).map trim).filter (· ≠ [])

def fieldsOf : Option EffectiveRole → RoleFields
  | some source =>
    { zone := source.zone, capacityGiB := capacityToGiB source.capacity, tags := joinTags (source.tags.getD []) }
  | none => { zone := [], capacityGiB := [], tags := [] }

def draftFromNode (id : String) (hostname : Option String) (applied : Option LayoutNodeRole)
    (staged : Option NodeRoleChange) : RoleDraft :=
  let stagedRemove := staged.any fun c => c.assigned.isNone
  let effective :=
    if stagedRemove then none else staged.bind NodeRoleChange.assigned <|> applied.map LayoutNodeRole.effective
  let source := effective <|> applied.map LayoutNodeRole.effective
  { toRoleFields := fieldsOf source
    id := id
    hostname := hostname
    applied := applied
    effective := effective
    original := fieldsOf source
    originalCapacity := source.bind EffectiveRole.capacity
    remove := stagedRemove }

/-- A change as the form makes it. A capacity can be `Infinity`. -/
inductive FormChange where
  | remove (id : String)
  | assign (id : String) (zone : Units) (tags : List Units) (capacity : Option ℕ∞)
  deriving DecidableEq

/-- `Math.round(n * GIB)`, of a number that is positive. -/
def gibToBytes (size : Magnitude) : ℕ∞ :=
  let product := times size.units gib
  if product < limit then (mathRound product : ℕ) else ⊤

def draftCapacity (d : RoleDraft) : Except String (Option ℕ∞) :=
  if d.capacityGiB = d.original.capacityGiB && d.originalCapacity.isSome then
    .ok (d.originalCapacity.map Nat.cast)
  else if trim d.capacityGiB ≠ [] then
    let invalid := nodeDisplayName d.id d.hostname ++ ": 容量は正の数 (GiB) で入力してください"
    match numberOf d.capacityGiB with
    | .finite false size => if size.units = 0 then .error invalid else .ok (some (gibToBytes size))
    | _ => .error invalid
  else .ok none

def draftToChange (d : RoleDraft) : Except String (Option FormChange) :=
  let wasRemoved := d.effective.isNone && d.applied.isSome
  let untouched := d.toRoleFields = d.original
  if d.remove then
    if wasRemoved then .ok none
    else .ok (if d.applied.isSome then some (.remove d.id) else none)
  else if untouched && !wasRemoved then .ok none
  else if untouched && wasRemoved && trim d.zone = [] then .ok none
  else
    match draftCapacity d with
    | .error message => .error message
    | .ok capacity =>
      if trim d.zone = [] then
        if d.effective.isNone && d.applied.isNone then .ok none
        else .error (nodeDisplayName d.id d.hostname ++ ": ゾーンは必須です")
      else .ok (some (.assign d.id (trim d.zone) (parseTags d.tags) capacity))

/-! ## The page -/

inductive Edit where
  | zone (text : Units)
  | capacityGiB (text : Units)
  | tags (text : Units)
  | remove (checked : Bool)
  deriving DecidableEq

/-- What the row lets the operator change: the fields are disabled while `remove` is ticked, and the box is there for
a node with a role. -/
def edit (d : RoleDraft) : Edit → RoleDraft
  | .zone text => if d.remove then d else { d with zone := text }
  | .capacityGiB text => if d.remove then d else { d with capacityGiB := text }
  | .tags text => if d.remove then d else { d with tags := text }
  | .remove checked => if d.applied.isSome || d.effective.isSome then { d with remove := checked } else d

/-- JSON has no `Infinity`, and `null` stands in its place. -/
def receivedCapacity (capacity : Option ℕ∞) : Option ℕ :=
  capacity.bind fun bytes => if bytes = ⊤ then none else some bytes.toNat

/-- A change as Garage reads it. -/
def FormChange.received : FormChange → NodeRoleChange
  | .remove id => .remove id
  | .assign id zone tags capacity =>
    .assign id { zone := zone, tags := some tags, capacity := receivedCapacity capacity }

/-! ## Tags as a text -/

/-- A text that the form can carry as a zone or as one of several tags. -/
def Clean (s : Units) : Prop := s ≠ [] ∧ trim s = s ∧ comma ∉ s

instance : DecidablePred Clean := fun s => inferInstanceAs (Decidable (s ≠ [] ∧ trim s = s ∧ comma ∉ s))

/-- The tags are read back as they were if and only if each of them is clean. -/
theorem parseTags_joinTags {tags : List Units} : parseTags (joinTags tags) = tags ↔ ∀ t ∈ tags, Clean t := by
  constructor
  · intro h t ht
    rw [← h, parseTags, List.mem_filter, decide_eq_true_eq] at ht
    obtain ⟨hmem, hne⟩ := ht
    obtain ⟨piece, hpiece, rfl⟩ := List.mem_map.mp hmem
    exact ⟨hne, trim_trim piece, fun hcomma => Separated.not_mem_of_mem_splitOn hpiece (trim_subset piece hcomma)⟩
  · intro h
    cases tags with
    | nil => decide
    | cons t ts =>
      have htrim : ∀ u ∈ ts, trim ([space] ++ u) = u := by
        intro u hu
        have hspace : isSpace space = true := by decide
        rw [List.singleton_append, trim_cons_space hspace]
        exact (h u (List.mem_cons_of_mem t hu)).2.1
      have hmap : (ts.map ([space] ++ ·)).map trim = ts := by
        rw [List.map_map]
        exact (List.map_congr_left htrim).trans (List.map_id ts)
      rw [parseTags, joinTags, Separated.splitOn_intercalate (by decide) fun u hu => (h u hu).2.2, List.map_cons,
        hmap, (h t List.mem_cons_self).2.1, List.filter_eq_self]
      exact fun u hu => decide_eq_true (h u hu).1

/-! ## What a row sends -/

/-- The role that the row is filled from. -/
def RoleDraft.source (d : RoleDraft) : Option EffectiveRole :=
  d.effective <|> d.applied.map LayoutNodeRole.effective

/-- The row was filled from its roles. -/
structure Filled (d : RoleDraft) : Prop where
  original : d.original = fieldsOf d.source
  originalCapacity : d.originalCapacity = d.source.bind EffectiveRole.capacity

theorem filled_draft (id : String) (hostname : Option String) (applied : Option LayoutNodeRole)
    (staged : Option NodeRoleChange) (fields : RoleFields) (remove : Bool) :
    Filled { draftFromNode id hostname applied staged with toRoleFields := fields, remove := remove } := ⟨rfl, rfl⟩

/-- The field of the capacity is blank for a gateway and for nothing else. -/
theorem capacityToGiB_blank {capacity : Option ℕ} : trim (capacityToGiB capacity) = [] ↔ capacity = none := by
  cases capacity with
  | none => exact ⟨fun _ => rfl, fun _ => rfl⟩
  | some bytes => exact ⟨fun h => absurd h (trim_text_ne_nil _), fun h => absurd h (Option.some_ne_none bytes)⟩

theorem Filled.blank {d : RoleDraft} (h : Filled d) : trim d.original.capacityGiB = [] ↔ d.originalCapacity = none := by
  rw [h.original, h.originalCapacity]
  cases d.source with
  | none => exact ⟨fun _ => rfl, fun _ => rfl⟩
  | some source => exact capacityToGiB_blank

theorem draftCapacity_unedited {d : RoleDraft} (hfilled : Filled d) (h : d.capacityGiB = d.original.capacityGiB) :
    draftCapacity d = .ok (d.originalCapacity.map Nat.cast) := by
  unfold draftCapacity
  cases hcapacity : d.originalCapacity with
  | some bytes => rw [h, decide_eq_true rfl, if_pos (by rfl)]
  | none =>
    rw [h, Option.isSome_none, Bool.and_false, if_neg Bool.false_ne_true, hfilled.blank.mpr hcapacity]
    rfl

/-- An edited capacity is a blank or a positive number. -/
theorem draftCapacity_edited {d : RoleDraft} (hedited : d.capacityGiB ≠ d.original.capacityGiB)
    {capacity : Option ℕ∞} (h : draftCapacity d = .ok capacity) :
    (trim d.capacityGiB = [] ∧ capacity = none) ∨ (trim d.capacityGiB ≠ [] ∧ ∃ size : Magnitude,
      numberOf d.capacityGiB = .finite false size ∧ size.units ≠ 0 ∧ capacity = some (gibToBytes size)) := by
  rw [draftCapacity, decide_eq_false hedited, Bool.false_and, if_neg Bool.false_ne_true] at h
  by_cases hblank : trim d.capacityGiB = []
  · rw [if_neg (not_not_intro hblank)] at h
    exact .inl ⟨hblank, (Except.ok.inj h).symm⟩
  · rw [if_pos hblank] at h
    dsimp only at h
    refine .inr ⟨hblank, ?_⟩
    split at h
    · rename_i size hnumber
      split at h
      · exact absurd h (by simp)
      · rename_i hpositive
        exact ⟨size, hnumber, hpositive, (Except.ok.inj h).symm⟩
    · exact absurd h (by simp)

/-- Everything that a row can send. -/
theorem draftToChange_cases {d : RoleDraft} {change : Option FormChange} (h : draftToChange d = .ok change) :
    (d.remove = true ∧
      change = if d.effective.isSome && d.applied.isSome then some (.remove d.id) else none) ∨
    (d.remove = false ∧ change = none ∧ (d.effective = none → d.applied ≠ none → trim d.zone = []) ∧
      (d.toRoleFields = d.original ∨ (trim d.zone = [] ∧ d.effective = none ∧ d.applied = none))) ∨
    (d.remove = false ∧ trim d.zone ≠ [] ∧
      (d.toRoleFields = d.original → d.effective = none ∧ d.applied ≠ none) ∧
      ∃ capacity, draftCapacity d = .ok capacity ∧
        change = some (.assign d.id (trim d.zone) (parseTags d.tags) capacity)) := by
  unfold draftToChange at h
  dsimp only at h
  split at h
  · rename_i hremove
    refine .inl ⟨hremove, ?_⟩
    cases heffective : d.effective with
    | none => cases happlied : d.applied <;> simpa [heffective, happlied, eq_comm] using h
    | some role => cases happlied : d.applied <;> simpa [heffective, happlied, eq_comm] using h
  · rename_i hremove
    rw [Bool.not_eq_true] at hremove
    refine .inr ?_
    split at h
    · rename_i huntouched
      simp only [Bool.and_eq_true, decide_eq_true_eq, Bool.not_eq_true', Bool.and_eq_false_iff] at huntouched
      refine .inl ⟨hremove, (Except.ok.inj h).symm, ?_, .inl huntouched.1⟩
      intro heffective happlied
      simp [heffective, happlied] at huntouched
    · rename_i htouched
      split at h
      · rename_i hblank
        simp only [Bool.and_eq_true, decide_eq_true_eq] at hblank
        exact .inl ⟨hremove, (Except.ok.inj h).symm, fun _ _ => hblank.2, .inl hblank.1.1⟩
      · cases hcapacity : draftCapacity d with
        | error message => simp [hcapacity] at h
        | ok capacity =>
          rw [hcapacity] at h
          dsimp only at h
          by_cases hblank : trim d.zone = []
          · rw [if_pos hblank] at h
            split at h
            · rename_i hnone
              simp only [Bool.and_eq_true, Option.isNone_iff_eq_none] at hnone
              exact .inl ⟨hremove, (Except.ok.inj h).symm, fun _ _ => hblank, .inr ⟨hblank, hnone⟩⟩
            · exact absurd h (by simp)
          · rw [if_neg hblank] at h
            refine .inr ⟨hremove, hblank, ?_, capacity, rfl, (Except.ok.inj h).symm⟩
            intro huntouched
            simpa [huntouched, Option.isSome_iff_ne_none] using htouched

/-- The role that is sent has what the source role has where the row was not edited. -/
def KeepsUnedited (d : RoleDraft) (source : EffectiveRole) (zone : Units) (tags : List Units)
    (capacity : Option ℕ∞) : Prop :=
  (d.zone = d.original.zone → zone = source.zone) ∧
  (d.tags = d.original.tags → tags = source.tags.getD []) ∧
  (d.capacityGiB = d.original.capacityGiB → capacity = source.capacity.map Nat.cast)

/-- A row that sends a role keeps what was not edited, if and only if the zone is trimmed and each tag is clean,
where they were not edited. The bytes of the capacity are always kept. -/
theorem keepsUnedited_iff (id : String) (hostname : Option String) (applied : Option LayoutNodeRole)
    (staged : Option NodeRoleChange) (fields : RoleFields) (remove : Bool) {d : RoleDraft}
    (hd : d = { draftFromNode id hostname applied staged with toRoleFields := fields, remove := remove })
    {source : EffectiveRole} (hsource : d.source = some source) {zone : Units} {tags : List Units}
    {capacity : Option ℕ∞} (h : draftToChange d = .ok (some (.assign id zone tags capacity))) :
    KeepsUnedited d source zone tags capacity ↔
      (d.zone = d.original.zone → trim source.zone = source.zone) ∧
        (d.tags = d.original.tags → ∀ t ∈ source.tags.getD [], Clean t) := by
  have hfilled : Filled d := hd ▸ filled_draft id hostname applied staged fields remove
  have horiginal : d.original = fieldsOf (some source) := hsource ▸ hfilled.original
  have hzone : d.original.zone = source.zone := by rw [horiginal]; rfl
  have htags : d.original.tags = joinTags (source.tags.getD []) := by rw [horiginal]; rfl
  have hbytes : d.originalCapacity = source.capacity := by rw [hfilled.originalCapacity, hsource]; rfl
  obtain ⟨-, hchange⟩ | ⟨-, hchange, -⟩ | ⟨-, -, -, sent, hsent, hchange⟩ := draftToChange_cases h
  · split at hchange <;> simp at hchange
  · simp at hchange
  · simp only [Option.some.injEq, FormChange.assign.injEq] at hchange
    obtain ⟨-, rfl, rfl, rfl⟩ := hchange
    rw [hzone, htags]
    constructor
    · intro ⟨hkeepsZone, hkeepsTags, _⟩
      rw [hzone] at hkeepsZone
      rw [htags] at hkeepsTags
      refine ⟨fun hsame => hsame ▸ hkeepsZone hsame, fun hsame => ?_⟩
      rw [← parseTags_joinTags, ← hsame]
      exact hkeepsTags hsame
    · intro ⟨hclean, hcleanTags⟩
      refine ⟨fun hsame => ?_, fun hsame => ?_, fun hsame => ?_⟩
      · rw [hzone] at hsame
        rw [hsame, hclean hsame]
      · rw [htags] at hsame
        rw [hsame, parseTags_joinTags.mpr (hcleanTags hsame)]
      · rw [draftCapacity_unedited hfilled hsame, hbytes] at hsent
        exact (Except.ok.inj hsent).symm

/-- A gateway with a tag, of which the zone is edited. -/
def tagged (tag : String) : LayoutNodeRole :=
  { id := "n", zone := utf16 "dc1", tags := [utf16 tag], capacity := none }

def zoneEdited (tag : String) : RoleDraft := edit (draftFromNode "n" none (tagged tag) none) (.zone (utf16 "dc2"))

theorem keepsUnedited_ssd :
    KeepsUnedited (zoneEdited "ssd") (tagged "ssd").effective (utf16 "dc2") [utf16 "ssd"] none :=
  (@keepsUnedited_iff "n" none (tagged "ssd") none (zoneEdited "ssd").toRoleFields false (zoneEdited "ssd") rfl
    (tagged "ssd").effective rfl _ _ _ (by decide +kernel)).mpr ⟨fun _ => by decide, fun _ => by decide⟩

theorem tag_with_comma_not_kept : (zoneEdited "a,b").source = some (tagged "a,b").effective ∧
    draftToChange (zoneEdited "a,b") = .ok (some (.assign "n" (utf16 "dc2") [utf16 "a", utf16 "b"] none)) ∧
    ¬KeepsUnedited (zoneEdited "a,b") (tagged "a,b").effective (utf16 "dc2") [utf16 "a", utf16 "b"] none := by
  refine ⟨rfl, by decide +kernel, fun h => ?_⟩
  exact absurd (h.2.1 (by decide +kernel)) (by decide)

/-! ## What the form shows -/

/-- The row of a node. -/
def rowOf (l : ClusterLayout) (id : String) (hostname : Option String) : RoleDraft :=
  draftFromNode id hostname (l.appliedById.get id) (l.stagedById.get id)

/-- The layout after the page has sent what a row makes. -/
def send (l : ClusterLayout) : Option FormChange → ClusterLayout
  | some change => l.stage change.received
  | none => l

/-- The number of bytes next to a number of GiB. -/
def NextTo (size : Magnitude) (bytes : ℕ) : Prop :=
  2 * (bytes * one) ≤ 2 * (size.units * gib) + one ∧ 2 * (size.units * gib) + one < 2 * ((bytes + 1) * one)

def ShownCapacity (d : RoleDraft) (capacity : Option ℕ) : Prop :=
  if trim d.capacityGiB = [] then capacity = none
  else if d.capacityGiB = d.original.capacityGiB then capacity = d.originalCapacity
  else ∃ size bytes, numberOf d.capacityGiB = .finite false size ∧ capacity = some bytes ∧ NextTo size bytes

/-- What the row shows as the role of its node. -/
def Shown (d : RoleDraft) : Option Role → Prop
  | some role => d.remove = false ∧ trim d.zone ≠ [] ∧ role.zone = trim d.zone ∧ role.tags = parseTags d.tags ∧
      ShownCapacity d role.capacity
  | none => d.remove = true ∨ trim d.zone = []

/-- A capacity that is sent is a positive number of bytes. -/
def PositiveBytes : Option FormChange → Prop
  | some (.assign _ _ _ (some capacity)) => ∃ bytes : ℕ, 0 < bytes ∧ capacity = bytes
  | _ => True

/-- At least 2^-31 GiB and less than 2^994. -/
def InRange : Numbers.Number → Prop
  | .finite _ size => one ≤ size.units * 2 ^ 31 ∧ size.units * 2 ^ 30 < limit
  | _ => True

instance : DecidablePred InRange
  | .finite _ size => inferInstanceAs (Decidable (one ≤ size.units * 2 ^ 31 ∧ size.units * 2 ^ 30 < limit))
  | .infinite _ => .isTrue trivial
  | .nan => .isTrue trivial

/-- Removal is ticked only for a node without a staged addition; an edited capacity is in range; and one of no
bytes that was not edited stands in a row that nothing is sent for. -/
structure Submittable (d : RoleDraft) : Prop where
  remove : d.remove = true → d.applied = none → d.effective = none
  edited : d.remove = false → trim d.zone ≠ [] → d.capacityGiB ≠ d.original.capacityGiB → trim d.capacityGiB ≠ [] →
    InRange (numberOf d.capacityGiB)
  unedited : d.remove = false → trim d.zone ≠ [] → d.capacityGiB = d.original.capacityGiB →
    d.originalCapacity = some 0 → d.toRoleFields = d.original ∧ (d.effective = none → d.applied = none)

theorem edit_frame (d : RoleDraft) (e : Edit) :
    ∃ fields remove, edit d e = { d with toRoleFields := fields, remove := remove } := by
  cases e with
  | zone text =>
    rw [edit]
    split
    · exact ⟨d.toRoleFields, d.remove, rfl⟩
    · exact ⟨{ d.toRoleFields with zone := text }, d.remove, rfl⟩
  | capacityGiB text =>
    rw [edit]
    split
    · exact ⟨d.toRoleFields, d.remove, rfl⟩
    · exact ⟨{ d.toRoleFields with capacityGiB := text }, d.remove, rfl⟩
  | tags text =>
    rw [edit]
    split
    · exact ⟨d.toRoleFields, d.remove, rfl⟩
    · exact ⟨{ d.toRoleFields with tags := text }, d.remove, rfl⟩
  | remove checked =>
    rw [edit]
    split
    · exact ⟨d.toRoleFields, checked, rfl⟩
    · exact ⟨d.toRoleFields, d.remove, rfl⟩

/-- However the row is edited, what it was filled from stays. -/
theorem foldl_edit (edits : List Edit) (d : RoleDraft) :
    ∃ fields remove, edits.foldl edit d = { d with toRoleFields := fields, remove := remove } := by
  induction edits generalizing d with
  | nil => exact ⟨d.toRoleFields, d.remove, rfl⟩
  | cons e edits ih =>
    obtain ⟨fields, remove, h⟩ := ih (edit d e)
    obtain ⟨fields', remove', hstep⟩ := edit_frame d e
    exact ⟨fields, remove, by rw [List.foldl_cons, h, hstep]⟩

theorem times_gib (size : Magnitude) : times size.units gib = size.units * gib := times_two_pow size.exact 30

theorem gibToBytes_eq (size : Magnitude) :
    gibToBytes size = if size.units * gib < limit then (mathRound (size.units * gib) : ℕ∞) else ⊤ := by
  rw [gibToBytes, times_gib]

theorem nextTo_mathRound (size : Magnitude) : NextTo size (mathRound (size.units * gib)) :=
  mathRound_bounds (size.units * gib)

theorem mathRound_pos_iff (k : ℕ) : 0 < mathRound k ↔ one ≤ 2 * k := by
  have hone : 0 < 2 * one := by decide +kernel
  rw [mathRound, Nat.div_pos_iff]
  omega

theorem receivedCapacity_map (capacity : Option ℕ) :
    receivedCapacity (capacity.map Nat.cast) = capacity := by
  cases capacity <;> simp [receivedCapacity]

theorem positiveBytes_gibToBytes (size : Magnitude) (id : String) (zone : Units) (tags : List Units) :
    PositiveBytes (some (.assign id zone tags (some (gibToBytes size)))) ↔ InRange (.finite false size) := by
  have hhalf : one ≤ 2 * (size.units * gib) ↔ one ≤ size.units * 2 ^ 31 := by
    rw [show 2 * (size.units * gib) = size.units * 2 ^ 31 by simp only [gib]; omega]
  rw [PositiveBytes, InRange, gibToBytes_eq]
  split
  · rename_i hlt
    rw [← hhalf, ← mathRound_pos_iff]
    constructor
    · intro ⟨bytes, hpos, heq⟩
      exact ⟨Nat.cast_inj.mp heq ▸ hpos, hlt⟩
    · exact fun ⟨hpos, _⟩ => ⟨_, hpos, rfl⟩
  · rename_i hlt
    exact ⟨fun ⟨bytes, _, heq⟩ => absurd heq.symm (ENat.natCast_ne_top bytes), fun ⟨_, h⟩ => absurd h hlt⟩

theorem shownCapacity_unedited {d : RoleDraft} (hfilled : Filled d) (h : d.capacityGiB = d.original.capacityGiB) :
    ShownCapacity d d.originalCapacity := by
  rw [ShownCapacity, if_pos h]
  split
  · rename_i hblank
    exact hfilled.blank.mp (h ▸ hblank)
  · rfl

/-- The capacity of a row that sends a role. -/
theorem sentCapacity_iff {d : RoleDraft} (hfilled : Filled d) (hremove : d.remove = false) (hzone : trim d.zone ≠ [])
    (htouched : d.toRoleFields = d.original → d.effective = none ∧ d.applied ≠ none) {capacity : Option ℕ∞}
    (h : draftCapacity d = .ok capacity) (id : String) (zone : Units) (tags : List Units) :
    (ShownCapacity d (receivedCapacity capacity) ∧ PositiveBytes (some (.assign id zone tags capacity))) ↔
      Submittable d := by
  have hnot : d.remove ≠ true := by rw [hremove]; exact Bool.false_ne_true
  by_cases hsame : d.capacityGiB = d.original.capacityGiB
  · have hcapacity := Except.ok.inj ((draftCapacity_unedited hfilled hsame).symm.trans h)
    rw [← hcapacity, receivedCapacity_map, and_iff_right (shownCapacity_unedited hfilled hsame)]
    have hzero : Submittable d ↔ d.originalCapacity ≠ some 0 := by
      constructor
      · intro hsubmittable hnone
        obtain ⟨huntouched, happlied⟩ := hsubmittable.unedited hremove hzone hsame hnone
        exact (htouched huntouched).2 (happlied (htouched huntouched).1)
      · exact fun hne => ⟨fun h => absurd h hnot, fun _ _ h => absurd hsame h, fun _ _ _ h => absurd h hne⟩
    rw [hzero]
    cases d.originalCapacity with
    | none => simp [PositiveBytes]
    | some bytes => simp [PositiveBytes, Nat.pos_iff_ne_zero]
  · rw [ShownCapacity]
    obtain ⟨hblank, rfl⟩ | ⟨hblank, size, hnumber, -, rfl⟩ := draftCapacity_edited hsame h
    · rw [if_pos hblank]
      refine ⟨fun _ => ⟨fun h => absurd h hnot, fun _ _ _ h => absurd hblank h, fun _ _ h => absurd h hsame⟩, ?_⟩
      exact fun _ => ⟨rfl, trivial⟩
    · rw [if_neg hblank, if_neg hsame, positiveBytes_gibToBytes]
      have hrange : Submittable d ↔ InRange (.finite false size) := by
        rw [← hnumber]
        exact ⟨fun hsubmittable => hsubmittable.edited hremove hzone hsame hblank,
          fun h => ⟨fun h => absurd h hnot, fun _ _ _ _ => h, fun _ _ h => absurd h hsame⟩⟩
      rw [hrange]
      refine ⟨fun h => h.2, fun h => ⟨⟨size, mathRound (size.units * gib), hnumber, ?_, nextTo_mathRound size⟩, h⟩⟩
      have hlt : size.units * gib < limit := h.2
      rw [gibToBytes_eq, if_pos hlt]
      exact receivedCapacity_map (some _)

/-! ## The next layout -/

/-- What a row is filled from is what the next layout has for its node. -/
theorem effective_rowOf (l : ClusterLayout) (id : String) (hostname : Option String) :
    (rowOf l id hostname).effective.map EffectiveRole.role = l.nextRole id := by
  rw [rowOf, draftFromNode, ClusterLayout.nextRole]
  cases hstaged : l.stagedById.get id with
  | none =>
    cases happlied : l.appliedById.get id with
    | none => rfl
    | some role => rfl
  | some change =>
    cases change with
    | remove id => rfl
    | assign id role => rfl

theorem nextRole_send (l : ClusterLayout) (id : String) (change : Option FormChange)
    (hid : ∀ c, change = some c → c.received.id = id) : (send l change).nextRole id =
      change.elim (l.nextRole id) fun c => c.received.assigned.map EffectiveRole.role := by
  cases change with
  | none => rfl
  | some c => rw [send, ClusterLayout.nextRole_stage, if_pos (hid c rfl).symm, Option.elim_some]

/-- The zone and the tags can be carried by the form. -/
def CleanRole (role : Role) : Prop := Clean role.zone ∧ ∀ t ∈ role.tags, Clean t

structure CleanLayout (l : ClusterLayout) : Prop where
  roles : ∀ r ∈ l.roles, CleanRole r.role
  staged : ∀ c ∈ l.stagedRoleChanges, ∀ role, c.assigned = some role → CleanRole role.role

theorem clean_source {l : ClusterLayout} (hclean : CleanLayout l) (id : String) (hostname : Option String)
    {source : EffectiveRole} (hsource : (rowOf l id hostname).source = some source) : CleanRole source.role := by
  have hstaged : ∀ c role, l.stagedById.get id = some c → c.assigned = some role → CleanRole role.role :=
    fun c role hc => hclean.staged c (ClusterLayout.stagedById_iff.mp hc).1 role
  have happlied : ∀ r, l.appliedById.get id = some r → CleanRole r.role :=
    fun r hr => hclean.roles r (ClusterLayout.appliedById_iff.mp hr).1
  rw [RoleDraft.source, rowOf, draftFromNode] at hsource
  cases hc : l.stagedById.get id with
  | none =>
    cases hr : l.appliedById.get id with
    | none => simp [hc, hr] at hsource
    | some r =>
      obtain rfl : r.effective = source := by simpa [hc, hr] using hsource
      exact happlied r hr
  | some c =>
    cases hassigned : c.assigned with
    | none =>
      cases hr : l.appliedById.get id with
      | none => simp [hc, hr, hassigned] at hsource
      | some r =>
        obtain rfl : r.effective = source := by simpa [hc, hr, hassigned] using hsource
        exact happlied r hr
    | some role =>
      obtain rfl : role = source := by simpa [hc, hassigned] using hsource
      exact hstaged c role hc hassigned

/-- A row that is as it was filled shows the role that it was filled from. -/
theorem shown_unedited {d : RoleDraft} (hfilled : Filled d) (hremove : d.remove = false)
    (huntouched : d.toRoleFields = d.original) {source : EffectiveRole} (hsource : d.source = some source)
    (hclean : CleanRole source.role) : Shown d (some source.role) := by
  have hfields : d.toRoleFields = fieldsOf (some source) := by rw [huntouched, hfilled.original, hsource]
  have hzone : d.zone = source.zone := congrArg RoleFields.zone hfields
  have htags : d.tags = joinTags (source.tags.getD []) := congrArg RoleFields.tags hfields
  have hcapacity : d.originalCapacity = source.capacity := by
    rw [hfilled.originalCapacity, hsource]
    rfl
  refine ⟨hremove, ?_, ?_, ?_, ?_⟩
  · rw [hzone, show trim source.zone = source.zone from hclean.1.2.1]
    exact hclean.1.1
  · rw [hzone]
    exact hclean.1.2.1.symm
  · rw [htags]
    exact (parseTags_joinTags.mpr hclean.2).symm
  · have hshown : ShownCapacity d d.originalCapacity :=
      shownCapacity_unedited hfilled (congrArg RoleFields.capacityGiB huntouched)
    rwa [hcapacity] at hshown

/-- A row with `remove` ticked leaves its node without a role, except where there is only a staged addition. -/
theorem removed_iff {l : ClusterLayout} {d : RoleDraft} (hremove : d.remove = true)
    (hnext : d.effective.map EffectiveRole.role = l.nextRole d.id) :
    Shown d ((send l (if d.effective.isSome && d.applied.isSome then some (.remove d.id) else none)).nextRole d.id) ↔
      Submittable d := by
  have hnot : d.remove ≠ false := by rw [hremove]; decide
  have hsubmittable : Submittable d ↔ (d.applied = none → d.effective = none) :=
    ⟨fun h => h.remove hremove, fun h => ⟨fun _ => h, fun h => absurd h hnot, fun h => absurd h hnot⟩⟩
  rw [hsubmittable]
  cases heffective : d.effective with
  | none =>
    rw [heffective] at hnext
    rw [Option.isSome_none, Bool.false_and, if_neg Bool.false_ne_true, send, ← hnext]
    exact ⟨fun _ _ => rfl, fun _ => .inl hremove⟩
  | some role =>
    cases happlied : d.applied with
    | none =>
      rw [heffective] at hnext
      rw [Option.isSome_none, Bool.and_false, if_neg Bool.false_ne_true, send, ← hnext]
      exact ⟨fun h => absurd h.1 hnot, fun h => absurd (h rfl) (Option.some_ne_none role)⟩
    | some r =>
      rw [Option.isSome_some, Option.isSome_some, Bool.and_true, if_pos rfl,
        nextRole_send _ _ _ fun c hc => by rw [← Option.some.inj hc]; rfl]
      exact ⟨fun _ h => absurd h (Option.some_ne_none r), fun _ => .inl hremove⟩

/-- A row that sends nothing shows the role that its node has already. -/
theorem unsent_shown {l : ClusterLayout} {d : RoleDraft} (hfilled : Filled d) (hremove : d.remove = false)
    (hnext : d.effective.map EffectiveRole.role = l.nextRole d.id)
    (hsource : ∀ source, d.source = some source → CleanRole source.role)
    (hblank : d.effective = none → d.applied ≠ none → trim d.zone = [])
    (huntouched : d.toRoleFields = d.original ∨ (trim d.zone = [] ∧ d.effective = none ∧ d.applied = none)) :
    Shown d (l.nextRole d.id) ∧ Submittable d := by
  have hnot : d.remove ≠ true := by rw [hremove]; exact Bool.false_ne_true
  rw [← hnext]
  cases heffective : d.effective with
  | none =>
    have hzone : trim d.zone = [] := by
      by_cases happlied : d.applied = none
      · obtain huntouched | huntouched := huntouched
        · have hnone : d.source = none := by rw [RoleDraft.source, heffective, happlied]; rfl
          have hfields : d.toRoleFields = fieldsOf none := by rw [huntouched, hfilled.original, hnone]
          rw [show d.zone = [] from congrArg RoleFields.zone hfields]
          rfl
        · exact huntouched.1
      · exact hblank heffective happlied
    exact ⟨.inr hzone, fun h => absurd h hnot, fun _ h => absurd hzone h, fun _ h => absurd hzone h⟩
  | some role =>
    have hsame : d.toRoleFields = d.original :=
      huntouched.resolve_right fun h => absurd (heffective ▸ h.2.1) (Option.some_ne_none role)
    have hrole : d.source = some role := by rw [RoleDraft.source, heffective]; rfl
    refine ⟨shown_unedited hfilled hremove hsame hrole (hsource role hrole), fun h => absurd h hnot, ?_, ?_⟩
    · exact fun _ _ h => absurd (congrArg RoleFields.capacityGiB hsame) h
    · exact fun _ _ _ _ => ⟨hsame, fun h => absurd (heffective ▸ h) (Option.some_ne_none role)⟩

/-- What a row sends gives its node the role that the row shows, in a positive number of bytes, if and only if the
row is `Submittable`. -/
theorem shown_iff_submittable {l : ClusterLayout} (hclean : CleanLayout l) (id : String) (hostname : Option String)
    (edits : List Edit) {d : RoleDraft} (hd : d = edits.foldl edit (rowOf l id hostname))
    {change : Option FormChange} (h : draftToChange d = .ok change) :
    (Shown d ((send l change).nextRole id) ∧ PositiveBytes change) ↔ Submittable d := by
  obtain ⟨fields, remove, hrow⟩ := foldl_edit edits (rowOf l id hostname)
  rw [← hd] at hrow
  have hfilled : Filled d := hrow ▸ filled_draft id hostname _ _ fields remove
  obtain rfl : d.id = id := by rw [hrow]; rfl
  have hnext : d.effective.map EffectiveRole.role = l.nextRole d.id := by
    have heffective : d.effective = (rowOf l d.id hostname).effective := by rw [hrow]; rfl
    rw [heffective, effective_rowOf]
  have hsource : ∀ source, d.source = some source → CleanRole source.role := by
    intro source hsource
    rw [hrow] at hsource
    exact clean_source hclean _ hostname hsource
  obtain ⟨hremove, rfl⟩ | ⟨hremove, rfl, hblank, huntouched⟩ | ⟨hremove, hzone, htouched, capacity, hcapacity, rfl⟩ :=
    draftToChange_cases h
  · have hbytes : PositiveBytes (if d.effective.isSome && d.applied.isSome then some (.remove d.id) else none) := by
      split <;> trivial
    rw [and_iff_left hbytes]
    exact removed_iff hremove hnext
  · obtain ⟨hshown, hsubmittable⟩ := unsent_shown hfilled hremove hnext hsource hblank huntouched
    exact ⟨fun _ => hsubmittable, fun _ => ⟨hshown, trivial⟩⟩
  · rw [nextRole_send _ _ _ fun c hc => by rw [← Option.some.inj hc]; rfl]
    have hshown : ShownCapacity d (receivedCapacity capacity) ↔ Shown d
        (some { zone := trim d.zone, tags := parseTags d.tags, capacity := receivedCapacity capacity }) := by
      simp [Shown, hremove, hzone]
    rw [← sentCapacity_iff hfilled hremove hzone htouched hcapacity d.id (trim d.zone) (parseTags d.tags), hshown]
    rfl

/-- A layout with one role, or with the addition of it staged. -/
def single : ClusterLayout where
  roles := [tagged "ssd"]
  stagedRoleChanges := []
  distinctRoles := by decide
  distinctChanges := by decide

def added : ClusterLayout where
  roles := []
  stagedRoleChanges := [.assign "n" (tagged "ssd").effective]
  distinctRoles := by decide
  distinctChanges := by decide

theorem clean_single : CleanLayout single where
  roles := by
    intro r hr
    obtain rfl := List.mem_singleton.mp hr
    exact ⟨by decide, by decide⟩
  staged := fun c hc => absurd hc List.not_mem_nil

theorem clean_added : CleanLayout added where
  roles := fun r hr => absurd hr List.not_mem_nil
  staged := by
    intro c hc role hrole
    obtain rfl := List.mem_singleton.mp hc
    obtain rfl := Option.some.inj hrole
    exact ⟨by decide, by decide⟩

theorem shown_single_edited :
    Shown (edit (rowOf single "n" none) (.capacityGiB (utf16 "20")))
        (some { zone := utf16 "dc1", tags := [utf16 "ssd"], capacity := some (20 * gib) }) ∧
      PositiveBytes (some (.assign "n" (utf16 "dc1") [utf16 "ssd"] (some (20 * gib : ℕ)))) :=
  (@shown_iff_submittable single clean_single "n" none [.capacityGiB (utf16 "20")] _ rfl
    (some (.assign "n" (utf16 "dc1") [utf16 "ssd"] (some (20 * gib : ℕ)))) (by decide +kernel)).mpr
    ⟨fun h => absurd h (by decide +kernel), fun _ _ _ _ => by decide +kernel, fun _ _ h => absurd h (by decide +kernel)⟩

theorem staged_addition_not_removed : CleanLayout added ∧
    draftToChange ([Edit.remove true].foldl edit (rowOf added "n" none)) = .ok none ∧
    ¬Shown ([Edit.remove true].foldl edit (rowOf added "n" none)) ((send added none).nextRole "n") := by
  refine ⟨clean_added, by decide +kernel, fun h => ?_⟩
  exact absurd h.1 (by decide +kernel)

example : draftToChange (edit (rowOf single "n" none) (.capacityGiB (utf16 "1e-10"))) =
    .ok (some (.assign "n" (utf16 "dc1") [utf16 "ssd"] (some 0))) := by decide +kernel

end GarageConsole.Layout
