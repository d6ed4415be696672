import Mathlib.Data.List.Sort
import GarageConsole.Foundations.GoJson

/-! # The block errors of all nodes

`flattenBlockErrors` lists the block errors of every node that answered. A node of which some entry cannot be
read, or that answered an error, is under `nodeErrors`; only the others were checked.
-/

namespace GarageConsole.Maintenance

open Foundations Foundations.GoJson

set_option autoImplicit false

/-- Garage's MultiResponse for ListBlockErrors. -/
structure ListBlockErrorsMulti where
  success : GoMap (Option (List Json)) := .empty
  error : GoMap String := .empty
  deriving DecidableEq

structure BlockErrorsResponse where
  items : List (GoMap Json)
  checkedNodes : List String
  nodeErrors : GoMap String

def blockErrorUnreadableMsg : String := "block error entry を解釈できません"

/-- An entry is an object; what was read can be written again. -/
def readBlockError (entry : Json) : Option (GoMap Json) :=
  match entry with
  | .null => none
  | _ => map Json.null anyValue .empty entry

def entriesOf (node : String × Option (List Json)) : List Json := node.2.getD []

def completeNode (node : String × Option (List Json)) : Bool :=
  (entriesOf node).all fun entry => (readBlockError entry).isSome

/-- The errors of a node that can be read, each with the node it is from. -/
def itemsOf (node : String × Option (List Json)) : List (GoMap Json) :=
  (entriesOf node).filterMap fun entry => (readBlockError entry).map (·.set "nodeId" (.str node.1))

def flattenBlockErrors (multi : ListBlockErrorsMulti) : BlockErrorsResponse :=
  let nodes := multi.success.entries.insertionSort fun a b => a.1 ≤ b.1
  { items := nodes.flatMap itemsOf
    checkedNodes := (nodes.filter completeNode).map Prod.fst
    nodeErrors := ((multi.success.filter fun node => !completeNode node).mapValues fun _ =>
      blockErrorUnreadableMsg).merge multi.error }

/-! ## What was checked -/

/-- The node answered with entries that can all be read. -/
def Checked (multi : ListBlockErrorsMulti) (id : String) : Prop :=
  ∃ entries, multi.success.get id = some entries ∧ ∀ entry ∈ entries.getD [], (readBlockError entry).isSome = true

theorem mem_checkedNodes {multi : ListBlockErrorsMulti} {id : String} :
    id ∈ (flattenBlockErrors multi).checkedNodes ↔ Checked multi id := by
  rw [flattenBlockErrors]
  dsimp only
  rw [List.mem_map]
  constructor
  · rintro ⟨⟨id, entries⟩, hmem, rfl⟩
    rw [List.mem_filter, List.mem_insertionSort, GoMap.mem_entries_iff] at hmem
    exact ⟨entries, hmem.1, List.all_eq_true.mp hmem.2⟩
  · rintro ⟨entries, hget, hall⟩
    refine ⟨(id, entries), ?_, rfl⟩
    rw [List.mem_filter, List.mem_insertionSort, GoMap.mem_entries_iff]
    exact ⟨hget, List.all_eq_true.mpr hall⟩

/-- A node that answered in any way is checked, or an error is listed for it. -/
theorem checked_of_no_error {multi : ListBlockErrorsMulti} {id : String}
    (hoccurs : id ∈ multi.success.keys ∨ id ∈ multi.error.keys) (h : id ∉ (flattenBlockErrors multi).nodeErrors.keys) :
    Checked multi id ∧ id ∉ multi.error.keys := by
  rw [flattenBlockErrors, GoMap.mem_keys_merge, GoMap.keys_mapValues, not_or] at h
  obtain ⟨herror, hcomplete⟩ := h
  refine ⟨?_, herror⟩
  obtain ⟨entries, hget⟩ := (GoMap.mem_keys_iff _).mp (hoccurs.resolve_right herror)
  refine ⟨entries, hget, List.all_eq_true.mp ?_⟩
  by_contra hnot
  refine hcomplete ((GoMap.mem_keys_iff _).mpr ⟨entries, (GoMap.get_filter ..).mpr ⟨hget, ?_⟩⟩)
  rw [Bool.not_eq_true] at hnot
  rw [completeNode, entriesOf, hnot]
  rfl

theorem unreadable_of_no_items {multi : ListBlockErrorsMulti} (h : (flattenBlockErrors multi).items = []) {id : String}
    {entries : Option (List Json)} (hget : multi.success.get id = some entries) :
    ∀ entry ∈ entries.getD [], readBlockError entry = none := by
  intro entry hentry
  rw [flattenBlockErrors] at h
  dsimp only at h
  rw [List.flatMap_eq_nil_iff] at h
  have hitems := h (id, entries) (by rwa [List.mem_insertionSort, GoMap.mem_entries_iff])
  rw [itemsOf, List.filterMap_eq_nil_iff] at hitems
  exact Option.map_eq_none_iff.mp (hitems entry hentry)

end GarageConsole.Maintenance
