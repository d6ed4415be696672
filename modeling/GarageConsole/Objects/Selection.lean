import GarageConsole.Foundations.OrderedSet
import GarageConsole.Foundations.Systems
import GarageConsole.Objects.BatchDelete

/-! # Selected objects

Objects of the table can be selected, to be deleted or downloaded together. What is no longer visible must not ride
along, so a change of the prefix drops the selection. There is one way around that: the keys that a bulk deletion could
not delete are selected again when its answer comes, whatever the prefix is by then. In every run in which no such
answer comes after the prefix has changed, all that is selected and all that is sent was listed under the prefix that
was shown (`selection_was_listed`).
-/

namespace GarageConsole.Objects

open Foundations Foundations.Calls Foundations.Systems Garage

set_option autoImplicit false

def maxBatchDownloadKeys : ℕ := 1000

inductive SelectionUse where
  | batchDownload
  | bulkDelete
  deriving DecidableEq

/-- A request for the selected objects, with the prefix that was shown. -/
structure SelectionRequest where
  purpose : SelectionUse
  shownPrefix : String
  keys : List String
  deriving DecidableEq

structure ObjectBrowser where
  shownPrefix : String := ""
  /-- The keys of the table; none while it is not shown. -/
  allObjects : List String := []
  selectedKeys : OrderedSet String := .empty
  bulkDeleteOpen : Bool := false
  bulkDelete : Option SelectionRequest := none
  batchDownload : Option SelectionRequest := none
  /-- Every key that was in the table, under its prefix. -/
  listed : List (String × String) := []
  /-- Every request that was sent. -/
  sent : List SelectionRequest := []

inductive BrowserEvent where
  | prefixChanged (shownPrefix : String) (objects : List String)
  | objectsListed (objects : List String)
  | toggleSelect (key : String)
  | toggleSelectAll
  | clearSelection
  | openBulkDelete
  | closeBulkDelete
  | confirmBulkDelete
  | bulkDeleteAnswered (failed : List String)
  | bulkDeleteFailed
  | download
  | downloadStarted
  | downloadFailed
  | objectDeleted (key : String)

namespace ObjectBrowser

def withObjects (s : ObjectBrowser) (objects : List String) : ObjectBrowser :=
  { s with allObjects := objects, listed := s.listed ++ objects.map fun key => (s.shownPrefix, key) }

def isAllSelected (s : ObjectBrowser) : Bool := s.allObjects ≠ [] && s.allObjects.all s.selectedKeys.has

/-- A request for what is selected. -/
def request (s : ObjectBrowser) (purpose : SelectionUse) : SelectionRequest :=
  ⟨purpose, s.shownPrefix, s.selectedKeys.items⟩

/-- What an event does; `none` where the page does not offer it. -/
def step (s : ObjectBrowser) : BrowserEvent → Option ObjectBrowser
  | .prefixChanged shownPrefix objects =>
    if shownPrefix = s.shownPrefix then none
    else some ({ s with shownPrefix := shownPrefix, selectedKeys := .empty }.withObjects objects)
  | .objectsListed objects => some (s.withObjects objects)
  | .toggleSelect key =>
    if key ∉ s.allObjects then none
    else some { s with
      selectedKeys := if s.selectedKeys.has key then s.selectedKeys.delete key else s.selectedKeys.insert key }
  | .toggleSelectAll =>
    some { s with
      selectedKeys := if s.isAllSelected then s.selectedKeys.deleteAll s.allObjects
        else s.selectedKeys.insertAll s.allObjects }
  | .clearSelection => some { s with selectedKeys := .empty }
  | .openBulkDelete =>
    if s.selectedKeys.items = [] ∨ s.bulkDelete.isSome then none else some { s with bulkDeleteOpen := true }
  | .closeBulkDelete => if s.bulkDelete.isSome then none else some { s with bulkDeleteOpen := false }
  | .confirmBulkDelete =>
    if !s.bulkDeleteOpen ∨ s.bulkDelete.isSome then none
    else some { s with bulkDelete := some (s.request .bulkDelete), sent := s.sent ++ [s.request .bulkDelete] }
  | .bulkDeleteAnswered failed =>
    if s.bulkDelete.isNone then none
    else some { s with bulkDelete := none, bulkDeleteOpen := false, selectedKeys := .ofList failed }
  | .bulkDeleteFailed => if s.bulkDelete.isNone then none else some { s with bulkDelete := none }
  | .download =>
    if s.selectedKeys.items = [] ∨ s.batchDownload.isSome ∨ maxBatchDownloadKeys < s.selectedKeys.items.length then none
    else some { s with
      batchDownload := some (s.request .batchDownload), sent := s.sent ++ [s.request .batchDownload] }
  | .downloadStarted =>
    if s.batchDownload.isNone then none else some { s with batchDownload := none, selectedKeys := .empty }
  | .downloadFailed => if s.batchDownload.isNone then none else some { s with batchDownload := none }
  | .objectDeleted key => some { s with selectedKeys := s.selectedKeys.delete key }

end ObjectBrowser

/-- The backend answers a deletion of `keys` with a 200 whose errors name `failed`. S3 names the keys of a request. -/
def AnsweredWithFailed (bucket : String) (keys failed : List String) : Prop :=
  ∃ incoming log r invalidates, decodeBatchDelete incoming = some keys ∧ AnswersEachKey log ∧
    Runs (handleBatchDeleteObjects bucket incoming) log ⟨.ok r, invalidates⟩ ∧ failed = selectedAfter r

/-- The page of one bucket, whose bulk deletions the backend answers. -/
def objectBrowser (bucket : String) : System ObjectBrowser BrowserEvent where
  init s := ∃ shownPrefix, s = { shownPrefix := shownPrefix }
  step s event t := s.step event = some t ∧ ∀ failed, event = .bulkDeleteAnswered failed →
    ∃ r, s.bulkDelete = some r ∧ AnsweredWithFailed bucket r.keys failed

/-- No answer to a bulk deletion has failures after the prefix has changed. -/
def answeredInPlace (s : ObjectBrowser) (event : BrowserEvent) : Prop :=
  ∀ failed, event = .bulkDeleteAnswered failed →
    failed = [] ∨ ∀ r, s.bulkDelete = some r → r.shownPrefix = s.shownPrefix

/-! ## What the backend's answer names -/

theorem AnsweredWithFailed.subset {bucket : String} {keys failed : List String}
    (h : AnsweredWithFailed bucket keys failed) : ∀ key ∈ failed, key ∈ keys := by
  obtain ⟨incoming, log, r, invalidates, hdec, hs3, hrun, rfl⟩ := h
  rcases handleBatchDeleteObjects_runs hrun with ⟨-, response, hrefused⟩ | ⟨requested, hdec', d, errs, err, hkeys, hout⟩
  · cases hrefused
  · obtain rfl : keys = requested := Option.some.inj (hdec.symm.trans hdec')
    have h : DeletionOf (distinctKeys keys) log d errs err := deleteKeys_runs hkeys hs3
    have herrors : r.errors = errs := by
      cases err with
      | none => exact congrArg BatchDeleteResponse.errors (Except.ok.inj hout)
      | some e =>
        dsimp only at hout
        split_ifs at hout
        exact congrArg BatchDeleteResponse.errors (Except.ok.inj hout)
    intro key hkey
    have hmem : key ∈ distinctKeys keys := by
      refine h.requested.subset (h.accounted.mem_iff.mp (List.mem_append_right _ ?_))
      rwa [← herrors]
    exact (List.mem_filter.mp (List.mem_eraseDups.mp hmem)).1

/-! ## The invariant -/

structure ObjectBrowser.Sound (s : ObjectBrowser) : Prop where
  table : ∀ key ∈ s.allObjects, (s.shownPrefix, key) ∈ s.listed
  selected : ∀ key ∈ s.selectedKeys.items, (s.shownPrefix, key) ∈ s.listed
  sent : ∀ r ∈ s.sent, r.keys.Nodup ∧ ∀ key ∈ r.keys, (r.shownPrefix, key) ∈ s.listed
  underWay : ∀ r, s.bulkDelete = some r → r ∈ s.sent
  downloads : ∀ r ∈ s.sent, r.purpose = .batchDownload → r.keys ≠ [] ∧ r.keys.length ≤ maxBatchDownloadKeys

namespace ObjectBrowser.Sound

variable {s : ObjectBrowser}

theorem reselect (h : s.Sound) {selection : OrderedSet String}
    (hselection : ∀ key ∈ selection.items, (s.shownPrefix, key) ∈ s.listed) :
    ({ s with selectedKeys := selection } : ObjectBrowser).Sound where
  table := h.table
  selected := hselection
  sent := h.sent
  underWay := h.underWay
  downloads := h.downloads

theorem withObjects (h : s.Sound) (objects : List String) : (s.withObjects objects).Sound where
  table _ hkey := List.mem_append_right _ (List.mem_map_of_mem hkey)
  selected key hkey := List.mem_append_left _ (h.selected key hkey)
  sent r hr := ⟨(h.sent r hr).1, fun key hkey => List.mem_append_left _ ((h.sent r hr).2 key hkey)⟩
  underWay := h.underWay
  downloads := h.downloads

theorem prefixChanged (h : s.Sound) (shownPrefix : String) (objects : List String) :
    ({ s with shownPrefix := shownPrefix, selectedKeys := .empty }.withObjects objects : ObjectBrowser).Sound where
  table _ hkey := List.mem_append_right _ (List.mem_map_of_mem hkey)
  selected _ hkey := absurd hkey List.not_mem_nil
  sent r hr := ⟨(h.sent r hr).1, fun key hkey => List.mem_append_left _ ((h.sent r hr).2 key hkey)⟩
  underWay := h.underWay
  downloads := h.downloads

/-- Both kinds of requests are for what is selected. -/
theorem send (h : s.Sound) (purpose : SelectionUse) : ∀ r ∈ s.sent ++ [s.request purpose],
    r.keys.Nodup ∧ ∀ key ∈ r.keys, (r.shownPrefix, key) ∈ s.listed := by
  intro r hr
  rcases List.mem_append.mp hr with hr | hr
  · exact h.sent r hr
  · rw [List.mem_singleton.mp hr]
    exact ⟨s.selectedKeys.nodup, h.selected⟩

theorem confirmBulkDelete (h : s.Sound) : ({ s with
    bulkDelete := some (s.request .bulkDelete), sent := s.sent ++ [s.request .bulkDelete] } : ObjectBrowser).Sound where
  table := h.table
  selected := h.selected
  sent := h.send .bulkDelete
  underWay r hr := by
    obtain rfl := Option.some.inj hr
    exact List.mem_append_right _ (List.mem_singleton_self _)
  downloads r hr hpurpose := by
    rcases List.mem_append.mp hr with hr | hr
    · exact h.downloads r hr hpurpose
    · rw [List.mem_singleton.mp hr] at hpurpose
      cases hpurpose

theorem download (h : s.Sound) (hsome : s.selectedKeys.items ≠ [])
    (hmax : s.selectedKeys.items.length ≤ maxBatchDownloadKeys) : ({ s with
    batchDownload := some (s.request .batchDownload), sent := s.sent ++ [s.request .batchDownload] } :
      ObjectBrowser).Sound where
  table := h.table
  selected := h.selected
  sent := h.send .batchDownload
  underWay r hr := List.mem_append_left _ (h.underWay r hr)
  downloads r hr hpurpose := by
    rcases List.mem_append.mp hr with hr | hr
    · exact h.downloads r hr hpurpose
    · rw [List.mem_singleton.mp hr]
      exact ⟨hsome, hmax⟩

theorem answered (h : s.Sound) : ({ s with bulkDelete := none } : ObjectBrowser).Sound where
  table := h.table
  selected := h.selected
  sent := h.sent
  underWay _ hr := absurd hr (Option.some_ne_none _).symm
  downloads := h.downloads

/-- A deletion is over; what failed was listed under the prefix that is shown. -/
theorem bulkDeleteAnswered (h : s.Sound) {failed : List String}
    (hfailed : ∀ key ∈ failed, (s.shownPrefix, key) ∈ s.listed) : ({ s with
    bulkDelete := none, bulkDeleteOpen := false, selectedKeys := .ofList failed } : ObjectBrowser).Sound where
  table := h.table
  selected key hkey := hfailed key (OrderedSet.mem_ofList.mp hkey)
  sent := h.sent
  underWay _ hr := absurd hr (Option.some_ne_none _).symm
  downloads := h.downloads

end ObjectBrowser.Sound

/-- Every event keeps the invariant, if the failures of a bulk deletion are named in place. -/
theorem ObjectBrowser.Sound.step {bucket : String} {s t : ObjectBrowser} {event : BrowserEvent} (h : s.Sound)
    (hinPlace : answeredInPlace s event) (hstep : (objectBrowser bucket).step s event t) : t.Sound := by
  obtain ⟨hstep, hanswer⟩ := hstep
  cases event with
  | prefixChanged shownPrefix objects =>
    obtain ⟨-, heq⟩ := Option.ite_none_left_eq_some.mp hstep
    exact Option.some.inj heq ▸ h.prefixChanged shownPrefix objects
  | objectsListed objects => exact Option.some.inj hstep ▸ h.withObjects objects
  | toggleSelect key =>
    obtain ⟨hkey, heq⟩ := Option.ite_none_left_eq_some.mp hstep
    refine Option.some.inj heq ▸ h.reselect fun other hother => ?_
    split_ifs at hother
    · exact h.selected other (OrderedSet.mem_delete.mp hother).2
    · rcases OrderedSet.mem_insert.mp hother with rfl | hother
      · exact h.table other (not_not.mp hkey)
      · exact h.selected other hother
  | toggleSelectAll =>
    refine Option.some.inj hstep ▸ h.reselect fun key hkey => ?_
    split_ifs at hkey
    · exact h.selected key (OrderedSet.mem_deleteAll.mp hkey).2
    · exact (OrderedSet.mem_insertAll.mp hkey).elim (h.table key) (h.selected key)
  | clearSelection => exact Option.some.inj hstep ▸ h.reselect fun key hkey => absurd hkey List.not_mem_nil
  | openBulkDelete =>
    obtain ⟨-, heq⟩ := Option.ite_none_left_eq_some.mp hstep
    exact Option.some.inj heq ▸ ⟨h.table, h.selected, h.sent, h.underWay, h.downloads⟩
  | closeBulkDelete =>
    obtain ⟨-, heq⟩ := Option.ite_none_left_eq_some.mp hstep
    exact Option.some.inj heq ▸ ⟨h.table, h.selected, h.sent, h.underWay, h.downloads⟩
  | confirmBulkDelete =>
    obtain ⟨-, heq⟩ := Option.ite_none_left_eq_some.mp hstep
    exact Option.some.inj heq ▸ h.confirmBulkDelete
  | bulkDeleteAnswered failed =>
    obtain ⟨-, heq⟩ := Option.ite_none_left_eq_some.mp hstep
    obtain ⟨r, hr, hfailed⟩ := hanswer failed rfl
    refine Option.some.inj heq ▸ h.bulkDeleteAnswered fun key hkey => ?_
    rcases hinPlace failed rfl with rfl | hplace
    · exact absurd hkey List.not_mem_nil
    · rw [← hplace r hr]
      exact (h.sent r (h.underWay r hr)).2 key (hfailed.subset key hkey)
  | bulkDeleteFailed =>
    obtain ⟨-, heq⟩ := Option.ite_none_left_eq_some.mp hstep
    exact Option.some.inj heq ▸ h.answered
  | download =>
    obtain ⟨hoffered, heq⟩ := Option.ite_none_left_eq_some.mp hstep
    rw [not_or, not_or, Nat.not_lt] at hoffered
    exact Option.some.inj heq ▸ h.download hoffered.1 hoffered.2.2
  | downloadStarted =>
    obtain ⟨-, heq⟩ := Option.ite_none_left_eq_some.mp hstep
    exact Option.some.inj heq ▸ ⟨h.table, fun key hkey => absurd hkey List.not_mem_nil, h.sent, h.underWay, h.downloads⟩
  | downloadFailed =>
    obtain ⟨-, heq⟩ := Option.ite_none_left_eq_some.mp hstep
    exact Option.some.inj heq ▸ ⟨h.table, h.selected, h.sent, h.underWay, h.downloads⟩
  | objectDeleted key =>
    exact Option.some.inj hstep ▸ h.reselect fun other hother => h.selected other (OrderedSet.mem_delete.mp hother).2

/-- In every run whose bulk deletions have their failures named in place, what is selected was listed under the prefix
that is shown, and what was sent under the prefix that was shown then. A download is for one to a thousand objects. -/
theorem selection_was_listed {bucket : String} {s : ObjectBrowser}
    (h : Reachable (objectBrowser bucket) answeredInPlace s) :
    (∀ key ∈ s.selectedKeys.items, (s.shownPrefix, key) ∈ s.listed) ∧
      ∀ r ∈ s.sent, r.keys.Nodup ∧ (∀ key ∈ r.keys, (r.shownPrefix, key) ∈ s.listed) ∧
        (r.purpose = .batchDownload → r.keys ≠ [] ∧ r.keys.length ≤ maxBatchDownloadKeys) := by
  have hsound : s.Sound := by
    refine h.invariant ?_ fun s event t hs hinPlace hstep => hs.step hinPlace hstep
    rintro s ⟨shownPrefix, rfl⟩
    exact ⟨by simp, by simp [OrderedSet.empty], by simp, by simp, by simp⟩
  exact ⟨hsound.selected, fun r hr =>
    ⟨(hsound.sent r hr).1, (hsound.sent r hr).2, hsound.downloads r hr⟩⟩

def retried : ObjectBrowser where
  shownPrefix := ""
  allObjects := ["a", "b"]
  selectedKeys := .ofList ["b"]
  listed := [("", "a"), ("", "b")]
  sent := [⟨.bulkDelete, "", ["a", "b"]⟩]

theorem answeredWithFailed_two : AnsweredWithFailed "bucket" ["a", "b"] ["b"] := by
  refine ⟨twoKeysBody, refusesSecond, _, true, by decide +kernel, ?_, runs_refusesSecond, rfl⟩
  intro bucket keys out hmem
  simp only [refusesSecond, List.mem_singleton, Sigma.mk.injEq] at hmem
  obtain ⟨-, rfl⟩ := S3Call.deleteObjects.inj hmem.1
  obtain rfl := Except.ok.inj (eq_of_heq hmem.2)
  exact .refl _

/-- One of two objects is not deleted and stays selected. -/
theorem reachable_retried : Reachable (objectBrowser "bucket") answeredInPlace retried := by
  have hother {s : ObjectBrowser} {event : BrowserEvent} (h : ∀ failed, event ≠ .bulkDeleteAnswered failed) :
      answeredInPlace s event ∧ ∀ failed, event = .bulkDeleteAnswered failed →
        ∃ r, s.bulkDelete = some r ∧ AnsweredWithFailed "bucket" r.keys failed :=
    ⟨fun failed heq => absurd heq (h failed), fun failed heq => absurd heq (h failed)⟩
  have hstep {s t : ObjectBrowser} (event : BrowserEvent) (h : ∀ failed, event ≠ .bulkDeleteAnswered failed)
      (hs : Reachable (objectBrowser "bucket") answeredInPlace s) (heq : s.step event = some t) :
      Reachable (objectBrowser "bucket") answeredInPlace t := .step hs (hother h).1 ⟨heq, (hother h).2⟩
  have hinit : Reachable (objectBrowser "bucket") answeredInPlace {} := .init ⟨"", rfl⟩
  have hlisted := hstep (.objectsListed ["a", "b"]) (by simp) hinit rfl
  have hselected := hstep .toggleSelectAll (by simp) hlisted rfl
  have hopen := hstep .openBulkDelete (by simp) hselected rfl
  have hsent := hstep .confirmBulkDelete (by simp) hopen rfl
  refine .step (a := .bulkDeleteAnswered ["b"]) hsent ?_ ⟨rfl, ?_⟩
  · intro failed _
    refine .inr fun r hr => ?_
    obtain rfl := Option.some.inj hr
    rfl
  · intro failed hfailed
    obtain rfl := BrowserEvent.bulkDeleteAnswered.inj hfailed
    exact ⟨_, rfl, answeredWithFailed_two⟩

theorem selection_was_listed_retried :
    (∀ key ∈ retried.selectedKeys.items, (retried.shownPrefix, key) ∈ retried.listed) ∧
      ∀ r ∈ retried.sent, r.keys.Nodup ∧ (∀ key ∈ r.keys, (r.shownPrefix, key) ∈ retried.listed) ∧
        (r.purpose = .batchDownload → r.keys ≠ [] ∧ r.keys.length ≤ maxBatchDownloadKeys) :=
  selection_was_listed reachable_retried

end GarageConsole.Objects
