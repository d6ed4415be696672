import GarageConsole.Foundations.Path
import Mathlib.Data.List.Nodup

/-! # The upload queue

Chosen files wait in a queue, and at most `maxConcurrentUploads` of them are uploaded at a time. The handlers of
the page and the ends of the uploads are events that come in any order, each of which finds the state that the
one before it left. `UploadQueue.Sound` is what holds between the events; besides the component's own state the
model keeps which uploads are in flight and what was ever queued and started.
-/

namespace GarageConsole.Objects

open Foundations Foundations.Text Foundations.Path

set_option autoImplicit false

inductive UploadStatus where
  | queued
  | uploading
  | done
  | error
  | conflict
  deriving DecidableEq

structure ChosenFile where
  name : Bytes
  webkitRelativePath : Bytes
  size : ℕ
  deriving DecidableEq

structure UploadItem where
  id : ℕ
  bucket : String
  file : ChosenFile
  key : Bytes
  overwrite : Bool
  loaded : ℕ
  total : ℕ
  status : UploadStatus
  error : Option String := none
  deriving DecidableEq

def maxConcurrentUploads : ℕ := 3

/-- Joins the current prefix, taken as a folder, and a relative path. -/
def keyFor (keyPrefix relativePath : Bytes) : Bytes :=
  if keyPrefix = [] then relativePath
  else (if keyPrefix.getLast? = some slash then keyPrefix else keyPrefix ++ [slash]) ++ relativePath

structure UploadQueue where
  uploads : List UploadItem := []
  pendingUploads : List UploadItem := []
  activeUploads : ℕ := 0
  nextUploadId : ℕ := 1
  /-- Sent and not answered yet. -/
  inFlight : List UploadItem := []
  /-- Everything that was ever put into the queue. -/
  queued : List UploadItem := []
  /-- Everything that was ever sent. -/
  started : List UploadItem := []

/-- How `uploadObject` ended: an error has a status if it is an answer of the backend. -/
inductive UploadResult where
  | success
  | failure (status : Option ℕ) (message : String)

inductive Dismissal where
  | conflicts
  | conflict (id : ℕ)
  | finished

inductive QueueEvent where
  | enqueueFiles (bucketId : String) (keyPrefix : Bytes) (files : List ChosenFile) (useRelativePath : Bool)
  | requeue (ids : List ℕ) (overwrite : Bool)
  | dismissUploads (which : Dismissal)
  | settled (id : ℕ) (result : UploadResult)

namespace UploadQueue

def patchUpload (s : UploadQueue) (id : ℕ) (patch : UploadItem → UploadItem) : UploadQueue :=
  { s with uploads := s.uploads.map fun u => if u.id = id then patch u else u }

/-- One round of the pump: the upload of the item begins. -/
def start (s : UploadQueue) (item : UploadItem) : UploadQueue :=
  { s.patchUpload item.id fun u => { u with status := .uploading, loaded := 0, error := none } with
    activeUploads := s.activeUploads + 1
    inFlight := s.inFlight ++ [item]
    started := s.started ++ [item] }

/-- The loop of the pump over what is pending. -/
def pumpFrom : List UploadItem → UploadQueue → UploadQueue
  | [], s => { s with pendingUploads := [] }
  | item :: rest, s =>
    if s.activeUploads < maxConcurrentUploads then pumpFrom rest (s.start item)
    else { s with pendingUploads := item :: rest }

def pumpUploads (s : UploadQueue) : UploadQueue := pumpFrom s.pendingUploads s

/-- What both handlers do with new entries of the queue. -/
def push (s : UploadQueue) (items : List UploadItem) : UploadQueue :=
  { s with pendingUploads := s.pendingUploads ++ items, queued := s.queued ++ items }

def newItems (s : UploadQueue) (bucketId : String) (keyPrefix : Bytes) (files : List ChosenFile)
    (useRelativePath : Bool) : List UploadItem :=
  files.zipIdx.map fun (file, i) =>
    { id := s.nextUploadId + i
      bucket := bucketId
      file := file
      key := keyFor keyPrefix
        (if useRelativePath && file.webkitRelativePath != [] then file.webkitRelativePath else file.name)
      overwrite := false
      loaded := 0
      total := file.size
      status := .queued }

def enqueueFiles (s : UploadQueue) (bucketId : String) (keyPrefix : Bytes) (files : List ChosenFile)
    (useRelativePath : Bool) : UploadQueue :=
  if files.length = 0 then s
  else
    let items := s.newItems bucketId keyPrefix files useRelativePath
    (({ s with uploads := s.uploads ++ items, nextUploadId := s.nextUploadId + files.length }).push items).pumpUploads

/-- The targets that neither wait nor are in flight, as they are queued again. -/
def retriedItems (s : UploadQueue) (targets : List UploadItem) (overwrite : Bool) : List UploadItem :=
  let pendingIds := s.pendingUploads.map UploadItem.id
  (targets.filter fun u => u.status != .queued && u.status != .uploading && !pendingIds.contains u.id).map fun u =>
    { u with overwrite := overwrite, status := .queued, loaded := 0 }

def requeue (s : UploadQueue) (targets : List UploadItem) (overwrite : Bool) : UploadQueue :=
  let retried := s.retriedItems targets overwrite
  if retried.length = 0 then s
  else
    let byId (id : ℕ) := retried.reverse.find? fun u => u.id = id
    (({ s with uploads := s.uploads.map fun (u : UploadItem) => (byId u.id).getD u }).push retried).pumpUploads

def dismissUploads (s : UploadQueue) (predicate : UploadItem → Bool) : UploadQueue :=
  { s with uploads := s.uploads.filter fun u => !predicate u }

/-- The end of an upload: its status, then what is done in any case. Says whether the listing is refreshed. -/
def settled (s : UploadQueue) (item : UploadItem) (result : UploadResult) : UploadQueue × Bool :=
  let s := match result with
    | .success => s.patchUpload item.id fun u => { u with status := .done, loaded := item.total }
    | .failure status message =>
      if status = some 409 then s.patchUpload item.id fun u => { u with status := .conflict, error := some message }
      else s.patchUpload item.id fun u => { u with status := .error, error := some message }
  let s := ({ s with
    activeUploads := s.activeUploads - 1
    inFlight := s.inFlight.eraseP fun u => u.id == item.id }).pumpUploads
  (s, s.activeUploads == 0)

/-- One event. A handler names items of the list as it stands; an upload that is not in flight does not end. -/
def step (s : UploadQueue) : QueueEvent → UploadQueue × Bool
  | .enqueueFiles bucketId keyPrefix files useRelativePath =>
    (s.enqueueFiles bucketId keyPrefix files useRelativePath, false)
  | .requeue ids overwrite => (s.requeue (s.uploads.filter fun u => ids.contains u.id) overwrite, false)
  | .dismissUploads .conflicts => (s.dismissUploads fun u => u.status == .conflict, false)
  | .dismissUploads (.conflict id) =>
    if s.uploads.any fun u => u.id == id && u.status == .conflict then (s.dismissUploads fun u => u.id == id, false)
    else (s, false)
  | .dismissUploads .finished => (s.dismissUploads fun u => u.status == .done || u.status == .error, false)
  | .settled id result =>
    match s.inFlight.find? fun u => u.id == id with
    | some item => s.settled item result
    | none => (s, false)

/-- The state after some events. -/
def after (events : List QueueEvent) : UploadQueue := events.foldl (fun s e => (s.step e).1) {}

/-! ## What holds while the queue is pumped -/

/-- The IDs of the uploads that are in flight or wait for it. -/
def ids (l : List UploadItem) : List ℕ := l.map UploadItem.id

structure Sound (s : UploadQueue) : Prop where
  active_eq : s.activeUploads = s.inFlight.length
  active_le : s.activeUploads ≤ maxConcurrentUploads
  queued_eq : s.queued = s.started ++ s.pendingUploads
  uploads_nodup : (ids s.uploads).Nodup
  waiting_nodup : (ids (s.inFlight ++ s.pendingUploads)).Nodup
  uploading : ∀ u ∈ s.uploads, u.id ∈ ids s.inFlight → u.status = .uploading
  fresh : ∀ id ∈ ids s.uploads ++ ids (s.inFlight ++ s.pendingUploads), id < s.nextUploadId

@[simp] theorem ids_append (l r : List UploadItem) : ids (l ++ r) = ids l ++ ids r := List.map_append

@[simp] theorem ids_cons (u : UploadItem) (l : List UploadItem) : ids (u :: l) = u.id :: ids l := rfl

theorem ids_patchUpload (s : UploadQueue) (id : ℕ) {patch : UploadItem → UploadItem} (h : ∀ u, (patch u).id = u.id) :
    ids (s.patchUpload id patch).uploads = ids s.uploads := by
  rw [ids, ids, patchUpload, List.map_map]
  refine List.map_congr_left fun u _ => ?_
  rw [Function.comp_apply]
  split
  · exact h u
  · rfl

theorem mem_patchUpload {s : UploadQueue} {id : ℕ} {patch : UploadItem → UploadItem} {v : UploadItem}
    (h : v ∈ (s.patchUpload id patch).uploads) : ∃ u ∈ s.uploads, v = if u.id = id then patch u else u := by
  obtain ⟨u, hu, hv⟩ := List.mem_map.mp h
  exact ⟨u, hu, hv.symm⟩

/-- The first of the pending uploads begins. -/
theorem start_sound {s : UploadQueue} {item : UploadItem} {rest : List UploadItem}
    (h : Sound { s with pendingUploads := item :: rest }) (hfree : s.activeUploads < maxConcurrentUploads) :
    Sound { s.start item with pendingUploads := rest } := by
  have hids : ids (s.start item).uploads = ids s.uploads := ids_patchUpload s item.id fun _ => rfl
  have hmoved : ids (s.inFlight ++ [item] ++ rest) = ids (s.inFlight ++ item :: rest) := by
    rw [List.append_assoc, List.singleton_append]
  constructor
  · have := h.active_eq
    simpa [start] using this
  · exact hfree
  · have := h.queued_eq
    simpa [start, patchUpload] using this
  · exact hids ▸ h.uploads_nodup
  · exact hmoved ▸ h.waiting_nodup
  · intro v hv hflight
    obtain ⟨u, hu, rfl⟩ := mem_patchUpload hv
    by_cases hid : u.id = item.id
    · rw [if_pos hid]
    · rw [if_neg hid] at hflight ⊢
      refine h.uploading u hu ?_
      simpa [start, ids, hid] using hflight
  · intro id hid
    refine h.fresh id ?_
    rw [← hmoved, ← hids]
    exact hid

theorem pumpFrom_sound {ps : List UploadItem} : ∀ {s : UploadQueue}, Sound { s with pendingUploads := ps } →
    Sound (pumpFrom ps s) ∧
      ((pumpFrom ps s).pendingUploads ≠ [] → (pumpFrom ps s).activeUploads = maxConcurrentUploads) := by
  induction ps with
  | nil => exact fun h => ⟨h, fun hne => absurd rfl hne⟩
  | cons item rest ih =>
    intro s h
    rw [pumpFrom]
    split
    · rename_i hfree
      exact ih (start_sound h hfree)
    · rename_i hfull
      have hle : s.activeUploads ≤ maxConcurrentUploads := h.active_le
      exact ⟨h, fun _ => by change s.activeUploads = _; omega⟩

/-- The pump leaves nothing in flight only where there was nothing. -/
theorem pumpFrom_active {ps : List UploadItem} : ∀ {s : UploadQueue},
    (pumpFrom ps s).activeUploads = 0 ↔ s.activeUploads = 0 ∧ ps = [] := by
  induction ps with
  | nil => simp [pumpFrom]
  | cons item rest ih =>
    intro s
    rw [pumpFrom]
    split
    · rw [ih]
      simp [start]
    · rename_i hfull
      simp only [maxConcurrentUploads] at hfull
      refine ⟨fun h => ?_, fun h => absurd h.2 (List.cons_ne_nil _ _)⟩
      change s.activeUploads = 0 at h
      omega

theorem pumpFrom_queued {ps : List UploadItem} : ∀ {s : UploadQueue}, (pumpFrom ps s).queued = s.queued := by
  induction ps with
  | nil => exact rfl
  | cons item rest ih =>
    intro s
    rw [pumpFrom]
    split
    · exact ih
    · rfl

/-- What the pump starts is in flight from then on. -/
theorem pumpFrom_begun {ps : List UploadItem} : ∀ {s : UploadQueue}, ∃ begun,
    (pumpFrom ps s).started = s.started ++ begun ∧ (pumpFrom ps s).inFlight = s.inFlight ++ begun := by
  induction ps with
  | nil => exact ⟨[], (List.append_nil _).symm, (List.append_nil _).symm⟩
  | cons item rest ih =>
    intro s
    rw [pumpFrom]
    split
    · obtain ⟨begun, hstarted, hflight⟩ := @ih (s.start item)
      refine ⟨item :: begun, hstarted.trans ?_, hflight.trans ?_⟩
      · exact (List.append_cons s.started item begun).symm
      · exact (List.append_cons s.inFlight item begun).symm
    · exact ⟨[], (List.append_nil _).symm, (List.append_nil _).symm⟩

/-! ## The events -/

/-- What holds between the events: no upload waits while there is room. -/
structure Settled (s : UploadQueue) : Prop where
  sound : Sound s
  no_stall : s.pendingUploads ≠ [] → s.activeUploads = maxConcurrentUploads

theorem pumpUploads_settled {s : UploadQueue} (h : Sound s) : Settled s.pumpUploads :=
  have hpump := @pumpFrom_sound s.pendingUploads s h
  ⟨hpump.1, hpump.2⟩

theorem push_sound {s : UploadQueue} {items : List UploadItem} (h : Sound s) (hnodup : (ids items).Nodup)
    (hnew : ∀ id ∈ ids items, id ∉ ids (s.inFlight ++ s.pendingUploads))
    (hfresh : ∀ id ∈ ids items, id < s.nextUploadId) : Sound (s.push items) := by
  have hwaiting : ids (s.inFlight ++ (s.pendingUploads ++ items)) =
      ids (s.inFlight ++ s.pendingUploads) ++ ids items := by
    rw [← List.append_assoc, ids_append (s.inFlight ++ s.pendingUploads)]
  refine ⟨h.active_eq, h.active_le, ?_, h.uploads_nodup, ?_, h.uploading, ?_⟩
  · rw [push, h.queued_eq, List.append_assoc]
  · change (ids (s.inFlight ++ (s.pendingUploads ++ items))).Nodup
    rw [hwaiting, List.nodup_append]
    exact ⟨h.waiting_nodup, hnodup, fun a ha b hb hab => hnew b hb (hab ▸ ha)⟩
  · change ∀ id ∈ ids s.uploads ++ ids (s.inFlight ++ (s.pendingUploads ++ items)), id < s.nextUploadId
    intro id hid
    rw [hwaiting, ← List.append_assoc, List.mem_append] at hid
    rcases hid with hid | hid
    · exact h.fresh id hid
    · exact hfresh id hid

/-- Items that are not in flight may change, but for their IDs. -/
theorem map_sound {s : UploadQueue} {f : UploadItem → UploadItem} (h : Sound s) (hid : ∀ u, (f u).id = u.id)
    (hflight : ∀ u ∈ s.uploads, u.id ∈ ids s.inFlight → f u = u) :
    Sound { s with uploads := s.uploads.map f } := by
  have hids : ids (s.uploads.map f) = ids s.uploads := by
    rw [ids, ids, List.map_map]
    exact List.map_congr_left fun u _ => hid u
  refine ⟨h.active_eq, h.active_le, h.queued_eq, hids ▸ h.uploads_nodup, h.waiting_nodup, ?_, hids ▸ h.fresh⟩
  intro v hv hmem
  obtain ⟨u, hu, rfl⟩ := List.mem_map.mp hv
  rw [hid] at hmem
  rw [hflight u hu hmem]
  exact h.uploading u hu hmem

theorem ids_newItems (s : UploadQueue) (bucketId : String) (keyPrefix : Bytes) (files : List ChosenFile)
    (useRelativePath : Bool) :
    ids (s.newItems bucketId keyPrefix files useRelativePath) = List.range' s.nextUploadId files.length := by
  have hid : ids (s.newItems bucketId keyPrefix files useRelativePath) =
      (files.zipIdx.map Prod.snd).map (s.nextUploadId + ·) := by
    rw [ids, newItems, List.map_map, List.map_map]
    rfl
  rw [hid, List.zipIdx_map_snd, List.map_add_range', Nat.add_zero]

theorem enqueueFiles_settled {s : UploadQueue} (h : Settled s) (bucketId : String) (keyPrefix : Bytes)
    (files : List ChosenFile) (useRelativePath : Bool) :
    Settled (s.enqueueFiles bucketId keyPrefix files useRelativePath) := by
  unfold enqueueFiles
  split
  · exact h
  · have hrange := ids_newItems s bucketId keyPrefix files useRelativePath
    dsimp only
    generalize s.newItems bucketId keyPrefix files useRelativePath = items at hrange
    have hnew : ∀ id ∈ ids items, s.nextUploadId ≤ id ∧ id < s.nextUploadId + files.length := by
      intro id hid
      rwa [hrange, List.mem_range'_1] at hid
    have hnodup : (ids items).Nodup := hrange ▸ List.nodup_range'
    have hold : ∀ id ∈ ids s.uploads ++ ids (s.inFlight ++ s.pendingUploads), id < s.nextUploadId := h.sound.fresh
    refine pumpUploads_settled (push_sound ⟨h.sound.active_eq, h.sound.active_le, h.sound.queued_eq, ?_,
      h.sound.waiting_nodup, ?_, ?_⟩ hnodup ?_ fun id hid => (hnew id hid).2)
    · change (ids (s.uploads ++ items)).Nodup
      rw [ids_append, List.nodup_append]
      refine ⟨h.sound.uploads_nodup, hnodup, fun a ha b hb hab => ?_⟩
      have := hold a (List.mem_append_left _ ha)
      have := (hnew b hb).1
      omega
    · intro u hu hflight
      rcases List.mem_append.mp hu with hu | hu
      · exact h.sound.uploading u hu hflight
      · have hlt := hold u.id (List.mem_append_right _ (by rw [ids_append]; exact List.mem_append_left _ hflight))
        have := (hnew u.id (List.mem_map.mpr ⟨u, hu, rfl⟩)).1
        omega
    · change ∀ id ∈ ids (s.uploads ++ items) ++ ids (s.inFlight ++ s.pendingUploads),
        id < s.nextUploadId + files.length
      intro id hid
      rw [ids_append, List.append_assoc, List.mem_append, List.mem_append] at hid
      rcases hid with hid | hid | hid
      · have := hold id (List.mem_append_left _ hid)
        omega
      · exact (hnew id hid).2
      · have := hold id (List.mem_append_right _ hid)
        omega
    · intro id hid hmem
      have := hold id (List.mem_append_right _ hmem)
      have := (hnew id hid).1
      omega

/-- Items that neither wait nor are in flight may be put back. -/
theorem retried_sound {s : UploadQueue} (h : Sound s) {retried : List UploadItem} (hnodup : (ids retried).Nodup)
    (hnew : ∀ id ∈ ids retried, id ∉ ids (s.inFlight ++ s.pendingUploads))
    (hfresh : ∀ id ∈ ids retried, id < s.nextUploadId) :
    Sound (({ s with uploads := s.uploads.map fun (u : UploadItem) =>
      (retried.reverse.find? fun v => v.id = u.id).getD u } : UploadQueue).push retried) := by
  refine push_sound (map_sound h ?_ ?_) hnodup hnew hfresh
  · intro u
    cases hfind : retried.reverse.find? fun v => v.id = u.id with
    | none => rfl
    | some v => simpa using List.find?_some hfind
  · intro u _ hflight
    cases hfind : retried.reverse.find? fun v => v.id = u.id with
    | none => rfl
    | some v =>
      have hv : v ∈ retried := List.mem_reverse.mp (List.mem_of_find?_eq_some hfind)
      have hid : v.id = u.id := by simpa using List.find?_some hfind
      refine absurd ?_ (hnew v.id (List.mem_map.mpr ⟨v, hv, rfl⟩))
      rw [hid, ids_append]
      exact List.mem_append_left _ hflight

theorem mem_ids_retriedItems {s : UploadQueue} {targets : List UploadItem} {overwrite : Bool} {id : ℕ} :
    id ∈ ids (s.retriedItems targets overwrite) ↔ ∃ u ∈ targets, u.id = id ∧ u.status ≠ .queued ∧
      u.status ≠ .uploading ∧ id ∉ ids s.pendingUploads := by
  rw [ids, retriedItems, List.map_map, List.mem_map]
  simp only [List.mem_filter, Function.comp_apply, Bool.and_eq_true, bne_iff_ne, Bool.not_eq_true',
    List.contains_eq_mem, decide_eq_false_iff_not]
  constructor
  · intro ⟨u, ⟨hu, ⟨hqueued, huploading⟩, hpending⟩, hid⟩
    exact ⟨u, hu, hid, hqueued, huploading, hid ▸ hpending⟩
  · intro ⟨u, hu, hid, hqueued, huploading, hpending⟩
    exact ⟨u, ⟨hu, ⟨hqueued, huploading⟩, hid ▸ hpending⟩, hid⟩

theorem retriedItems_nodup {s : UploadQueue} (h : Sound s) {targets : List UploadItem}
    (htargets : targets.Sublist s.uploads) (overwrite : Bool) : (ids (s.retriedItems targets overwrite)).Nodup := by
  rw [ids, retriedItems, List.map_map]
  exact h.uploads_nodup.sublist ((List.filter_sublist.trans htargets).map _)

theorem requeue_settled {s : UploadQueue} (h : Settled s) {targets : List UploadItem}
    (htargets : targets.Sublist s.uploads) (overwrite : Bool) : Settled (s.requeue targets overwrite) := by
  unfold requeue
  dsimp only
  split
  · exact h
  · refine pumpUploads_settled (retried_sound h.sound (retriedItems_nodup h.sound htargets overwrite) ?_ ?_)
    · intro id hid hwaiting
      obtain ⟨u, hu, rfl, -, huploading, hpending⟩ := mem_ids_retriedItems.mp hid
      rw [ids_append, List.mem_append] at hwaiting
      rcases hwaiting with hflight | hwaiting
      · exact huploading (h.sound.uploading u (htargets.subset hu) hflight)
      · exact hpending hwaiting
    · intro id hid
      obtain ⟨u, hu, rfl, -⟩ := mem_ids_retriedItems.mp hid
      exact h.sound.fresh _ (List.mem_append_left _ (List.mem_map.mpr ⟨u, htargets.subset hu, rfl⟩))

theorem dismissUploads_settled {s : UploadQueue} (h : Settled s) (predicate : UploadItem → Bool) :
    Settled (s.dismissUploads predicate) := by
  have hsub : (s.uploads.filter fun u => !predicate u).Sublist s.uploads := List.filter_sublist
  have hids : (ids (s.uploads.filter fun u => !predicate u)).Sublist (ids s.uploads) := hsub.map _
  refine ⟨⟨h.sound.active_eq, h.sound.active_le, h.sound.queued_eq, h.sound.uploads_nodup.sublist hids,
    h.sound.waiting_nodup, fun u hu => h.sound.uploading u (hsub.subset hu), ?_⟩, h.no_stall⟩
  intro id hid
  refine h.sound.fresh id ?_
  rw [List.mem_append] at hid ⊢
  exact hid.imp_left fun hid => hids.subset hid

/-- An upload that ended is in flight no more. -/
theorem ended_sound {s : UploadQueue} (h : Sound s) {item : UploadItem} (hitem : item ∈ s.inFlight)
    {patch : UploadItem → UploadItem} (hpatch : ∀ u, (patch u).id = u.id) :
    Sound { s.patchUpload item.id patch with
      activeUploads := s.activeUploads - 1
      inFlight := s.inFlight.eraseP fun u => u.id == item.id } := by
  obtain ⟨a, l, r, -, ha, hsplit, herase⟩ :=
    List.exists_of_eraseP (p := fun u : UploadItem => u.id == item.id) hitem (beq_self_eq_true _)
  have hids : ids (s.patchUpload item.id patch).uploads = ids s.uploads := ids_patchUpload s item.id hpatch
  have haid : a.id = item.id := by simpa using ha
  have hbefore : ids s.inFlight = ids l ++ item.id :: ids r := by
    rw [hsplit, ids_append, ids_cons, haid]
  have hsub : (ids (l ++ r)).Sublist (ids s.inFlight) := by
    rw [hbefore, ids_append]
    exact (List.Sublist.refl _).append (List.sublist_cons_self _ _)
  have hgone : item.id ∉ ids (l ++ r) := by
    have hnodup := h.waiting_nodup
    rw [ids_append, hbefore, List.append_assoc, List.cons_append, List.nodup_middle, List.nodup_cons] at hnodup
    rw [ids_append]
    intro hmem
    refine hnodup.1 ?_
    rw [← List.append_assoc]
    exact List.mem_append_left _ hmem
  have hwaiting : (ids (l ++ r ++ s.pendingUploads)).Sublist (ids (s.inFlight ++ s.pendingUploads)) := by
    rw [ids_append, ids_append s.inFlight]
    exact hsub.append (List.Sublist.refl _)
  rw [herase]
  constructor
  · have hlen := congrArg List.length hsplit
    have hactive := h.active_eq
    simp only [List.length_append, List.length_cons] at hlen ⊢
    omega
  · have := h.active_le
    simp only [maxConcurrentUploads] at this ⊢
    omega
  · exact h.queued_eq
  · exact hids ▸ h.uploads_nodup
  · exact h.waiting_nodup.sublist hwaiting
  · intro v hv hflight
    obtain ⟨u, hu, rfl⟩ := mem_patchUpload hv
    by_cases hid : u.id = item.id
    · rw [if_pos hid, hpatch, hid] at hflight
      exact absurd hflight hgone
    · rw [if_neg hid] at hflight ⊢
      exact h.uploading u hu (hsub.subset hflight)
  · intro id hid
    refine h.fresh id ?_
    rw [List.mem_append] at hid ⊢
    exact hid.imp (fun hid => hids ▸ hid) fun hid => hwaiting.subset hid

theorem settled_spec {s : UploadQueue} (h : Settled s) {item : UploadItem} (hitem : item ∈ s.inFlight)
    (result : UploadResult) : Settled (s.settled item result).1 ∧
      ((s.settled item result).2 = true ↔ ids s.inFlight = [item.id] ∧ s.pendingUploads = []) := by
  -- whatever the result, the status of the item is set and the pump runs with one upload less in flight
  obtain ⟨patch, hpatch, heq⟩ : ∃ patch : UploadItem → UploadItem, (∀ u, (patch u).id = u.id) ∧
      s.settled item result = (fun t : UploadQueue => (t, t.activeUploads == 0))
        ({ s.patchUpload item.id patch with
          activeUploads := s.activeUploads - 1
          inFlight := s.inFlight.eraseP fun u => u.id == item.id } : UploadQueue).pumpUploads := by
    cases result with
    | success => exact ⟨fun u => { u with status := .done, loaded := item.total }, fun _ => rfl, rfl⟩
    | failure status message =>
      by_cases hconflict : status = some 409
      · refine ⟨fun u => { u with status := .conflict, error := some message }, fun _ => rfl, ?_⟩
        simp [settled, hconflict, patchUpload]
      · refine ⟨fun u => { u with status := .error, error := some message }, fun _ => rfl, ?_⟩
        simp [settled, hconflict, patchUpload]
  rw [heq]
  refine ⟨pumpUploads_settled (ended_sound h.sound hitem hpatch), ?_⟩
  rw [beq_iff_eq, pumpUploads, pumpFrom_active]
  refine and_congr_left fun hnil => ?_
  change s.activeUploads - 1 = 0 ↔ _
  have hlen := h.sound.active_eq
  have hpos : 0 < s.inFlight.length := List.length_pos_of_mem hitem
  constructor
  · intro hone
    obtain ⟨u, hu⟩ := List.length_eq_one_iff.mp (show s.inFlight.length = 1 by omega)
    rw [hu, List.mem_singleton] at hitem
    rw [hu, hitem]
    rfl
  · intro hids
    have hone := congrArg List.length hids
    rw [ids, List.length_map, List.length_singleton] at hone
    omega

theorem step_settled {s : UploadQueue} (h : Settled s) (e : QueueEvent) : Settled (s.step e).1 := by
  cases e with
  | enqueueFiles bucketId keyPrefix files useRelativePath =>
    exact enqueueFiles_settled h bucketId keyPrefix files useRelativePath
  | requeue ids overwrite => exact requeue_settled h List.filter_sublist overwrite
  | dismissUploads which =>
    cases which with
    | conflicts => exact dismissUploads_settled h _
    | finished => exact dismissUploads_settled h _
    | conflict id =>
      rw [step]
      split
      · exact dismissUploads_settled h _
      · exact h
  | settled id result =>
    rw [step]
    split
    · rename_i item hfind
      exact (settled_spec h (List.mem_of_find?_eq_some hfind) result).1
    · exact h

/-! ## Runs -/

/-- What an event puts into the queue: the files that were chosen, each as a new item; of the items that a retry names
those that neither wait nor are in flight; and nothing else. -/
def Asks (s : UploadQueue) (added : List UploadItem) : QueueEvent → Prop
  | .enqueueFiles bucketId keyPrefix files useRelativePath =>
    added.map UploadItem.file = files ∧ (∀ u ∈ added, u.id ∉ ids s.uploads) ∧
      ∀ u ∈ added, u.bucket = bucketId ∧ u.overwrite = false ∧ u.key = keyFor keyPrefix
        (if useRelativePath && u.file.webkitRelativePath != [] then u.file.webkitRelativePath else u.file.name)
  | .requeue named overwrite =>
    added = (s.uploads.filter fun u => u.id ∈ named ∧ u.status ≠ .queued ∧ u.status ≠ .uploading ∧
      u.id ∉ ids s.pendingUploads).map fun u => { u with overwrite := overwrite, status := .queued, loaded := 0 }
  | .dismissUploads _ => added = []
  | .settled _ _ => added = []

/-- The uploads in flight that an event does not end. -/
def goingOn (s : UploadQueue) : QueueEvent → List UploadItem
  | .settled id _ => s.inFlight.filter fun u => u.id ≠ id
  | _ => s.inFlight

/-- What an event does to the queue: what it asks for is queued, once, and what is started from then on is in flight
until it ends. -/
structure Extends (s : UploadQueue) (e : QueueEvent) (t : UploadQueue) : Prop where
  queued : ∃ added, s.Asks added e ∧ (ids added).Nodup ∧ t.queued = s.queued ++ added
  started : ∃ begun, t.started = s.started ++ begun ∧ t.inFlight = s.goingOn e ++ begun

theorem Extends.unchanged {s t : UploadQueue} {e : QueueEvent} (hasks : s.Asks [] e)
    (hflight : s.goingOn e = s.inFlight)
    (ht : t.queued = s.queued ∧ t.started = s.started ∧ t.inFlight = s.inFlight) : Extends s e t := by
  obtain ⟨hqueued, hstarted, hsame⟩ := ht
  refine ⟨⟨[], hasks, List.nodup_nil, ?_⟩, [], ?_, ?_⟩
  · rw [hqueued, List.append_nil]
  · rw [hstarted, List.append_nil]
  · rw [hsame, hflight, List.append_nil]

theorem Extends.of_pump {s t : UploadQueue} {e : QueueEvent} {added : List UploadItem} (hasks : s.Asks added e)
    (hnodup : (ids added).Nodup) (hqueued : t.queued = s.queued ++ added) (hstarted : t.started = s.started)
    (hflight : t.inFlight = s.goingOn e) : Extends s e t.pumpUploads := by
  obtain ⟨begun, hbegun, hgoing⟩ := @pumpFrom_begun t.pendingUploads t
  exact ⟨⟨added, hasks, hnodup, pumpFrom_queued.trans hqueued⟩, begun, hstarted ▸ hbegun, hflight ▸ hgoing⟩

theorem file_newItems (s : UploadQueue) (bucketId : String) (keyPrefix : Bytes) (files : List ChosenFile)
    (useRelativePath : Bool) :
    (s.newItems bucketId keyPrefix files useRelativePath).map UploadItem.file = files := by
  rw [newItems, List.map_map]
  exact List.zipIdx_map_fst 0 files

theorem newItems_asks {s : UploadQueue} (h : Sound s) (bucketId : String) (keyPrefix : Bytes) (files : List ChosenFile)
    (useRelativePath : Bool) :
    s.Asks (s.newItems bucketId keyPrefix files useRelativePath)
      (.enqueueFiles bucketId keyPrefix files useRelativePath) := by
  refine ⟨file_newItems s bucketId keyPrefix files useRelativePath, fun u hu hold => ?_, fun u hu => ?_⟩
  · have hnew : u.id ∈ ids (s.newItems bucketId keyPrefix files useRelativePath) := List.mem_map_of_mem hu
    rw [ids_newItems, List.mem_range'_1] at hnew
    have hlt := h.fresh u.id (List.mem_append_left _ hold)
    omega
  · obtain ⟨⟨file, i⟩, -, rfl⟩ := List.mem_map.mp hu
    exact ⟨rfl, rfl, rfl⟩

theorem retriedItems_asks (s : UploadQueue) (named : List ℕ) (overwrite : Bool) :
    s.Asks (s.retriedItems (s.uploads.filter fun u => named.contains u.id) overwrite) (.requeue named overwrite) := by
  rw [Asks, retriedItems, List.filter_filter]
  refine congrArg (List.map _) (List.filter_congr fun u _ => ?_)
  rw [Bool.eq_iff_iff, decide_eq_true_iff]
  simp only [Bool.and_eq_true, bne_iff_ne, Bool.not_eq_true', List.contains_eq_mem, decide_eq_true_eq,
    decide_eq_false_iff_not, ids]
  tauto

/-- An upload that ended is the only one in flight under its ID. -/
theorem eraseP_eq_filter {l : List UploadItem} (h : (ids l).Nodup) (id : ℕ) :
    (l.eraseP fun u => u.id == id) = l.filter fun u => u.id ≠ id := by
  induction l with
  | nil => rfl
  | cons u l ih =>
    rw [ids_cons, List.nodup_cons] at h
    by_cases hid : u.id = id
    · subst hid
      rw [List.eraseP_cons_of_pos (by simp), List.filter_cons_of_neg (by simp), eq_comm, List.filter_eq_self]
      intro v hv
      have hne : v.id ≠ u.id := fun heq => h.1 (List.mem_map.mpr ⟨v, hv, heq⟩)
      exact decide_eq_true hne
    · rw [List.eraseP_cons_of_neg (by simpa using hid), List.filter_cons_of_pos (by simpa using hid), ih h.2]

theorem settled_extends {s : UploadQueue} (h : Sound s) (item : UploadItem) (result : UploadResult) :
    Extends s (.settled item.id result) (s.settled item result).1 := by
  have hnodup := h.waiting_nodup
  rw [ids_append] at hnodup
  have hflight := eraseP_eq_filter (List.nodup_append.mp hnodup).1 item.id
  cases result with
  | success => exact .of_pump rfl List.nodup_nil (List.append_nil _).symm rfl hflight
  | failure status message =>
    unfold settled
    dsimp only
    split
    · exact .of_pump rfl List.nodup_nil (List.append_nil _).symm rfl hflight
    · exact .of_pump rfl List.nodup_nil (List.append_nil _).symm rfl hflight

theorem step_extends {s : UploadQueue} (h : Settled s) (e : QueueEvent) : Extends s e (s.step e).1 := by
  cases e with
  | enqueueFiles bucketId keyPrefix files useRelativePath =>
    have hasks := newItems_asks h.sound bucketId keyPrefix files useRelativePath
    rw [step, enqueueFiles]
    split
    · rename_i hnone
      obtain rfl := List.eq_nil_of_length_eq_zero hnone
      exact .unchanged hasks rfl ⟨rfl, rfl, rfl⟩
    · refine .of_pump hasks ?_ rfl rfl rfl
      rw [ids_newItems]
      exact List.nodup_range'
  | requeue named overwrite =>
    have hasks := retriedItems_asks s named overwrite
    rw [step, requeue]
    dsimp only
    split
    · rename_i hnone
      rw [List.eq_nil_of_length_eq_zero hnone] at hasks
      exact .unchanged hasks rfl ⟨rfl, rfl, rfl⟩
    · exact .of_pump hasks (retriedItems_nodup h.sound List.filter_sublist overwrite) rfl rfl rfl
  | dismissUploads which =>
    have hdismiss {t : UploadQueue} (ht : t.queued = s.queued ∧ t.started = s.started ∧ t.inFlight = s.inFlight) :
        Extends s (.dismissUploads which) t := .unchanged rfl rfl ht
    cases which with
    | conflicts => exact hdismiss ⟨rfl, rfl, rfl⟩
    | finished => exact hdismiss ⟨rfl, rfl, rfl⟩
    | conflict id =>
      rw [step]
      split
      · exact hdismiss ⟨rfl, rfl, rfl⟩
      · exact hdismiss ⟨rfl, rfl, rfl⟩
  | settled id result =>
    rw [step]
    split
    · rename_i item hfind
      have hid : item.id = id := by simpa using List.find?_some hfind
      exact hid ▸ settled_extends h.sound item result
    · rename_i hfind
      refine .unchanged rfl (List.filter_eq_self.mpr fun u hu => ?_) ⟨rfl, rfl, rfl⟩
      simpa using List.find?_eq_none.mp hfind u hu

theorem step_onUploaded {s : UploadQueue} (h : Settled s) (e : QueueEvent) : (s.step e).2 = true ↔
    ∃ id result, e = .settled id result ∧ ids s.inFlight = [id] ∧ s.pendingUploads = [] := by
  have hnever {b : Bool} (hb : b = false) (hne : ∀ id result, e ≠ .settled id result) : b = true ↔
      ∃ id result, e = .settled id result ∧ ids s.inFlight = [id] ∧ s.pendingUploads = [] :=
    ⟨fun ht => absurd (hb.symm.trans ht) Bool.false_ne_true, fun ⟨id, result, he, _⟩ => absurd he (hne id result)⟩
  cases e with
  | enqueueFiles bucketId keyPrefix files useRelativePath => exact hnever rfl fun _ _ => by simp
  | requeue ids overwrite => exact hnever rfl fun _ _ => by simp
  | dismissUploads which =>
    refine hnever ?_ fun _ _ => by simp
    cases which with
    | conflicts => rfl
    | finished => rfl
    | conflict id =>
      rw [step]
      split <;> rfl
  | settled id result =>
    simp only [QueueEvent.settled.injEq, exists_eq_left', exists_and_left, and_assoc]
    rw [step]
    split
    · rename_i item hfind
      have hid : item.id = id := by simpa using List.find?_some hfind
      rw [(settled_spec h (List.mem_of_find?_eq_some hfind) result).2, hid]
    · rename_i hfind
      have hnot : ids s.inFlight ≠ [id] := by
        intro hids
        obtain ⟨u, hu, hid⟩ := List.mem_map.mp (show id ∈ ids s.inFlight by rw [hids]; exact List.mem_singleton_self id)
        have := List.find?_eq_none.mp hfind u hu
        simp [hid] at this
      simp [hnot]

theorem after_settled (events : List QueueEvent) : Settled (after events) := by
  have hrun : ∀ s : UploadQueue, Settled s → Settled (events.foldl (fun s e => (s.step e).1) s) := by
    induction events with
    | nil => exact fun s h => h
    | cons e events ih => exact fun s h => ih _ (step_settled h e)
  refine hrun {} ⟨⟨rfl, Nat.zero_le _, rfl, List.nodup_nil, List.nodup_nil, ?_, ?_⟩, fun h => absurd rfl h⟩
  · exact fun u hu => absurd hu List.not_mem_nil
  · exact fun id hid => absurd hid List.not_mem_nil

/-- **The upload queue keeps its promises after every sequence of events**: the uploads in flight are counted and
bounded, none waits while there is room, they start in the order of the queue, once for each time they are
queued, never twice at a time, and the listing is refreshed when the last one ends. An event queues what it asks for
and nothing else, and what is in flight after it are those that went on and those that it started. -/
theorem uploads_in_order (events : List QueueEvent) :
    (after events).inFlight.length = (after events).activeUploads ∧
      (after events).inFlight.length ≤ maxConcurrentUploads ∧
      ((after events).pendingUploads ≠ [] → (after events).inFlight.length = maxConcurrentUploads) ∧
      (after events).queued = (after events).started ++ (after events).pendingUploads ∧
      (ids (after events).inFlight).Nodup ∧
      ∀ e, Extends (after events) e ((after events).step e).1 ∧ (((after events).step e).2 = true ↔
        ∃ id result, e = .settled id result ∧ ids (after events).inFlight = [id] ∧
          (after events).pendingUploads = []) := by
  have h := after_settled events
  have hactive := h.sound.active_eq
  refine ⟨hactive.symm, hactive ▸ h.sound.active_le, fun hne => hactive ▸ h.no_stall hne, h.sound.queued_eq, ?_,
    fun e => ⟨step_extends h e, step_onUploaded h e⟩⟩
  have hnodup := h.sound.waiting_nodup
  rw [ids_append] at hnodup
  exact (List.nodup_append.mp hnodup).1

end UploadQueue

end GarageConsole.Objects
