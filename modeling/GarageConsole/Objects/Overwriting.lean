import GarageConsole.Objects.Upload

/-! # Uploads that are not to overwrite

Any number of uploads with `overwrite=false` run side by side. S3 answers one request after another; what
it answers an upload's check is true when it is answered. Two uploads of one key may both be told that the key
is free, and then both write it (`both_uploads_created`). Which runs go well is decided by what happens
between an upload's check and its upload (`no_silent_overwrite_iff`).
-/

namespace GarageConsole.Objects

open Foundations Foundations.Text Foundations.Calls GarageConsole.Garage

set_option autoImplicit false

variable {ι : Type}

/-- Who wrote an object: one of the uploads, or someone before them. -/
inductive Writer (ι : Type) where
  | before
  | upload (i : ι)
  deriving DecidableEq

/-- The objects, by bucket and key. -/
abbrev ObjectStore (ι : Type) := String × Bytes → Option (Writer ι)

abbrev UploadEvent (ι : Type) := Event ι UploadCall UploadCall.Ans

/-- S3, which knows whose request it serves. It may fail any request. -/
def uploadStore : Service (ObjectStore ι) (ι × UploadCall) fun r => r.2.Ans
  | s, (_, .headObject bucket key), found, s' =>
    s' = s ∧ (found = Except.ok () → (s (bucket, key)).isSome = true) ∧ (Absent found → s (bucket, key) = none)
  | s, (i, .upload bucket key _), answer, s' =>
    (answer.error = none → answer.stored = true) ∧
      s' = if answer.stored then Function.update s (bucket, key) (some (.upload i)) else s
  | s, (_, .invalidateListCaches), _, s' => s' = s

/-! ## Who wrote a key -/

variable {bucket : String} {key : Bytes}

def storedBy (bucket : String) (key : Bytes) : UploadEvent ι → Option ι
  | ⟨(i, .upload b k _), answer⟩ => if b = bucket ∧ k = key ∧ answer.stored = true then some i else none
  | ⟨(_, .headObject _ _), _⟩ => none
  | ⟨(_, .invalidateListCaches), _⟩ => none

/-- The uploads that were stored under the key, in their order. -/
def writers (bucket : String) (key : Bytes) (events : List (UploadEvent ι)) : List ι :=
  events.filterMap (storedBy bucket key)

theorem writers_append (l r : List (UploadEvent ι)) :
    writers bucket key (l ++ r) = writers bucket key l ++ writers bucket key r := List.filterMap_append

theorem writers_cons_none {e : UploadEvent ι} {events : List (UploadEvent ι)} (h : storedBy bucket key e = none) :
    writers bucket key (e :: events) = writers bucket key events := List.filterMap_cons_none h

theorem writers_cons_some {e : UploadEvent ι} {events : List (UploadEvent ι)} {i : ι}
    (h : storedBy bucket key e = some i) :
    writers bucket key (e :: events) = i :: writers bucket key events := List.filterMap_cons_some h

theorem mem_writers {events : List (UploadEvent ι)} {i : ι} : i ∈ writers bucket key events ↔
    ∃ part answer, (⟨(i, .upload bucket key part), answer⟩ : UploadEvent ι) ∈ events ∧ answer.stored = true := by
  rw [writers, List.mem_filterMap]
  constructor
  · rintro ⟨⟨⟨j, call⟩, answer⟩, hmem, hstored⟩
    cases call with
    | headObject b k => cases hstored
    | invalidateListCaches => cases hstored
    | upload b k part =>
      rw [storedBy] at hstored
      split_ifs at hstored with h
      obtain rfl := Option.some.inj hstored
      obtain ⟨rfl, rfl, hanswer⟩ := h
      exact ⟨part, answer, hmem, hanswer⟩
  · rintro ⟨part, answer, hmem, hanswer⟩
    exact ⟨_, hmem, if_pos ⟨rfl, rfl, hanswer⟩⟩

theorem step_holds {s s' : ObjectStore ι} {e : UploadEvent ι} (h : uploadStore s e.1 e.2 s') :
    s' (bucket, key) = ((storedBy bucket key e).map Writer.upload).or (s (bucket, key)) := by
  obtain ⟨⟨i, call⟩, answer⟩ := e
  cases call with
  | headObject b k => rw [h.1, storedBy, Option.map_none, Option.none_or]
  | invalidateListCaches => rw [show s' = s from h, storedBy, Option.map_none, Option.none_or]
  | upload b k part =>
    obtain ⟨-, rfl⟩ := h
    dsimp only
    rw [storedBy]
    by_cases hstored : answer.stored = true
    · rw [if_pos hstored]
      by_cases hkey : b = bucket ∧ k = key
      · obtain ⟨rfl, rfl⟩ := hkey
        rw [Function.update_self, if_pos ⟨rfl, rfl, hstored⟩]
        rfl
      · rw [Function.update_of_ne fun heq => hkey (by cases heq; exact ⟨rfl, rfl⟩),
          if_neg fun h => hkey ⟨h.1, h.2.1⟩, Option.map_none, Option.none_or]
    · rw [if_neg hstored, if_neg fun h => hstored h.2.2, Option.map_none, Option.none_or]

/-- The key holds what was stored last. -/
theorem served_holds {events : List (UploadEvent ι)} {s s' : ObjectStore ι} (h : Served uploadStore s events s') :
    s' (bucket, key) = ((writers bucket key events).getLast?.map Writer.upload).or (s (bucket, key)) := by
  induction events generalizing s with
  | nil =>
    rw [served_nil.mp h]
    rfl
  | cons e events ih =>
    obtain ⟨t, hstep, hserved⟩ := served_cons_exchange.mp h
    rw [ih hserved, step_holds hstep]
    cases hstored : storedBy bucket key e with
    | none => rw [writers_cons_none hstored, Option.map_none, Option.none_or]
    | some i =>
      rw [writers_cons_some hstored, List.getLast?_cons]
      cases (writers bucket key events).getLast? with
      | none => rfl
      | some j => rfl

/-! ## Runs of uploads -/

section Runs

variable [DecidableEq ι]

/-- A run of uploads that are not to overwrite, as far as it has come. -/
structure UploadRun (limit : ℤ) (requests : ι → UploadRequest) (s₀ : ObjectStore ι) (events : List (UploadEvent ι))
    (ends : ι → UploadProg (Except Response Uploaded)) : Prop where
  keeps : ∀ i, (requests i).overwrite = bytes "false"
  calls : Interleaved (fun i => handleUploadObject limit (requests i)) events ends
  served : ∃ s, Served uploadStore s₀ events s

/-- At most one upload of the key ends with a 201, and none is stored over another's object. -/
structure NoSilentOverwrite (bucket : String) (key : Bytes) (s₀ : ObjectStore ι) (events : List (UploadEvent ι))
    (ends : ι → UploadProg (Except Response Uploaded)) : Prop where
  created : ∀ i j, ends i = .ret (.ok ⟨bucket, key⟩) → ends j = .ret (.ok ⟨bucket, key⟩) → i = j
  kept : ∀ before after i part answer s w,
    events = before ++ ⟨(i, .upload bucket key part), answer⟩ :: after → answer.stored = true →
      Served uploadStore s₀ before s → s (bucket, key) = some w → w = .upload i

/-- Nothing is stored under the key between an upload's check of it and the upload, if that is stored. -/
def Undisturbed (bucket : String) (key : Bytes) (events : List (UploadEvent ι)) : Prop :=
  ∀ before between after i found part answer,
    events = before ++ ⟨(i, .headObject bucket key), found⟩ ::
        (between ++ ⟨(i, .upload bucket key part), answer⟩ :: after) →
      answer.stored = true → writers bucket key between = []

variable {limit : ℤ} {requests : ι → UploadRequest} {s₀ : ObjectStore ι} {events : List (UploadEvent ι)}
  {ends : ι → UploadProg (Except Response Uploaded)}

/-- An upload was checked, and its check is all it did before. -/
theorem UploadRun.checked (hrun : UploadRun limit requests s₀ events ends) {before after : List (UploadEvent ι)} {i : ι}
    {part : Part} {answer : UploadAnswer}
    (hevents : events = before ++ ⟨(i, .upload bucket key part), answer⟩ :: after) :
    ∃ found, Absent found ∧ callsOf i before = [⟨.headObject bucket key, found⟩] := by
  have hpath := hrun.calls i
  have hsplit : callsOf i events = callsOf i before ++ ⟨.upload bucket key part, answer⟩ :: callsOf i after := by
    rw [hevents, callsOf_append]
    exact congrArg _ (callsOf_cons_self i ⟨.upload bucket key part, answer⟩ after)
  exact checked_before_upload (hrun.keeps i) hpath hsplit

theorem UploadRun.not_written_twice (hrun : UploadRun limit requests s₀ events ends)
    {before after : List (UploadEvent ι)} {i : ι} {part : Part} {answer : UploadAnswer}
    (hevents : events = before ++ ⟨(i, .upload bucket key part), answer⟩ :: after) :
    i ∉ writers bucket key before := by
  intro hmem
  obtain ⟨found, -, hcalls⟩ := hrun.checked hevents
  obtain ⟨part', answer', hevent, -⟩ := mem_writers.mp hmem
  have hcall : (⟨.upload bucket key part', answer'⟩ : Exchange UploadCall UploadCall.Ans) ∈ callsOf i before :=
    mem_callsOf.mpr hevent
  rw [hcalls, List.mem_singleton] at hcall
  cases hcall

/-- In an undisturbed run the key is still free when an upload is stored. -/
theorem UploadRun.free (hrun : UploadRun limit requests s₀ events ends) (hundisturbed : Undisturbed bucket key events)
    {before after : List (UploadEvent ι)} {i : ι} {part : Part} {answer : UploadAnswer} {s : ObjectStore ι}
    (hevents : events = before ++ ⟨(i, .upload bucket key part), answer⟩ :: after) (hstored : answer.stored = true)
    (hserved : Served uploadStore s₀ before s) : s (bucket, key) = none := by
  obtain ⟨found, habsent, hcalls⟩ := hrun.checked hevents
  obtain ⟨start, between, rfl, -, -⟩ := split_of_callsOf (l := []) hcalls
  have hnone : writers bucket key between = [] :=
    hundisturbed start between after i found part answer (by rw [hevents, List.append_assoc]; rfl) hstored
  obtain ⟨t, -, hrest⟩ := served_append.mp hserved
  obtain ⟨u, hstep, hbetween⟩ := served_cons_exchange.mp hrest
  obtain ⟨rfl, -, hfree⟩ : u = t ∧ _ := hstep
  rw [served_holds hbetween, hnone, hfree habsent]
  rfl

theorem UploadRun.stored_of_created (hrun : UploadRun limit requests s₀ events ends) {i : ι}
    (h : ends i = .ret (.ok ⟨bucket, key⟩)) : i ∈ writers bucket key events := by
  have hpath := hrun.calls i
  rw [h] at hpath
  obtain ⟨part, answer, hmem, herror⟩ := uploaded_of_created (hrun.keeps i) hpath
  obtain ⟨before, after, hevents⟩ := List.append_of_mem (mem_callsOf.mp hmem)
  obtain ⟨s, hserved⟩ := hrun.served
  rw [hevents] at hserved
  obtain ⟨t, -, hrest⟩ := served_append.mp hserved
  obtain ⟨u, hstep, -⟩ := served_cons_exchange.mp hrest
  rw [mem_writers, hevents]
  exact ⟨part, answer, List.mem_append_right _ List.mem_cons_self, hstep.1 herror⟩

theorem UploadRun.served_before (hrun : UploadRun limit requests s₀ events ends) {before after : List (UploadEvent ι)}
    (hevents : events = before ++ after) : ∃ s, Served uploadStore s₀ before s := by
  obtain ⟨t, hserved⟩ := hrun.served
  rw [hevents] at hserved
  obtain ⟨s, hbefore, -⟩ := served_append.mp hserved
  exact ⟨s, hbefore⟩

/-- In an undisturbed run an upload that is stored is the first to be. -/
theorem UploadRun.first_written (hrun : UploadRun limit requests s₀ events ends)
    (hundisturbed : Undisturbed bucket key events) {i : ι} (h : i ∈ writers bucket key events) :
    ∃ rest, writers bucket key events = i :: rest := by
  obtain ⟨part, answer, hmem, hstored⟩ := mem_writers.mp h
  obtain ⟨before, after, hevents⟩ := List.append_of_mem hmem
  obtain ⟨s, hserved⟩ := hrun.served_before hevents
  have hfree := hrun.free hundisturbed hevents hstored hserved
  have hnone : writers bucket key before = [] := by
    rw [served_holds hserved, Option.or_eq_none_iff, Option.map_eq_none_iff] at hfree
    exact List.getLast?_eq_none_iff.mp hfree.1
  refine ⟨writers bucket key after, ?_⟩
  rw [hevents, writers_append, hnone, List.nil_append]
  exact writers_cons_some (if_pos ⟨rfl, rfl, hstored⟩)

/-- **When no object is silently overwritten.** Any number of uploads with `overwrite=false` run side by side in
any order, up to any point, with any requests and any failures. For every key: at most one of them ends with a
201 and none is stored over an object that another wrote, if and only if nothing is stored under the key between
the check of an upload and that upload. -/
theorem no_silent_overwrite_iff (hrun : UploadRun limit requests s₀ events ends) :
    NoSilentOverwrite bucket key s₀ events ends ↔ Undisturbed bucket key events := by
  constructor
  · intro hsafe before between after i found part answer hevents hstored
    by_contra hwritten
    have hsplit : events = (before ++ ⟨(i, .headObject bucket key), found⟩ :: between) ++
        ⟨(i, .upload bucket key part), answer⟩ :: after := by
      rw [hevents, List.append_assoc, List.cons_append]
    obtain ⟨s, hserved⟩ := hrun.served_before hsplit
    -- the last that was stored before the upload is there, so it is the upload's own
    have hne : writers bucket key (before ++ ⟨(i, .headObject bucket key), found⟩ :: between) ≠ [] := by
      rw [writers_append, writers_cons_none rfl]
      exact List.append_ne_nil_of_right_ne_nil _ hwritten
    have hholds : s (bucket, key) = _ := served_holds hserved
    rw [List.getLast?_eq_some_getLast hne, Option.map_some, Option.some_or] at hholds
    have hown := hsafe.kept _ _ _ _ _ _ _ hsplit hstored hserved hholds
    have hmem := List.getLast_mem hne
    rw [Writer.upload.inj hown] at hmem
    exact hrun.not_written_twice hsplit hmem
  · intro hundisturbed
    constructor
    · intro i j hi hj
      obtain ⟨l, hl⟩ := hrun.first_written hundisturbed (hrun.stored_of_created hi)
      obtain ⟨r, hr⟩ := hrun.first_written hundisturbed (hrun.stored_of_created hj)
      rw [hl] at hr
      exact (List.cons.inj hr).1
    · intro before after i part answer s w hevents hstored hserved hholds
      rw [hrun.free hundisturbed hevents hstored hserved] at hholds
      cases hholds

end Runs

/-! ## Two uploads of one key -/

def oneFile : UploadRequest where
  bucket := "b"
  overwrite := bytes "false"
  key := bytes "k"
  parts := [{ formName := "file", content := bytes "x" }]

def notFound : S3Error := ⟨"api error NotFound: Not Found", some "NotFound"⟩

def check (i : Bool) (found : Except S3Error Unit) : UploadEvent Bool := ⟨(i, .headObject "b" (bytes "k")), found⟩

def store (i : Bool) : UploadEvent Bool :=
  ⟨(i, .upload "b" (bytes "k") { formName := "file", content := bytes "x" }), ⟨true, none⟩⟩

def invalidate (i : Bool) : UploadEvent Bool := ⟨(i, .invalidateListCaches), ()⟩

def emptyStore : ObjectStore Bool := fun _ => none

/-- Both checks, then both uploads. -/
def raceEvents : List (UploadEvent Bool) :=
  [check false (.error notFound), check true (.error notFound), store false, store true, invalidate false,
    invalidate true]

def bothCreated (_ : Bool) : UploadProg (Except Response Uploaded) := .ret (.ok ⟨"b", bytes "k"⟩)

theorem created_path : Path (handleUploadObject 100 oneFile)
    [⟨.headObject "b" (bytes "k"), .error notFound⟩,
      ⟨.upload "b" (bytes "k") { formName := "file", content := bytes "x" }, ⟨true, none⟩⟩, ⟨.invalidateListCaches, ()⟩]
    (.ret (.ok ⟨"b", bytes "k"⟩)) :=
  .call (.call (.call (.nil _)))

theorem checked_free (i : Bool) {events : List (UploadEvent Bool)} {s : ObjectStore Bool}
    (h : Served uploadStore emptyStore events s) :
    Served uploadStore emptyStore (check i (.error notFound) :: events) s := by
  refine .cons ⟨rfl, ?_, fun _ => rfl⟩ h
  intro hfound
  cases hfound

/-- Both uploads of a key that was free end with a 201. -/
theorem both_uploads_created : UploadRun 100 (fun _ => oneFile) emptyStore raceEvents bothCreated ∧
    emptyStore ("b", bytes "k") = none ∧ ¬NoSilentOverwrite "b" (bytes "k") emptyStore raceEvents bothCreated := by
  refine ⟨⟨fun _ => rfl, ?_, ?_⟩, rfl, ?_⟩
  · intro i
    cases i with
    | false => exact created_path
    | true => exact created_path
  · have hstores : ∃ s, Served uploadStore emptyStore [store false, store true, invalidate false, invalidate true] s :=
      ⟨_, .cons ⟨fun _ => rfl, rfl⟩ (.cons ⟨fun _ => rfl, rfl⟩ (.cons rfl (.cons rfl (.nil _))))⟩
    obtain ⟨s, hserved⟩ := hstores
    exact ⟨s, checked_free false (checked_free true hserved)⟩
  · intro h
    cases h.created false true rfl rfl

/-- One upload after the other; the second is refused. -/
def inTurn : List (UploadEvent Bool) :=
  [check false (.error notFound), store false, invalidate false, check true (.ok ())]

def firstCreated : Bool → UploadProg (Except Response Uploaded)
  | false => .ret (.ok ⟨"b", bytes "k"⟩)
  | true => .ret (.error (writeObjectError 409 "object already exists: k" "ObjectAlreadyExists"))

theorem in_turn_run : UploadRun 100 (fun _ => oneFile) emptyStore inTurn firstCreated := by
  refine ⟨fun _ => rfl, ?_, ?_⟩
  · intro i
    cases i with
    | false => exact created_path
    | true => exact .call (.nil _)
  · have hfound : ¬Absent (.ok () : Except S3Error Unit) := by
      intro habsent
      cases habsent
    have hrest : ∃ s, Served uploadStore emptyStore [store false, invalidate false, check true (.ok ())] s :=
      ⟨_, .cons ⟨fun _ => rfl, rfl⟩ (.cons rfl (.cons ⟨rfl, fun _ => rfl, fun h => absurd h hfound⟩ (.nil _)))⟩
    obtain ⟨s, hserved⟩ := hrest
    exact ⟨s, checked_free false hserved⟩

theorem no_silent_overwrite_in_turn : NoSilentOverwrite "b" (bytes "k") emptyStore inTurn firstCreated ↔
    Undisturbed "b" (bytes "k") inTurn :=
  no_silent_overwrite_iff in_turn_run

end GarageConsole.Objects
