import GarageConsole.Lists.Pages
import GarageConsole.Lists.Rows
import GarageConsole.Lists.Schedules

/-! # GET /api/buckets and GET /api/keys

Both handlers list with full infos where Garage offers that, and otherwise join a short listing with infos that are
looked up concurrently. They differ in what is listed only (`ListSource`). The rows are the same either way.
-/

namespace GarageConsole.Lists

open Foundations Foundations.GoJson Foundations.Calls Foundations.Listing GarageConsole.Garage

set_option autoImplicit false

def legacyListLimit : ℕ := 10000

/-- What is listed: the endpoints, what their answers are decoded to, and the rows made from it. -/
structure ListSource (Info Item Row : Type) where
  infoEndpoint : String
  listEndpoint : String
  getEndpoint : String
  idOf : Info → String
  noInfo : Info
  info : Decoder Info
  itemID : Item → String
  noItem : Item
  item : Decoder Item
  fromInfo : Info → Row
  fromItem : Item → Option Info → Row
  toJson : Row → Json

inductive LegacyCall where
  | list
  | lookups (cachePrefix : String) (ids : List String)
  deriving DecidableEq

/-- What `fetchInfoConcurrently` returns, and whether the context is done then. -/
structure Lookups (Info : Type) where
  details : List (Option Info)
  cancelled : Bool

abbrev LegacyCall.Ans (Info : Type) : LegacyCall → Type
  | .list => Reply
  | .lookups _ _ => Lookups Info

abbrev ListReq := LegacyCall ⊕ InfoPage

abbrev ListAns (Info : Type) : ListReq → Type := Sum.elim (LegacyCall.Ans Info) fun _ => Reply

abbrev ListProg (Info α : Type) := Prog ListReq (ListAns Info) α

abbrev ListLog (Info : Type) := List (Exchange ListReq (ListAns Info))

section Handler

variable {Info Item Row : Type} (src : ListSource Info Item Row)

def ListSource.getPath (id : String) : String := src.getEndpoint ++ Url.queryEscape id

/-- What a lookup makes of Garage's answer. -/
def ListSource.fetch (reply : Reply) (id : String) : Option Info :=
  (readReply (src.getPath id) src.info src.noInfo reply).toOption

def ListSource.listAll (known : Bool) : GarageProg InfoPage (InfoOutcome Info) :=
  listAllInfo src.idOf src.noInfo src.info src.infoEndpoint infoPageLimit infoMaxPages known

/-- The list without infos, joined with those that are looked up. -/
def ListSource.legacy (baseURL : String) : ListProg Info (Option Response) :=
  .call (.inl .list) fun reply =>
    match readReply src.listEndpoint (slice src.noItem src.item) none reply with
    | .error e => return some (writeListError e)
    | .ok list =>
      let items := list.getD []
      .call (.inl (.lookups (baseURL ++ "\x00") (items.map src.itemID))) fun looked =>
        -- nothing is written to a client that has gone away
        if looked.cancelled then return none
        else return some (writeListJSON src.toJson (List.zipWith src.fromItem items looked.details)
          (legacyListLimit ≤ items.length))

/-- `known` is the memo of an earlier request: Garage lacks the endpoint with infos. -/
def ListSource.handle (baseURL : String) (known : Bool) : ListProg Info (Option Response) :=
  (src.listAll known).inr >>= fun infos =>
    match infos.result with
    | .ok (infos, truncated) => return some (writeListJSON src.toJson (infos.map src.fromInfo) truncated)
    | .error (.garage e) => return some (writeListError e)
    | .error .unsupported => src.legacy baseURL

end Handler

def buckets : ListSource GarageBucketInfo GarageBucketListItem BucketListItem where
  infoEndpoint := "/v2/ListBucketsInfo"
  listEndpoint := "/v2/ListBuckets"
  getEndpoint := "/v2/GetBucketInfo?id="
  idOf := GarageBucketInfo.id
  noInfo := {}
  info := garageBucketInfo
  itemID := GarageBucketListItem.id
  noItem := {}
  item := garageBucketListItem
  fromInfo := bucketItemFromInfo
  fromItem := bucketItemFromList
  toJson := BucketListItem.toJson

def keys : ListSource GarageKeyInfo GarageKeyListItem KeyListItem where
  infoEndpoint := "/v2/ListKeysInfo"
  listEndpoint := "/v2/ListKeys"
  getEndpoint := "/v2/GetKeyInfo?id="
  idOf := GarageKeyInfo.accessKeyID
  noInfo := {}
  info := garageKeyInfo
  itemID := GarageKeyListItem.id
  noItem := {}
  item := garageKeyListItem
  fromInfo := keyItemFromInfo
  fromItem := keyItemFromList
  toJson := KeyListItem.toJson

def handleListBuckets (baseURL : String) (known : Bool) : ListProg GarageBucketInfo (Option Response) :=
  buckets.handle baseURL known

def handleListKeys (baseURL : String) (known : Bool) : ListProg GarageKeyInfo (Option Response) :=
  keys.handle baseURL known

/-! ## Garage with entries that stay as they are -/

section Unchanged

variable {Info Item Row : Type} (src : ListSource Info Item Row) (Projects : Item → Info → Prop)
  (entries : List Info)

/-- The lookups are a run of `fetchInfoConcurrently` to its end, in any order of its steps: what the cache gives was
read from these entries, and every fetch is answered with its entry. -/
def LooksUp (cachePrefix : String) (ids : List String) (looked : Lookups Info) : Prop :=
  ∃ acts evs c, Call.Run { cachePrefix, ids } acts evs c ∧ c.phase = .returned looked.details ∧
    looked.cancelled = c.cancelled ∧ .cancel ∉ acts ∧
    (∀ it ∈ entries, ∀ i v, .hit i (cachePrefix ++ src.idOf it) v ∈ evs → v = it) ∧
    ∀ it ∈ entries, ∀ i answer, .ended i (src.idOf it) answer ∈ evs →
      ∃ reply, readReply (src.getPath (src.idOf it)) src.info src.noInfo reply = .ok it ∧
        answer = src.fetch reply (src.idOf it)

/-- Garage answers about these entries. Where it does not offer the endpoint with infos (`offered`), it answers that
with an error that is taken for an unknown endpoint. -/
structure Answers (offered : Bool) (log : ListLog Info) : Prop where
  pages : if offered then Honest src.idOf src.noInfo src.info entries (rights log)
    else ∀ r reply, ⟨r, reply⟩ ∈ rights log →
      ∃ e, readReply (GarageCall.path r) (slice src.noInfo src.info) none reply = .error e ∧
        isUnknownEndpoint e true = true
  list : ∀ reply : Reply, (⟨.inl .list, reply⟩ : Exchange ListReq (ListAns Info)) ∈ log →
    ∃ list, readReply src.listEndpoint (slice src.noItem src.item) none reply = .ok list ∧
      List.Forall₂ Projects (list.getD []) entries
  lookups : ∀ cachePrefix ids (looked : Lookups Info),
    (⟨.inl (.lookups cachePrefix ids), looked⟩ : Exchange ListReq (ListAns Info)) ∈ log →
      LooksUp src entries cachePrefix ids looked

/-- An entry of the short list has the ID and the row of the info it shows. -/
structure ListSource.Agrees : Prop where
  id : ∀ item it, Projects item it → src.itemID item = src.idOf it
  row : ∀ item it, Projects item it → src.fromItem item (some it) = src.fromInfo it

variable {src Projects entries}

theorem LooksUp.details_eq {cachePrefix : String} {looked : Lookups Info}
    (h : LooksUp src entries cachePrefix (entries.map src.idOf) looked) :
    looked.cancelled = false ∧ looked.details = entries.map some := by
  obtain ⟨acts, evs, c, hrun, hout, hcancelled, hacts, hhits, hfetches⟩ := h
  refine ⟨hcancelled.trans (hrun.not_cancelled rfl hacts), ?_⟩
  refine hrun.out_eq rfl hout rfl hacts (by simp) ?_ ?_
  · rintro i v ⟨id, hid, hmem⟩
    rw [List.getElem?_map, Option.map_eq_some_iff] at hid
    obtain ⟨it, hit, rfl⟩ := hid
    rw [hhits it (List.mem_of_getElem? hit) i v hmem]
    exact hit
  · intro i id answer hid hmem
    rw [List.getElem?_map, Option.map_eq_some_iff] at hid
    obtain ⟨it, hit, rfl⟩ := hid
    obtain ⟨reply, hread, rfl⟩ := hfetches it (List.mem_of_getElem? hit) i answer hmem
    rw [ListSource.fetch, hread, hit]
    rfl

theorem ids_of_projects (hagrees : src.Agrees Projects) {items : List Item}
    (h : List.Forall₂ Projects items entries) : items.map src.itemID = entries.map src.idOf := by
  induction h with
  | nil => rfl
  | cons hprojects _ ih => rw [List.map_cons, List.map_cons, ih, hagrees.id _ _ hprojects]

theorem rows_of_projects (hagrees : src.Agrees Projects) {items : List Item}
    (h : List.Forall₂ Projects items entries) :
    List.zipWith src.fromItem items (entries.map some) = entries.map src.fromInfo := by
  induction h with
  | nil => rfl
  | cons hprojects _ ih => rw [List.map_cons, List.map_cons, List.zipWith_cons_cons, ih, hagrees.row _ _ hprojects]

variable {offered : Bool} {log : ListLog Info} {baseURL : String} {known : Bool} {out : Option Response}

theorem ListSource.legacy_eq (hagrees : src.Agrees Projects) (hfew : entries.length < legacyListLimit)
    (hanswers : Answers src Projects entries offered log) {rest : ListLog Info} (hrest : ∀ e ∈ rest, e ∈ log)
    (hrun : Runs (src.legacy baseURL) rest out) :
    out = some (writeListJSON src.toJson (entries.map src.fromInfo) false) := by
  rw [ListSource.legacy] at hrun
  obtain ⟨reply, rest', rfl, hlist⟩ := runs_call.mp hrun
  obtain ⟨list, hread, hprojects⟩ := hanswers.list reply (hrest _ List.mem_cons_self)
  rw [hread] at hlist
  obtain ⟨looked, rest'', rfl, hrows⟩ := runs_call.mp hlist
  have hlooked := hanswers.lookups _ _ looked (hrest _ (List.mem_cons_of_mem _ List.mem_cons_self))
  rw [ids_of_projects hagrees hprojects] at hlooked
  obtain ⟨hcancelled, hdetails⟩ := hlooked.details_eq
  have hshort : decide (legacyListLimit ≤ (list.getD []).length) = false := by
    rw [hprojects.length_eq]
    exact decide_eq_false (Nat.not_le_of_lt hfew)
  rw [if_neg (by simp [hcancelled]), hdetails, rows_of_projects hagrees hprojects, hshort] at hrows
  exact (runs_ret.mp hrows).2

/-- Either all infos are listed, or Garage is taken to lack the endpoint. -/
theorem ListSource.listAll_result (hsorted : SortedBy src.idOf entries) (hfew : entries.length < legacyListLimit)
    (hanswers : Answers src Projects entries offered log) {pages : GarageLog InfoPage} {infos : InfoOutcome Info}
    (hpages : ∀ e ∈ pages, e ∈ rights log) (hrun : Runs (src.listAll known) pages infos) :
    infos.result = .ok (entries, false) ∨ infos.result = .error .unsupported := by
  have hanswered := hanswers.pages
  cases offered with
  | false =>
    exact .inr (listAllInfo_unsupported (by decide) hrun fun r reply hmem => hanswered r reply (hpages _ hmem))
  | true =>
    cases known with
    | true =>
      rw [ListSource.listAll, listAllInfo, if_pos rfl] at hrun
      obtain ⟨-, rfl⟩ := runs_ret.mp hrun
      exact .inr rfl
    | false =>
      obtain ⟨items, truncated, hresult, -, hall, hcomplete⟩ := listAllInfo_honest hsorted (by decide) (by decide) hrun
        fun r reply hmem => hanswered r reply (hpages _ hmem)
      have hfits : entries.length ≤ infoMaxPages * (infoPageLimit - 1) := by
        simp only [legacyListLimit, infoMaxPages, infoPageLimit] at hfew ⊢
        omega
      obtain rfl := hcomplete.mpr hfits
      rw [hall rfl] at hresult
      exact .inl hresult

theorem ListSource.handle_eq (hagrees : src.Agrees Projects) (hsorted : SortedBy src.idOf entries)
    (hfew : entries.length < legacyListLimit) (hanswers : Answers src Projects entries offered log)
    (hrun : Runs (src.handle baseURL known) log out) :
    out = some (writeListJSON src.toJson (entries.map src.fromInfo) false) := by
  obtain ⟨l, infos, rest, rfl, hlist, hrest⟩ := runs_bind.mp hrun
  obtain ⟨pages, rfl, hpages⟩ := runs_inr.mp hlist
  have hmem : ∀ e ∈ pages, e ∈ rights (pages.map rightExchange ++ rest) := by
    intro e he
    rw [rights_append, rights_map_right]
    exact List.mem_append_left _ he
  rcases ListSource.listAll_result hsorted hfew hanswers hmem hpages with hresult | hresult
  · rw [hresult] at hrest
    exact (runs_ret.mp hrest).2
  · rw [hresult] at hrest
    exact ListSource.legacy_eq hagrees hfew hanswers (fun e he => List.mem_append_right _ he) hrest

end Unchanged

theorem buckets_agrees : buckets.Agrees GarageBucketListItem.Projects where
  id _ _ h := h.id
  row _ _ h := h.row_eq

theorem keys_agrees : keys.Agrees GarageKeyListItem.Projects where
  id _ _ h := h.id
  row _ _ h := h.row_eq

/-- A bucket with one key, which has a name of its own for it. -/
def docsBucket : GarageBucketInfo :=
  { id := "b", globalAliases := some [], keys := some [⟨"GK", some ["mine"], { read := true }⟩], objects := 2 }

def docsInfo : String :=
  "\x7b\"id\":\"b\",\"globalAliases\":[],\"keys\":[\x7b\"accessKeyId\":\"GK\",\"bucketLocalAliases\":[\"mine\"]," ++
    "\"permissions\":\x7b\"read\":true\x7d\x7d],\"objects\":2\x7d"

def photosBucket : GarageBucketInfo := { id := "p", globalAliases := some ["photos"], keys := some [], objects := 1 }

def photosInfo : String := "\x7b\"id\":\"p\",\"globalAliases\":[\"photos\"],\"keys\":[],\"objects\":1\x7d"

def bothBuckets : List GarageBucketInfo := [docsBucket, photosBucket]

/-- Their entries in the short list. That of the first leaves out the global aliases. -/
def docsItem : GarageBucketListItem := { id := "b", localAliases := some [⟨"GK", "mine"⟩] }

def photosItem : GarageBucketListItem := { id := "p", globalAliases := some ["photos"] }

def bothItems : String :=
  "[\x7b\"id\":\"b\",\"localAliases\":[\x7b\"accessKeyId\":\"GK\",\"alias\":\"mine\"\x7d]\x7d," ++
    "\x7b\"id\":\"p\",\"globalAliases\":[\"photos\"]\x7d]"

def okReply (text : String) : Reply := .answered 200 "" (some (Text.bytes text))

def firstPage : InfoPage := ⟨"/v2/ListBucketsInfo", infoPageLimit, ""⟩

def bothInfos : String := "[" ++ docsInfo ++ "," ++ photosInfo ++ "]"

def infosLog : ListLog GarageBucketInfo := [⟨.inr firstPage, okReply bothInfos⟩]

def legacyLog : ListLog GarageBucketInfo :=
  [⟨.inr firstPage, .answered 400 "" (some (Text.bytes "Unknown API endpoint"))⟩, ⟨.inl .list, okReply bothItems⟩,
   ⟨.inl (.lookups "http://garage\x00" ["b", "p"]), ⟨[some docsBucket, some photosBucket], false⟩⟩]

theorem read_okReply {α : Type} {path text : String} {dec : Decoder α} {zero v : α}
    (h : unmarshal dec zero (Text.bytes text) = some v) : readReply path dec zero (okReply text) = .ok v :=
  readReply_ok_iff.mpr ⟨200, "", _, rfl, by decide, by decide, h⟩

theorem read_infos (path : String) :
    readReply path (slice {} garageBucketInfo) none (okReply bothInfos) = .ok (some bothBuckets) :=
  read_okReply (by decide +kernel)

theorem read_docs (path : String) : readReply path garageBucketInfo {} (okReply docsInfo) = .ok docsBucket :=
  read_okReply (by decide +kernel)

theorem read_photos (path : String) : readReply path garageBucketInfo {} (okReply photosInfo) = .ok photosBucket :=
  read_okReply (by decide +kernel)

theorem read_list (path : String) :
    readReply path (slice {} garageBucketListItem) none (okReply bothItems) = .ok (some [docsItem, photosItem]) :=
  read_okReply (by decide +kernel)

theorem infosLog_runs : Runs (handleListBuckets "http://garage" false) infosLog
    (some (writeListJSON BucketListItem.toJson (bothBuckets.map bucketItemFromInfo) false)) := by
  refine runs_bind.mpr ⟨infosLog, ⟨.ok (bothBuckets, false), false⟩, [], rfl,
    runs_inr.mpr ⟨[⟨firstPage, okReply bothInfos⟩], rfl, .call ?_⟩, .ret _⟩
  rw [show buckets.info = garageBucketInfo from rfl, show buckets.noInfo = {} from rfl, read_infos]
  exact .ret _

def legacyRows : List BucketListItem :=
  [bucketItemFromList docsItem (some docsBucket), bucketItemFromList photosItem (some photosBucket)]

theorem legacyLog_runs : Runs (handleListBuckets "http://garage" false) legacyLog
    (some (writeListJSON BucketListItem.toJson legacyRows false)) := by
  have hunsupported : Runs (buckets.listAll false)
      [⟨firstPage, .answered 400 "" (some (Text.bytes "Unknown API endpoint"))⟩] ⟨.error .unsupported, true⟩ :=
    .call (.ret _)
  have hlegacy : Runs (buckets.legacy "http://garage") (legacyLog.drop 1)
      (some (writeListJSON BucketListItem.toJson legacyRows false)) := by
    refine runs_call.mpr ⟨okReply bothItems, _, rfl, ?_⟩
    rw [show buckets.item = garageBucketListItem from rfl, show buckets.noItem = {} from rfl, read_list]
    exact runs_call.mpr ⟨⟨[some docsBucket, some photosBucket], false⟩, [], rfl, .ret _⟩
  exact runs_bind.mpr ⟨legacyLog.take 1, _, legacyLog.drop 1, rfl, runs_inr.mpr ⟨_, rfl, hunsupported⟩, hlegacy⟩

theorem infosLog_answers : Answers buckets GarageBucketListItem.Projects bothBuckets true infosLog where
  pages := by
    intro r reply hmem
    obtain ⟨rfl, hreply⟩ := Sigma.mk.inj (List.mem_singleton.mp hmem)
    obtain rfl := eq_of_heq hreply
    exact ⟨_, read_infos _, rfl⟩
  list reply hmem := by cases (Sigma.mk.inj (List.mem_singleton.mp hmem)).1
  lookups cachePrefix ids looked hmem := by cases (Sigma.mk.inj (List.mem_singleton.mp hmem)).1

def bothCall : Call GarageBucketInfo := { cachePrefix := "http://garage\x00", ids := ["b", "p"] }

/-- Two workers, and the second bucket is answered before the first. -/
theorem bothCall_run : bothCall.Run
    [.purge, .look, .look, .spawn, .take 0, .take 1, .answer 1 false, .store 1, .answer 0 false, .store 0, .close,
      .finish]
    [.started 0 "b", .started 1 "p", .ended 1 "p" (buckets.fetch (okReply photosInfo) "p"),
      .ended 0 "b" (buckets.fetch (okReply docsInfo) "b")]
    { bothCall with phase := .returned [some docsBucket, some photosBucket] } := by
  have go {acts evs} {c c' : Call GarageBucketInfo} (answer : GarageBucketInfo) (h : bothCall.Run acts evs c)
      (a : CallAction) (hstep : c.step (fun _ => none) (fun _ => some answer) a = some c') := h.step hstep
  have hdocs : buckets.fetch (okReply docsInfo) "b" = some docsBucket := by
    rw [ListSource.fetch, show buckets.info = garageBucketInfo from rfl, show buckets.noInfo = {} from rfl, read_docs]
    rfl
  have hphotos : buckets.fetch (okReply photosInfo) "p" = some photosBucket := by
    rw [ListSource.fetch, show buckets.info = garageBucketInfo from rfl, show buckets.noInfo = {} from rfl, read_photos]
    rfl
  rw [hdocs, hphotos]
  have purged := go docsBucket .start .purge rfl
  have looked := go docsBucket (go docsBucket purged .look rfl) .look rfl
  have spawned := go docsBucket looked .spawn rfl
  have taken := go docsBucket (go docsBucket spawned (.take 0) rfl) (.take 1) rfl
  have photos := go photosBucket (go photosBucket taken (.answer 1 false) rfl) (.store 1) rfl
  have docs := go docsBucket (go docsBucket photos (.answer 0 false) rfl) (.store 0) rfl
  have closed := go docsBucket docs .close rfl
  exact go docsBucket closed .finish rfl

theorem bothCall_looksUp : LooksUp buckets bothBuckets "http://garage\x00" ["b", "p"]
    ⟨[some docsBucket, some photosBucket], false⟩ := by
  refine ⟨_, _, _, bothCall_run, rfl, rfl, by decide, ?_, ?_⟩
  · intro it _ i v hmem
    simp at hmem
  · intro it hit i answer hmem
    simp only [List.mem_cons, reduceCtorEq, false_or, Event.ended.injEq, List.not_mem_nil, or_false] at hmem
    rcases List.mem_cons.mp hit with rfl | hit
    · obtain ⟨-, hid, -⟩ | ⟨-, -, hanswer⟩ := hmem
      · exact absurd hid (by decide)
      · exact ⟨okReply docsInfo, read_docs _, hanswer⟩
    · obtain rfl := List.mem_singleton.mp hit
      obtain ⟨-, -, hanswer⟩ | ⟨-, hid, -⟩ := hmem
      · exact ⟨okReply photosInfo, read_photos _, hanswer⟩
      · exact absurd hid (by decide)

theorem legacyLog_answers : Answers buckets GarageBucketListItem.Projects bothBuckets false legacyLog where
  pages := by
    intro r reply hmem
    obtain ⟨rfl, hreply⟩ := Sigma.mk.inj (List.mem_singleton.mp hmem)
    obtain rfl := eq_of_heq hreply
    exact ⟨_, rfl, by decide⟩
  list reply hmem := by
    rcases List.mem_cons.mp hmem with hmem | hmem
    · cases (Sigma.mk.inj hmem).1
    · rcases List.mem_cons.mp hmem with hmem | hmem
      · obtain rfl := eq_of_heq (Sigma.mk.inj hmem).2
        exact ⟨_, read_list _, .cons ⟨rfl, rfl, rfl, rfl⟩ (.cons ⟨rfl, rfl, rfl, rfl⟩ .nil)⟩
      · cases (Sigma.mk.inj (List.mem_singleton.mp hmem)).1
  lookups cachePrefix ids looked hmem := by
    rcases List.mem_cons.mp hmem with hmem | hmem
    · cases (Sigma.mk.inj hmem).1
    · rcases List.mem_cons.mp hmem with hmem | hmem
      · cases (Sigma.mk.inj hmem).1
      · obtain ⟨hcall, hlooked⟩ := Sigma.mk.inj (List.mem_singleton.mp hmem)
        cases hcall
        obtain rfl := eq_of_heq hlooked
        exact bothCall_looksUp

end GarageConsole.Lists
