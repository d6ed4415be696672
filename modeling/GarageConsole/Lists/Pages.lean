import Mathlib.Data.List.Infix
import Mathlib.Data.List.Nodup
import Mathlib.Data.String.Basic
import GarageConsole.Foundations.Listing
import GarageConsole.Foundations.Url
import GarageConsole.Garage.Client

/-! # Reading a whole list in pages

`listAllInfo` pages through ListBucketsInfo and ListKeysInfo. The offset of a request is the ID of the first
entry to return, so a page repeats the last entry of the one before it. Nothing is assumed of the answers,
except in the section on an upstream that keeps to this (`Honest`).
-/

namespace GarageConsole.Lists

open Foundations Foundations.Text Foundations.GoJson Foundations.Calls Foundations.Listing GarageConsole.Garage

set_option autoImplicit false

def infoPageLimit : ℕ := 1000

def infoMaxPages : ℕ := 100

/-- A request for one page; an empty offset is not sent. -/
structure InfoPage where
  endpoint : String
  limit : ℕ
  offset : String
  deriving DecidableEq

instance : GarageCall InfoPage where
  path r := r.endpoint ++ "?limit=" ++ toString r.limit ++
    if r.offset = "" then "" else "&offset=" ++ Url.queryEscape r.offset

inductive ListInfoError where
  | unsupported
  | garage (e : GarageError)
  deriving DecidableEq

/-- What a listing returns: the entries and whether some may be missing; and whether it noted down that
Garage lacks the endpoint. -/
structure InfoOutcome (α : Type) where
  result : Except ListInfoError (List α × Bool)
  marksUnsupported : Bool

def isUnknownEndpoint (e : GarageError) (firstPage : Bool) : Bool :=
  match e with
  | .status _ status _ body =>
    (status = 400 && bytes "Unknown API endpoint" <:+: body) || (firstPage && (status = 400 || status = 404))
  | .decode _ => firstPage
  | _ => false

section Pages

variable {α : Type} (idOf : α → String)

/-- The items go to the end of `all` up to one whose ID is already there; `seen` is the set of the IDs of
`all`. -/
def appendNew (all : List α) : List α → List α × Bool
  | [] => (all, false)
  | it :: items => if idOf it ∈ all.map idOf then (all, true) else appendNew (all ++ [it]) items

/-- A page without the entry that ended the page before it. -/
def dropOffset (offset : String) : List α → List α
  | [] => []
  | it :: items => if offset ≠ "" ∧ idOf it = offset then items else it :: items

variable (zero : α) (dec : Decoder α) (endpoint : String) (limit : ℕ)

/-- The loop, with the number of pages that may still be read. -/
def listPages : ℕ → Bool → List α → String → GarageProg InfoPage (InfoOutcome α)
  | 0, _, all, _ => return ⟨.ok (all, true), false⟩
  | pages + 1, firstPage, all, offset => .call ⟨endpoint, limit, offset⟩ fun reply =>
    match readReply (GarageCall.path (⟨endpoint, limit, offset⟩ : InfoPage)) (slice zero dec) none reply with
    | .error e =>
      if isUnknownEndpoint e firstPage then return ⟨.error .unsupported, true⟩
      else return ⟨.error (.garage e), false⟩
    | .ok page =>
      let items := dropOffset idOf offset (page.getD [])
      match appendNew idOf all items with
      | (all, true) => return ⟨.ok (all, true), false⟩
      | (all, false) =>
        if (page.getD []).length < limit ∨ items = [] then return ⟨.ok (all, false), false⟩
        else
          -- `all` ends in the last of `items`
          let next := (all.getLast?.map idOf).getD ""
          if next = offset then return ⟨.ok (all, true), false⟩
          else listPages pages false all next

/-- `knownUnsupported` is the memo of an earlier request. -/
def listAllInfo (maxPages : ℕ) (knownUnsupported : Bool) : GarageProg InfoPage (InfoOutcome α) :=
  if knownUnsupported then return ⟨.error .unsupported, false⟩
  else listPages idOf zero dec endpoint limit maxPages true [] ""

/-! ## Any upstream -/

theorem nodup_appendNew {items : List α} : ∀ {all : List α}, (all.map idOf).Nodup →
    ((appendNew idOf all items).1.map idOf).Nodup := by
  induction items with
  | nil => exact fun h => h
  | cons it items ih =>
    intro all h
    rw [appendNew]
    split_ifs with hseen
    · exact h
    · refine ih ?_
      rw [List.map_append, List.map_singleton, List.nodup_append]
      refine ⟨h, List.nodup_singleton _, ?_⟩
      rintro a ha b hb rfl
      exact hseen (List.mem_singleton.mp hb ▸ ha)

theorem appendNew_of_nodup {items : List α} : ∀ {all : List α}, ((all ++ items).map idOf).Nodup →
    appendNew idOf all items = (all ++ items, false) := by
  induction items with
  | nil =>
    intro all _
    rw [appendNew, List.append_nil]
  | cons it items ih =>
    intro all h
    have hnew : idOf it ∉ all.map idOf := by
      rw [List.map_append, List.map_cons, List.nodup_append] at h
      exact fun hmem => h.2.2 _ hmem _ List.mem_cons_self rfl
    rw [List.append_cons all it items] at h
    rw [appendNew, if_neg hnew, List.append_cons all it items]
    exact ih h

variable {idOf zero dec endpoint limit}

/-- What a run is after its first page: it ends with that page, or goes on with the pages that are left. -/
theorem listPages_succ_runs {pages : ℕ} {firstPage : Bool} {all : List α} {offset : String}
    {log : GarageLog InfoPage} {out : InfoOutcome α}
    (hrun : Runs (listPages idOf zero dec endpoint limit (pages + 1) firstPage all offset) log out) :
    ∃ reply rest, log = ⟨⟨endpoint, limit, offset⟩, reply⟩ :: rest ∧
      ((rest = [] ∧ ((∃ e, out.result = .error e) ∨
          ∃ items truncated, out.result = .ok ((appendNew idOf all items).1, truncated))) ∨
        ∃ items next, Runs (listPages idOf zero dec endpoint limit pages false (appendNew idOf all items).1 next)
          rest out) := by
  rw [listPages] at hrun
  obtain ⟨reply, rest, rfl, hrest⟩ := runs_call.mp hrun
  refine ⟨reply, rest, rfl, ?_⟩
  cases hread : readReply (GarageCall.path (⟨endpoint, limit, offset⟩ : InfoPage)) (slice zero dec) none reply with
  | error e =>
    rw [hread] at hrest
    dsimp only at hrest
    split_ifs at hrest <;> obtain ⟨rfl, rfl⟩ := runs_ret.mp hrest
    · exact .inl ⟨rfl, .inl ⟨_, rfl⟩⟩
    · exact .inl ⟨rfl, .inl ⟨_, rfl⟩⟩
  | ok page =>
    rw [hread] at hrest
    dsimp only at hrest
    cases happend : appendNew idOf all (dropOffset idOf offset (page.getD [])) with
    | mk all' repeats =>
      rw [happend] at hrest
      have hall : all' = (appendNew idOf all (dropOffset idOf offset (page.getD []))).1 := by rw [happend]
      cases repeats with
      | true =>
        obtain ⟨rfl, rfl⟩ := runs_ret.mp hrest
        exact .inl ⟨rfl, .inr ⟨_, true, by rw [← hall]⟩⟩
      | false =>
        dsimp only at hrest
        split_ifs at hrest
        · obtain ⟨rfl, rfl⟩ := runs_ret.mp hrest
          exact .inl ⟨rfl, .inr ⟨_, false, by rw [← hall]⟩⟩
        · obtain ⟨rfl, rfl⟩ := runs_ret.mp hrest
          exact .inl ⟨rfl, .inr ⟨_, true, by rw [← hall]⟩⟩
        · rw [hall] at hrest
          exact .inr ⟨_, _, hrest⟩

theorem listPages_runs : ∀ {pages : ℕ} {firstPage : Bool} {all : List α} {offset : String}
    {log : GarageLog InfoPage} {out : InfoOutcome α}, (all.map idOf).Nodup →
    Runs (listPages idOf zero dec endpoint limit pages firstPage all offset) log out →
      log.length ≤ pages ∧ ∀ items truncated, out.result = .ok (items, truncated) → (items.map idOf).Nodup := by
  intro pages
  induction pages with
  | zero =>
    intro firstPage all offset log out hall hrun
    obtain ⟨rfl, rfl⟩ := runs_ret.mp hrun
    refine ⟨Nat.le_refl _, fun items truncated hout => ?_⟩
    obtain ⟨rfl, -⟩ := Prod.mk.inj (Except.ok.inj hout)
    exact hall
  | succ pages ih =>
    intro firstPage all offset log out hall hrun
    obtain ⟨reply, rest, rfl, ⟨rfl, hend⟩ | ⟨items, next, hrest⟩⟩ := listPages_succ_runs hrun
    · refine ⟨Nat.succ_le_succ (Nat.zero_le _), fun items truncated hout => ?_⟩
      rcases hend with ⟨e, herr⟩ | ⟨items', truncated', hok⟩
      · rw [herr] at hout
        cases hout
      · rw [hok] at hout
        obtain ⟨rfl, -⟩ := Prod.mk.inj (Except.ok.inj hout)
        exact nodup_appendNew idOf hall
    · obtain ⟨hlen, hitems⟩ := ih (nodup_appendNew idOf hall) hrest
      exact ⟨Nat.succ_le_succ hlen, hitems⟩

/-! ## An upstream that pages through a list -/

/-- The page of a list that is asked for: the offset names its first entry. -/
def servePage (idOf : α → String) (list : List α) (r : InfoPage) : List α :=
  (if r.offset = "" then list else startingAt idOf r.offset list).take r.limit

/-- Every answer decodes to the page that was asked for. -/
def Honest (idOf : α → String) (zero : α) (dec : Decoder α) (list : List α) (log : GarageLog InfoPage) : Prop :=
  ∀ r reply, ⟨r, reply⟩ ∈ log → ∃ page, readReply (GarageCall.path r) (slice zero dec) none reply = .ok page ∧
    page.getD [] = servePage idOf list r

/-- The entries are the first ones of the list; they are said to be all of it exactly when `complete`. -/
def ListsOf (list : List α) (complete : Prop) (out : InfoOutcome α) : Prop :=
  ∃ items truncated, out.result = .ok (items, truncated) ∧ items <+: list ∧ (truncated = false → items = list) ∧
    (truncated = false ↔ complete)

theorem ListsOf.congr {list : List α} {complete complete' : Prop} {out : InfoOutcome α}
    (h : ListsOf list complete out) (hiff : complete ↔ complete') : ListsOf list complete' out := by
  obtain ⟨items, truncated, hout, hpre, hall, hcomplete⟩ := h
  exact ⟨items, truncated, hout, hpre, hall, hcomplete.trans hiff⟩

theorem listsOf_all {list : List α} {complete : Prop} {out : InfoOutcome α} (hcomplete : complete)
    (hout : out.result = .ok (list, false)) : ListsOf list complete out :=
  ⟨list, false, hout, List.prefix_refl _, fun _ => rfl, by simp [hcomplete]⟩

/-- A page that was served and repeats nothing. -/
theorem listPages_served {pages : ℕ} {firstPage : Bool} {all items list : List α} {offset : String}
    {log : GarageLog InfoPage} {out : InfoOutcome α} (hhonest : Honest idOf zero dec list log)
    (hrun : Runs (listPages idOf zero dec endpoint limit (pages + 1) firstPage all offset) log out)
    (hitems : dropOffset idOf offset (servePage idOf list ⟨endpoint, limit, offset⟩) = items)
    (hnodup : ((all ++ items).map idOf).Nodup) :
    if (servePage idOf list ⟨endpoint, limit, offset⟩).length < limit ∨ items = [] then
      out.result = .ok (all ++ items, false)
    else if (((all ++ items).getLast?.map idOf).getD "") = offset then out.result = .ok (all ++ items, true)
    else ∃ rest, Honest idOf zero dec list rest ∧
      Runs (listPages idOf zero dec endpoint limit pages false (all ++ items)
        (((all ++ items).getLast?.map idOf).getD "")) rest out := by
  rw [listPages] at hrun
  obtain ⟨reply, rest, rfl, hrest⟩ := runs_call.mp hrun
  obtain ⟨page, hread, hpage⟩ := hhonest _ _ List.mem_cons_self
  rw [hread] at hrest
  dsimp only at hrest
  rw [hpage, hitems, appendNew_of_nodup idOf hnodup] at hrest
  dsimp only at hrest
  split_ifs at hrest ⊢
  · obtain ⟨-, rfl⟩ := runs_ret.mp hrest
    rfl
  · obtain ⟨-, rfl⟩ := runs_ret.mp hrest
    rfl
  · exact ⟨rest, fun r reply hmem => hhonest r reply (List.mem_cons_of_mem _ hmem), hrest⟩

/-- The last of the first `n` entries, with what comes before and after it. -/
theorem take_eq_append_singleton {l : List α} {n : ℕ} (hpos : 0 < n) (hlen : n ≤ l.length) :
    ∃ before y rest, l = before ++ y :: rest ∧ l.take n = before ++ [y] ∧ before.length + 1 = n := by
  have hlt : n - 1 < l.length := by omega
  refine ⟨l.take (n - 1), l[n - 1], l.drop n, ?_, ?_, ?_⟩
  · have hdrop := List.drop_eq_getElem_cons hlt
    rw [show n - 1 + 1 = n by omega] at hdrop
    rw [← hdrop, List.take_append_drop]
  · have htake := List.take_append_getElem hlt
    rw [show n - 1 + 1 = n by omega] at htake
    exact htake.symm
  · rw [List.length_take]
    omega

/-- The page from an entry on begins with that entry. -/
theorem servePage_from {list before rest : List α} {x : α} (hsorted : SortedBy idOf list) (hx : idOf x ≠ "")
    (hlimit : 2 ≤ limit) (hlist : list = before ++ x :: rest) :
    servePage idOf list ⟨endpoint, limit, idOf x⟩ = x :: rest.take (limit - 1) := by
  rw [hlist] at hsorted ⊢
  rw [servePage, if_neg hx, startingAt_eq hsorted]
  obtain ⟨l, rfl⟩ := Nat.exists_eq_add_of_le' (Nat.one_le_of_lt hlimit)
  rfl

theorem ne_empty_of_lt {s t : String} (h : s < t) : t ≠ "" := by
  rintro rfl
  exact List.not_lt_nil _ (String.lt_iff_toList_lt.mp h)

theorem listPages_honest {list : List α} (hsorted : SortedBy idOf list) (hlimit : 2 ≤ limit) :
    ∀ {pages : ℕ} {before rest : List α} {x : α} {log : GarageLog InfoPage} {out : InfoOutcome α},
      list = before ++ x :: rest → idOf x ≠ "" →
      Runs (listPages idOf zero dec endpoint limit pages false (before ++ [x]) (idOf x)) log out →
      Honest idOf zero dec list log → ListsOf list (rest.length + 1 ≤ pages * (limit - 1)) out := by
  intro pages
  induction pages with
  | zero =>
    intro before rest x log out hlist _ hrun _
    obtain ⟨-, rfl⟩ := runs_ret.mp hrun
    refine ⟨before ++ [x], true, rfl, ?_, nofun, by simp⟩
    rw [hlist, List.append_cons before x rest]
    exact List.prefix_append _ _
  | succ pages ih =>
    intro before rest x log out hlist hx hrun hhonest
    have hnodup : ((before ++ [x] ++ rest).map idOf).Nodup := by
      rw [← List.append_cons, ← hlist]
      exact hsorted.nodup
    have hpage : servePage idOf list ⟨endpoint, limit, idOf x⟩ = x :: rest.take (limit - 1) :=
      servePage_from hsorted hx hlimit hlist
    have hitems : dropOffset idOf (idOf x) (servePage idOf list ⟨endpoint, limit, idOf x⟩) =
        rest.take (limit - 1) := by
      rw [hpage, dropOffset, if_pos ⟨hx, rfl⟩]
    have hsub : ((before ++ [x] ++ rest.take (limit - 1)).map idOf).Nodup :=
      hnodup.sublist (((List.Sublist.refl _).append (List.take_sublist _ _)).map _)
    have hnext := listPages_served hhonest hrun hitems hsub
    rw [Nat.succ_mul]
    by_cases hfull : limit ≤ rest.length + 1
    · -- a full page: its last entry is the next offset
      obtain ⟨mid, y, rest', hrest, htake, hmid⟩ :=
        take_eq_append_singleton (l := rest) (n := limit - 1) (by omega) (by omega)
      have hlast : ((before ++ [x] ++ rest.take (limit - 1)).getLast?.map idOf).getD "" = idOf y := by
        rw [htake, ← List.append_assoc, List.getLast?_append]
        simp
      have hlt : idOf x < idOf y := by
        have hsplit := hlist ▸ hsorted
        exact hsplit.split.2 y (by simp [hrest])
      have hlong : ¬((servePage idOf list ⟨endpoint, limit, idOf x⟩).length < limit ∨ rest.take (limit - 1) = []) := by
        rw [hpage, List.length_cons, List.length_take, htake]
        simp
        omega
      rw [if_neg hlong, hlast, if_neg hlt.ne'] at hnext
      obtain ⟨log', hhonest', hrun'⟩ := hnext
      rw [htake, ← List.append_assoc] at hrun'
      have hlist' : list = before ++ [x] ++ mid ++ y :: rest' := by
        rw [hlist, hrest, List.append_cons, List.append_assoc, List.append_assoc, List.append_assoc]
      refine (ih hlist' (ne_empty_of_lt hlt) hrun' hhonest').congr ?_
      have hlen : rest.length = mid.length + (rest'.length + 1) := by simp [hrest]
      omega
    · have hall : rest.take (limit - 1) = rest := List.take_of_length_le (by omega)
      have hshort : (servePage idOf list ⟨endpoint, limit, idOf x⟩).length < limit ∨ rest.take (limit - 1) = [] := by
        rw [hpage, hall, List.length_cons]
        omega
      rw [if_pos hshort, hall, ← List.append_cons, ← hlist] at hnext
      exact listsOf_all (by omega) hnext

/-- A listing that is read from its first page on. -/
theorem listAllInfo_honest {list : List α} (hsorted : SortedBy idOf list) (hlimit : 2 ≤ limit) {maxPages : ℕ}
    (hpages : 0 < maxPages) {log : GarageLog InfoPage} {out : InfoOutcome α}
    (hrun : Runs (listAllInfo idOf zero dec endpoint limit maxPages false) log out)
    (hhonest : Honest idOf zero dec list log) : ListsOf list (list.length ≤ maxPages * (limit - 1)) out := by
  rw [listAllInfo, if_neg (by simp)] at hrun
  obtain ⟨pages, rfl⟩ := Nat.exists_eq_add_of_le' hpages
  have hpage : servePage idOf list ⟨endpoint, limit, ""⟩ = list.take limit := by rw [servePage, if_pos rfl]
  have hitems : dropOffset idOf "" (servePage idOf list ⟨endpoint, limit, ""⟩) = list.take limit := by
    rw [hpage]
    cases list.take limit <;> simp [dropOffset]
  have hnodup : (([] ++ list.take limit).map idOf).Nodup :=
    hsorted.nodup.sublist ((List.take_sublist _ _).map _)
  have hnext := listPages_served hhonest hrun hitems hnodup
  rw [List.nil_append] at hnext
  rw [Nat.succ_mul]
  by_cases hfull : limit ≤ list.length
  · obtain ⟨mid, y, rest, hlist, htake, hmid⟩ := take_eq_append_singleton (by omega) hfull
    have hlast : ((list.take limit).getLast?.map idOf).getD "" = idOf y := by simp [htake]
    -- a page has at least two entries, so its last one is past another
    have hy : idOf y ≠ "" := by
      have hsplit := hlist ▸ hsorted
      obtain ⟨z, hz⟩ := List.exists_mem_of_length_pos (show 0 < mid.length by omega)
      exact ne_empty_of_lt (hsplit.split.1 z hz)
    have hlong : ¬((servePage idOf list ⟨endpoint, limit, ""⟩).length < limit ∨ list.take limit = []) := by
      rw [hpage, List.length_take, htake]
      simp
      omega
    rw [if_neg hlong, hlast, if_neg hy, htake] at hnext
    obtain ⟨log', hhonest', hrun'⟩ := hnext
    refine (listPages_honest hsorted hlimit hlist hy hrun' hhonest').congr ?_
    have hlen : list.length = mid.length + (rest.length + 1) := by simp [hlist]
    omega
  · have hall : list.take limit = list := List.take_of_length_le (by omega)
    have hshort : (servePage idOf list ⟨endpoint, limit, ""⟩).length < limit ∨ list.take limit = [] := by
      rw [hpage, hall]
      omega
    rw [if_pos hshort, hall] at hnext
    exact listsOf_all (by omega) hnext

/-- An upstream that lacks the endpoint is noticed at the first page, or known. -/
theorem listAllInfo_unsupported {maxPages : ℕ} (hpages : 0 < maxPages) {known : Bool} {log : GarageLog InfoPage}
    {out : InfoOutcome α} (hrun : Runs (listAllInfo idOf zero dec endpoint limit maxPages known) log out)
    (hreplies : ∀ r reply, ⟨r, reply⟩ ∈ log →
      ∃ e, readReply (GarageCall.path r) (slice zero dec) none reply = .error e ∧ isUnknownEndpoint e true = true) :
    out.result = .error .unsupported := by
  unfold listAllInfo at hrun
  split_ifs at hrun
  · obtain ⟨-, rfl⟩ := runs_ret.mp hrun
    rfl
  · obtain ⟨pages, rfl⟩ := Nat.exists_eq_add_of_le' hpages
    rw [listPages] at hrun
    obtain ⟨reply, rest, rfl, hrest⟩ := runs_call.mp hrun
    obtain ⟨e, hread, hunknown⟩ := hreplies _ _ List.mem_cons_self
    rw [hread] at hrest
    dsimp only at hrest
    rw [if_pos hunknown] at hrest
    obtain ⟨-, rfl⟩ := runs_ret.mp hrest
    rfl

/-- **Reading a list in pages.** Whatever is answered, at most `maxPages` requests are sent and the entries
have distinct IDs. When the answers are the pages of a sorted list whose IDs are not empty, and the endpoint
is not taken for unsupported: the entries are the first ones of the list, all of it unless `truncated` says
otherwise, and `truncated` says so exactly when the list has more than `maxPages * (limit - 1)` entries. -/
theorem list_in_pages {maxPages : ℕ} {known : Bool} {log : GarageLog InfoPage} {out : InfoOutcome α}
    (hrun : Runs (listAllInfo idOf zero dec endpoint limit maxPages known) log out) :
    (log.length ≤ maxPages ∧ ∀ items truncated, out.result = .ok (items, truncated) → (items.map idOf).Nodup) ∧
      ∀ list, SortedBy idOf list → (∀ it ∈ list, idOf it ≠ "") → 2 ≤ limit → 0 < maxPages → known = false →
        Honest idOf zero dec list log → ListsOf list (list.length ≤ maxPages * (limit - 1)) out := by
  constructor
  · unfold listAllInfo at hrun
    split_ifs at hrun
    · obtain ⟨rfl, rfl⟩ := runs_ret.mp hrun
      exact ⟨Nat.zero_le _, nofun⟩
    · exact listPages_runs (by simp) hrun
  · rintro list hsorted - hlimit hpages rfl hhonest
    exact listAllInfo_honest hsorted hlimit hpages hrun hhonest

end Pages

/-- Two entries in pages of two: the second page repeats the second entry. -/
def twoPages : GarageLog InfoPage :=
  [⟨⟨"/v2/ListKeysInfo", 2, ""⟩, .answered 200 "" (some (bytes "[\"a\",\"b\"]"))⟩,
   ⟨⟨"/v2/ListKeysInfo", 2, "b"⟩, .answered 200 "" (some (bytes "[\"b\"]"))⟩]

theorem readReply_page {path body : String} {page : List String}
    (h : unmarshal (slice "" string) none (bytes body) = some (some page)) :
    readReply path (slice "" string) none (.answered 200 "" (some (bytes body))) = .ok (some page) :=
  readReply_ok_iff.mpr ⟨200, "", _, rfl, by decide, by decide, h⟩

theorem read_firstPage (path : String) : readReply path (slice "" string) none
    (.answered 200 "" (some (bytes "[\"a\",\"b\"]"))) = .ok (some ["a", "b"]) :=
  readReply_page (by decide +kernel)

theorem read_secondPage (path : String) : readReply path (slice "" string) none
    (.answered 200 "" (some (bytes "[\"b\"]"))) = .ok (some ["b"]) :=
  readReply_page (by decide +kernel)

theorem twoPages_runs : Runs (listAllInfo id "" string "/v2/ListKeysInfo" 2 2 false) twoPages
    ⟨.ok (["a", "b"], false), false⟩ := by
  refine .call ?_
  rw [read_firstPage]
  refine .call ?_
  rw [read_secondPage]
  exact .ret _

theorem twoPages_honest : Honest id "" string ["a", "b"] twoPages := by
  intro r reply hmem
  simp only [twoPages, List.mem_cons, List.not_mem_nil, or_false, Sigma.mk.injEq] at hmem
  rcases hmem with ⟨rfl, hreply⟩ | ⟨rfl, hreply⟩
  · obtain rfl := eq_of_heq hreply
    exact ⟨_, read_firstPage _, by decide⟩
  · obtain rfl := eq_of_heq hreply
    exact ⟨_, read_secondPage _, by decide⟩

theorem two_entries_in_pages :
    (twoPages.length ≤ 2 ∧ ∀ items truncated, (Except.ok (["a", "b"], false) :
        Except ListInfoError (List String × Bool)) = .ok (items, truncated) → (items.map id).Nodup) ∧
      ListsOf ["a", "b"] (2 ≤ 2 * (2 - 1)) (⟨.ok (["a", "b"], false), false⟩ : InfoOutcome String) := by
  obtain ⟨hany, hhonest⟩ := list_in_pages twoPages_runs
  refine ⟨hany, hhonest ["a", "b"] ?_ ?_ (by decide) (by decide) rfl twoPages_honest⟩
  · have hlt : ("a" : String) < "b" := String.lt_iff_toList_lt.mpr (by decide)
    exact .cons (by simpa using hlt) (.cons (by simp) .nil)
  · decide

end GarageConsole.Lists
