import Mathlib.Data.List.Basic
import Mathlib.Data.List.Infix
import GarageConsole.Foundations.GoJson
import GarageConsole.Foundations.Histories

/-! # Tickets for batch downloads

A list of keys is posted once and exchanged for a token; the ZIP is then fetched with the token alone. The
store is a map under one lock, so its calls come one after the other: a history, the latest call first,
determines what is stored. Expired tickets are dropped only when the next one is issued. Against this
stands `outstanding`, the tickets issued and not attempted since, where nothing is ever dropped for its
age; the unexpired ones are the same (`alive_tickets`).
-/

namespace GarageConsole.Objects

open Foundations.GoJson Foundations.Histories

set_option autoImplicit false

/-! ## The store -/

structure BatchDownloadTicket where
  bucket : String
  name : String
  keys : List String
  expires : ℤ := 0
  deriving DecidableEq

/-- The tickets by token; there is room for `max` of them. -/
structure BatchDownloadTicketStore (max : ℕ) where
  tickets : GoMap BatchDownloadTicket
  bounded : tickets.entries.length ≤ max

def newBatchDownloadTicketStore (max : ℕ) : BatchDownloadTicketStore max := ⟨.empty, Nat.zero_le max⟩

inductive IssueError where
  | noRandomness
  | tooManyTickets
  deriving DecidableEq

def alive (now : ℤ) (entry : String × BatchDownloadTicket) : Bool := !decide (entry.2.expires < now)

theorem length_entries_set_le {α : Type} (m : GoMap α) (key : String) (v : α) :
    (m.set key v).entries.length ≤ m.entries.length + 1 :=
  Nat.succ_le_succ (List.length_filter_le _ _)

namespace BatchDownloadTicketStore

variable {max : ℕ}

/-- `token` is the random token, or none when there is no randomness. -/
def issue (s : BatchDownloadTicketStore max) (ttl now : ℤ) (token : Option String) (t : BatchDownloadTicket) :
    Except IssueError String × BatchDownloadTicketStore max :=
  match token with
  | none => (.error .noRandomness, s)
  | some token =>
    let kept := s.tickets.filter (alive now)
    if h : max ≤ kept.entries.length then
      (.error .tooManyTickets, ⟨kept, (List.length_filter_le _ _).trans s.bounded⟩)
    else
      (.ok token, ⟨kept.set token { t with expires := now + ttl },
        (length_entries_set_le _ _ _).trans (Nat.lt_of_not_le h)⟩)

def redeem (s : BatchDownloadTicketStore max) (now : ℤ) (token bucket : String) :
    Option BatchDownloadTicket × BatchDownloadTicketStore max :=
  match s.tickets.get token with
  | none => (none, s)
  | some t =>
    (if t.expires < now ∨ t.bucket ≠ bucket then none else some t,
      ⟨s.tickets.filter fun entry => entry.1 ≠ token, (List.length_filter_le _ _).trans s.bounded⟩)

/-- The token is gone from the store, whatever the attempt gave. -/
theorem redeem_entries (s : BatchDownloadTicketStore max) (now : ℤ) (token bucket : String) :
    (s.redeem now token bucket).2.tickets.entries = s.tickets.entries.filter fun entry => entry.1 ≠ token := by
  unfold redeem
  cases hget : s.tickets.get token with
  | some t => rfl
  | none =>
    refine (List.filter_eq_self.mpr ?_).symm
    rintro ⟨key, t⟩ hmem
    simp only [ne_eq, decide_eq_true_eq]
    rintro rfl
    rw [GoMap.mem_entries_iff, hget] at hmem
    cases hmem

theorem redeem_eq_some_iff (s : BatchDownloadTicketStore max) {now : ℤ} {token bucket : String}
    {t : BatchDownloadTicket} :
    (s.redeem now token bucket).1 = some t ↔
      (token, t) ∈ s.tickets.entries ∧ alive now (token, t) = true ∧ t.bucket = bucket := by
  rw [GoMap.mem_entries_iff]
  unfold redeem
  cases hget : s.tickets.get token with
  | none => simp
  | some t' =>
    dsimp only
    split_ifs with h
    · simp only [alive, Option.some.injEq, false_iff]
      rintro ⟨rfl, halive, rfl⟩
      simp only [ne_eq, not_true_eq_false, or_false] at h
      simp [h] at halive
    · rw [not_or, not_not] at h
      constructor
      · intro heq
        obtain rfl := Option.some.inj heq
        exact ⟨rfl, by simp [alive, h.1], h.2⟩
      · exact fun h => h.1

end BatchDownloadTicketStore

/-! ## Histories of calls -/

inductive TicketCall where
  | issue (token : Option String) (ticket : BatchDownloadTicket)
  | redeem (token bucket : String)
  deriving DecidableEq

structure TicketEvent where
  time : ℤ
  call : TicketCall
  deriving DecidableEq

section Store

variable (ttl : ℤ) (max : ℕ)

def storeAfter : List TicketEvent → BatchDownloadTicketStore max
  | [] => newBatchDownloadTicketStore max
  | ⟨now, .issue token t⟩ :: h => ((storeAfter h).issue ttl now token t).2
  | ⟨now, .redeem token bucket⟩ :: h => ((storeAfter h).redeem now token bucket).2

def issued (h : List TicketEvent) (now : ℤ) (token : Option String) (t : BatchDownloadTicket) :
    Except IssueError String :=
  ((storeAfter ttl max h).issue ttl now token t).1

def redeemed (h : List TicketEvent) (now : ℤ) (token bucket : String) : Option BatchDownloadTicket :=
  ((storeAfter ttl max h).redeem now token bucket).1

/-- The tickets that were issued and not attempted since, however old they are. -/
def outstanding : List TicketEvent → List (String × BatchDownloadTicket)
  | [] => []
  | ⟨_, .issue none _⟩ :: h => outstanding h
  | ⟨now, .issue (some token) t⟩ :: h =>
    match issued ttl max h now (some token) t with
    | .ok token => (token, { t with expires := now + ttl }) :: outstanding h
    | .error _ => outstanding h
  | ⟨_, .redeem token _⟩ :: h => (outstanding h).filter fun entry => entry.1 ≠ token

/-- The tickets that can still be redeemed. -/
def pending (h : List TicketEvent) (now : ℤ) : List (String × BatchDownloadTicket) :=
  (outstanding ttl max h).filter (alive now)

end Store

/-- The clock does not run backwards and generated tokens are fresh. -/
def Allowed (h : List TicketEvent) (e : TicketEvent) : Prop :=
  (∀ e' ∈ h, e'.time ≤ e.time) ∧
    ∀ token t, e.call = .issue (some token) t → ∀ e' ∈ h, ∀ t', e'.call ≠ .issue (some token) t'

/-- The ticket `t` was issued at `issuedAt` under the token, and the token was not attempted since. -/
def Unattempted (ttl : ℤ) (max : ℕ) (h : List TicketEvent) (token : String) (issuedAt : ℤ)
    (t : BatchDownloadTicket) : Prop :=
  ∃ later earlier, h = later ++ ⟨issuedAt, .issue (some token) t⟩ :: earlier ∧
    issued ttl max earlier issuedAt (some token) t = .ok token ∧
    ∀ now bucket, ⟨now, .redeem token bucket⟩ ∉ later

variable {ttl : ℤ} {max : ℕ}

theorem unattempted_cons {e : TicketEvent} {h : List TicketEvent} {token : String} {issuedAt : ℤ}
    {t : BatchDownloadTicket} :
    Unattempted ttl max (e :: h) token issuedAt t ↔
      (e = ⟨issuedAt, .issue (some token) t⟩ ∧ issued ttl max h issuedAt (some token) t = .ok token) ∨
        (Unattempted ttl max h token issuedAt t ∧ ∀ now bucket, e ≠ ⟨now, .redeem token bucket⟩) := by
  constructor
  · rintro ⟨later, earlier, heq, hok, hnot⟩
    cases later with
    | nil =>
      obtain ⟨rfl, rfl⟩ := List.cons.inj heq
      exact .inl ⟨rfl, hok⟩
    | cons e' later =>
      obtain ⟨rfl, rfl⟩ := List.cons.inj heq
      refine .inr ⟨⟨later, earlier, rfl, hok, fun now bucket hmem => ?_⟩, fun now bucket he => ?_⟩
      · exact hnot now bucket (List.mem_cons_of_mem _ hmem)
      · exact hnot now bucket (he ▸ List.mem_cons_self)
  · rintro (⟨rfl, hok⟩ | ⟨⟨later, earlier, rfl, hok, hnot⟩, he⟩)
    · exact ⟨[], h, rfl, hok, fun _ _ => List.not_mem_nil⟩
    · refine ⟨e :: later, earlier, rfl, hok, fun now bucket hmem => ?_⟩
      rcases List.mem_cons.mp hmem with heq | hmem
      · exact he now bucket heq.symm
      · exact hnot now bucket hmem

theorem issued_ok {h : List TicketEvent} {now : ℤ} {token token' : String} {t : BatchDownloadTicket}
    (hok : issued ttl max h now (some token) t = .ok token') : token' = token := by
  unfold issued BatchDownloadTicketStore.issue at hok
  dsimp only at hok
  split_ifs at hok
  exact (Except.ok.inj hok).symm

theorem mem_outstanding {h : List TicketEvent} {token : String} {x : BatchDownloadTicket} :
    (token, x) ∈ outstanding ttl max h ↔
      ∃ issuedAt t, Unattempted ttl max h token issuedAt t ∧ x = { t with expires := issuedAt + ttl } := by
  induction h with
  | nil => simp [outstanding, Unattempted]
  | cons e h ih =>
    obtain ⟨time, call⟩ := e
    simp only [unattempted_cons]
    cases call with
    | redeem token' bucket =>
      rw [outstanding, List.mem_filter, ih]
      simp only [ne_eq, decide_eq_true_eq, TicketEvent.mk.injEq, reduceCtorEq, and_false, false_and, false_or,
        TicketCall.redeem.injEq]
      constructor
      · rintro ⟨⟨issuedAt, t, hun, rfl⟩, hne⟩
        exact ⟨issuedAt, t, ⟨hun, fun now b he => hne he.2.1.symm⟩, rfl⟩
      · rintro ⟨issuedAt, t, ⟨hun, hne⟩, rfl⟩
        exact ⟨⟨issuedAt, t, hun, rfl⟩, fun he => hne time bucket ⟨rfl, he.symm, rfl⟩⟩
    | issue token' t' =>
      cases token' with
      | none =>
        rw [outstanding, ih]
        simp
      | some token' =>
        rw [outstanding]
        cases hans : issued ttl max h time (some token') t' with
        | error err =>
          -- nothing is issued, so the call is not the one that issued the ticket
          dsimp only
          rw [ih]
          refine exists_congr fun issuedAt => exists_congr fun t => and_congr_left fun _ => ?_
          constructor
          · exact fun hun => .inr ⟨hun, nofun⟩
          · rintro (⟨heq, hok⟩ | ⟨hun, -⟩)
            · obtain ⟨rfl, hcall⟩ := TicketEvent.mk.inj heq
              obtain ⟨htoken, rfl⟩ := TicketCall.issue.inj hcall
              obtain rfl := Option.some.inj htoken
              rw [hans] at hok
              cases hok
            · exact hun
        | ok token'' =>
          obtain rfl := issued_ok hans
          dsimp only
          rw [List.mem_cons, ih]
          constructor
          · rintro (heq | ⟨issuedAt, t, hun, rfl⟩)
            · obtain ⟨rfl, rfl⟩ := Prod.mk.inj heq
              exact ⟨time, t', .inl ⟨rfl, hans⟩, rfl⟩
            · exact ⟨issuedAt, t, .inr ⟨hun, nofun⟩, rfl⟩
          · rintro ⟨issuedAt, t, ⟨heq, hok⟩ | ⟨hun, -⟩, rfl⟩
            · obtain ⟨rfl, hcall⟩ := TicketEvent.mk.inj heq
              obtain ⟨htoken, rfl⟩ := TicketCall.issue.inj hcall
              obtain rfl := Option.some.inj htoken
              exact .inl rfl
            · exact .inr ⟨issuedAt, t, hun, rfl⟩

/-! ## What is stored -/

/-- What issuing a ticket does: the expired tickets go, and either the rest fill the store or the new one
joins them. -/
theorem issue_cases (h : List TicketEvent) (now : ℤ) (token : String) (t : BatchDownloadTicket) :
    let kept := (storeAfter ttl max h).tickets.entries.filter (alive now)
    let after := (storeAfter ttl max (⟨now, .issue (some token) t⟩ :: h)).tickets.entries
    (issued ttl max h now (some token) t = .error .tooManyTickets ∧ max ≤ kept.length ∧ after = kept) ∨
      (issued ttl max h now (some token) t = .ok token ∧ kept.length < max ∧
        after = (token, { t with expires := now + ttl }) :: kept.filter fun entry => entry.1 ≠ token) := by
  unfold issued
  rw [storeAfter]
  unfold BatchDownloadTicketStore.issue
  dsimp only
  split_ifs with hfull
  · exact .inl ⟨rfl, hfull, rfl⟩
  · exact .inr ⟨rfl, Nat.lt_of_not_le hfull, rfl⟩

theorem outstanding_of_stored {h : List TicketEvent} :
    ∀ entry ∈ (storeAfter ttl max h).tickets.entries, entry ∈ outstanding ttl max h := by
  induction h with
  | nil => exact fun _ hmem => absurd hmem List.not_mem_nil
  | cons e h ih =>
    intro entry hmem
    obtain ⟨time, call⟩ := e
    cases call with
    | redeem token bucket =>
      rw [storeAfter, BatchDownloadTicketStore.redeem_entries, List.mem_filter] at hmem
      rw [outstanding, List.mem_filter]
      exact ⟨ih entry hmem.1, hmem.2⟩
    | issue token t =>
      cases token with
      | none => exact ih entry hmem
      | some token =>
        rw [outstanding]
        rcases issue_cases h time token t with ⟨hans, -, hafter⟩ | ⟨hans, -, hafter⟩
        · rw [hafter] at hmem
          rw [hans]
          exact ih entry (List.mem_of_mem_filter hmem)
        · rw [hafter, List.mem_cons] at hmem
          rw [hans, List.mem_cons]
          refine hmem.imp_right fun hmem => ih entry ?_
          exact List.mem_of_mem_filter (List.mem_of_mem_filter hmem)

theorem filter_alive_of_le {now later : ℤ} (hle : now ≤ later) (l : List (String × BatchDownloadTicket)) :
    (l.filter (alive now)).filter (alive later) = l.filter (alive later) := by
  rw [List.filter_filter]
  refine List.filter_congr fun entry _ => ?_
  simp only [alive, Bool.and_eq_left_iff_imp, Bool.not_eq_true', decide_eq_false_iff_not]
  intro hlate
  omega

/-- A fresh token is not in the store yet. -/
theorem filter_ne_of_fresh {h : List TicketEvent} {token : String}
    (hfresh : ∀ e ∈ h, ∀ t, e.call ≠ .issue (some token) t) {l : List (String × BatchDownloadTicket)}
    (hsub : ∀ entry ∈ l, entry ∈ (storeAfter ttl max h).tickets.entries) :
    (l.filter fun entry => entry.1 ≠ token) = l := by
  refine List.filter_eq_self.mpr ?_
  rintro ⟨key, x⟩ hmem
  simp only [ne_eq, decide_eq_true_eq]
  rintro rfl
  obtain ⟨issuedAt, t, ⟨later, earlier, rfl, -, -⟩, -⟩ := mem_outstanding.mp (outstanding_of_stored _ (hsub _ hmem))
  exact hfresh ⟨issuedAt, .issue (some key) t⟩ (by simp) t rfl

/-- **Dropping expired tickets late changes nothing.** Whatever the store still holds, its unexpired tickets
are those that were issued and not attempted since. -/
theorem alive_tickets {h : List TicketEvent} (hist : History Allowed h) {now : ℤ} (hnow : ∀ e ∈ h, e.time ≤ now) :
    (storeAfter ttl max h).tickets.entries.filter (alive now) = pending ttl max h now := by
  unfold pending
  induction hist generalizing now with
  | nil => rfl
  | @cons h e hist hallowed ih =>
    obtain ⟨hle, htail⟩ := List.forall_mem_cons.mp hnow
    have hlater := ih htail
    obtain ⟨time, call⟩ := e
    cases call with
    | redeem token bucket =>
      rw [storeAfter, BatchDownloadTicketStore.redeem_entries, outstanding, List.filter_comm, hlater,
        List.filter_comm]
    | issue token t =>
      cases token with
      | none => exact hlater
      | some token =>
        rw [outstanding]
        rcases issue_cases h time token t with ⟨hans, -, hafter⟩ | ⟨hans, -, hafter⟩
        · rw [hafter, hans, filter_alive_of_le hle, hlater]
        · rw [filter_ne_of_fresh (hallowed.2 token t rfl) fun entry => List.mem_of_mem_filter] at hafter
          rw [hafter, hans, List.filter_cons, List.filter_cons, filter_alive_of_le hle, hlater]

/-! ## What the calls of a history give -/

/-- An attempt at a token after the history `h`. -/
structure RedeemHolds (ttl : ℤ) (max : ℕ) (h : List TicketEvent) (now : ℤ) (token bucket : String) : Prop where
  /-- A success gives the ticket as it was issued, for its bucket, in time and at the first attempt. -/
  success : ∀ x, redeemed ttl max h now token bucket = some x → ∃ issuedAt t,
    Unattempted ttl max h token issuedAt t ∧ x.keys = t.keys ∧ x.name = t.name ∧ t.bucket = bucket ∧
      now ≤ issuedAt + ttl
  available : ∀ issuedAt t, Unattempted ttl max h token issuedAt t → now ≤ issuedAt + ttl → t.bucket = bucket →
    redeemed ttl max h now token bucket = some { t with expires := issuedAt + ttl }
  /-- After an attempt at a token that was issued, whatever it gave, none succeeds. -/
  consumed : ∀ later earlier before bucket' issuedAt t,
    h = later ++ ⟨before, .redeem token bucket'⟩ :: earlier → ⟨issuedAt, .issue (some token) t⟩ ∈ earlier →
      redeemed ttl max h now token bucket = none
  once : ∀ later earlier before bucket' x, h = later ++ ⟨before, .redeem token bucket'⟩ :: earlier →
    redeemed ttl max earlier before token bucket' = some x → redeemed ttl max h now token bucket = none

def EventHolds (ttl : ℤ) (max : ℕ) (h : List TicketEvent) : TicketEvent → Prop
  | ⟨_, .issue none _⟩ => True
  | ⟨now, .issue (some token) t⟩ =>
    (issued ttl max h now (some token) t = .error .tooManyTickets ↔ (pending ttl max h now).length = max) ∧
      (issued ttl max h now (some token) t = .ok token ↔ (pending ttl max h now).length < max)
  | ⟨now, .redeem token bucket⟩ => RedeemHolds ttl max h now token bucket

theorem redeemed_eq_some_iff {h : List TicketEvent} {now : ℤ} {token bucket : String} {x : BatchDownloadTicket}
    (hist : History Allowed h) (hnow : ∀ e ∈ h, e.time ≤ now) :
    redeemed ttl max h now token bucket = some x ↔ (token, x) ∈ pending ttl max h now ∧ x.bucket = bucket := by
  rw [redeemed, BatchDownloadTicketStore.redeem_eq_some_iff, ← alive_tickets hist hnow, List.mem_filter, and_assoc]

/-- A token is generated once, so no attempt lies between its generation and that attempt's own past. -/
theorem not_unattempted_of_attempt {later earlier : List TicketEvent} {before : ℤ} {token bucket : String}
    (hist : History Allowed (later ++ ⟨before, .redeem token bucket⟩ :: earlier)) {issuedAt issuedAt' : ℤ}
    {t t' : BatchDownloadTicket} (hissue : ⟨issuedAt', .issue (some token) t'⟩ ∈ earlier) :
    ¬Unattempted ttl max (later ++ ⟨before, .redeem token bucket⟩ :: earlier) token issuedAt t := by
  induction later with
  | nil =>
    rw [List.nil_append, unattempted_cons]
    rintro (⟨heq, -⟩ | ⟨-, hne⟩)
    · cases heq
    · exact hne before bucket rfl
  | cons e later ih =>
    rw [List.cons_append, unattempted_cons]
    rintro (⟨rfl, -⟩ | ⟨hun, -⟩)
    · exact hist.head.2 token t rfl _ (List.mem_append_right _ (List.mem_cons_of_mem _ hissue)) t' rfl
    · exact ih hist.tail hun

theorem redeemHolds {h : List TicketEvent} {now : ℤ} {token bucket : String} (hist : History Allowed h)
    (hnow : ∀ e ∈ h, e.time ≤ now) : RedeemHolds ttl max h now token bucket := by
  have hsuccess : ∀ x, redeemed ttl max h now token bucket = some x → ∃ issuedAt t,
      Unattempted ttl max h token issuedAt t ∧ x = { t with expires := issuedAt + ttl } ∧ x.bucket = bucket ∧
        now ≤ x.expires := by
    intro x hx
    obtain ⟨hmem, hbucket⟩ := (redeemed_eq_some_iff hist hnow).mp hx
    obtain ⟨hout, halive⟩ := List.mem_filter.mp hmem
    obtain ⟨issuedAt, t, hun, hxt⟩ := mem_outstanding.mp hout
    exact ⟨issuedAt, t, hun, hxt, hbucket, by simpa [alive] using halive⟩
  have hconsumed : ∀ later earlier before bucket' issuedAt t,
      h = later ++ ⟨before, .redeem token bucket'⟩ :: earlier → ⟨issuedAt, .issue (some token) t⟩ ∈ earlier →
        redeemed ttl max h now token bucket = none := by
    intro later earlier before bucket' issuedAt t hsplit hissue
    rw [Option.eq_none_iff_forall_ne_some]
    intro x hx
    obtain ⟨at', t', hun, -⟩ := hsuccess x hx
    rw [hsplit] at hist hun
    exact not_unattempted_of_attempt hist hissue hun
  refine ⟨?_, ?_, hconsumed, ?_⟩
  · intro x hx
    obtain ⟨issuedAt, t, hun, rfl, hbucket, hle⟩ := hsuccess x hx
    exact ⟨issuedAt, t, hun, rfl, rfl, hbucket, hle⟩
  · intro issuedAt t hun hle hbucket
    refine (redeemed_eq_some_iff hist hnow).mpr ⟨?_, hbucket⟩
    exact List.mem_filter.mpr ⟨mem_outstanding.mpr ⟨issuedAt, t, hun, rfl⟩, by simpa [alive] using hle⟩
  · intro later earlier before bucket' x hsplit hx
    rw [hsplit] at hist
    obtain ⟨hearlier, hallowed⟩ := hist.before
    obtain ⟨hmem, -⟩ := (redeemed_eq_some_iff hearlier hallowed.1).mp hx
    obtain ⟨issuedAt, t, ⟨l, r, rfl, -⟩, -⟩ := mem_outstanding.mp (List.mem_of_mem_filter hmem)
    exact hconsumed later _ before bucket' issuedAt t hsplit (by simp)

theorem issueHolds {h : List TicketEvent} {now : ℤ} (token : String) (t : BatchDownloadTicket)
    (hist : History Allowed h) (hnow : ∀ e ∈ h, e.time ≤ now) :
    EventHolds ttl max h ⟨now, .issue (some token) t⟩ := by
  have hbounded : (pending ttl max h now).length ≤ max := by
    rw [← alive_tickets hist hnow]
    exact (List.length_filter_le _ _).trans (storeAfter ttl max h).bounded
  rw [EventHolds]
  rcases @issue_cases ttl max h now token t with ⟨hans, hfull, -⟩ | ⟨hans, hroom, -⟩
  · rw [alive_tickets hist hnow] at hfull
    simp only [hans, reduceCtorEq, true_iff, false_iff]
    omega
  · rw [alive_tickets hist hnow] at hroom
    simp only [hans, reduceCtorEq, true_iff, false_iff]
    omega

/-- **Tickets are for one use.** In every history of calls, with a clock that does not run backwards and
fresh tokens: there are never more than `max` tickets; a call to issue one fails for their number exactly
when `max` can still be redeemed; and every attempt to redeem one is as `RedeemHolds` says. -/
theorem tickets_hold {h : List TicketEvent} (hist : History Allowed h) :
    (storeAfter ttl max h).tickets.entries.length ≤ max ∧
      ∀ later e earlier, h = later ++ e :: earlier → EventHolds ttl max earlier e := by
  refine ⟨(storeAfter ttl max h).bounded, ?_⟩
  rintro later ⟨now, call⟩ earlier rfl
  obtain ⟨hearlier, hallowed⟩ := hist.before
  cases call with
  | redeem token bucket => exact redeemHolds hearlier hallowed.1
  | issue token t =>
    cases token with
    | none => trivial
    | some token => exact issueHolds token t hearlier hallowed.1

def twoTickets : List TicketEvent :=
  [⟨61, .redeem "t1" "photos"⟩, ⟨30, .issue (some "t2") ⟨"music", "b", ["x", "y"], 0⟩⟩,
   ⟨0, .issue (some "t1") ⟨"photos", "a", ["x"], 0⟩⟩]

theorem twoTickets_history : History Allowed twoTickets := by
  refine .cons (.cons (.cons .nil ⟨by decide, ?_⟩) ⟨by decide, ?_⟩) ⟨by decide, ?_⟩
  · exact fun _ _ _ e' he' => absurd he' List.not_mem_nil
  · intro token t hcall
    obtain ⟨htoken, rfl⟩ := TicketCall.issue.inj hcall
    obtain rfl := Option.some.inj htoken
    simp
  · intro token t hcall
    cases hcall

theorem tickets_hold_two :
    (storeAfter 60 2 twoTickets).tickets.entries.length ≤ 2 ∧
      ∀ later e earlier, twoTickets = later ++ e :: earlier → EventHolds 60 2 earlier e :=
  tickets_hold twoTickets_history

-- the first ticket has expired by one; the attempt consumed it, and the second one is left
example : redeemed 60 2 (twoTickets.drop 1) 61 "t1" "photos" = none := by decide
example : (outstanding 60 2 twoTickets).map Prod.fst = ["t2"] := by decide

end GarageConsole.Objects
