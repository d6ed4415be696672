import GarageConsole.Buckets.Quotas
import GarageConsole.Foundations.JsonWriter
import GarageConsole.Maintenance.CleanupUploads

/-! # Unfinished uploads of a bucket

The card removes uploads that were started some time ago, which is typed and confirmed. What Garage is asked in the end
is the age that the dialog showed, in whole seconds (`cleanup_as_confirmed`).
-/

namespace GarageConsole.Buckets

open Foundations Foundations.Text Foundations.GoJson Foundations.Numbers Foundations.Utf16 Foundations.Calls
  Foundations.JsonWriter Foundations.Systems Garage Maintenance

set_option autoImplicit false

inductive AgeUnit where
  | hours
  | days
  deriving DecidableEq

def AgeUnit.secs : AgeUnit → ℕ
  | hours => 3600
  | days => 86400

/-- 10 years. -/
def MAX_CLEANUP_AGE_SECS : ℕ := 10 * 365 * 86400

def olderThanSecs (amount : Units) (unit : AgeUnit) : Except String ℕ :=
  let notNumber := "0 以上の数値を入力してください"
  if trim amount = [] then .error notNumber
  else match numberOf (trim amount) with
    | .finite negative size =>
      -- `-0` is not less than 0, and JSON has it as `0`.
      if negative && 0 < size.units then .error notNumber
      else match scaled size unit.secs with
        | some secs =>
          if maxSafe < secs then .error notNumber
          else if MAX_CLEANUP_AGE_SECS < secs then .error "10 年以内で指定してください"
          else .ok secs
        | none => .error notNumber
    | _ => .error notNumber

/-- Uploads that are still going on may be among them. -/
def tooRecent (secs : ℕ) : Bool := secs < 3600

/-- A request, with what the dialog said when it was confirmed. -/
structure CleanupRequest where
  secs : ℕ
  amount : Units
  unit : AgeUnit
  warned : Bool

structure UploadsCard where
  amount : Units := utf16 "1"
  unit : AgeUnit := .days
  confirmOpen : Bool := false
  pending : Bool := false
  /-- Every request that was sent. -/
  sent : List CleanupRequest := []

inductive UploadsEvent where
  | setAmount (s : Units)
  | setUnit (u : AgeUnit)
  | clean
  | confirmed
  | cancelled
  | cleaned
  | failed

namespace UploadsCard

/-- What an event does; `none` where the card does not offer it. A dialog covers the card. -/
def step (c : UploadsCard) : UploadsEvent → Option UploadsCard
  | .setAmount s => if c.confirmOpen then none else some { c with amount := s }
  | .setUnit u => if c.confirmOpen then none else some { c with unit := u }
  | .clean =>
    match olderThanSecs c.amount c.unit with
    | .ok _ => if c.confirmOpen || c.pending then none else some { c with confirmOpen := true }
    | .error _ => none
  | .confirmed =>
    match olderThanSecs c.amount c.unit with
    | .ok secs =>
      if !c.confirmOpen || c.pending then none
      else some { c with pending := true, sent := c.sent ++ [⟨secs, c.amount, c.unit, tooRecent secs⟩] }
    -- The dialog is never open over an amount that is in error (`UploadsInv`).
    | .error _ => none
  | .cancelled => if !c.confirmOpen || c.pending then none else some { c with confirmOpen := false }
  | .cleaned => if c.pending then some { c with confirmOpen := false, pending := false } else none
  | .failed => if c.pending then some { c with pending := false } else none

end UploadsCard

def uploadsCard : System UploadsCard UploadsEvent where
  init c := c = {}
  step c event d := c.step event = some d

def cleanupDocument (secs : ℕ) : Json := .obj [("olderThanSecs", .num (.int secs))]

/-- `JSON.stringify({ olderThanSecs })` -/
def cleanupBody (secs : ℕ) : Bytes := document (stringify 0) (cleanupDocument secs)

theorem length_decimal {n k : ℕ} (hk : 0 < k) (h : n < 10 ^ k) : (Text.decimal n).length ≤ k := by
  rw [decimal_eq, List.length_map]
  exact (Nat.length_toDigits_le_iff (by decide) hk).mpr h

theorem cleanupBody_eq (secs : ℕ) :
    cleanupBody secs = bytes "\x7b\"olderThanSecs\":" ++ (Text.decimal secs ++ [0x7D]) := by
  have hinteger : integer secs = Text.decimal secs := if_neg (Int.not_lt.mpr (Int.natCast_nonneg secs))
  have hbody : cleanupBody secs = bytes "\x7b\"olderThanSecs\":" ++ (integer secs ++ [0x7D]) := rfl
  rw [hbody, hinteger]

theorem length_cleanupBody {secs : ℕ} (h : secs ≤ MAX_CLEANUP_AGE_SECS) : (cleanupBody secs).length ≤ 27 := by
  have hdecimal : (Text.decimal secs).length ≤ 9 := length_decimal (by decide) (h.trans_lt (by decide))
  rw [cleanupBody_eq, List.length_append, List.length_append, List.length_singleton,
    show (bytes "\x7b\"olderThanSecs\":").length = 17 from rfl]
  omega

theorem int64_secs {secs : ℕ} (h : secs ≤ MAX_CLEANUP_AGE_SECS) : int64 0 (.num (.int secs)) = some (secs : ℤ) := by
  have hsmall : secs ≤ 315360000 := h
  rw [int64, int64Bound]
  exact if_pos (by omega)

theorem struct_cleanupDocument {secs : ℕ} (h : secs ≤ MAX_CLEANUP_AGE_SECS) :
    struct [("olderThanSecs", pointer 0 int64)] none (cleanupDocument secs) = some (some (secs : ℤ)) := by
  have hpointer : pointer 0 int64 none (.num (.int secs)) = (int64 0 (.num (.int secs))).map some := rfl
  rw [cleanupDocument, struct_obj, List.foldlM_cons, storeMember_singleton, if_pos rfl, hpointer, int64_secs h]
  rfl

theorem decodeFirst_cleanupBody {secs : ℕ} (h : secs ≤ MAX_CLEANUP_AGE_SECS) :
    decodeFirst (struct [("olderThanSecs", pointer 0 int64)]) none (cleanupBody secs) = some (some (secs : ℤ)) := by
  have hread := parsePrefix_document (stringify 0) (cleanupDocument secs) ends_nil
  rw [List.append_nil] at hread
  have hdepth : (cleanupDocument secs).depth ≤ maxNestingDepth := by
    rw [show (cleanupDocument secs).depth = 1 from rfl]
    decide
  rw [decodeFirst]
  exact Option.bind_eq_some_iff.mpr ⟨_, hread, (if_pos hdepth).trans (struct_cleanupDocument h)⟩

theorem decodeOlderThan_cleanupBody {secs : ℕ} (h : secs ≤ MAX_CLEANUP_AGE_SECS) :
    decodeOlderThan (.complete (cleanupBody secs)) = some (secs : ℤ) := by
  have hlength : (cleanupBody secs).length ≤ maxCleanupBodyBytes := (length_cleanupBody h).trans (by decide)
  rw [decodeOlderThan, Incoming.received, List.take_of_length_le hlength, decodeFirst_cleanupBody h, Option.join_some,
    Option.filter_some, if_pos (decide_eq_true (Int.natCast_nonneg secs))]

/-! ## What is asked -/

/-- An age that is not in error: the whole number of seconds next to what was typed. -/
theorem olderThanSecs_ok {amount : Units} {unit : AgeUnit} {secs : ℕ} (h : olderThanSecs amount unit = .ok secs) :
    secs ≤ MAX_CLEANUP_AGE_SECS ∧ ∃ negative size, numberOf amount = .finite negative size ∧
      (negative = true → size.units = 0) ∧ scaled size unit.secs = some secs := by
  rw [olderThanSecs, numberOf_trim] at h
  split_ifs at h
  split at h
  · rename_i negative size hnumber
    split_ifs at h with hnegative
    split at h
    · rename_i bytes hscaled
      split_ifs at h with hsafe hmax
      obtain rfl := Except.ok.inj h
      refine ⟨Nat.le_of_not_lt hmax, negative, size, hnumber, fun hneg => ?_, hscaled⟩
      rw [hneg, Bool.true_and, decide_eq_true_eq] at hnegative
      omega
    · cases h
  · cases h

/-- What a request says. -/
structure CleanupRequest.Sound (r : CleanupRequest) : Prop where
  read : olderThanSecs r.amount r.unit = .ok r.secs
  warned : r.warned = tooRecent r.secs

structure UploadsInv (c : UploadsCard) : Prop where
  /-- The dialog is not open over an amount that is in error. -/
  dialog : c.confirmOpen = true → ∃ secs, olderThanSecs c.amount c.unit = .ok secs
  pending : c.pending = true → c.confirmOpen = true
  asked : ∀ r ∈ c.sent, r.Sound

theorem UploadsInv.step {c d : UploadsCard} {event : UploadsEvent} (h : UploadsInv c)
    (hstep : c.step event = some d) : UploadsInv d := by
  cases event with
  | setAmount s | setUnit u =>
    rw [UploadsCard.step] at hstep
    split_ifs at hstep with hopen
    obtain rfl := Option.some.inj hstep
    exact ⟨fun hd => absurd hd hopen, h.pending, h.asked⟩
  | clean =>
    rw [UploadsCard.step] at hstep
    cases hread : olderThanSecs c.amount c.unit with
    | error message => rw [hread] at hstep; cases hstep
    | ok secs =>
      rw [hread] at hstep
      dsimp only at hstep
      split_ifs at hstep
      obtain rfl := Option.some.inj hstep
      exact ⟨fun _ => ⟨secs, hread⟩, fun _ => rfl, h.asked⟩
  | confirmed =>
    rw [UploadsCard.step] at hstep
    cases hread : olderThanSecs c.amount c.unit with
    | error message => rw [hread] at hstep; cases hstep
    | ok secs =>
      rw [hread] at hstep
      dsimp only at hstep
      split_ifs at hstep with hoffered
      obtain rfl := Option.some.inj hstep
      rw [Bool.or_eq_true, not_or, Bool.not_eq_true', Bool.not_eq_false] at hoffered
      exact ⟨h.dialog, fun _ => hoffered.1,
        List.forall_mem_append.mpr ⟨h.asked, List.forall_mem_singleton.mpr ⟨hread, rfl⟩⟩⟩
  | cancelled =>
    rw [UploadsCard.step] at hstep
    split_ifs at hstep with hoffered
    obtain rfl := Option.some.inj hstep
    rw [Bool.or_eq_true, not_or] at hoffered
    exact ⟨fun hd => absurd hd Bool.false_ne_true, fun hd => absurd hd hoffered.2, h.asked⟩
  | cleaned =>
    rw [UploadsCard.step] at hstep
    split_ifs at hstep
    obtain rfl := Option.some.inj hstep
    exact ⟨fun hd => absurd hd Bool.false_ne_true, fun hd => absurd hd Bool.false_ne_true, h.asked⟩
  | failed =>
    rw [UploadsCard.step] at hstep
    split_ifs at hstep
    obtain rfl := Option.some.inj hstep
    exact ⟨h.dialog, fun hd => absurd hd Bool.false_ne_true, h.asked⟩

theorem runs_handleCleanup {bucketID : String} {secs : ℕ} (hmax : secs ≤ MAX_CLEANUP_AGE_SECS)
    {log : GarageLog CleanupCall} {outcome : CleanupOutcome} :
    Runs (handleCleanupIncompleteUploads bucketID (.complete (cleanupBody secs))) log outcome ↔
      ∃ reply, log = [⟨.cleanupIncompleteUploads bucketID secs, reply⟩] ∧
        outcome = ⟨forwardResponse reply, isSuccess reply⟩ := by
  rw [handleCleanupIncompleteUploads, decodeOlderThan_cleanupBody hmax]
  simp only [runs_call, Prog.pure_eq, runs_ret]
  constructor
  · rintro ⟨reply, rest, rfl, rfl, rfl⟩
    exact ⟨reply, rfl, rfl⟩
  · rintro ⟨reply, rfl, rfl⟩
    exact ⟨reply, [], rfl, rfl, rfl⟩

/-- A request is for the age that the dialog showed. -/
structure CleanupRequest.AsShown (r : CleanupRequest) : Prop where
  max : r.secs ≤ MAX_CLEANUP_AGE_SECS
  warned : r.warned = true ↔ r.secs < 3600
  /-- The whole number of seconds next to what was typed; 0, which is every upload, only for less than half a second. -/
  shown : ∃ negative size, numberOf r.amount = .finite negative size ∧ (negative = true → size.units = 0) ∧
    2 * (r.secs * one) ≤ 2 * times size.units r.unit.secs + one ∧
    2 * times size.units r.unit.secs + one < 2 * ((r.secs + 1) * one) ∧
    (r.secs = 0 ↔ 2 * times size.units r.unit.secs < one)
  /-- The backend asks Garage once, for this age. -/
  asked : ∀ bucketID log outcome,
    Runs (handleCleanupIncompleteUploads bucketID (.complete (cleanupBody r.secs))) log outcome ↔
      ∃ reply, log = [⟨.cleanupIncompleteUploads bucketID r.secs, reply⟩] ∧
        outcome = ⟨forwardResponse reply, isSuccess reply⟩

theorem CleanupRequest.Sound.asShown {r : CleanupRequest} (h : r.Sound) : r.AsShown := by
  obtain ⟨hmax, negative, size, hnumber, hnegative, hscaled⟩ := olderThanSecs_ok h.read
  rw [scaled] at hscaled
  split_ifs at hscaled
  have hsecs : mathRound (times size.units r.unit.secs) = r.secs := Option.some.inj hscaled
  obtain ⟨hlow, hhigh⟩ := mathRound_bounds (times size.units r.unit.secs)
  rw [hsecs] at hlow hhigh
  have hzero : r.secs = 0 ↔ 2 * times size.units r.unit.secs < one := by
    constructor
    · intro hzero
      rw [hzero, Nat.zero_add, Nat.one_mul] at hhigh
      omega
    · intro hlt
      by_contra hne
      have hone : one ≤ r.secs * one := Nat.le_mul_of_pos_left one (Nat.pos_of_ne_zero hne)
      omega
  exact {
    max := hmax
    warned := by rw [h.warned, tooRecent, decide_eq_true_eq]
    shown := ⟨negative, size, hnumber, hnegative, hlow, hhigh, hzero⟩
    asked := fun _ _ _ => runs_handleCleanup hmax }

/-- **What was confirmed is what is asked.** Whatever is typed, confirmed, cancelled and refused in whatever order, each
request is for the age that the dialog showed when it was confirmed, with a warning exactly if that is under an hour,
and Garage is asked for just this age. -/
theorem cleanup_as_confirmed {c : UploadsCard} (h : Reachable uploadsCard (fun _ _ => True) c) :
    (c.pending = true → c.confirmOpen = true) ∧ ∀ r ∈ c.sent, r.AsShown := by
  have hinv : UploadsInv c := by
    refine h.invariant ?_ fun c event d hc _ hstep => hc.step hstep
    rintro _ rfl
    exact ⟨fun hd => absurd hd Bool.false_ne_true, fun hd => absurd hd Bool.false_ne_true,
      fun r hr => absurd hr List.not_mem_nil⟩
  exact ⟨hinv.pending, fun r hr => (hinv.asked r hr).asShown⟩

theorem cleanup_as_confirmed_day : ∃ c : UploadsCard, c.sent ≠ [] ∧
    (c.pending = true → c.confirmOpen = true) ∧ ∀ r ∈ c.sent, r.AsShown := by
  have hstart : Reachable uploadsCard (fun _ _ => True) {} := .init rfl
  have hrun : ((UploadsCard.step {} .clean).bind fun c => c.step .confirmed).any (fun c => !c.sent.isEmpty) = true := by
    decide +kernel
  obtain ⟨c₂, h, hsent⟩ := (Option.any_eq_true _ _).mp hrun
  obtain ⟨c₁, h₁, h₂⟩ := Option.bind_eq_some_iff.mp h
  refine ⟨c₂, fun hnil => ?_, cleanup_as_confirmed ((hstart.step trivial h₁).step trivial h₂)⟩
  rw [hnil] at hsent
  exact absurd hsent (by decide)

end GarageConsole.Buckets
