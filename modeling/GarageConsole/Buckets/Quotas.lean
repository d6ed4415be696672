import GarageConsole.Foundations.NumberText
import GarageConsole.Foundations.ServerForm
import GarageConsole.Foundations.Systems

/-! # Quotas of a bucket

A save sends both quotas. The size is shown in the largest unit in which it is a whole number, and what is shown reads
as the same number of bytes (`maxSizeOf_filled`). So a quota that is not edited is sent as it was (`quotas_kept`).
-/

namespace GarageConsole.Buckets

open Foundations Foundations.Numbers Foundations.Utf16 Foundations.Systems
open Foundations.Double (ofNat ofNat_mono ulp)

set_option autoImplicit false

/-! ## Quotas as numbers -/

/-- A quota that is not unlimited: a double that is whole and positive. -/
structure Quota where
  count : ℕ
  pos : 0 < count
  exact : ulp count ∣ count
  le : count ≤ 2 ^ 64

theorem Quota.eq_of_count {a b : Quota} (h : a.count = b.count) : a = b := by
  cases a
  cases b
  cases h
  rfl

instance : DecidableEq Quota := fun a b =>
  @decidable_of_iff _ (a.count = b.count) ⟨Quota.eq_of_count, congrArg Quota.count⟩ (Nat.decEq a.count b.count)

structure QuotaDetail where
  maxSize : Option UInt64
  maxObjects : Option UInt64

structure QuotaServer where
  maxSize : Option Quota
  maxObjects : Option Quota
  deriving DecidableEq

/-- A quota of 0 is unlimited. -/
def normalizeQuota (v : Option UInt64) : Option Quota :=
  v.bind fun v =>
    if h : 0 < v.toNat then
      some
        { count := ofNat v.toNat
          pos := (ofNat_two_pow 0).symm.le.trans (ofNat_mono h)
          exact := ofNat_eq_toNearest _ ▸ ulp_dvd_toNearest v.toNat 1
          le := (ofNat_mono v.toNat_lt.le).trans (ofNat_two_pow 64).le }
    else none

def quotaServer (b : QuotaDetail) : QuotaServer := ⟨normalizeQuota b.maxSize, normalizeQuota b.maxObjects⟩

inductive SizeUnit where
  | B
  | KiB
  | MiB
  | GiB
  | TiB
  deriving DecidableEq

/-- How many times 1024. -/
def SizeUnit.power : SizeUnit → ℕ
  | B => 0
  | KiB => 1
  | MiB => 2
  | GiB => 3
  | TiB => 4

def SizeUnit.factor (u : SizeUnit) : ℕ := 1024 ^ u.power

def SIZE_UNITS : List SizeUnit := [.B, .KiB, .MiB, .GiB, .TiB]

/-- The largest unit that represents the bytes exactly. -/
def splitBytes (bytes : Quota) : Units × SizeUnit :=
  match SIZE_UNITS.tail.reverse.find? fun u => bytes.count % u.factor = 0 with
  | some u => (text (quotient bytes.count u.factor), u)
  | none => (text (bytes.count * one), .B)

/-! ## The form -/

structure SizeFields where
  unlimited : Bool
  value : Units
  unit : SizeUnit
  deriving DecidableEq

structure ObjectsFields where
  unlimited : Bool
  value : Units
  deriving DecidableEq

structure QuotaForm where
  size : SizeFields
  objects : ObjectsFields
  deriving DecidableEq

def sizeFields : Option Quota → SizeFields
  | some bytes => ⟨false, (splitBytes bytes).1, (splitBytes bytes).2⟩
  | none => ⟨true, [], .GiB⟩

def objectsFields : Option Quota → ObjectsFields
  | some n => ⟨false, text (n.count * one)⟩
  | none => ⟨true, []⟩

def quotaForm (s : QuotaServer) : QuotaForm := ⟨sizeFields s.maxSize, objectsFields s.maxObjects⟩

/-- `Number.MAX_SAFE_INTEGER` -/
def maxSafe : ℕ := 2 ^ 53 - 1

/-- `Math.round(n * factor)`, of a number that is not negative; none for `Infinity`. -/
def scaled (size : Magnitude) (factor : ℕ) : Option ℕ :=
  if times size.units factor < limit then some (mathRound (times size.units factor)) else none

def maxSizeOf (form : SizeFields) : Except String (Option ℕ) :=
  let notPositive := "正の数を入力してください"
  if form.unlimited then .ok none
  else if trim form.value = [] then .error notPositive
  else match numberOf (trim form.value) with
    | .finite false size =>
      match scaled size form.unit.factor with
      | some 0 => .error notPositive
      | some bytes => if bytes ≤ maxSafe then .ok (some bytes) else .error "値が大きすぎます"
      | none => .error "値が大きすぎます"
    | _ => .error notPositive

def parsePositiveInt (s : Units) : Option ℕ :=
  let t := trim s
  if t ≠ [] && t.all (isDigitOf 10) then
    match numberOf t with
    | .finite false size =>
      if one ∣ size.units ∧ 0 < size.units ∧ size.units / one ≤ maxSafe then some (size.units / one) else none
    | _ => none
  else none

def maxObjectsOf (form : ObjectsFields) : Except String (Option ℕ) :=
  if form.unlimited then .ok none
  else match parsePositiveInt form.value with
    | some n => .ok (some n)
    | none => .error "1 以上の整数を入力してください"

/-- A request to save, with the form as it was shown and what it was filled from. -/
structure QuotaRequest where
  maxSize : Option ℕ
  maxObjects : Option ℕ
  form : QuotaForm
  base : QuotaServer

structure QuotaCard where
  fields : ServerForm QuotaServer QuotaForm
  pending : Option QuotaRequest := none
  /-- Every request that was sent. -/
  sent : List QuotaRequest := []

inductive QuotaEvent where
  | refetched (b : QuotaDetail)
  | setSizeUnlimited (v : Bool)
  | setSizeValue (s : Units)
  | setSizeUnit (u : SizeUnit)
  | setObjectsUnlimited (v : Bool)
  | setObjectsValue (s : Units)
  | save
  | reset
  | saved (b : QuotaDetail)
  | failed

namespace QuotaCard

def base (c : QuotaCard) : QuotaServer := c.fields.base

def form (c : QuotaCard) : QuotaForm := c.fields.form

/-- The quota of a field, which is null where it is in error. -/
def valueOf : Except String (Option ℕ) → Option ℕ
  | .ok v => v
  | .error _ => none

def maxSize (c : QuotaCard) : Option ℕ := valueOf (maxSizeOf c.form.size)

def maxObjects (c : QuotaCard) : Option ℕ := valueOf (maxObjectsOf c.form.objects)

def valid (c : QuotaCard) : Bool :=
  match maxSizeOf c.form.size, maxObjectsOf c.form.objects with
  | .ok _, .ok _ => true
  | _, _ => false

def dirty (c : QuotaCard) : Bool :=
  c.form.size.unlimited ≠ c.base.maxSize.isNone || c.form.objects.unlimited ≠ c.base.maxObjects.isNone ||
    !c.form.size.unlimited && c.maxSize ≠ c.base.maxSize.map Quota.count ||
    !c.form.objects.unlimited && c.maxObjects ≠ c.base.maxObjects.map Quota.count

def update (c : QuotaCard) (edit : QuotaForm → QuotaForm) : QuotaCard :=
  { c with fields := c.fields.next quotaForm (.edited edit) }

def send (c : QuotaCard) : QuotaCard :=
  { c with
    pending := some ⟨c.maxSize, c.maxObjects, c.form, c.base⟩
    sent := c.sent ++ [⟨c.maxSize, c.maxObjects, c.form, c.base⟩] }

/-- What an event does; `none` where the card does not offer it. -/
def step (c : QuotaCard) : QuotaEvent → Option QuotaCard
  | .refetched b => some { c with fields := c.fields.next quotaForm (.refetched (quotaServer b)) }
  | .setSizeUnlimited v => some (c.update fun form => { form with size.unlimited := v })
  | .setSizeValue s =>
    if c.form.size.unlimited then none else some (c.update fun form => { form with size.value := s })
  | .setSizeUnit u =>
    if c.form.size.unlimited then none else some (c.update fun form => { form with size.unit := u })
  | .setObjectsUnlimited v => some (c.update fun form => { form with objects.unlimited := v })
  | .setObjectsValue s =>
    if c.form.objects.unlimited then none else some (c.update fun form => { form with objects.value := s })
  | .save => if !c.dirty || !c.valid || c.pending.isSome then none else some c.send
  | .reset =>
    if !c.dirty || c.pending.isSome then none
    else some { c with fields := c.fields.next quotaForm (.reset c.base) }
  | .saved b =>
    c.pending.map fun _ =>
      let server := quotaServer b
      { c with fields := { c.fields with server }.next quotaForm (.reset server), pending := none }
  | .failed => c.pending.map fun _ => { c with pending := none }

end QuotaCard

def quotaCard : System QuotaCard QuotaEvent where
  init c := ∃ b, c = { fields := ServerForm.opened quotaForm (quotaServer b) }
  step c event d := c.step event = some d

/-! ## What is shown reads as what it was -/

/-- A whole number as a double. -/
def Quota.size (q : Quota) : Magnitude where
  units := q.count * one
  exact := ulp_dvd_whole q.exact
  lt := (Nat.mul_le_mul_right one q.le).trans_lt (by decide +kernel)

theorem SizeUnit.factor_eq (u : SizeUnit) : u.factor = 2 ^ (10 * u.power) := by
  rw [SizeUnit.factor, Nat.pow_mul]

theorem splitBytes_eq (bytes : Quota) : ∃ (size : Magnitude) (u : SizeUnit),
    splitBytes bytes = (text size.units, u) ∧ size.units * u.factor = bytes.count * one := by
  rw [splitBytes]
  cases hfind : SIZE_UNITS.tail.reverse.find? fun u => bytes.count % u.factor = 0 with
  | none => exact ⟨bytes.size, .B, rfl, Nat.mul_one _⟩
  | some u =>
    have hmod : bytes.count % u.factor = 0 := by simpa using List.find?_some hfind
    have hdvd : u.factor ∣ bytes.count := Nat.dvd_of_mod_eq_zero hmod
    obtain ⟨m, hm⟩ := hdvd
    rw [Nat.mul_comm, SizeUnit.factor_eq] at hm
    have hexact : ulp (m * 2 ^ (10 * u.power)) ∣ m * 2 ^ (10 * u.power) := hm ▸ bytes.exact
    have hle : m * one ≤ bytes.count * one :=
      Nat.mul_le_mul_right one (hm ▸ Nat.le_mul_of_pos_right m (Nat.two_pow_pos _))
    refine ⟨⟨m * one, ulp_dvd_whole (ulp_dvd_of_mul hexact), hle.trans_lt bytes.size.lt⟩, u, ?_, ?_⟩
    · dsimp only
      rw [hm, SizeUnit.factor_eq, quotient_mul hexact]
    · have hunits : m * one * 2 ^ (10 * u.power) = bytes.count * one :=
        (Nat.mul_right_comm m one _).trans (congrArg (· * one) hm.symm)
      exact (congrArg (m * one * ·) u.factor_eq).trans hunits

theorem scaled_eq (size : Magnitude) (u : SizeUnit) : scaled size u.factor =
    if size.units * u.factor < limit then some (mathRound (size.units * u.factor)) else none := by
  rw [scaled, SizeUnit.factor_eq, times_two_pow size.exact]

/-- A size that is not in error is the number that was typed, times the unit. -/
theorem maxSizeOf_ok {value : Units} {unit : SizeUnit} {v : Option ℕ} (h : maxSizeOf ⟨false, value, unit⟩ = .ok v) :
    ∃ size bytes, numberOf value = .finite false size ∧ scaled size unit.factor = some bytes ∧ v = some bytes ∧
      0 < bytes ∧ bytes ≤ maxSafe := by
  rw [maxSizeOf] at h
  dsimp only at h
  rw [if_neg Bool.false_ne_true, numberOf_trim] at h
  split_ifs at h
  split at h
  · rename_i size hnumber
    split at h
    · cases h
    · rename_i bytes hpos hscaled
      split_ifs at h with hsafe
      exact ⟨size, bytes, hnumber, hscaled, (Except.ok.inj h).symm, Nat.pos_of_ne_zero fun hzero => hpos hzero, hsafe⟩
    · cases h
  · cases h

theorem parsePositiveInt_some {s : Units} {n : ℕ} (h : parsePositiveInt s = some n) :
    ∃ size, numberOf s = .finite false size ∧ size.units = n * one ∧ 0 < n ∧ n ≤ maxSafe := by
  rw [parsePositiveInt, numberOf_trim] at h
  split_ifs at h
  split at h
  · rename_i size hnumber
    split_ifs at h with hwhole
    obtain ⟨hdvd, hpos, hsafe⟩ := hwhole
    obtain rfl := Option.some.inj h
    exact ⟨size, hnumber, (Nat.div_mul_cancel hdvd).symm, Nat.div_pos (Nat.le_of_dvd hpos hdvd) pos_one, hsafe⟩
  · cases h

theorem maxObjectsOf_ok {value : Units} {v : Option ℕ} (h : maxObjectsOf ⟨false, value⟩ = .ok v) :
    ∃ n, parsePositiveInt value = some n ∧ v = some n := by
  rw [maxObjectsOf, if_neg Bool.false_ne_true] at h
  split at h
  · rename_i n hparsed
    exact ⟨n, hparsed, (Except.ok.inj h).symm⟩
  · cases h

/-- What is shown of a size reads as the size, if it reads as one at all. -/
theorem maxSizeOf_filled {q : Option Quota} {v : Option ℕ} (h : maxSizeOf (sizeFields q) = .ok v) :
    v = q.map Quota.count := by
  cases q with
  | none => exact (Except.ok.inj h).symm
  | some bytes =>
    obtain ⟨size, u, hsplit, hunits⟩ := splitBytes_eq bytes
    have hlt : bytes.count * one < limit := bytes.size.lt
    have hscaled : scaled size u.factor = some bytes.count := by
      rw [scaled_eq, hunits, if_pos hlt, mathRound_whole]
    rw [sizeFields, hsplit] at h
    obtain ⟨size', sent, hnumber, hsent, rfl, -⟩ := maxSizeOf_ok h
    rw [numberOf_text] at hnumber
    obtain rfl : size = size' := by injection hnumber
    rw [← hsent, hscaled]
    rfl

theorem maxObjectsOf_filled {q : Option Quota} {v : Option ℕ} (h : maxObjectsOf (objectsFields q) = .ok v) :
    v = q.map Quota.count := by
  cases q with
  | none => exact (Except.ok.inj h).symm
  | some n =>
    have hread : numberOf (text (n.count * one)) = .finite false n.size := numberOf_text n.size
    rw [objectsFields] at h
    obtain ⟨sent, hparsed, rfl⟩ := maxObjectsOf_ok h
    obtain ⟨size, hnumber, hunits, -⟩ := parsePositiveInt_some hparsed
    rw [hread] at hnumber
    obtain rfl : n.size = size := by injection hnumber
    exact congrArg some (Nat.eq_of_mul_eq_mul_right pos_one hunits.symm)

/-! ## What is sent -/

/-- A quota says what its field says: nothing of an unlimited one, else the bytes next to the number times the unit. -/
def SizeFields.Says (form : SizeFields) (v : Option ℕ) : Prop :=
  match v with
  | none => form.unlimited = true
  | some bytes => form.unlimited = false ∧ 0 < bytes ∧ bytes ≤ maxSafe ∧
      ∃ size, numberOf form.value = .finite false size ∧
        2 * (bytes * one) ≤ 2 * (size.units * form.unit.factor) + one ∧
        2 * (size.units * form.unit.factor) + one < 2 * ((bytes + 1) * one)

def ObjectsFields.Says (form : ObjectsFields) (v : Option ℕ) : Prop :=
  match v with
  | none => form.unlimited = true
  | some n => form.unlimited = false ∧ 0 < n ∧ n ≤ maxSafe ∧
      ∃ size, numberOf form.value = .finite false size ∧ size.units = n * one

theorem SizeFields.says_of_ok {form : SizeFields} {v : Option ℕ} (h : maxSizeOf form = .ok v) : form.Says v := by
  obtain ⟨unlimited, value, unit⟩ := form
  cases unlimited with
  | true =>
    obtain rfl : none = v := Except.ok.inj h
    rfl
  | false =>
    obtain ⟨size, bytes, hnumber, hscaled, rfl, hpos, hsafe⟩ := maxSizeOf_ok h
    rw [scaled_eq] at hscaled
    split_ifs at hscaled
    obtain rfl := Option.some.inj hscaled
    exact ⟨rfl, hpos, hsafe, size, hnumber, mathRound_bounds _⟩

theorem ObjectsFields.says_of_ok {form : ObjectsFields} {v : Option ℕ} (h : maxObjectsOf form = .ok v) :
    form.Says v := by
  obtain ⟨unlimited, value⟩ := form
  cases unlimited with
  | true =>
    obtain rfl : none = v := Except.ok.inj h
    rfl
  | false =>
    obtain ⟨n, hparsed, rfl⟩ := maxObjectsOf_ok h
    obtain ⟨size, hnumber, hunits, hpos, hsafe⟩ := parsePositiveInt_some hparsed
    exact ⟨rfl, hpos, hsafe, size, hnumber, hunits⟩

/-- What is sent says what the form says, leaves a quota whose fields are as they were filled as it was, and differs
from what there was. -/
structure QuotaRequest.Sound (r : QuotaRequest) : Prop where
  size : r.form.size.Says r.maxSize
  objects : r.form.objects.Says r.maxObjects
  sizeKept : r.form.size = (quotaForm r.base).size → r.maxSize = r.base.maxSize.map Quota.count
  objectsKept : r.form.objects = (quotaForm r.base).objects → r.maxObjects = r.base.maxObjects.map Quota.count
  changes : ¬(r.maxSize = r.base.maxSize.map Quota.count ∧ r.maxObjects = r.base.maxObjects.map Quota.count)

theorem SizeFields.Says.unlimited {form : SizeFields} {v : Option ℕ} (h : form.Says v) : form.unlimited = v.isNone := by
  cases v with
  | none => exact h
  | some bytes => exact h.1

theorem ObjectsFields.Says.unlimited {form : ObjectsFields} {v : Option ℕ} (h : form.Says v) :
    form.unlimited = v.isNone := by
  cases v with
  | none => exact h
  | some n => exact h.1

theorem QuotaCard.valid_iff {c : QuotaCard} : c.valid = true ↔
    maxSizeOf c.form.size = .ok c.maxSize ∧ maxObjectsOf c.form.objects = .ok c.maxObjects := by
  rw [QuotaCard.valid, QuotaCard.maxSize, QuotaCard.maxObjects]
  cases maxSizeOf c.form.size with
  | error message => exact iff_of_false Bool.false_ne_true fun h => by cases h.1
  | ok size =>
    cases maxObjectsOf c.form.objects with
    | error message => exact iff_of_false Bool.false_ne_true fun h => by cases h.2
    | ok objects => exact iff_of_true rfl ⟨rfl, rfl⟩

theorem QuotaCard.sound {c : QuotaCard} (hdirty : c.dirty = true) (hvalid : c.valid = true) :
    QuotaRequest.Sound ⟨c.maxSize, c.maxObjects, c.form, c.base⟩ := by
  obtain ⟨hsize, hobjects⟩ := QuotaCard.valid_iff.mp hvalid
  have hsaysSize := SizeFields.says_of_ok hsize
  have hsaysObjects := ObjectsFields.says_of_ok hobjects
  refine ⟨hsaysSize, hsaysObjects, fun hfilled => ?_, fun hfilled => ?_, fun hsame => ?_⟩
  · dsimp only at hfilled ⊢
    rw [hfilled] at hsize
    exact maxSizeOf_filled hsize
  · dsimp only at hfilled ⊢
    rw [hfilled] at hobjects
    exact maxObjectsOf_filled hobjects
  · obtain ⟨hsameSize, hsameObjects⟩ := hsame
    dsimp only at hsameSize hsameObjects
    rw [QuotaCard.dirty, hsaysSize.unlimited, hsaysObjects.unlimited, hsameSize, hsameObjects, Option.isNone_map,
      Option.isNone_map] at hdirty
    simp at hdirty

structure QuotaInv (c : QuotaCard) : Prop where
  follows : ServerForm.Follows quotaForm c.fields
  asked : ∀ r ∈ c.sent, r.Sound

theorem QuotaInv.next {c : QuotaCard} (h : QuotaInv c) (event : ServerForm.Event QuotaServer QuotaForm) :
    QuotaInv { c with fields := c.fields.next quotaForm event } where
  follows := ServerForm.follows_next _ _
  asked := h.asked

theorem QuotaInv.step {c d : QuotaCard} {event : QuotaEvent} (h : QuotaInv c) (hstep : c.step event = some d) :
    QuotaInv d := by
  cases event with
  | refetched b | setSizeUnlimited v | setObjectsUnlimited v =>
    obtain rfl := Option.some.inj hstep
    exact h.next _
  | setSizeValue s | setSizeUnit u | setObjectsValue s =>
    rw [QuotaCard.step] at hstep
    split_ifs at hstep
    obtain rfl := Option.some.inj hstep
    exact h.next _
  | save =>
    rw [QuotaCard.step] at hstep
    split_ifs at hstep with hoffered
    obtain rfl := Option.some.inj hstep
    simp only [Bool.or_eq_true, not_or, Bool.not_eq_true', Bool.not_eq_false] at hoffered
    exact {
      follows := h.follows
      asked := List.forall_mem_append.mpr
        ⟨h.asked, List.forall_mem_singleton.mpr (QuotaCard.sound hoffered.1.1 hoffered.1.2)⟩ }
  | reset =>
    rw [QuotaCard.step] at hstep
    split_ifs at hstep
    obtain rfl := Option.some.inj hstep
    exact h.next _
  | saved b =>
    obtain ⟨r, -, rfl⟩ := Option.map_eq_some_iff.mp hstep
    exact ⟨ServerForm.follows_next _ _, h.asked⟩
  | failed =>
    obtain ⟨r, -, rfl⟩ := Option.map_eq_some_iff.mp hstep
    exact ⟨h.follows, h.asked⟩

/-- **A quota that is not edited is sent as it was.** Whatever is typed, fetched, saved and refused in whatever order,
each request says what the form said; a quota whose fields were as they were filled is the one that they were filled
from, to the byte; and no request changes nothing. An untouched form shows what was fetched last. -/
theorem quotas_kept {c : QuotaCard} (h : Reachable quotaCard (fun _ _ => True) c) :
    (c.form = quotaForm c.base → c.base = c.fields.server) ∧ ∀ r ∈ c.sent, r.Sound := by
  have hinv : QuotaInv c := by
    refine h.invariant ?_ fun c event d hc _ hstep => hc.step hstep
    rintro _ ⟨b, rfl⟩
    exact ⟨fun _ => rfl, fun r hr => absurd hr List.not_mem_nil⟩
  exact ⟨fun hform => hinv.follows (decide_eq_true hform), hinv.asked⟩

/-- A bucket of at most 10 GiB, which is given at most 5 objects. -/
def tenGiB : QuotaDetail := ⟨some 10737418240, none⟩

theorem quotas_kept_edited : ∃ c : QuotaCard, c.sent ≠ [] ∧
    (c.form = quotaForm c.base → c.base = c.fields.server) ∧ ∀ r ∈ c.sent, r.Sound := by
  let c₀ : QuotaCard := { fields := ServerForm.opened quotaForm (quotaServer tenGiB) }
  have hstart : Reachable quotaCard (fun _ _ => True) c₀ := .init ⟨tenGiB, rfl⟩
  have hrun : (((c₀.step (.setObjectsUnlimited false)).bind fun c => c.step (.setObjectsValue (utf16 "5"))).bind
      fun c => c.step .save).any (fun c => !c.sent.isEmpty) = true := by decide +kernel
  obtain ⟨c₃, h, hsent⟩ := (Option.any_eq_true _ _).mp hrun
  obtain ⟨c₂, h, h₃⟩ := Option.bind_eq_some_iff.mp h
  obtain ⟨c₁, h₁, h₂⟩ := Option.bind_eq_some_iff.mp h
  refine ⟨c₃, fun hnil => ?_, quotas_kept (((hstart.step trivial h₁).step trivial h₂).step trivial h₃)⟩
  rw [hnil] at hsent
  exact absurd hsent (by decide)

end GarageConsole.Buckets
