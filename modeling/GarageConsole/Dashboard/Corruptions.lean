import GarageConsole.Maintenance.Metrics

/-! # Increases of the corruption counters

The dashboard shows how far a node's lifetime counter of corruptions rose since the page was loaded, or since
the counter was reset. `trackCorruptions` keeps a baseline for each node and restarts it when the counter falls
below it. What the baseline stands for is the first value since the last drop; the two agree as long as every
drop falls below the baseline (`corruptions_measured`).
-/

namespace GarageConsole.Dashboard

open Foundations Foundations.GoJson Foundations.Keyed GarageConsole.Maintenance

set_option autoImplicit false

structure CorruptionIncrease where
  delta : ℤ
  noticedAt : ℤ
  deriving DecidableEq

structure CorruptionBaseline where
  first : ℤ
  noticedAt : Option ℤ := none

abbrev Tracked := GoMap CorruptionBaseline × GoMap CorruptionIncrease

/-- The round of the loop for one node. -/
def trackNode (now : ℤ) (s : Tracked) (entry : String × ShownNode) : Tracked :=
  match entry.2.scrubCorruptions with
  | none => s
  | some v =>
    match s.1.get entry.1 with
    | none => (s.1.set entry.1 { first := v }, s.2)
    | some b =>
      if v < b.first then (s.1.set entry.1 { first := v }, s.2)
      else if b.first < v then
        let noticedAt := b.noticedAt.getD now
        (s.1.set entry.1 { b with noticedAt := some noticedAt },
          s.2.set entry.1 { delta := Double.ofInt (v - b.first), noticedAt := noticedAt })
      else s

def trackCorruptions (baselines : GoMap CorruptionBaseline) (health : StorageHealth) (now : ℤ) : Tracked :=
  health.nodes.entries.foldl (trackNode now) (baselines, .empty)

/-- One answer of the backend and the time at which it came. -/
structure Poll where
  health : StorageHealth
  now : ℤ

/-- The baselines after some polls, the latest poll first. -/
def baselinesAfter (polls : List Poll) : GoMap CorruptionBaseline :=
  polls.foldr (fun p baselines => (trackCorruptions baselines p.health p.now).1) .empty

def increasesAt (p : Poll) (before : List Poll) : GoMap CorruptionIncrease :=
  (trackCorruptions (baselinesAfter before) p.health p.now).2

/-! ## What was observed -/

/-- A value of a node's counter and the time of its poll. -/
structure Observation where
  value : ℤ
  seenAt : ℤ

def counterOf (id : String) (p : Poll) : Option ℤ := (p.health.nodes.get id).bind ShownNode.scrubCorruptions

/-- The observations of a node, the latest first. -/
def observations (id : String) (polls : List Poll) : List Observation :=
  polls.filterMap fun p => (counterOf id p).map (⟨·, p.now⟩)

/-- The observations since the most recent drop, the latest first. -/
def sinceDrop : List Observation → List Observation
  | [] => []
  | [o] => [o]
  | o :: o' :: rest => if o.value < o'.value then [o] else o :: sinceDrop (o' :: rest)

/-- The first value observed since the most recent drop. -/
def baselineOf (obs : List Observation) : Option ℤ := (sinceDrop obs).getLast?.map Observation.value

/-- The time of the first observation since the most recent drop that is above `b`. -/
def firstAbove (b : ℤ) (obs : List Observation) : Option ℤ :=
  ((sinceDrop obs).reverse.find? fun o => b < o.value).map Observation.seenAt

/-- The increases at a poll contain a node exactly if its counter is above the baseline; the difference is the
subtraction of two doubles. -/
def MeasuredRight (p : Poll) (before : List Poll) (id : String) : Prop :=
  ∀ increase, (increasesAt p before).get id = some increase ↔
    ∃ c b, counterOf id p = some c ∧ baselineOf (observations id (p :: before)) = some b ∧ b < c ∧
      increase.delta = Double.ofInt (c - b) ∧ 0 < increase.delta ∧
      firstAbove b (observations id (p :: before)) = some increase.noticedAt

/-- Every drop falls below the baseline at that time. -/
def DropsBelow : List Observation → Prop
  | [] => True
  | o :: rest => (∀ o' ∈ rest.head?, o.value < o'.value → ∀ b ∈ baselineOf rest, o.value < b) ∧ DropsBelow rest

/-! ## One poll -/

/-- The baseline of a node after its counter was seen at `v`. -/
def nextBaseline (now v : ℤ) : Option CorruptionBaseline → CorruptionBaseline
  | none => { first := v }
  | some b =>
    if v < b.first then { first := v }
    else if b.first < v then { b with noticedAt := some (b.noticedAt.getD now) }
    else b

/-- The increase over a baseline that already takes account of `v`. -/
def increaseOver (v : ℤ) (b : CorruptionBaseline) : Option CorruptionIncrease :=
  if b.first < v then b.noticedAt.map fun noticedAt => ⟨Double.ofInt (v - b.first), noticedAt⟩ else none

/-- What is tracked of one node. -/
def tracked (s : Tracked) (id : String) : Option CorruptionBaseline × Option CorruptionIncrease :=
  (s.1.get id, s.2.get id)

theorem trackNode_self (now : ℤ) (s : Tracked) (id : String) {n : ShownNode} {v : ℤ}
    (hv : n.scrubCorruptions = some v) : tracked (trackNode now s (id, n)) id =
      (some (nextBaseline now v (s.1.get id)), (increaseOver v (nextBaseline now v (s.1.get id))).or (s.2.get id)) := by
  simp only [trackNode, hv]
  cases hget : s.1.get id with
  | none => simp [tracked, GoMap.get_set, nextBaseline, increaseOver]
  | some b =>
    by_cases hlow : v < b.first
    · simp [tracked, GoMap.get_set, nextBaseline, increaseOver, hlow]
    · by_cases hhigh : b.first < v
      · simp [tracked, GoMap.get_set, nextBaseline, increaseOver, hlow, hhigh]
      · simp [tracked, hget, nextBaseline, increaseOver, hlow, hhigh]

theorem trackNode_other (now : ℤ) (s : Tracked) {id key : String} (n : ShownNode) (h : key ≠ id) :
    tracked (trackNode now s (id, n)) key = tracked s key := by
  unfold trackNode
  dsimp only
  cases n.scrubCorruptions with
  | none => rfl
  | some v =>
    cases s.1.get id with
    | none => simp [tracked, GoMap.get_set, h]
    | some b =>
      dsimp only
      split_ifs
      · simp [tracked, GoMap.get_set, h]
      · simp [tracked, GoMap.get_set, h]
      · rfl

theorem keyWise_trackNode (now : ℤ) : KeyWise tracked (trackNode now) fun _ n old =>
    n.scrubCorruptions.elim old fun v =>
      (some (nextBaseline now v old.1), (increaseOver v (nextBaseline now v old.1)).or old.2) := by
  intro s ⟨id, n⟩ key
  by_cases hkey : key = id
  · subst hkey
    rw [if_pos rfl]
    cases hv : n.scrubCorruptions with
    | none => simp [trackNode, hv]
    | some v =>
      rw [trackNode_self now s key hv]
      simp [hv, tracked]
  · rw [if_neg hkey]
    exact trackNode_other now s n hkey

theorem trackCorruptions_get (baselines : GoMap CorruptionBaseline) (p : Poll) (id : String) :
    tracked (trackCorruptions baselines p.health p.now) id =
      (counterOf id p).elim (baselines.get id, none) fun v =>
        (some (nextBaseline p.now v (baselines.get id)), increaseOver v (nextBaseline p.now v (baselines.get id))) := by
  rw [trackCorruptions, foldl_keyWise (keyWise_trackNode p.now) p.health.nodes.nodup, counterOf, GoMap.get]
  cases p.health.nodes.entries.lookup id with
  | none => rfl
  | some n =>
    cases hv : n.scrubCorruptions with
    | none => simp [hv]; rfl
    | some v => simp [hv, tracked, GoMap.get, GoMap.empty]

/-! ## The baseline -/

theorem sinceDrop_ne_nil (o : Observation) (rest : List Observation) : sinceDrop (o :: rest) ≠ [] := by
  cases rest with
  | nil => simp [sinceDrop]
  | cons o' rest =>
    rw [sinceDrop]
    split <;> simp

theorem head_sinceDrop (o : Observation) (rest : List Observation) : o ∈ sinceDrop (o :: rest) := by
  cases rest with
  | nil => simp [sinceDrop]
  | cons o' rest =>
    rw [sinceDrop]
    split <;> simp

/-- Since the drop the counter has not been below its first value. -/
theorem baseline_le {obs : List Observation} {b : ℤ} (hb : baselineOf obs = some b) :
    ∀ o ∈ sinceDrop obs, b ≤ o.value := by
  induction obs with
  | nil => simp [sinceDrop]
  | cons o rest ih =>
    cases rest with
    | nil =>
      simp [baselineOf, sinceDrop] at hb
      simp [sinceDrop, hb]
    | cons o' rest =>
      rw [baselineOf, sinceDrop] at hb
      rw [sinceDrop]
      split_ifs at hb ⊢ with hdrop
      · simp at hb
        simp [hb]
      · rw [List.getLast?_cons, List.getLast?_eq_some_getLast (sinceDrop_ne_nil o' rest), Option.getD_some] at hb
        have hb' : baselineOf (o' :: rest) = some b := by
          rw [baselineOf, List.getLast?_eq_some_getLast (sinceDrop_ne_nil o' rest)]
          exact hb
        intro x hx
        rcases List.mem_cons.mp hx with rfl | hx
        · have := ih hb' o' (head_sinceDrop o' rest)
          omega
        · exact ih hb' x hx

/-- What the baseline of a node stands for. -/
def expected (obs : List Observation) : Option CorruptionBaseline :=
  (baselineOf obs).map fun b => { first := b, noticedAt := firstAbove b obs }

theorem baselineOf_eq (o : Observation) (rest : List Observation) :
    ∃ b, baselineOf (o :: rest) = some b ∧ ((sinceDrop (o :: rest)).getLast (sinceDrop_ne_nil o rest)).value = b :=
  ⟨_, by rw [baselineOf, List.getLast?_eq_some_getLast (sinceDrop_ne_nil o rest), Option.map_some], rfl⟩

theorem expected_of_drop {o o' : Observation} {rest : List Observation} (hdrop : o.value < o'.value) :
    expected (o :: o' :: rest) = some { first := o.value } := by
  simp [expected, baselineOf, firstAbove, sinceDrop, hdrop]

theorem expected_of_not_drop {o o' : Observation} {rest : List Observation} (hdrop : ¬o.value < o'.value) {b : ℤ}
    (hb : baselineOf (o' :: rest) = some b) : expected (o :: o' :: rest) = some
      { first := b
        noticedAt := (firstAbove b (o' :: rest)).or (if b < o.value then some o.seenAt else none) } := by
  have hlast : baselineOf (o :: o' :: rest) = some b := by
    obtain ⟨b', hb', hgetLast⟩ := baselineOf_eq o' rest
    rw [hb'] at hb
    rw [baselineOf, sinceDrop, if_neg hdrop, List.getLast?_cons,
      List.getLast?_eq_some_getLast (sinceDrop_ne_nil o' rest), Option.getD_some, Option.map_some, hgetLast, hb]
  rw [expected, hlast, Option.map_some]
  congr 2
  rw [firstAbove, sinceDrop, if_neg hdrop, List.reverse_cons, List.find?_append, firstAbove]
  by_cases habove : b < o.value
  · cases (sinceDrop (o' :: rest)).reverse.find? fun o => b < o.value <;> simp [habove]
  · cases (sinceDrop (o' :: rest)).reverse.find? fun o => b < o.value <;> simp [habove]

/-- A drop below the baseline restarts it, and without a drop it stays. -/
theorem expected_cons {o : Observation} {rest : List Observation} (h : DropsBelow (o :: rest)) :
    expected (o :: rest) = some (nextBaseline o.seenAt o.value (expected rest)) := by
  cases rest with
  | nil => simp [expected, baselineOf, firstAbove, sinceDrop, nextBaseline]
  | cons o' rest =>
    obtain ⟨b, hb, -⟩ := baselineOf_eq o' rest
    have hold : expected (o' :: rest) = some { first := b, noticedAt := firstAbove b (o' :: rest) } := by
      rw [expected, hb, Option.map_some]
    by_cases hdrop : o.value < o'.value
    · have hlow : o.value < b := h.1 o' rfl hdrop b hb
      rw [expected_of_drop hdrop, hold, nextBaseline, if_pos hlow]
    · have hle := baseline_le hb o' (head_sinceDrop o' rest)
      have hhigh : ¬o.value < b := by omega
      rw [expected_of_not_drop hdrop hb, hold, nextBaseline, if_neg hhigh]
      by_cases habove : b < o.value
      · cases firstAbove b (o' :: rest) <;> simp [habove]
      · simp [habove]

theorem observations_cons (id : String) (p : Poll) (before : List Poll) : observations id (p :: before) =
    (counterOf id p).elim (observations id before) fun v => ⟨v, p.now⟩ :: observations id before := by
  rw [observations, List.filterMap_cons]
  cases counterOf id p <;> rfl

/-- After every run whose drops all fall below the baseline, the baselines are the expected ones. -/
theorem baselinesAfter_get {id : String} {polls : List Poll} (h : DropsBelow (observations id polls)) :
    (baselinesAfter polls).get id = expected (observations id polls) := by
  induction polls with
  | nil => rfl
  | cons p before ih =>
    have hget := congrArg Prod.fst (trackCorruptions_get (baselinesAfter before) p id)
    rw [observations_cons] at h ⊢
    refine hget.trans ?_
    cases hv : counterOf id p with
    | none =>
      rw [hv] at h
      exact ih h
    | some v =>
      rw [hv, Option.elim_some] at h
      rw [Option.elim_some, Option.elim_some, expected_cons h, ih h.2]

theorem ofInt_pos {n : ℤ} (h : 0 < n) : 0 < Double.ofInt n := by
  have hone : Double.ofInt 1 = 1 := by decide
  have hle := Double.ofInt_mono (show 1 ≤ n by omega)
  omega

theorem increasesAt_get {id : String} {p : Poll} {before : List Poll} {c b : ℤ} (hc : counterOf id p = some c)
    (h : DropsBelow (observations id (p :: before)))
    (hb : baselineOf (observations id (p :: before)) = some b) : (increasesAt p before).get id =
      increaseOver c { first := b, noticedAt := firstAbove b (observations id (p :: before)) } := by
  have hget := congrArg Prod.snd (trackCorruptions_get (baselinesAfter before) p id)
  refine hget.trans ?_
  rw [observations_cons, hc, Option.elim_some] at h hb ⊢
  have hnext := expected_cons h
  rw [expected, hb, Option.map_some, Option.some.injEq] at hnext
  rw [Option.elim_some, baselinesAfter_get h.2, ← hnext]

/-- **Increases are measured from the first value since the last drop**, in every run in which each drop falls
below that value. -/
theorem corruptions_measured (id : String) (p : Poll) (before : List Poll)
    (h : DropsBelow (observations id (p :: before))) : MeasuredRight p before id := by
  intro increase
  cases hc : counterOf id p with
  | none =>
    have hget := congrArg Prod.snd (trackCorruptions_get (baselinesAfter before) p id)
    rw [hc] at hget
    have hnone : (increasesAt p before).get id = none := hget
    simp [hnone]
  | some c =>
    obtain ⟨b, hb⟩ : ∃ b, baselineOf (observations id (p :: before)) = some b := by
      rw [observations_cons, hc]
      obtain ⟨b, hb, -⟩ := baselineOf_eq ⟨c, p.now⟩ (observations id before)
      exact ⟨b, hb⟩
    rw [increasesAt_get hc h hb, increaseOver]
    dsimp only
    by_cases habove : b < c
    · rw [if_pos habove, Option.map_eq_some_iff]
      constructor
      · intro ⟨noticedAt, hnoticed, heq⟩
        subst heq
        exact ⟨c, b, rfl, hb, habove, rfl, ofInt_pos (by omega), hnoticed⟩
      · intro ⟨c', b', hc', hb', _, hdelta, _, hnoticed⟩
        obtain rfl := Option.some.inj hc'
        obtain rfl := Option.some.inj (hb.symm.trans hb')
        refine ⟨increase.noticedAt, hnoticed, ?_⟩
        rw [← hdelta]
    · rw [if_neg habove]
      constructor
      · intro hnone
        cases hnone
      · intro ⟨c', b', hc', hb', hlt, _⟩
        obtain rfl := Option.some.inj hc'
        obtain rfl := Option.some.inj (hb.symm.trans hb')
        exact absurd hlt habove

/-- A poll that saw one node. -/
def pollOf (id : String) (counter now : ℤ) : Poll where
  health :=
    { nodes := GoMap.empty.set id
        { resyncQueueLen := none, resyncErrors := none, scrubCorruptions := some counter, error := none
          statsError := none, varsError := none, workersError := none }
      statsError := none
      varsError := none }
  now := now

theorem measured_after_reset : MeasuredRight (pollOf "n" 4 120) [pollOf "n" 3 60, pollOf "n" 5 0] "n" := by
  refine corruptions_measured "n" _ _ ?_
  have hobs : observations "n" [pollOf "n" 4 120, pollOf "n" 3 60, pollOf "n" 5 0] =
      [⟨4, 120⟩, ⟨3, 60⟩, ⟨5, 0⟩] := rfl
  rw [hobs]
  simp [DropsBelow, baselineOf, sinceDrop]

/-- A drop from 10 to 7 stays above the first value, 5: the increase is counted from there. -/
theorem drop_not_noticed : ¬MeasuredRight (pollOf "n" 7 120) [pollOf "n" 10 60, pollOf "n" 5 0] "n" := by
  intro h
  obtain ⟨c, b, hc, hb, hlt, -⟩ := (h ⟨2, 60⟩).mp (by decide +kernel)
  obtain rfl : c = 7 := (Option.some.inj hc).symm
  have hbaseline : baselineOf (observations "n" [pollOf "n" 7 120, pollOf "n" 10 60, pollOf "n" 5 0]) = some 7 := rfl
  obtain rfl := Option.some.inj (hbaseline.symm.trans hb)
  omega

end GarageConsole.Dashboard
