import GarageConsole.Foundations.Double
import GarageConsole.Maintenance.Merging

/-! # The metrics of the repair page

`summarizeNodeMetric` sums one metric of the storage health over the nodes and says for each node without it
why it is missing. An empty text is left out of the JSON answer, so the page cannot tell it from none at all.
`storage_health_explained` follows a gap from Garage's answers to the reason that is shown for it.
-/

namespace GarageConsole.Maintenance

open Foundations Foundations.Text Foundations.GoJson Foundations.Keyed GarageConsole.Garage GarageConsole.RepairGuard

set_option autoImplicit false

/-! ## The answer as the page has it -/

/-- `omitempty` -/
def omitEmpty (s : String) : Option String := if s = "" then none else some s

structure ShownNode where
  resyncQueueLen : Option ℤ
  resyncErrors : Option ℤ
  scrubCorruptions : Option ℤ
  error : Option String
  statsError : Option String
  varsError : Option String
  workersError : Option String

structure StorageHealth where
  nodes : GoMap ShownNode
  statsError : Option String
  varsError : Option String

def NodeStorageHealth.shown (n : NodeStorageHealth) : ShownNode where
  resyncQueueLen := n.resyncQueueLen.map Double.ofInt
  resyncErrors := n.resyncErrors.map Double.ofInt
  scrubCorruptions := n.scrubCorruptions.map Double.ofInt
  error := omitEmpty n.error
  statsError := omitEmpty n.statsError
  varsError := omitEmpty n.varsError
  workersError := omitEmpty n.workersError

def StorageHealthResponse.shown (out : StorageHealthResponse) : StorageHealth where
  nodes := out.nodes.mapValues NodeStorageHealth.shown
  statsError := omitEmpty out.statsError
  varsError := omitEmpty out.varsError

/-! ## The summary -/

inductive MetricSource where
  | stats
  | vars
  deriving DecidableEq

structure NodeValue where
  nodeId : String
  label : String
  value : ℤ

structure MissingNode where
  nodeId : String
  label : String
  reason : String

structure NodeMetricSummary where
  total : Option ℤ
  perNode : List NodeValue
  missing : List MissingNode
  fanOutError : Option String

/-- The hostname if it is known, else the beginning of the ID, which is ASCII. -/
def nodeDisplayName (id : String) (hostname : Option String) : String :=
  (hostname.filter (· ≠ "")).getD (String.ofList (id.toList.take 16) ++ "…")

def fanOutError (source : MetricSource) (health : StorageHealth) : Option String :=
  match source with
  | .stats => health.statsError
  | .vars => health.varsError

def ownError (source : MetricSource) (n : ShownNode) : Option String :=
  match source with
  | .stats => n.statsError
  | .vars => n.varsError

def nodeError (source : MetricSource) (n : ShownNode) : Option String :=
  (ownError source n).or (if n.statsError = none ∧ n.varsError = none ∧ n.workersError = none then n.error else none)

/-- `a || b`; an empty text is false. -/
def orElse (a : Option String) (b : String) : String := (a.filter (· ≠ "")).getD b

def missingReason (source : MetricSource) (health : StorageHealth) (n : ShownNode) : String :=
  orElse (nodeError source n) (orElse (fanOutError source health) "値が報告されていません")

section Summary

-- `localeLE` is the order that `localeCompare` sorts by
variable (localeLE : String → String → Bool) (names : GoMap String) (skip : String → Bool)

def summarizeNodeMetric (health : StorageHealth) (pick : ShownNode → Option ℤ) (source : MetricSource) :
    NodeMetricSummary :=
  let label id := nodeDisplayName id (names.get id)
  let nodes := health.nodes.entries.filter fun entry => !skip entry.1
  let perNode := (nodes.filterMap fun entry => (pick entry.2).map (⟨entry.1, label entry.1, ·⟩)).mergeSort
    fun a b => localeLE a.label b.label
  let missing := (nodes.filter fun entry => (pick entry.2).isNone).map fun entry =>
    (⟨entry.1, label entry.1, missingReason source health entry.2⟩ : MissingNode)
  { total := if 0 < perNode.length then some (perNode.foldl (fun s n => Double.ofInt (s + n.value)) 0) else none
    perNode := perNode
    missing := missing.mergeSort fun a b => localeLE a.label b.label
    fanOutError := fanOutError source health }

end Summary

/-- The metrics that the repair page summarises. -/
inductive NodeMetric where
  | resyncQueueLen
  | resyncErrors
  | scrubCorruptions
  deriving DecidableEq

namespace NodeMetric

def pick : NodeMetric → ShownNode → Option ℤ
  | resyncQueueLen => ShownNode.resyncQueueLen
  | resyncErrors => ShownNode.resyncErrors
  | scrubCorruptions => ShownNode.scrubCorruptions

def source : NodeMetric → MetricSource
  | resyncQueueLen => .stats
  | resyncErrors => .stats
  | scrubCorruptions => .vars

end NodeMetric

/-! ## The messages of one question -/

section Messages

variable {stats : Except GarageError NodeStatisticsMulti} {vars : Except GarageError GarageMultiResponse}
  {workers : Except GarageError ListWorkersMulti} {id : String}

theorem messagesOf_append (source : FanOut) (ps qs : List Problem) :
    messagesOf source (ps ++ qs) = messagesOf source ps ++ messagesOf source qs := by
  rw [messagesOf, List.filter_append, List.map_append, messagesOf, messagesOf]

theorem messagesOf_map (source other : FanOut) (heading : String) (msgs : List String) :
    messagesOf source (msgs.map (⟨other, heading, ·⟩)) = if other = source then msgs else [] := by
  by_cases h : other = source <;> simp [messagesOf, List.filter_map, Function.comp_def, h]

theorem messagesOf_stats : messagesOf .stats (problems stats vars workers id) =
    errorOf (stats.map fun m => (aggregateNodeStatistics m).nodeErrors) id ++
      notAnswered stats (statsSeen stats) id := by
  simp [problems, messagesOf_append, messagesOf_map]

theorem messagesOf_vars : messagesOf .vars (problems stats vars workers id) =
    ((scrubVariables vars id).bind ScrubVariables.problem).toList ++ errorOf (vars.map GarageMultiResponse.error) id ++
      notAnswered vars (varsSeen vars) id := by
  simp [problems, messagesOf_append, messagesOf_map]

theorem messagesOf_workers : messagesOf .workers (problems stats vars workers id) =
    errorOf (workers.map ListWorkersMulti.error) id := by
  simp [problems, messagesOf_append, messagesOf_map]

theorem exists_messagesOf {ps : List Problem} (h : ps ≠ []) : ∃ source, messagesOf source ps ≠ [] := by
  obtain ⟨p, rest, rfl⟩ := List.exists_cons_of_ne_nil h
  refine ⟨p.source, ?_⟩
  simp [messagesOf]

/-- A node without a problem of the statistics reported them. -/
theorem reported_of_no_stats_problem {multi : NodeStatisticsMulti}
    (h : messagesOf .stats (problems (.ok multi) vars workers id) = []) : (statsIn multi id).isSome = true := by
  rw [messagesOf_stats, List.append_eq_nil_iff] at h
  exact stats_of_answered h.1 h.2

/-- A node without a problem of the worker variables reported its corruption counter. -/
theorem reported_of_no_vars_problem {multi : GarageMultiResponse}
    (h : messagesOf .vars (problems stats (.ok multi) workers id) = []) :
    ((scrubVariables (.ok multi) id).bind ScrubVariables.corruptions).isSome = true := by
  rw [messagesOf_vars, List.append_eq_nil_iff, List.append_eq_nil_iff, Option.toList_eq_nil_iff] at h
  obtain ⟨⟨hproblem, herrors⟩, hanswered⟩ := h
  exact corruptions_of_answered hproblem herrors hanswered

end Messages

/-! ## What the messages explain -/

/-- No node's own message is empty. -/
def NoEmptyMessage {α : Type} (errors : α → GoMap String) (answer : Except GarageError α) : Prop :=
  ∀ m, answer = .ok m → ∀ id msg, (errors m).get id = some msg → msg ≠ ""

structure StorageAnswers.Worded (a : StorageAnswers) : Prop where
  stats : NoEmptyMessage NodeStatisticsMulti.error a.stats
  vars : NoEmptyMessage GarageMultiResponse.error a.vars
  workers : NoEmptyMessage ListWorkersMulti.error a.workers

theorem mem_errorOf {α : Type} {errors : α → GoMap String} {answer : Except GarageError α} {id msg : String}
    (h : msg ∈ errorOf (answer.map errors) id) : ∃ m, answer = .ok m ∧ (errors m).get id = some msg := by
  cases answer with
  | error e => exact absurd h List.not_mem_nil
  | ok m => exact ⟨m, rfl, Option.mem_toList.mp h⟩

theorem mem_notAnswered {α : Type} {answer : Except GarageError α} {seen : List String} {id msg : String}
    (h : msg ∈ notAnswered answer seen id) : msg = nodeNotAnsweredMsg := by
  cases answer with
  | error e => exact absurd h List.not_mem_nil
  | ok m =>
    rw [notAnswered] at h
    split_ifs at h
    · exact absurd h List.not_mem_nil
    · exact List.mem_singleton.mp h

section Explained

variable {a : StorageAnswers} {id : String}

abbrev problemsOf (a : StorageAnswers) (id : String) : List Problem := problems a.stats a.vars a.workers id

theorem StorageAnswers.Worded.stats_ne_empty (h : a.Worded) : ∀ m ∈ messagesOf .stats (problemsOf a id), m ≠ "" := by
  intro m hm
  rw [messagesOf_stats, List.mem_append] at hm
  rcases hm with hm | hm
  · obtain ⟨multi, hmulti, hget⟩ := mem_errorOf hm
    rw [aggregateNodeStatistics] at hget
    dsimp only at hget
    rw [GoMap.get_merge, GoMap.get_mapValues, Option.map_eq_some_iff] at hget
    rcases hget with hget | ⟨-, -, -, rfl⟩
    · exact h.stats multi hmulti id m hget
    · decide
  · rw [mem_notAnswered hm]
    decide

theorem StorageAnswers.Worded.vars_ne_empty (h : a.Worded) : ∀ m ∈ messagesOf .vars (problemsOf a id), m ≠ "" := by
  intro m hm
  rw [messagesOf_vars, List.mem_append, List.mem_append, Option.mem_toList,
    Option.bind_eq_some_iff] at hm
  rcases hm with (⟨v, hv, hproblem⟩ | hm) | hm
  · cases hvars : a.vars with
    | error e =>
      rw [hvars] at hv
      cases hv
    | ok multi =>
      rw [hvars] at hv
      obtain ⟨raw, -, rfl⟩ := Option.map_eq_some_iff.mp hv
      exact problem_ne_empty hproblem
  · obtain ⟨multi, hmulti, hget⟩ := mem_errorOf hm
    exact h.vars multi hmulti id m hget
  · rw [mem_notAnswered hm]
    decide

theorem StorageAnswers.Worded.workers_ne_empty (h : a.Worded) :
    ∀ m ∈ messagesOf .workers (problemsOf a id), m ≠ "" := by
  intro m hm
  rw [messagesOf_workers] at hm
  obtain ⟨multi, hmulti, hget⟩ := mem_errorOf hm
  exact h.workers multi hmulti id m hget

end Explained

/-! ## What the merged answers hold -/

/-- The node's statistics, as it answered them. -/
def StorageAnswers.statsOf (a : StorageAnswers) (id : String) : Option BlockManagerStats :=
  match a.stats with
  | .error _ => none
  | .ok multi => statsIn multi id

/-- The node's worker variables, as it answered them. -/
def StorageAnswers.variablesOf (a : StorageAnswers) (id : String) : Option (GoMap String) :=
  match a.vars with
  | .error _ => none
  | .ok multi => (multi.success.get id).bind (map "" string .empty)

/-- The metrics of the entry are those of the node's answers. -/
structure Lossless (a : StorageAnswers) (id : String) (n : NodeStorageHealth) : Prop where
  resyncQueueLen : n.resyncQueueLen = (a.statsOf id).map BlockManagerStats.resyncQueueLen
  resyncErrors : n.resyncErrors = (a.statsOf id).map BlockManagerStats.resyncErrors
  scrubCorruptions : n.scrubCorruptions = ((a.variablesOf id).bind (·.get "scrub-corruptions_detected")).bind fun v =>
    parseInt64 (trimSpace (bytes v))
  scrubLastCompleted : n.scrubLastCompleted = (a.variablesOf id).bind (·.get "scrub-last-completed")

/-- Every metric that is missing comes with a message of its own question. -/
structure Explains (out : StorageHealthResponse) (n : NodeStorageHealth) : Prop where
  resync : n.resyncQueueLen = none ∨ n.resyncErrors = none → out.statsError ≠ "" ∨ n.statsError ≠ ""
  scrub : n.scrubCorruptions = none → out.varsError ≠ "" ∨ n.varsError ≠ ""
  combined : n.error ≠ "" ↔ n.statsError ≠ "" ∨ n.varsError ≠ "" ∨ n.workersError ≠ ""

theorem readScrubVariables_eq (raw : Json) :
    (readScrubVariables raw).corruptions = ((map "" string .empty raw).bind (·.get "scrub-corruptions_detected")).bind
        (fun v => parseInt64 (trimSpace (bytes v))) ∧
      (readScrubVariables raw).lastCompleted = (map "" string .empty raw).bind (·.get "scrub-last-completed") := by
  unfold readScrubVariables
  cases map "" string .empty raw with
  | none => exact ⟨rfl, rfl⟩
  | some m =>
    dsimp only [Option.bind_some]
    cases m.get "scrub-corruptions_detected" with
    | none => exact ⟨rfl, rfl⟩
    | some v =>
      dsimp only [Option.bind_some]
      cases parseInt64 (trimSpace (bytes v)) with
      | none => exact ⟨rfl, rfl⟩
      | some c => exact ⟨rfl, rfl⟩

theorem lossless_nodeHealth (a : StorageAnswers) (id : String) :
    Lossless a id (nodeHealth a.stats a.vars a.workers id) := by
  have hstats : blockStats a.stats id = (a.statsOf id).map fun s => s.of id := by
    rw [StorageAnswers.statsOf]
    cases a.stats with
    | error e => rfl
    | ok multi => exact blockStats_ok multi id
  have hvars : ((scrubVariables a.vars id).bind ScrubVariables.corruptions =
      ((a.variablesOf id).bind (·.get "scrub-corruptions_detected")).bind fun v => parseInt64 (trimSpace (bytes v))) ∧
      (scrubVariables a.vars id).bind ScrubVariables.lastCompleted =
        (a.variablesOf id).bind (·.get "scrub-last-completed") := by
    rw [StorageAnswers.variablesOf]
    cases a.vars with
    | error e => exact ⟨rfl, rfl⟩
    | ok multi =>
      rw [scrubVariables]
      dsimp only
      cases multi.success.get id with
      | none => exact ⟨rfl, rfl⟩
      | some raw => exact readScrubVariables_eq raw
  refine ⟨?_, ?_, hvars.1, hvars.2⟩
  · rw [nodeHealth, hstats]
    exact Option.map_map _ _ _
  · rw [nodeHealth, hstats]
    exact Option.map_map _ _ _

theorem joined_ne_empty_iff {msgs : List String} (h : ∀ m ∈ msgs, m ≠ "") : joined msgs ≠ "" ↔ msgs ≠ [] := by
  refine not_congr ⟨eq_nil_of_joined h, ?_⟩
  rintro rfl
  rfl

theorem explains_nodeHealth {a : StorageAnswers} (h : a.Worded) (orders : Orders) (id : String) :
    Explains (mergeInOrder orders a.stats a.vars a.workers) (nodeHealth a.stats a.vars a.workers id) := by
  have hstats : joined (messagesOf .stats (problemsOf a id)) ≠ "" ↔ messagesOf .stats (problemsOf a id) ≠ [] :=
    joined_ne_empty_iff h.stats_ne_empty
  have hvars : joined (messagesOf .vars (problemsOf a id)) ≠ "" ↔ messagesOf .vars (problemsOf a id) ≠ [] :=
    joined_ne_empty_iff h.vars_ne_empty
  have hworkers : joined (messagesOf .workers (problemsOf a id)) ≠ "" ↔ messagesOf .workers (problemsOf a id) ≠ [] :=
    joined_ne_empty_iff h.workers_ne_empty
  refine ⟨?_, ?_, ?_⟩
  · intro hnull
    by_contra hsilent
    rw [not_or, not_not, not_not] at hsilent
    obtain ⟨multi, hmulti⟩ := failure_eq_empty (by decide) hsilent.1
    have hnone : messagesOf .stats (problemsOf a id) = [] := not_not.mp fun hsome => hstats.mpr hsome hsilent.2
    rw [problemsOf, hmulti] at hnone
    obtain ⟨s, hs⟩ := Option.isSome_iff_exists.mp (reported_of_no_stats_problem hnone)
    simp [nodeHealth, hmulti, blockStats_ok, hs] at hnull
  · intro hnull
    by_contra hsilent
    rw [not_or, not_not, not_not] at hsilent
    obtain ⟨multi, hmulti⟩ := failure_eq_empty (by decide) hsilent.1
    have hnone : messagesOf .vars (problemsOf a id) = [] := not_not.mp fun hsome => hvars.mpr hsome hsilent.2
    rw [problemsOf, hmulti] at hnone
    have hreported := reported_of_no_vars_problem hnone
    rw [nodeHealth, hmulti] at hnull
    dsimp only at hnull
    rw [hnull] at hreported
    cases hreported
  · have hheading : ∀ m ∈ (problemsOf a id).map fun p => p.heading ++ p.msg, m ≠ "" := by
      intro m hm
      obtain ⟨p, hp, rfl⟩ := List.mem_map.mp hm
      exact heading_msg_ne_empty hp
    refine (joined_ne_empty_iff hheading).trans ((not_congr List.map_eq_nil_iff).trans ⟨?_, ?_⟩)
    · intro hproblems
      obtain ⟨source, hsource⟩ := exists_messagesOf hproblems
      cases source with
      | stats => exact .inl (hstats.mpr hsource)
      | vars => exact .inr (.inl (hvars.mpr hsource))
      | workers => exact .inr (.inr (hworkers.mpr hsource))
    · intro hsome hnone
      have hnil : ∀ source, messagesOf source (problemsOf a id) = [] := by
        intro source
        rw [hnone]
        rfl
      rcases hsome with hsome | hsome | hsome
      · exact hstats.mp hsome (hnil .stats)
      · exact hvars.mp hsome (hnil .vars)
      · exact hworkers.mp hsome (hnil .workers)

/-! ## The reason that is shown -/

/-- The text of one question for the whole of it, and for one node. -/
def MetricSource.failureIn (source : MetricSource) (out : StorageHealthResponse) : String :=
  match source with
  | .stats => out.statsError
  | .vars => out.varsError

def MetricSource.errorIn (source : MetricSource) (n : NodeStorageHealth) : String :=
  match source with
  | .stats => n.statsError
  | .vars => n.varsError

/-- The reason is a message of the question that the metric comes from. -/
def OwnReason (source : MetricSource) (out : StorageHealthResponse) (n : NodeStorageHealth) (reason : String) : Prop :=
  reason ≠ "" ∧ (reason = source.errorIn n ∨ reason = source.failureIn out)

theorem orElse_omitEmpty (s b : String) : orElse (omitEmpty s) b = if s = "" then b else s := by
  by_cases h : s = "" <;> simp [omitEmpty, orElse, Option.filter, h]

theorem omitEmpty_eq_none {s : String} : omitEmpty s = none ↔ s = "" := by
  by_cases h : s = "" <;> simp [omitEmpty, h]

/-- The combined error is empty when the ones by question are, so it is never taken for one of them. -/
theorem nodeError_shown {out : StorageHealthResponse} {n : NodeStorageHealth} (h : Explains out n)
    (source : MetricSource) : nodeError source n.shown = omitEmpty (source.errorIn n) := by
  have hcombined : n.statsError = "" → n.varsError = "" → n.workersError = "" → n.error = "" := by
    intro hs hv hw
    by_contra herror
    rcases h.combined.mp herror with h' | h' | h'
    · exact h' hs
    · exact h' hv
    · exact h' hw
  have hfallback : (if n.shown.statsError = none ∧ n.shown.varsError = none ∧ n.shown.workersError = none then
      n.shown.error else none) = none := by
    split_ifs with hnone
    · simp only [NodeStorageHealth.shown, omitEmpty_eq_none] at hnone ⊢
      exact hcombined hnone.1 hnone.2.1 hnone.2.2
    · rfl
  rw [nodeError, hfallback, Option.or_none]
  cases source <;> rfl

theorem ownReason_missing {out : StorageHealthResponse} {n : NodeStorageHealth} (h : Explains out n)
    {metric : NodeMetric} (hmissing : metric.pick n.shown = none) :
    OwnReason metric.source out n (missingReason metric.source out.shown n.shown) := by
  have hexplained : metric.source.failureIn out ≠ "" ∨ metric.source.errorIn n ≠ "" := by
    cases metric with
    | resyncQueueLen => exact h.resync (.inl (Option.map_eq_none_iff.mp hmissing))
    | resyncErrors => exact h.resync (.inr (Option.map_eq_none_iff.mp hmissing))
    | scrubCorruptions => exact h.scrub (Option.map_eq_none_iff.mp hmissing)
  have hfanOut : fanOutError metric.source out.shown = omitEmpty (metric.source.failureIn out) := by
    cases metric <;> rfl
  rw [missingReason, nodeError_shown h, hfanOut, orElse_omitEmpty, orElse_omitEmpty]
  by_cases hown : metric.source.errorIn n = ""
  · have hwhole := hexplained.resolve_right (not_not.mpr hown)
    rw [if_pos hown, if_neg hwhole]
    exact ⟨hwhole, .inr rfl⟩
  · rw [if_neg hown]
    exact ⟨hown, .inl rfl⟩

theorem mem_missing {localeLE : String → String → Bool} {names : GoMap String} {skip : String → Bool}
    {out : StorageHealthResponse} {pick : ShownNode → Option ℤ} {source : MetricSource} {m : MissingNode} :
    m ∈ (summarizeNodeMetric localeLE names skip out.shown pick source).missing ↔
      ∃ n, out.nodes.get m.nodeId = some n ∧ skip m.nodeId = false ∧ pick n.shown = none ∧
        m.label = nodeDisplayName m.nodeId (names.get m.nodeId) ∧
        m.reason = missingReason source out.shown n.shown := by
  have hentry (id : String) (shown : ShownNode) : (id, shown) ∈ out.shown.nodes.entries ↔
      ∃ n, out.nodes.get id = some n ∧ n.shown = shown := by
    rw [GoMap.mem_entries_iff, StorageHealthResponse.shown, GoMap.get_mapValues, Option.map_eq_some_iff]
  rw [summarizeNodeMetric, List.mem_mergeSort, List.mem_map]
  constructor
  · rintro ⟨⟨id, shown⟩, hmem, rfl⟩
    obtain ⟨hmem, hnull⟩ := List.mem_filter.mp hmem
    obtain ⟨hmem, hskip⟩ := List.mem_filter.mp hmem
    obtain ⟨n, hn, rfl⟩ := (hentry id shown).mp hmem
    rw [Bool.not_eq_true'] at hskip
    exact ⟨n, hn, hskip, Option.isNone_iff_eq_none.mp hnull, rfl, rfl⟩
  · obtain ⟨id, label, reason⟩ := m
    rintro ⟨n, hn, hskip, hnull, hlabel, hreason⟩
    obtain rfl : label = nodeDisplayName id (names.get id) := hlabel
    obtain rfl : reason = missingReason source out.shown n.shown := hreason
    have hmem : (id, n.shown) ∈ out.shown.nodes.entries := (hentry id n.shown).mpr ⟨n, hn, rfl⟩
    refine ⟨(id, n.shown), List.mem_filter.mpr ⟨List.mem_filter.mpr ⟨hmem, ?_⟩, ?_⟩, rfl⟩
    · dsimp only
      rw [hskip]
      rfl
    · exact Option.isNone_iff_eq_none.mpr hnull

/-- **The storage health loses nothing and explains every gap.** Whatever the three questions answered, with no
message of a node empty, and in whatever order the maps are walked through: the result has exactly the nodes
that some question found; their metrics are those of their answers; a metric that is missing comes with a
message of its own question; the combined error is there if one of the others is; any other order gives the
same; and the page lists exactly the nodes without a metric, but for those that are skipped, each with a reason that
is a message of the metric's own question. -/
theorem storage_health_explained {a : StorageAnswers} (h : a.Worded) (orders : Orders) :
    (∀ id, (∃ n, (mergeInOrder orders a.stats a.vars a.workers).nodes.get id = some n) ↔ a.Names id) ∧
      (∀ id n, (mergeInOrder orders a.stats a.vars a.workers).nodes.get id = some n →
        Lossless a id n ∧ Explains (mergeInOrder orders a.stats a.vars a.workers) n) ∧
      (∀ orders' id, (mergeInOrder orders' a.stats a.vars a.workers).nodes.get id =
        (mergeInOrder orders a.stats a.vars a.workers).nodes.get id) ∧
      (∀ localeLE names skip (metric : NodeMetric) m,
        m ∈ (summarizeNodeMetric localeLE names skip (mergeInOrder orders a.stats a.vars a.workers).shown metric.pick
          metric.source).missing →
        ∃ n, (mergeInOrder orders a.stats a.vars a.workers).nodes.get m.nodeId = some n ∧ skip m.nodeId = false ∧
          metric.pick n.shown = none ∧
          OwnReason metric.source (mergeInOrder orders a.stats a.vars a.workers) n m.reason) ∧
      ∀ localeLE names skip (metric : NodeMetric) id n,
        (mergeInOrder orders a.stats a.vars a.workers).nodes.get id = some n → skip id = false →
        metric.pick n.shown = none →
        ∃ m ∈ (summarizeNodeMetric localeLE names skip (mergeInOrder orders a.stats a.vars a.workers).shown metric.pick
          metric.source).missing, m.nodeId = id ∧
          OwnReason metric.source (mergeInOrder orders a.stats a.vars a.workers) n m.reason := by
  have hentry : ∀ id n, (mergeInOrder orders a.stats a.vars a.workers).nodes.get id = some n →
      n = nodeHealth a.stats a.vars a.workers id := by
    intro id n hget
    rw [mergeInOrder_get] at hget
    split_ifs at hget
    exact (Option.some.inj hget).symm
  have hreason : ∀ (metric : NodeMetric) id n, (mergeInOrder orders a.stats a.vars a.workers).nodes.get id = some n →
      metric.pick n.shown = none → OwnReason metric.source (mergeInOrder orders a.stats a.vars a.workers) n
        (missingReason metric.source (mergeInOrder orders a.stats a.vars a.workers).shown n.shown) := by
    intro metric id n hget hnull
    have hexplains := explains_nodeHealth h orders id
    rw [← hentry id n hget] at hexplains
    exact ownReason_missing hexplains hnull
  refine ⟨?_, ?_, ?_, ?_, ?_⟩
  · intro id
    rw [mergeInOrder_get, a.names_iff]
    split_ifs with hseen
    · exact iff_of_true ⟨_, rfl⟩ hseen
    · exact iff_of_false (fun hsome => by simp at hsome) hseen
  · intro id n hget
    rw [hentry id n hget]
    exact ⟨lossless_nodeHealth a id, explains_nodeHealth h orders id⟩
  · intro orders' id
    rw [mergeInOrder_get, mergeInOrder_get]
  · intro localeLE names skip metric m hm
    obtain ⟨n, hget, hskip, hnull, -, hshown⟩ := mem_missing.mp hm
    exact ⟨n, hget, hskip, hnull, hshown ▸ hreason metric m.nodeId n hget hnull⟩
  · intro localeLE names skip metric id n hget hskip hnull
    exact ⟨⟨id, nodeDisplayName id (names.get id), _⟩, mem_missing.mpr ⟨n, hget, hskip, hnull, rfl, rfl⟩, rfl,
      hreason metric id n hget hnull⟩

/-- The statistics failed as a whole, and the node did not answer for its variables. -/
def oneNodeSilent : StorageAnswers :=
  ⟨.error .transport, .ok { error := .set .empty "n1" "timed out" }, .ok {}⟩

def inOrder : Orders := fun _ _ m => ⟨m.entries, .refl _⟩

theorem oneNodeSilent_worded : oneNodeSilent.Worded := by
  refine ⟨nofun, ?_, ?_⟩
  · rintro m hm id msg hget
    cases hm
    obtain ⟨rfl, rfl⟩ : id = "n1" ∧ msg = "timed out" := by
      have hmem := (GoMap.mem_entries_iff _).mpr hget
      simpa [GoMap.set, GoMap.empty] using hmem
    decide
  · rintro m hm id msg hget
    cases hm
    cases hget

theorem storage_health_explained_silent :
    (∀ id, (∃ n, (mergeInOrder inOrder oneNodeSilent.stats oneNodeSilent.vars oneNodeSilent.workers).nodes.get id =
        some n) ↔ oneNodeSilent.Names id) ∧
      ∃ n, (mergeInOrder inOrder oneNodeSilent.stats oneNodeSilent.vars oneNodeSilent.workers).nodes.get "n1" = some n ∧
        Explains (mergeInOrder inOrder oneNodeSilent.stats oneNodeSilent.vars oneNodeSilent.workers) n := by
  obtain ⟨hnodes, hentries, -⟩ := storage_health_explained oneNodeSilent_worded inOrder
  refine ⟨hnodes, ?_⟩
  obtain ⟨n, hn⟩ := (hnodes "n1").mpr (.inr (.inl ⟨_, rfl, .inr (by decide)⟩))
  exact ⟨n, hn, (hentries "n1" n hn).2⟩

end GarageConsole.Maintenance
