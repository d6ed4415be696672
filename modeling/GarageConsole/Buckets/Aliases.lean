import GarageConsole.Foundations.Browser
import GarageConsole.Foundations.Utf8
import GarageConsole.Garage.Mutation
import GarageConsole.Routes.Table

/-! # Removing an alias of a bucket

The console puts the alias into the path of the request and the key of a local alias into its query. Which of the
decoded path and the path as sent the router takes depends on the whole path: an alias without a byte that
JavaScript and Go escape differently arrives decoded, any other one as it was sent, and `handleRemoveBucketAlias`
decodes exactly the latter.
-/

namespace GarageConsole.Buckets

open Foundations Foundations.Text Foundations.Path Foundations.Url Foundations.Router Foundations.Calls
  GarageConsole.Garage GarageConsole.Routes

set_option autoImplicit false

/-! ## The console's request -/

inductive BucketAliasTarget where
  | globalAlias (name : String)
  | localAlias (name accessKeyId : String)
  deriving DecidableEq

def BucketAliasTarget.name : BucketAliasTarget → String
  | .globalAlias name => name
  | .localAlias name _ => name

def apiBase : Bytes := bytes "/api"

/-- The URL of `removeBucketAlias`, as `fetchJSON` puts it together. The request's method is DELETE. -/
def removeBucketAlias (bucketId : String) (target : BucketAliasTarget) : Bytes :=
  apiBase ++ match target with
    | .globalAlias name => bytes "/buckets/" ++ bytes bucketId ++ bytes "/aliases/" ++ encodeURIComponent name
    | .localAlias name accessKeyId =>
      bytes "/buckets/" ++ bytes bucketId ++ bytes "/aliases/" ++ encodeURIComponent name ++
        bytes "?accessKeyId=" ++ encodeURIComponent accessKeyId

/-! ## The server -/

def garageAliasBody (bucketID aliasName : Bytes) (accessKeyID : Option Bytes) : Except String Json :=
  if trimSpace aliasName = [] then .error "alias must not be empty"
  else match accessKeyID with
    | none => .ok (.obj [("bucketId", .str (toText bucketID)), ("globalAlias", .str (toText aliasName))])
    | some accessKeyID =>
      if trimSpace accessKeyID = [] then .error "accessKeyId must not be empty for a local alias"
      else .ok (.obj [("accessKeyId", .str (toText accessKeyID)), ("bucketId", .str (toText bucketID)),
        ("localAlias", .str (toText aliasName))])

/-- `DELETE /api/buckets/{id}/aliases/{alias}`. -/
def handleRemoveBucketAlias (route : Route) (u : UrlPath) (rawQuery : Bytes) : MutationProg Json Response :=
  match if u.rawPath = [] then some (urlParam route u "alias") else unescape (urlParam route u "alias") with
  | none => return writeJSONError 400 "invalid alias in path"
  | some aliasName =>
    let q := parseQuery rawQuery
    let accessKeyID := if hasValue q (bytes "accessKeyId") then some (getValue q (bytes "accessKeyId")) else none
    match garageAliasBody (urlParam route u "id") aliasName accessKeyID with
    | .error msg => return writeJSONError 400 msg
    | .ok body => proxyGarageMutation "/v2/RemoveBucketAlias" body

/-- What Garage is to be asked. -/
def BucketAliasTarget.removal (bucketId : String) : BucketAliasTarget → Json
  | .globalAlias name => .obj [("bucketId", .str bucketId), ("globalAlias", .str name)]
  | .localAlias name accessKeyId =>
    .obj [("accessKeyId", .str accessKeyId), ("bucketId", .str bucketId), ("localAlias", .str name)]

/-! ## The path -/

def removalRoute : Route :=
  ⟨"DELETE", [.word "api", .word "buckets", .param "id", .word "aliases", .param "alias"], .handleRemoveBucketAlias⟩

theorem removalRoute_mem : removalRoute ∈ routes := by decide

/-- The path of an alias in some spelling. -/
def aliasPath (id aliasName : Bytes) : Bytes :=
  joined [[], bytes "api", bytes "buckets", id, bytes "aliases", aliasName]

def beforeAlias (id : Bytes) : Bytes := bytes "/api/buckets/" ++ id ++ bytes "/aliases/"

theorem aliasPath_eq (id aliasName : Bytes) : aliasPath id aliasName = beforeAlias id ++ aliasName := by
  have hapi : bytes "/api/buckets/" = slash :: (bytes "api" ++ slash :: (bytes "buckets" ++ [slash])) := by decide
  have haliases : bytes "/aliases/" = slash :: (bytes "aliases" ++ [slash]) := by decide
  rw [beforeAlias, hapi, haliases]
  simp [aliasPath, joined, List.intercalate_cons_cons]

/-- A bucket's ID. -/
structure HexID (id : Bytes) : Prop where
  nonempty : id ≠ []
  digits : ∀ b ∈ id, (fromHex b).isSome

theorem keptInPath_of_hex {b : UInt8} (h : (fromHex b).isSome) : keptInPath b = true := by
  rw [fromHex] at h
  split_ifs at h <;> grind [keptInPath, isUnreserved]

namespace HexID

variable {id : Bytes} (hid : HexID id)

include hid

theorem kept : id.all keptInPath = true := by
  rw [List.all_eq_true]
  exact fun b hb => keptInPath_of_hex (hid.digits b hb)

theorem slashless : slash ∉ id := fun hslash => absurd (hid.digits slash hslash) (by decide)

theorem beforeAlias_kept : (beforeAlias id).all keptInPath = true := by
  rw [beforeAlias, List.all_append, List.all_append, hid.kept]
  decide

theorem segments_aliasPath {aliasName : Bytes} (halias : slash ∉ aliasName) : segments (aliasPath id aliasName) =
    [[], bytes "api", bytes "buckets", id, bytes "aliases", aliasName] := by
  refine segments_joined ?_ (List.cons_ne_nil _ _)
  have hslash := hid.slashless
  simp only [List.forall_mem_cons]
  exact ⟨by decide, by decide, by decide, hslash, by decide, halias, nofun⟩

theorem not_dots : isDoubleDot id = false ∧ isSingleDot id = false := by
  have hdot : ∀ rest : Bytes, id ≠ 0x2E :: rest := by
    rintro rest rfl
    exact absurd (hid.digits 0x2E List.mem_cons_self) (by decide)
  have h := @not_dots_percentEncode keptInPath (by decide) id (hdot _) (hdot _)
  rwa [percentEncode_kept hid.kept] at h

end HexID

/-! ## The path, routed and decoded -/

theorem slash_not_mem_component (a : Bytes) : slash ∉ percentEncode keptInComponent a := by
  rw [mem_percentEncode apart_slash]
  exact fun h => absurd h.2 (by decide)

theorem component_ne_nil {a : Bytes} (ha : a ≠ []) : percentEncode keptInComponent a ≠ [] := by
  intro h
  have hread := @unescape_percentEncode keptInComponent (by decide) a
  rw [h, unescape_nil] at hread
  exact ha (Option.some.inj hread).symm

/-- The alias comes out of the route's segments as it was sent or decoded, and the handler tells which. -/
theorem route_of_alias {id a : Bytes} (hid : HexID id) (ha : a ≠ []) (chi : Chi) :
    ∃ u, setPath (aliasPath id (percentEncode keptInComponent a)) = some u ∧
      routeFor chi "DELETE" u = some removalRoute ∧ urlParam removalRoute u "id" = id ∧
      (if u.rawPath = [] then some (urlParam removalRoute u "alias") else unescape (urlParam removalRoute u "alias")) =
        some a := by
  have hsent := hid.segments_aliasPath (slash_not_mem_component a)
  have hdecoded : unescape (aliasPath id (percentEncode keptInComponent a)) = some (aliasPath id a) := by
    rw [aliasPath_eq, aliasPath_eq, unescape_plain_append hid.beforeAlias_kept, unescape_percentEncode (by decide)]
    rfl
  have hu := setPath_of_unescape hdecoded
  have hparams : ∀ {u : UrlPath} {x : Bytes},
      segments u.routed = [[], bytes "api", bytes "buckets", id, bytes "aliases", x] →
        urlParam removalRoute u "id" = id ∧ urlParam removalRoute u "alias" = x := by
    intro u x h
    rw [urlParam, urlParam, urlParams, h]
    exact ⟨rfl, rfl⟩
  refine ⟨_, hu, ?_, ?_⟩
  · refine (routeFor_iff hu).mpr ⟨removalRoute_mem, rfl, ?_⟩
    rw [hsent]
    simp +decide [removalRoute, Route.shape, Part.shape, admits, hid.nonempty, component_ne_nil ha]
  · by_cases hdefault : aliasPath id (percentEncode keptInComponent a) = escapePath (aliasPath id a)
    · -- the default encoding keeps slashes, so there is none in the alias
      have hslash : slash ∉ a := by
        have hsame := hdefault
        rw [aliasPath_eq, aliasPath_eq, escapePath, percentEncode_append,
          percentEncode_kept hid.beforeAlias_kept] at hsame
        have halias := List.append_cancel_left hsame
        intro hmem
        refine slash_not_mem_component a ?_
        rw [halias]
        exact slash_mem_escapePath.mpr hmem
      rw [if_pos hdefault]
      obtain ⟨hparam, halias⟩ := hparams (u := ⟨aliasPath id a, []⟩) (hid.segments_aliasPath hslash)
      exact ⟨hparam, by rw [if_pos rfl, halias]⟩
    · have hne : aliasPath id (percentEncode keptInComponent a) ≠ [] := by
        intro h
        rw [h] at hsent
        cases hsent
      have hrouted : (UrlPath.mk (aliasPath id a) (aliasPath id (percentEncode keptInComponent a))).routed =
          aliasPath id (percentEncode keptInComponent a) := if_neg hne
      rw [if_neg hdefault]
      obtain ⟨hparam, halias⟩ := hparams ((congrArg segments hrouted).trans hsent)
      exact ⟨hparam, by rw [if_neg hne, halias, unescape_percentEncode (by decide)]⟩

/-! ## The target of the request -/

/-- The query, if there is one, with the key's ID in some encoding that keeps no more than a component does. -/
def BucketAliasTarget.query (kept : UInt8 → Bool) : BucketAliasTarget → Option Bytes
  | .globalAlias _ => none
  | .localAlias _ accessKeyId => some (bytes "accessKeyId" ++ equals :: percentEncode kept (bytes accessKeyId))

def withQuery (path : Bytes) (query : Option Bytes) : Bytes := path ++ query.elim [] (question :: ·)

theorem removeBucketAlias_eq (bucketId : String) (target : BucketAliasTarget) : removeBucketAlias bucketId target =
    withQuery (aliasPath (bytes bucketId) (encodeURIComponent target.name)) (target.query keptInComponent) := by
  have hapi : bytes "/api/buckets/" = apiBase ++ bytes "/buckets/" := by decide
  have hquery : bytes "?accessKeyId=" = question :: (bytes "accessKeyId" ++ [equals]) := by decide
  rw [aliasPath_eq, beforeAlias, hapi]
  cases target with
  | globalAlias name => simp [removeBucketAlias, withQuery, BucketAliasTarget.query, BucketAliasTarget.name]
  | localAlias name accessKeyId =>
    simp [removeBucketAlias, withQuery, BucketAliasTarget.query, BucketAliasTarget.name, hquery, encodeURIComponent]

theorem not_mem_of_kept {c : UInt8} {w : Bytes} (hw : w.all keptInPath = true) (hc : keptInPath c = false) : c ∉ w := by
  intro hmem
  rw [List.all_eq_true.mp hw c hmem] at hc
  cases hc

/-- A byte that is part of no escape and that neither words nor components keep is not in the path. -/
theorem not_mem_aliasPath {id a : Bytes} (hid : HexID id) {c : UInt8} (hc : Apart c) (hpath : keptInPath c = false)
    (hcomponent : keptInComponent c = false) : c ∉ aliasPath id (percentEncode keptInComponent a) := by
  rw [aliasPath_eq, List.mem_append, not_or]
  refine ⟨not_mem_of_kept hid.beforeAlias_kept hpath, ?_⟩
  rw [mem_percentEncode hc, hcomponent]
  exact fun h => Bool.noConfusion h.2

theorem cut_withQuery {path : Bytes} (h : question ∉ path) (query : Option Bytes) :
    cut question (withQuery path query) = (path, query.getD []) := by
  cases query with
  | none =>
    have hdrop := dropWhile_ne_append h []
    rw [List.append_nil] at hdrop
    rw [withQuery, Option.elim_none, List.append_nil, cut, takeWhile_ne h, hdrop]
    rfl
  | some query =>
    rw [withQuery, Option.elim_some, cut, takeWhile_ne_append_cons h, dropWhile_ne_append h, List.dropWhile_cons]
    simp

theorem apart_of_control {c : UInt8} (h : isControl c = true) : Apart c := by
  rw [isControl] at h
  constructor <;> grind [percent, fromHex]

theorem not_control_of_unreserved {c : UInt8} (h : isUnreserved c = true) : isControl c = false := by
  grind [isUnreserved, isControl]

theorem component_of_control {c : UInt8} (h : isControl c = true) :
    keptInComponent c = false ∧ keptInPath c = false := by
  have hmarks : ∀ b ∈ ([0x21, 0x27, 0x28, 0x29, 0x2A, 0x24, 0x26, 0x2B, 0x2C, 0x2F, 0x3A, 0x3B, 0x3D, 0x40] : Bytes),
      isControl b = false := by simp [isControl]
  have hunreserved : isUnreserved c = false := by
    by_contra hkept
    rw [not_control_of_unreserved (Bool.not_eq_false _ ▸ hkept)] at h
    cases h
  constructor
  · rw [keptInComponent, hunreserved, Bool.false_or, decide_eq_false_iff_not]
    intro hmem
    rw [hmarks c (List.mem_append_left _ hmem)] at h
    cases h
  · rw [keptInPath, hunreserved, Bool.false_or, decide_eq_false_iff_not]
    intro hmem
    rw [hmarks c (List.mem_append_right [0x21, 0x27, 0x28, 0x29, 0x2A] hmem)] at h
    cases h

/-- Encodings of a key's ID that keep no more than a component does. -/
def KeepsNoMore (kept : UInt8 → Bool) : Prop := ∀ c, keptInComponent c = false → kept c = false

theorem KeepsNoMore.not_kept {kept : UInt8 → Bool} (h : KeepsNoMore kept) :
    ∀ c ∈ [percent, plus, semicolon, ampersand], kept c = false := by
  have hall : ∀ c ∈ [percent, plus, semicolon, ampersand], keptInComponent c = false := by
    simp [keptInComponent, isUnreserved, percent, plus, semicolon, ampersand]
  exact fun c hc => h c (hall c hc)

theorem printable_target {id a : Bytes} (hid : HexID id) (target : BucketAliasTarget) {kept : UInt8 → Bool}
    (hkept : KeepsNoMore kept) :
    (withQuery (aliasPath id (percentEncode keptInComponent a)) (target.query kept)).any isControl = false := by
  rw [List.any_eq_false]
  intro c hc hcontrol
  obtain ⟨hcomponent, hpath⟩ := component_of_control hcontrol
  have hapart := apart_of_control hcontrol
  rw [withQuery, List.mem_append] at hc
  rcases hc with hc | hc
  · exact not_mem_aliasPath hid hapart hpath hcomponent hc
  · cases target with
    | globalAlias name => exact absurd hc List.not_mem_nil
    | localAlias name accessKeyId =>
      rw [BucketAliasTarget.query, Option.elim_some] at hc
      have hvalue : c ∉ percentEncode kept (bytes accessKeyId) := by
        rw [mem_percentEncode hapart, hkept c hcomponent]
        exact fun h => Bool.noConfusion h.2
      have hname : (bytes "accessKeyId").any isControl = false := by decide
      rcases List.mem_cons.mp hc with rfl | hc
      · exact absurd hcontrol (by decide)
      · rcases List.mem_append.mp hc with hc | hc
        · exact List.any_eq_false.mp hname c hc hcontrol
        · rcases List.mem_cons.mp hc with rfl | hc
          · exact absurd hcontrol (by decide)
          · exact hvalue hc

/-! ## What a browser sends -/

def keptByFetch (c : UInt8) : Bool := keptInComponent c && c ≠ apostrophe

theorem keepsNoMore_component : KeepsNoMore keptInComponent := fun _ h => h

theorem keepsNoMore_fetch : KeepsNoMore keptByFetch := by
  intro c h
  rw [keptByFetch, h, Bool.false_and]

theorem fetchPath_aliasPath {id : Bytes} (hid : HexID id) {name : String} (hdot : name ≠ ".") (hdots : name ≠ "..") :
    fetchPath (aliasPath id (encodeURIComponent name)) = aliasPath id (encodeURIComponent name) := by
  apply fetchPath_plain
  rw [encodeURIComponent, hid.segments_aliasPath (slash_not_mem_component _)]
  have hname := @not_dots_percentEncode keptInComponent (by decide) _ (fun h => hdot (bytes_injective h))
    (fun h => hdots (bytes_injective h))
  have hbucket := hid.not_dots
  simp only [List.forall_mem_cons]
  exact ⟨by decide, by decide, by decide, hbucket, by decide, hname, nofun⟩

theorem fetchQuery_component {name : Bytes} (hname : apostrophe ∉ name) (v : Bytes) :
    fetchQuery (name ++ equals :: percentEncode keptInComponent v) = name ++ equals :: percentEncode keptByFetch v := by
  have hplain : fetchQuery name = name := by
    rw [fetchQuery, List.flatMap_congr (g := fun b => [b]), List.flatMap_singleton']
    intro b hb
    rw [if_neg]
    rintro rfl
    exact hname hb
  rw [fetchQuery, List.flatMap_append, List.flatMap_cons]
  exact congrArg₂ (· ++ ·) hplain (congrArg (equals :: ·) (fetchQuery_percentEncode v))

/-- What is sent for the URL: the same path, and the query with its apostrophes escaped. -/
theorem fetchTarget_removeBucketAlias {bucketId : String} (hid : HexID (bytes bucketId)) {target : BucketAliasTarget}
    (hdot : target.name ≠ ".") (hdots : target.name ≠ "..") : fetchTarget (removeBucketAlias bucketId target) =
      withQuery (aliasPath (bytes bucketId) (encodeURIComponent target.name)) (target.query keptByFetch) := by
  have hpath := fetchPath_aliasPath hid hdot hdots
  have hquestion : question ∉ aliasPath (bytes bucketId) (encodeURIComponent target.name) :=
    not_mem_aliasPath hid (by decide) (by decide) (by decide)
  rw [removeBucketAlias_eq, fetchTarget, cut_withQuery hquestion]
  cases target with
  | globalAlias name =>
    rw [if_neg]
    · rw [BucketAliasTarget.query, BucketAliasTarget.query, withQuery, Option.elim_none, List.append_nil]
      exact hpath
    · rw [BucketAliasTarget.query, withQuery, Option.elim_none, List.append_nil]
      exact hquestion
  | localAlias name accessKeyId =>
    have hmem : question ∈ withQuery (aliasPath (bytes bucketId) (encodeURIComponent name))
        ((BucketAliasTarget.localAlias name accessKeyId).query keptInComponent) :=
      List.mem_append_right _ List.mem_cons_self
    rw [BucketAliasTarget.name] at hpath ⊢
    rw [if_pos hmem, hpath, BucketAliasTarget.query, BucketAliasTarget.query, Option.getD_some, withQuery,
      Option.elim_some, fetchQuery_component (by decide)]

/-! ## The request is served -/

theorem parseRequestURI_target {id a : Bytes} (hid : HexID id) (target : BucketAliasTarget) {kept : UInt8 → Bool}
    (hkept : KeepsNoMore kept) {u : UrlPath} (hu : setPath (aliasPath id (percentEncode keptInComponent a)) = some u) :
    parseRequestURI (withQuery (aliasPath id (percentEncode keptInComponent a)) (target.query kept)) =
      some (u, (target.query kept).getD []) := by
  have hquestion := @not_mem_aliasPath _ a hid question (by decide) (by decide) (by decide)
  rw [parseRequestURI, printable_target hid target hkept, cut_withQuery hquestion, hu]
  rfl

/-- Neither name is blank, as the server sees it. -/
def BucketAliasTarget.NotBlank : BucketAliasTarget → Prop
  | .globalAlias name => trimSpace (bytes name) ≠ []
  | .localAlias name accessKeyId => trimSpace (bytes name) ≠ [] ∧ trimSpace (bytes accessKeyId) ≠ []

theorem BucketAliasTarget.NotBlank.name {target : BucketAliasTarget} (h : target.NotBlank) :
    trimSpace (bytes target.name) ≠ [] := by
  cases target with
  | globalAlias name => exact h
  | localAlias name accessKeyId => exact h.1

/-- The handler, on the decoded parameters, asks for the removal of this alias. -/
theorem handle_removal {bucketId : String} {target : BucketAliasTarget} (hblank : target.NotBlank) {kept : UInt8 → Bool}
    (hkept : KeepsNoMore kept) {route : Route} {u : UrlPath} (hid : urlParam route u "id" = bytes bucketId)
    (halias : (if u.rawPath = [] then some (urlParam route u "alias") else unescape (urlParam route u "alias")) =
      some (bytes target.name)) :
    handleRemoveBucketAlias route u ((target.query kept).getD []) =
      proxyGarageMutation "/v2/RemoveBucketAlias" (target.removal bucketId) := by
  have hname := hblank.name
  rw [handleRemoveBucketAlias, halias, hid]
  cases target with
  | globalAlias name =>
    have hnone : parseQuery ((BucketAliasTarget.globalAlias name).query kept |>.getD []) = [] := rfl
    dsimp only
    rw [hnone]
    simp only [hasValue, values, List.filter_nil, List.map_nil, ne_eq, not_true_eq_false, decide_false,
      Bool.false_eq_true, if_false, garageAliasBody, if_neg hname, toText_bytes]
    rfl
  | localAlias name accessKeyId =>
    have hone : parseQuery ((BucketAliasTarget.localAlias name accessKeyId).query kept |>.getD []) =
        [(bytes "accessKeyId", bytes accessKeyId)] :=
      parseQuery_percentEncode hkept.not_kept (by decide) _
    have hvalues : values [(bytes "accessKeyId", bytes accessKeyId)] (bytes "accessKeyId") = [bytes accessKeyId] := by
      simp [values]
    have hkey : trimSpace (bytes accessKeyId) ≠ [] := hblank.2
    dsimp only
    rw [hone]
    simp only [hasValue, getValue, hvalues, ne_eq, List.cons_ne_nil, not_false_eq_true, decide_true, if_true,
      List.headD_cons, garageAliasBody, if_neg hname, if_neg hkey, toText_bytes]
    rfl

/-- What arrives of the console's request, sent as it is or by a browser, is routed to the handler, and Garage is asked
to remove exactly this alias of this bucket. -/
theorem alias_removed (chi : Chi) {bucketId : String} (hid : HexID (bytes bucketId))
    {target : BucketAliasTarget}
    (hblank : target.NotBlank) (hdot : target.name ≠ ".") (hdots : target.name ≠ "..") {sentTarget : Bytes}
    (hsent : sentTarget = removeBucketAlias bucketId target ∨
      sentTarget = fetchTarget (removeBucketAlias bucketId target)) :
    ∃ u rawQuery route, parseRequestURI sentTarget = some (u, rawQuery) ∧
      routeFor chi "DELETE" u = some route ∧ route.handler = .handleRemoveBucketAlias ∧
      ∀ log resp, Runs (handleRemoveBucketAlias route u rawQuery) log resp ↔
        ∃ reply, log = sent "/v2/RemoveBucketAlias" (target.removal bucketId) reply ∧ resp = forwardResponse reply := by
  have hname : bytes target.name ≠ [] := by
    intro h
    have hnot := hblank.name
    rw [h] at hnot
    exact hnot rfl
  obtain ⟨kept, hkept, hwritten⟩ : ∃ kept, KeepsNoMore kept ∧ sentTarget =
      withQuery (aliasPath (bytes bucketId) (encodeURIComponent target.name)) (target.query kept) := by
    rcases hsent with rfl | rfl
    · exact ⟨keptInComponent, keepsNoMore_component, removeBucketAlias_eq bucketId target⟩
    · exact ⟨keptByFetch, keepsNoMore_fetch, fetchTarget_removeBucketAlias hid hdot hdots⟩
  obtain ⟨u, hu, hroute, hbucket, halias⟩ := route_of_alias hid hname chi
  refine ⟨u, (target.query kept).getD [], removalRoute, ?_, hroute, rfl, fun log resp => ?_⟩
  · rw [hwritten]
    exact parseRequestURI_target hid target hkept hu
  · rw [handle_removal hblank hkept hbucket halias]
    exact runs_proxyGarageMutation

/-- A local alias with bytes that only Go escapes, that both do and that neither does. -/
def mixedAlias : BucketAliasTarget := .localAlias "a b/c%2F!:é" "GK'1"

theorem alias_removed_mixed : ∃ u rawQuery route,
    parseRequestURI (fetchTarget (removeBucketAlias "ab12" mixedAlias)) = some (u, rawQuery) ∧
      routeFor (.ofOrder false routes_wordsFirst) "DELETE" u = some route ∧ route.handler = .handleRemoveBucketAlias ∧
      ∀ log resp, Runs (handleRemoveBucketAlias route u rawQuery) log resp ↔
        ∃ reply, log = sent "/v2/RemoveBucketAlias" (mixedAlias.removal "ab12") reply ∧ resp = forwardResponse reply :=
  alias_removed _ ⟨by decide, List.all_eq_true.mp (by decide)⟩
    (show mixedAlias.NotBlank from ⟨by decide, by decide⟩) (by decide) (by decide) (.inr rfl)

end GarageConsole.Buckets
