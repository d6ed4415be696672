import GarageConsole.Audit.Detail
import GarageConsole.Routes.Table

/-! # The middleware's reading of a path and the router's

The audit's extractors and the CSRF check look at the decoded path, the router at the path as it was sent. They
agree unless an escape is in a fixed word or hides a slash, or an empty segment stands for a placeholder
(`classified_alike_iff`).
-/

namespace GarageConsole.Audit

open Foundations Foundations.Text Foundations.Path Foundations.Url Foundations.Router GarageConsole.Routes

set_option autoImplicit false

/-! ## The middleware -/

def isUploadPath (path : Bytes) : Bool :=
  let rest := path.drop (bytes "/api/objects/").length
  (bytes "/api/objects/").isPrefixOf path && (bytes "/upload").isSuffixOf rest &&
    0 < (rest.take (rest.length - (bytes "/upload").length)).length

abbrev Entry := String × List Segment × Extractor

/-- The entry whose extractor `auditDetail` takes. -/
def selected (method : String) (path : Bytes) : Option Entry :=
  auditExtractors.find? fun e => e.1 = method && matchesPath e.2.1 path

theorem extractorFor_eq (method : String) (path : Bytes) :
    extractorFor method path = (selected method path).map fun e => e.2.2 := rfl

/-- The routes that a pattern spells out. -/
def shapesOf : List Segment → List Shape
  | [] => [[]]
  | .word s :: ps => (shapesOf ps).map (some (bytes s) :: ·)
  | .oneOf ss :: ps => ss.flatMap fun s => (shapesOf ps).map (some (bytes s) :: ·)
  | .any :: ps => (shapesOf ps).map (none :: ·)

def shapes (e : Entry) : List Shape := shapesOf (.word "" :: e.2.1)

/-- The extractor is the one for this route. -/
def WrittenFor (e : Entry) (r : Route) : Prop := e.1 = r.method ∧ r.shape ∈ shapes e

/-- A request is classified as it is routed. -/
structure ClassifiedAlike (chi : Chi) (m : Mutation) (sent : Bytes) : Prop where
  extractor : ∀ u, setPath sent = some u → ∀ e ∈ auditExtractors,
    (selected m.method u.path = some e ↔ ∃ r, routeFor chi m.method u = some r ∧ WrittenFor e r)
  upload : ∀ u, setPath sent = some u → isUploadPath u.path = true →
    ∀ r, routeFor chi m.method u = some r → r.handler = .handleUploadObject

/-- How a path as sent can mislead. -/
inductive Misleading (takesEmpty : Bool) (m : Mutation) (sent : Bytes) : Prop where
  /-- The decoded path is that of an audited route, but the route's words and slashes are not all as they are. -/
  | escapedWord {e : Entry} {q : Shape} {path : Bytes} : unescape sent = some path → e ∈ auditExtractors →
      e.1 = m.method → q ∈ shapes e → admits false q (segments path) = true → verbatim q (segments sent) = false →
      Misleading takesEmpty m sent
  /-- A placeholder of an audited route has an escaped slash in it, or is empty. -/
  | notWhole {e : Entry} {q : Shape} {s : Bytes} : (unescape sent).isSome → e ∈ auditExtractors → e.1 = m.method →
      q ∈ shapes e → admits takesEmpty q (segments sent) = true → s ∈ placeholders q (segments sent) → ¬Whole s →
      Misleading takesEmpty m sent
  /-- An object is deleted at a bucket whose name, decoded, ends like the path of an upload. -/
  | uploadInBucket {bucket t : Bytes} : m = .delete → segments sent = [[], bytes "api", bytes "objects", bucket] →
      unescape bucket = some (t ++ bytes "/upload") → t ≠ [] → Misleading takesEmpty m sent

/-! ## The tables -/

theorem matchSegments_iff {ps : List Segment} : ∀ {ss : List Bytes},
    matchSegments ps ss = true ↔ ∃ q ∈ shapesOf ps, admits false q ss = true := by
  induction ps with
  | nil =>
    intro ss
    cases ss <;> simp [matchSegments, shapesOf, admits]
  | cons p ps ih =>
    intro ss
    cases ss with
    | nil => cases p <;> simp [matchSegments, shapesOf, admits]
    | cons s ss =>
      rw [matchSegments, Bool.and_eq_true, ih]
      cases p with
      | word w => simp [Segment.matches, shapesOf, admits, and_left_comm]
      | oneOf ws =>
        simp only [Segment.matches, shapesOf, List.any_eq_true, decide_eq_true_eq, List.mem_flatMap, List.mem_map]
        constructor
        · rintro ⟨⟨w, hw, rfl⟩, q, hq, hadmits⟩
          exact ⟨_, ⟨w, hw, q, hq, rfl⟩, by rw [admits, hadmits]; simp⟩
        · rintro ⟨_, ⟨w, hw, q, hq, rfl⟩, hadmits⟩
          rw [admits, Bool.and_eq_true, decide_eq_true_eq] at hadmits
          exact ⟨⟨w, hw, hadmits.1⟩, q, hq, hadmits.2⟩
      | any => simp [Segment.matches, shapesOf, admits, and_left_comm]

theorem matchesPath_iff {e : Entry} {path : Bytes} :
    matchesPath e.2.1 path = true ↔ ∃ q ∈ shapes e, admits false q (segments path) = true := matchSegments_iff

theorem shapes_plain : ∀ e ∈ auditExtractors, ∀ q ∈ shapes e, PlainShape q := by decide

theorem shapes_routed : ∀ e ∈ auditExtractors, ∀ q ∈ shapes e, ∃ r ∈ routes, r.method = e.1 ∧ r.shape = q := by
  decide

theorem entries_apart : auditExtractors.Pairwise fun e e' => e.1 = e'.1 →
    ∀ q ∈ shapes e, ∀ q' ∈ shapes e', apart q q' = true := by
  decide

/-- A pattern spells out one route, or several without placeholders. -/
theorem shapes_apart : ∀ e ∈ auditExtractors, ∀ q ∈ shapes e, ∀ q' ∈ shapes e,
    q = q' ∨ apart q q' = true ∧ none ∉ q := by
  decide

theorem selected_iff {method : String} {path : Bytes} {e : Entry} : selected method path = some e ↔
    e ∈ auditExtractors ∧ e.1 = method ∧ ∃ q ∈ shapes e, admits false q (segments path) = true := by
  unfold selected
  rw [find?_of_exclusive, Bool.and_eq_true, decide_eq_true_eq, matchesPath_iff]
  refine entries_apart.imp ?_
  intro e e' hapart hfits
  rw [Bool.and_eq_true, decide_eq_true_eq, matchesPath_iff] at hfits
  obtain ⟨hmethod, q, hq, hadmits⟩ := hfits
  rw [Bool.eq_false_iff, ne_eq, Bool.and_eq_true, decide_eq_true_eq, matchesPath_iff]
  rintro ⟨hmethod', q', hq', hadmits'⟩
  have hnot := not_apart (verbatim_of_admits hadmits) (verbatim_of_admits hadmits')
  rw [hapart (hmethod.trans hmethod'.symm) q hq q' hq'] at hnot
  cases hnot

variable {chi : Chi} {m : Mutation} {sent path : Bytes} {u : UrlPath} {e : Entry} {q : Shape}

/-! ## Extractors and routes -/

/-- Of the routes of one pattern, the one that stands verbatim is the one that the decoded path fits. -/
theorem verbatim_same {q' : Shape} (hpath : unescape sent = some path) (he : e ∈ auditExtractors) (hq : q ∈ shapes e)
    (hq' : q' ∈ shapes e) (hverbatim : verbatim q (segments sent) = true)
    (hdecoded : admits false q' (segments path) = true) : q' = q := by
  obtain heq | ⟨hapart, hwords⟩ := shapes_apart e he q hq q' hq'
  · exact heq.symm
  · -- a route of words only: verbatim means that the decoded path fits it too
    obtain ⟨ts, hts, hsegments⟩ := segments_decoded hpath
    have hnone : ∀ s ∈ placeholders q (segments sent), Whole s := by
      intro s hs
      exact absurd (none_mem_of_placeholder hs) hwords
    have hfits := @admits_decoded false q _ _ (shapes_plain e he q hq) hts hverbatim hnone
    rw [← hsegments] at hfits
    have hnot := not_apart (verbatim_of_admits hfits) (verbatim_of_admits hdecoded)
    rw [hapart] at hnot
    cases hnot

/-- The route that a path as sent takes, with the extractor's pattern spelled out. -/
theorem writtenFor_iff (hu : setPath sent = some u) (he : e ∈ auditExtractors) :
    (∃ r, routeFor chi m.method u = some r ∧ WrittenFor e r) ↔
      e.1 = m.method ∧ ∃ q ∈ shapes e, admits chi.takesEmpty q (segments sent) = true := by
  constructor
  · rintro ⟨r, hr, hmethod, hshape⟩
    obtain ⟨-, hrm, hadmits⟩ := (routeFor_iff hu).mp hr
    exact ⟨hmethod.trans hrm, r.shape, hshape, hadmits⟩
  · rintro ⟨hmethod, q, hq, hadmits⟩
    obtain ⟨r, hr, hrm, rfl⟩ := shapes_routed e he q hq
    exact ⟨r, (routeFor_iff hu).mpr ⟨hr, hrm.trans hmethod, hadmits⟩, hrm.symm, hq⟩

theorem extractor_of_not_misleading (h : ¬Misleading chi.takesEmpty m sent) (hu : setPath sent = some u)
    (he : e ∈ auditExtractors) : selected m.method u.path = some e ↔
      ∃ r, routeFor chi m.method u = some r ∧ WrittenFor e r := by
  have hpath := setPath_path hu
  obtain ⟨ts, hts, hsegments⟩ := segments_decoded hpath
  rw [selected_iff, writtenFor_iff hu he]
  constructor
  · rintro ⟨-, hmethod, q, hq, hdecoded⟩
    have hverbatim : verbatim q (segments sent) = true := by
      by_contra hnot
      exact h (.escapedWord hpath he hmethod hq hdecoded (Bool.eq_false_iff.mpr hnot))
    rw [hsegments] at hdecoded
    have hwhole := whole_of_admits_decoded hts hverbatim hdecoded
    refine ⟨hmethod, q, hq, admits_of_verbatim hverbatim fun s hs => ?_⟩
    rintro rfl
    obtain ⟨t, ht, hne, -⟩ := hwhole [] hs
    cases ht
    exact hne rfl
  · rintro ⟨hmethod, q, hq, hadmits⟩
    have hwhole : ∀ s ∈ placeholders q (segments sent), Whole s := by
      intro s hs
      by_contra hnot
      exact h (.notWhole (by rw [hpath]; rfl) he hmethod hq hadmits hs hnot)
    have hdecoded := @admits_decoded false q _ _ (shapes_plain e he q hq) hts (verbatim_of_admits hadmits) hwhole
    rw [← hsegments] at hdecoded
    exact ⟨he, hmethod, q, hq, hdecoded⟩

/-! ## Uploads -/

/-- A path of an upload, by its segments. -/
theorem isUploadPath_iff : isUploadPath path = true ↔
    ∃ middle, middle ≠ [] ∧ path = bytes "/api/objects/" ++ (middle ++ bytes "/upload") := by
  unfold isUploadPath
  simp only [Bool.and_eq_true, decide_eq_true_eq, List.isPrefixOf_iff_prefix, List.isSuffixOf_iff_suffix]
  constructor
  · rintro ⟨⟨⟨rest, rfl⟩, hsuffix⟩, hpos⟩
    rw [List.drop_left] at hsuffix hpos
    obtain ⟨middle, rfl⟩ := hsuffix
    rw [List.length_append, Nat.add_sub_cancel, List.take_left] at hpos
    exact ⟨middle, List.ne_nil_of_length_pos hpos, rfl⟩
  · rintro ⟨middle, hne, rfl⟩
    rw [List.drop_left, List.length_append, Nat.add_sub_cancel, List.take_left]
    exact ⟨⟨List.prefix_append _ _, List.suffix_append _ _⟩, List.length_pos_iff.mpr hne⟩

theorem segments_upload (middle : Bytes) : segments (bytes "/api/objects/" ++ (middle ++ bytes "/upload")) =
    [] :: bytes "api" :: bytes "objects" :: (segments middle ++ [bytes "upload"]) := by
  have hstart : bytes "/api/objects/" = slash :: (bytes "api" ++ slash :: (bytes "objects" ++ [slash])) := by decide
  have hend : bytes "/upload" = slash :: bytes "upload" := by decide
  have hpath : bytes "/api/objects/" ++ (middle ++ bytes "/upload") =
      slash :: (bytes "api" ++ slash :: (bytes "objects" ++ slash :: (middle ++ slash :: bytes "upload"))) := by
    rw [hstart, hend]
    simp only [List.cons_append, List.append_assoc, List.nil_append]
  rw [hpath, segments_slash_cons, segments_append_slash_cons, segments_append_slash_cons, segments_append_slash_cons]
  have hword : ∀ s : String, slash ∉ bytes s → segments (bytes s) = [bytes s] := fun s hs => segments_of_slashless hs
  rw [hword "api" (by decide), hword "objects" (by decide), hword "upload" (by decide)]
  rfl

def startsElsewhere : Shape → Bool
  | some _ :: some _ :: some w :: _ => w ≠ bytes "objects"
  | _ => false

def endsElsewhere (q : Shape) : Bool := q.getLast?.any fun p => p.any (· ≠ bytes "upload")

/-- Every route but the upload's starts outside the objects, ends in another word or deletes one object. -/
theorem routes_upload : ∀ r ∈ routes, r.handler = .handleUploadObject ∨ startsElsewhere r.shape = true ∨
    endsElsewhere r.shape = true ∨
    r.method = "DELETE" ∧ r.shape = [some [], some (bytes "api"), some (bytes "objects"), none] := by
  decide

section

variable {ss ts : List Bytes} {rest : List Bytes}

theorem not_startsElsewhere (hplain : PlainShape q) (hts : Decodes ss ts) (h : verbatim q ss = true)
    (hupload : ts.flatMap segments = [] :: bytes "api" :: bytes "objects" :: rest) : startsElsewhere q = false := by
  match q with
  | some a :: some b :: some w :: q =>
    obtain ⟨ha, hq⟩ := List.forall_mem_cons.mp hplain
    obtain ⟨hb, hq⟩ := List.forall_mem_cons.mp hq
    obtain ⟨hw, -⟩ := List.forall_mem_cons.mp hq
    obtain ⟨ss₁, ts₁, hts₁, h₁, -, heq₁⟩ := decodes_word (ha a rfl) hts h
    obtain ⟨ss₂, ts₂, hts₂, h₂, -, heq₂⟩ := decodes_word (hb b rfl) hts₁ h₁
    obtain ⟨ss₃, ts₃, -, -, -, heq₃⟩ := decodes_word (hw w rfl) hts₂ h₂
    rw [heq₁, heq₂, heq₃] at hupload
    simp only [List.cons.injEq] at hupload
    simp [startsElsewhere, hupload.2.2.1]
  | [] => rfl
  | none :: _ => rfl
  | [some _] => rfl
  | some _ :: none :: _ => rfl
  | [some _, some _] => rfl
  | some _ :: some _ :: none :: _ => rfl

theorem not_endsElsewhere (hplain : PlainShape q) (hts : Decodes ss ts) (h : verbatim q ss = true)
    (hupload : ts.flatMap segments = rest ++ [bytes "upload"]) : endsElsewhere q = false := by
  cases q using List.reverseRecOn with
  | nil => rfl
  | append_singleton q p =>
    rw [endsElsewhere, List.getLast?_concat]
    cases p with
    | none => rfl
    | some w =>
      have hw := hplain (some w) (List.mem_append_right _ (List.mem_singleton_self _)) w rfl
      have hlast := decodes_last_word hw hts h
      rw [hupload, List.getLast?_concat] at hlast
      have heq : bytes "upload" = w := Option.some.inj hlast
      simp [heq]

end

theorem upload_of_not_misleading (h : ¬Misleading chi.takesEmpty m sent) (hu : setPath sent = some u)
    (hupload : isUploadPath u.path = true) {r : Route} (hr : routeFor chi m.method u = some r) :
    r.handler = .handleUploadObject := by
  obtain ⟨middle, hne, hpath⟩ := isUploadPath_iff.mp hupload
  obtain ⟨ts, hts, hsegments⟩ := segments_decoded (setPath_path hu)
  rw [hpath, segments_upload] at hsegments
  obtain ⟨hmem, hmethod, hadmits⟩ := (routeFor_iff hu).mp hr
  have hverbatim := verbatim_of_admits hadmits
  have hplain := routes_plain r hmem
  obtain hhandler | hstart | hend | ⟨hdelete, hshape⟩ := routes_upload r hmem
  · exact hhandler
  · rw [not_startsElsewhere hplain hts hverbatim hsegments.symm] at hstart
    cases hstart
  · have hlast : ts.flatMap segments = ([] :: bytes "api" :: bytes "objects" :: segments middle) ++ [bytes "upload"] :=
      hsegments.symm
    rw [not_endsElsewhere hplain hts hverbatim hlast] at hend
    cases hend
  · -- the bucket decodes to what is between, with the end of an upload's path
    exfalso
    rw [hshape] at hverbatim hplain
    obtain ⟨hroot, hq⟩ := List.forall_mem_cons.mp hplain
    obtain ⟨hapi, hq⟩ := List.forall_mem_cons.mp hq
    obtain ⟨hobjects, -⟩ := List.forall_mem_cons.mp hq
    obtain ⟨ss₁, ts₁, hts₁, h₁, hss₁, heq₁⟩ := decodes_word (hroot _ rfl) hts hverbatim
    obtain ⟨ss₂, ts₂, hts₂, h₂, hss₂, heq₂⟩ := decodes_word (hapi _ rfl) hts₁ h₁
    obtain ⟨ss₃, ts₃, hts₃, h₃, hss₃, heq₃⟩ := decodes_word (hobjects _ rfl) hts₂ h₂
    have hlength := length_of_verbatim h₃
    obtain ⟨bucket, rfl⟩ := List.length_eq_one_iff.mp hlength
    cases hts₃ with
    | @cons _ t _ _ ht hnil =>
      cases hnil
      rw [heq₁, heq₂, heq₃, List.flatMap_singleton] at hsegments
      simp only [List.cons.injEq, true_and] at hsegments
      have hdecoded : t = middle ++ bytes "/upload" := by
        apply segments_injective
        have hlast : segments (bytes "upload") = [bytes "upload"] := segments_of_slashless (by decide)
        have hword : bytes "/upload" = slash :: bytes "upload" := by decide
        rw [hword, segments_append_slash_cons, hlast, hsegments]
      have hm : m = .delete := by
        rw [hdelete] at hmethod
        cases m with
        | delete => rfl
        | _ => exact absurd hmethod (by decide)
      rw [hss₃] at hss₂
      rw [hss₂] at hss₁
      exact h (.uploadInBucket hm hss₁ (hdecoded ▸ ht) hne)

def deleteObjectRoute : Route := ⟨"DELETE", [.word "api", .word "objects", .param "bucket"], .handleDeleteObject⟩

theorem deleteObjectRoute_mem : deleteObjectRoute ∈ routes := by decide

theorem misleading_iff : ClassifiedAlike chi m sent ↔ ¬Misleading chi.takesEmpty m sent := by
  refine ⟨?_, fun h => ⟨fun u hu e he => extractor_of_not_misleading h hu he,
    fun u hu hupload r hr => upload_of_not_misleading h hu hupload hr⟩⟩
  rintro halike (⟨hpath, he, hmethod, hq, hdecoded, hverbatim⟩ | ⟨hsome, he, hmethod, hq, hadmits, hs, hwhole⟩ |
    ⟨rfl, hsegments, hbucket, hne⟩)
  · rename_i e q path
    have hu := setPath_of_unescape hpath
    have hselected := selected_iff.mpr ⟨he, hmethod, q, hq, hdecoded⟩
    obtain ⟨-, q', hq', hadmits⟩ := (writtenFor_iff hu he).mp ((halike.extractor _ hu e he).mp hselected)
    have hsame := verbatim_same hpath he hq' hq (verbatim_of_admits hadmits) hdecoded
    rw [hsame, verbatim_of_admits hadmits] at hverbatim
    cases hverbatim
  · rename_i e q s
    obtain ⟨path, hpath⟩ := Option.isSome_iff_exists.mp hsome
    have hu := setPath_of_unescape hpath
    have hselected := (halike.extractor _ hu e he).mpr ((writtenFor_iff hu he).mpr ⟨hmethod, q, hq, hadmits⟩)
    obtain ⟨-, -, q', hq', hdecoded⟩ := selected_iff.mp hselected
    have hsame := verbatim_same hpath he hq hq' (verbatim_of_admits hadmits) hdecoded
    subst hsame
    obtain ⟨ts, hts, heq⟩ := segments_decoded hpath
    rw [heq] at hdecoded
    exact hwhole (whole_of_admits_decoded hts (verbatim_of_admits hadmits) hdecoded s hs)
  · rename_i bucket t
    have hsent : sent = bytes "/api/objects/" ++ bucket := by
      have hstart : [[], bytes "api", bytes "objects"].flatMap (· ++ [slash]) = bytes "/api/objects/" := by decide
      rw [← joined_segments sent, hsegments, ← hstart]
      exact joined_concat [[], bytes "api", bytes "objects"] bucket
    have hpath : unescape sent = some (bytes "/api/objects/" ++ (t ++ bytes "/upload")) := by
      rw [hsent, unescape_plain_append (by decide), hbucket]
      rfl
    have hu := setPath_of_unescape hpath
    have hbucket_ne : bucket ≠ [] := by
      rintro rfl
      have hnil : [] = t ++ bytes "/upload" := Option.some.inj hbucket
      exact hne (List.append_eq_nil_iff.mp hnil.symm).1
    have hadmits : admits chi.takesEmpty deleteObjectRoute.shape (segments sent) = true := by
      rw [hsegments]
      simp [deleteObjectRoute, Route.shape, Part.shape, admits, hbucket_ne]
    have hr : routeFor chi "DELETE" _ = some deleteObjectRoute :=
      (routeFor_iff hu).mpr ⟨deleteObjectRoute_mem, rfl, hadmits⟩
    have hhandler := halike.upload _ hu (isUploadPath_iff.mpr ⟨t, hne, rfl⟩) _ hr
    exact absurd hhandler (by decide)

/-- A request is classified as it is routed exactly when its path as sent does not mislead. -/
theorem classified_alike_iff (chi : Chi) (m : Mutation) (sent : Bytes) :
    ClassifiedAlike chi m sent ↔ ¬Misleading chi.takesEmpty m sent :=
  misleading_iff

theorem misleading_hidden_slash (takesEmpty : Bool) :
    Misleading takesEmpty .post (bytes "/api/nodes/a%2Fb/repair") := by
  have hsegments : segments (bytes "/api/nodes/a%2Fb/repair") =
      [[], bytes "api", bytes "nodes", bytes "a%2Fb", bytes "repair"] := by decide +kernel
  have hdecoded : unescape (bytes "a%2Fb") = some (bytes "a/b") := by decide
  have he : ("POST", [.word "api", .word "nodes", .any, .word "repair"], extractRepairType) ∈ auditExtractors :=
    List.mem_of_getElem? (i := 1) rfl
  have hadmits : admits takesEmpty [some [], some (bytes "api"), some (bytes "nodes"), none, some (bytes "repair")]
      (segments (bytes "/api/nodes/a%2Fb/repair")) = true := by
    rw [hsegments]
    cases takesEmpty <;> decide
  have hplaceholder : bytes "a%2Fb" ∈ placeholders
      [some [], some (bytes "api"), some (bytes "nodes"), none, some (bytes "repair")]
      (segments (bytes "/api/nodes/a%2Fb/repair")) := by
    rw [hsegments]
    decide
  refine .notWhole (by decide +kernel) he rfl (by decide) hadmits hplaceholder ?_
  rintro ⟨t, ht, -, hslash⟩
  rw [hdecoded] at ht
  cases ht
  exact hslash (by decide)

/-- The repair of a node whose ID has an escaped slash in it is routed, but not looked at. -/
theorem hidden_slash_misleads :
    ¬ClassifiedAlike (.ofOrder false routes_wordsFirst) .post (bytes "/api/nodes/a%2Fb/repair") ∧
      ¬ClassifiedAlike (.ofOrder true routes_wordsFirst) .post (bytes "/api/nodes/a%2Fb/repair") :=
  ⟨fun h => misleading_iff.mp h (misleading_hidden_slash false),
    fun h => misleading_iff.mp h (misleading_hidden_slash true)⟩

end GarageConsole.Audit
