import GarageConsole.Audit.Readers

/-! # The audit log and the handlers

The handlers of three routes decode the body that the audit log describes, with the same decoder but not in
the same way: the handler reads the first value of the body and ignores what follows it, the audit log either
wants a body that is one value, or takes the first member named `keys` where the handler takes the last one
of that name in any letter case. `audit_agrees_iff` says for which bodies the two see the same.
-/

namespace GarageConsole.Audit

open Foundations Foundations.Text Foundations.GoJson Foundations.Calls GarageConsole.Garage
  GarageConsole.Permissions GarageConsole.Objects GarageConsole.Maintenance

set_option autoImplicit false

/-! ## The routes -/

/-- What a placeholder of a route stands for in the decoded path. -/
structure PathSegment where
  value : Bytes
  nonempty : value ≠ []
  slashless : Path.slash ∉ value

/-- The requests whose body both the audit log and the handler decode. -/
inductive AuditedRequest where
  | deleteObjects (bucket : PathSegment)
  | setPermissions (id kid : PathSegment)
  | cleanupUploads (id : PathSegment)

namespace AuditedRequest

def method : AuditedRequest → String
  | .deleteObjects _ => "DELETE"
  | .setPermissions _ _ => "PUT"
  | .cleanupUploads _ => "POST"

def pathSegments : AuditedRequest → List Bytes
  | .deleteObjects bucket => [[], bytes "api", bytes "objects", bucket.value, bytes "batch"]
  | .setPermissions id kid => [[], bytes "api", bytes "buckets", id.value, bytes "keys", kid.value]
  | .cleanupUploads id => [[], bytes "api", bytes "buckets", id.value, bytes "cleanup-uploads"]

def path (req : AuditedRequest) : Bytes := Path.joined req.pathSegments

theorem segments_path (req : AuditedRequest) : Path.segments req.path = req.pathSegments := by
  apply Path.segments_joined
  · cases req with
    | deleteObjects bucket =>
      have hbucket := bucket.slashless
      simp only [pathSegments, List.forall_mem_cons]
      exact ⟨by decide, by decide, by decide, hbucket, by decide, nofun⟩
    | setPermissions id kid =>
      have hid := id.slashless
      have hkid := kid.slashless
      simp only [pathSegments, List.forall_mem_cons]
      exact ⟨by decide, by decide, by decide, hid, by decide, hkid, nofun⟩
    | cleanupUploads id =>
      have hid := id.slashless
      simp only [pathSegments, List.forall_mem_cons]
      exact ⟨by decide, by decide, by decide, hid, by decide, nofun⟩
  · cases req <;> exact List.cons_ne_nil _ _

/-- The extractor of the route. -/
def extractor : AuditedRequest → Extractor
  | .deleteObjects _ => extractObjectKeys
  | .setPermissions _ _ => extractPermissions
  | .cleanupUploads _ => extractOlderThanSecs

theorem extractorFor_route (req : AuditedRequest) : extractorFor req.method req.path = some req.extractor := by
  have hpath := segments_path req
  cases req with
  | deleteObjects bucket =>
    have hbucket := bucket.nonempty
    simp +decide [extractorFor, auditExtractors, matchesPath, hpath, method, pathSegments, matchSegments,
      Segment.matches, extractor, hbucket]
  | setPermissions id kid =>
    have hid := id.nonempty
    have hkid := kid.nonempty
    simp +decide [extractorFor, auditExtractors, matchesPath, hpath, method, pathSegments, matchSegments,
      Segment.matches, extractor, hid, hkid]
  | cleanupUploads id =>
    have hid := id.nonempty
    simp +decide [extractorFor, auditExtractors, matchesPath, hpath, method, pathSegments, matchSegments,
      Segment.matches, extractor, hid]

end AuditedRequest

theorem auditDetail_complete {req : AuditedRequest} {body : Bytes} {d : Detail}
    (hsize : body.length ≤ maxAuditBodyBytes) (hne : d ≠ []) :
    auditDetail req.method req.path (.complete body) = some d ↔ req.extractor body true = d := by
  have hlimit : body.take (maxAuditBodyBytes + 1) = body := List.take_of_length_le (by omega)
  have hwhole : body.take maxAuditBodyBytes = body := List.take_of_length_le hsize
  rw [auditDetail, req.extractorFor_route, readLimited, hlimit]
  simp only [hwhole, decide_eq_true hsize]
  split_ifs with hd
  · constructor
    · intro h
      cases h
    · intro h
      exact absurd (h.symm.trans hd) hne
  · rw [Option.some.injEq]

/-! ## The keys that the handler decodes -/

/-- The values of the members named `keys` in any letter case, the last one first. -/
def keyValues (members : List (String × Json)) : List Json :=
  ((members.filter fun m => foldName "keys" = foldName m.1).map Prod.snd).reverse

theorem keyValues_append (members : List (String × Json)) (m : String × Json) :
    keyValues (members ++ [m]) =
      if foldName "keys" = foldName m.1 then m.2 :: keyValues members else keyValues members := by
  unfold keyValues
  by_cases h : foldName "keys" = foldName m.1 <;> simp [h]

/-- The string that arrays leave at a position: the last one that stands there, as far back as a value
without items. -/
def stringAt (i : ℕ) : List Json → String
  | .arr (v :: vs) :: earlier =>
    match (v :: vs)[i]? with
    | some (.str s) => s
    | _ => stringAt i earlier
  | _ => ""

def lastLength : List Json → ℕ
  | .arr vs :: _ => vs.length
  | _ => 0

/-- The slice holds what these values leave. -/
structure Holds (g : GoSlice String) (values : List Json) : Prop where
  at_position : ∀ i, g.held.getD i "" = stringAt i values
  items_length : (g.items.getD []).length = lastLength values

theorem holds_nothing : Holds {} [] := ⟨fun _ => rfl, rfl⟩

theorem Holds.decode {old new : GoSlice String} {value : Json} {earlier : List Json} (hold : Holds old earlier)
    (h : reusedSlice "" string old value = some new) : Holds new (value :: earlier) := by
  match value with
  | .null =>
    cases h
    exact ⟨fun _ => rfl, rfl⟩
  | .arr [] =>
    cases h
    exact ⟨fun _ => rfl, rfl⟩
  | .arr (v :: vs) =>
    obtain ⟨items, hitems, rfl⟩ := Option.map_eq_some_iff.mp h
    obtain ⟨hlength, hat⟩ := items_spec hitems
    refine ⟨?_, hlength⟩
    intro i
    rw [stringAt, GoSlice.held, Option.getD_some]
    cases hv : (v :: vs)[i]? with
    | none =>
      -- behind the items stands what stood there
      have hi : (v :: vs).length ≤ i := List.getElem?_eq_none_iff.mp hv
      dsimp only
      rw [← hold.at_position i, List.getD_append_right _ _ _ _ (hlength ▸ hi), hlength, List.getD_eq_getElem?_getD,
        List.getElem?_drop, Nat.add_sub_cancel' hi, ← List.getD_eq_getElem?_getD]
    | some w =>
      have hi : i < items.length := hlength ▸ (List.getElem?_eq_some_iff.mp hv).1
      have hw := hat i w hv
      rw [List.getD_append _ _ _ _ hi]
      cases w with
      | str s =>
        cases hw
        rfl
      | null =>
        dsimp only
        rw [← hold.at_position i]
        exact (Option.some.inj hw).symm
      | _ => cases hw

theorem holds_of_struct {g : GoSlice String} (members : List (String × Json))
    (h : struct [("keys", reusedSlice "" string)] {} (.obj members) = some g) : Holds g (keyValues members) := by
  rw [struct_obj] at h
  induction members using List.reverseRecOn generalizing g with
  | nil =>
    cases h
    exact holds_nothing
  | append_singleton members m ih =>
    rw [List.foldlM_append] at h
    obtain ⟨old, hold, hlast⟩ := Option.bind_eq_some_iff.mp h
    obtain ⟨new, hnew, heq⟩ := Option.bind_eq_some_iff.mp hlast
    cases heq
    rw [storeMember_singleton] at hnew
    rw [keyValues_append]
    split_ifs at hnew ⊢ with hname
    · exact (ih hold).decode hnew
    · cases hnew
      exact ih hold

/-! ## Summaries that are the same -/

def shown (s : String) : String := truncateUTF8 s auditMaxValueBytes

theorem previews_eq_iff {strs left : List String} (hlength : strs.length = left.length) :
    (strs.take auditPreviewItems).map shown = (left.take auditPreviewItems).map shown ↔
      ∀ i, i < auditPreviewItems → i < strs.length → shown (strs.getD i "") = shown (left.getD i "") := by
  constructor
  · intro h i hfew hi
    have hat : ((strs.take auditPreviewItems).map shown)[i]? = ((left.take auditPreviewItems).map shown)[i]? := by
      rw [h]
    rw [List.getElem?_map, List.getElem?_map, List.getElem?_take_of_lt hfew, List.getElem?_take_of_lt hfew,
      List.getElem?_eq_getElem hi, List.getElem?_eq_getElem (hlength ▸ hi)] at hat
    rw [List.getD_eq_getElem _ _ hi, List.getD_eq_getElem _ _ (hlength ▸ hi)]
    exact Option.some.inj hat
  · intro h
    apply List.ext_getElem
    · rw [List.length_map, List.length_map, List.length_take, List.length_take, hlength]
    · intro i hi hi'
      rw [List.length_map, List.length_take] at hi hi'
      have hat := h i (by omega) (by omega)
      rw [List.getD_eq_getElem _ _ (by omega), List.getD_eq_getElem _ _ (by omega)] at hat
      rw [List.getElem_map, List.getElem_map, List.getElem_take, List.getElem_take]
      exact hat

theorem strings_injective : Function.Injective strings := by
  intro strs left h
  have hmap : strs.map Json.str = left.map Json.str := by
    injection h
  exact List.map_injective_iff.mpr (fun _ _ heq => Json.str.inj heq) hmap

theorem summaryOf_eq_iff {strs left : List String} {itemsField countField : String} :
    summaryOf itemsField countField strs = summaryOf itemsField countField left ↔ strs.length = left.length ∧
      ∀ i, i < auditPreviewItems → i < strs.length → shown (strs.getD i "") = shown (left.getD i "") := by
  have hcount : countOf strs.length = countOf left.length ↔ strs.length = left.length := by
    simp [countOf]
  have hpreview : summaryOf itemsField countField strs = summaryOf itemsField countField left ↔
      strs.length = left.length ∧
        (strs.take auditPreviewItems).map shown = (left.take auditPreviewItems).map shown := by
    rw [← hcount, ← strings_injective.eq_iff, summaryOf, summaryOf, List.cons_eq_cons, List.cons_eq_cons,
      Prod.mk.injEq, Prod.mk.injEq]
    exact ⟨fun h => ⟨h.1.2, h.2.1.2⟩, fun h => ⟨⟨rfl, h.1⟩, ⟨rfl, h.2⟩, rfl⟩⟩
  rw [hpreview]
  exact and_congr_right fun hlength => previews_eq_iff hlength

/-! ## What the handler acts on -/

def MakesRequest {Req α : Type} {Ans : Req → Type} (p : Prog Req Ans α) : Prop := ∃ r next, p = .call r next

/-- The handler takes the body and sends a request, and `d` describes what it decoded. -/
def ActsOn (req : AuditedRequest) (body : Bytes) (d : Detail) : Prop :=
  match req with
  | .deleteObjects bucket =>
    MakesRequest (handleBatchDeleteObjects (toText bucket.value) (.complete body)) ∧
      ∃ keys, decodeBatchDelete (.complete body) = some keys ∧ d = summaryOf "keys" "keyCount" keys
  | .setPermissions id kid =>
    MakesRequest (handleSetBucketKeyPermissions (toText id.value) (toText kid.value) (.complete body)) ∧
      ∃ desired, decodeDesired (.complete body) = some desired ∧ d = permissionsDetail desired
  | .cleanupUploads id =>
    MakesRequest (handleCleanupIncompleteUploads (toText id.value) (.complete body)) ∧
      ∃ n, decodeOlderThan (.complete body) = some n ∧ d = olderThanDetail n

theorem ActsOn.ne_nil {req : AuditedRequest} {body : Bytes} {d : Detail} (h : ActsOn req body d) : d ≠ [] := by
  cases req with
  | deleteObjects bucket =>
    obtain ⟨-, keys, -, rfl⟩ := h
    exact List.cons_ne_nil _ _
  | setPermissions id kid =>
    obtain ⟨-, desired, -, rfl⟩ := h
    exact List.cons_ne_nil _ _
  | cleanupUploads id =>
    obtain ⟨-, n, -, rfl⟩ := h
    exact List.cons_ne_nil _ _

/-- The first member named exactly `keys` is an array of strings that has the length of the last array under
the name in any letter case, and the same strings in its first positions. -/
def KeysSeenAlike (members : List (String × Json)) : Prop :=
  ∃ strs : List String, members.lookup "keys" = some (.arr (strs.map .str)) ∧
    strs.length = lastLength (keyValues members) ∧
      ∀ i, i < auditPreviewItems → i < strs.length → shown (strs.getD i "") = shown (stringAt i (keyValues members))

/-- The bodies that the audit log and the handler see alike. -/
def SeenAlike (req : AuditedRequest) (body : Bytes) : Prop :=
  match req with
  | .deleteObjects _ => ∃ members rest, Json.parsePrefix body = some (.obj members, rest) ∧ KeysSeenAlike members
  | .setPermissions _ _ => FollowedByNothing body
  | .cleanupUploads _ => FollowedByNothing body

theorem keys_agree {body rest : Bytes} {members : List (String × Json)} {g : GoSlice String}
    (hparse : Json.parsePrefix body = some (.obj members, rest)) (hdepth : (Json.obj members).depth ≤ maxNestingDepth)
    (hkeys : struct [("keys", reusedSlice "" string)] {} (.obj members) = some g) :
    extractObjectKeys body true = summaryOf "keys" "keyCount" (g.items.getD []) ↔ KeysSeenAlike members := by
  have hholds := holds_of_struct members hkeys
  have hat : ∀ i, i < (g.items.getD []).length → (g.items.getD []).getD i "" = stringAt i (keyValues members) := by
    intro i hi
    rw [← GoSlice.getD_held "" hi, hholds.at_position]
  rw [extractObjectKeys_of_parse hparse hdepth]
  constructor
  · intro h
    cases hlookup : members.lookup "keys" with
    | none =>
      rw [hlookup] at h
      cases h
    | some v =>
      rw [hlookup, Option.elim_some] at h
      cases v with
      | arr vs =>
        cases hstrs : allStrings vs with
        | none =>
          rw [summaryOfValue, hstrs] at h
          cases h
        | some strs =>
          rw [summaryOfValue, hstrs, Option.elim_some, summaryOf_eq_iff] at h
          refine ⟨strs, by rw [hlookup, allStrings_eq_some.mp hstrs], h.1.trans hholds.items_length, ?_⟩
          intro i hfew hi
          rw [h.2 i hfew hi, hat i (h.1 ▸ hi)]
      | _ => cases h
  · rintro ⟨strs, hlookup, hlength, hsame⟩
    have hlength := hlength.trans hholds.items_length.symm
    rw [hlookup, Option.elim_some, summaryOfValue, allStrings_eq_some.mpr rfl, Option.elim_some, summaryOf_eq_iff]
    refine ⟨hlength, ?_⟩
    intro i hfew hi
    rw [hsame i hfew hi, hat i (hlength ▸ hi)]

theorem batchDelete_agrees {body : Bytes} {keys : List String} (hsize : body.length ≤ maxAuditBodyBytes)
    (hdecode : decodeBatchDelete (.complete body) = some keys) (hne : keys ≠ []) :
    extractObjectKeys body true = summaryOf "keys" "keyCount" keys ↔
      ∃ members rest, Json.parsePrefix body = some (.obj members, rest) ∧ KeysSeenAlike members := by
  have hlimit : body.take maxKeysBodyBytes = body :=
    List.take_of_length_le (hsize.trans (by decide))
  rw [decodeBatchDelete, Incoming.received, hlimit] at hdecode
  obtain ⟨g, hfirst, rfl⟩ := Option.map_eq_some_iff.mp hdecode
  obtain ⟨⟨v, rest⟩, hparse, hfits⟩ := Option.bind_eq_some_iff.mp hfirst
  dsimp only at hfits
  split_ifs at hfits with hdepth
  cases v with
  | obj members =>
    rw [keys_agree hparse hdepth hfits]
    constructor
    · intro h
      exact ⟨members, rest, hparse, h⟩
    · rintro ⟨members', rest', hparse', h⟩
      rw [hparse, Option.some.injEq, Prod.mk.injEq, Json.obj.injEq] at hparse'
      rw [hparse'.1]
      exact h
  | null =>
    cases hfits
    exact absurd rfl hne
  | _ => cases hfits

theorem permissions_agree {body : Bytes} {desired : BucketKeyPerm} (hsize : body.length ≤ maxAuditBodyBytes)
    (hdecode : decodeDesired (.complete body) = some desired) :
    extractPermissions body true = permissionsDetail desired ↔ FollowedByNothing body := by
  have hlimit : body.take 65536 = body := List.take_of_length_le (hsize.trans (by decide))
  rw [decodeDesired, Incoming.received, hlimit] at hdecode
  have hloose : decodeFirst (struct permFields) {} body = some desired := by
    obtain ⟨⟨v, rest⟩, hparse, hfits⟩ := Option.bind_eq_some_iff.mp hdecode
    dsimp only at hfits
    split_ifs at hfits with hdepth
    refine Option.bind_eq_some_iff.mpr ⟨(v, rest), hparse, ?_⟩
    dsimp only
    rw [if_pos hdepth]
    exact struct_of_strictStruct hfits
  exact decoded_agrees hloose (List.cons_ne_nil _ _)

theorem olderThan_agrees {body : Bytes} {n : ℤ} (hsize : body.length ≤ maxAuditBodyBytes)
    (hdecode : decodeOlderThan (.complete body) = some n) :
    extractOlderThanSecs body true = olderThanDetail n ↔ FollowedByNothing body := by
  have hlimit : body.take maxCleanupBodyBytes = body := List.take_of_length_le hsize
  rw [decodeOlderThan, Incoming.received, hlimit] at hdecode
  have hfirst := Option.join_eq_some_iff.mp (Option.filter_eq_some_iff.mp hdecode).1
  exact decoded_agrees hfirst (List.cons_ne_nil _ _)

/-- The audit log describes what the handler acts on exactly when the two see the body alike. -/
theorem audit_agrees_iff {req : AuditedRequest} {body : Bytes} {d : Detail} (hsize : body.length ≤ maxAuditBodyBytes)
    (hacts : ActsOn req body d) :
    auditDetail req.method req.path (.complete body) = some d ↔ SeenAlike req body := by
  rw [auditDetail_complete hsize hacts.ne_nil]
  cases req with
  | deleteObjects bucket =>
    obtain ⟨⟨r, next, hcall⟩, keys, hdecode, rfl⟩ := hacts
    have hne : keys ≠ [] := by
      rintro rfl
      rw [handleBatchDeleteObjects, hdecode] at hcall
      cases hcall
    exact batchDelete_agrees hsize hdecode hne
  | setPermissions id kid =>
    obtain ⟨-, desired, hdecode, rfl⟩ := hacts
    exact permissions_agree hsize hdecode
  | cleanupUploads id =>
    obtain ⟨-, n, hdecode, rfl⟩ := hacts
    exact olderThan_agrees hsize hdecode

def photos : PathSegment where
  value := bytes "photos"
  nonempty := by decide
  slashless := by decide

/-- A body as the console writes it. -/
def twoKeys : Bytes := bytes "\x7b\"keys\":[\"a.txt\",\"b.txt\"]\x7d"

theorem twoKeys_decoded : decodeBatchDelete (.complete twoKeys) = some ["a.txt", "b.txt"] := by
  decide +kernel

theorem twoKeys_acted_on : ActsOn (.deleteObjects photos) twoKeys (summaryOf "keys" "keyCount" ["a.txt", "b.txt"]) := by
  refine ⟨?_, _, twoKeys_decoded, rfl⟩
  rw [handleBatchDeleteObjects, twoKeys_decoded]
  exact ⟨_, _, rfl⟩

theorem two_keys_noted : auditDetail "DELETE" (AuditedRequest.deleteObjects photos).path (.complete twoKeys) =
    some (summaryOf "keys" "keyCount" ["a.txt", "b.txt"]) := by
  refine (audit_agrees_iff (by decide) twoKeys_acted_on).mpr ?_
  exact ⟨[("keys", .arr [.str "a.txt", .str "b.txt"])], [], by decide +kernel, ["a.txt", "b.txt"], by decide, by decide,
    by decide +kernel⟩

/-- Two members named `keys`, one of them with a capital. -/
def keysTwice : Bytes := bytes "\x7b\"keys\":[\"a.txt\"],\"Keys\":[\"b.txt\"]\x7d"

theorem keysTwice_decoded : decodeBatchDelete (.complete keysTwice) = some ["b.txt"] := by
  decide +kernel

/-- The handler deletes `b.txt`, and the audit log says `a.txt`. -/
theorem other_keys_noted : keysTwice.length ≤ maxAuditBodyBytes ∧
    ActsOn (.deleteObjects photos) keysTwice (summaryOf "keys" "keyCount" ["b.txt"]) ∧
      auditDetail "DELETE" (AuditedRequest.deleteObjects photos).path (.complete keysTwice) =
        some (summaryOf "keys" "keyCount" ["a.txt"]) ∧
      summaryOf "keys" "keyCount" ["a.txt"] ≠ summaryOf "keys" "keyCount" ["b.txt"] := by
  refine ⟨by decide, ?_, by decide +kernel, by decide +kernel⟩
  refine ⟨?_, _, keysTwice_decoded, rfl⟩
  rw [handleBatchDeleteObjects, keysTwice_decoded]
  exact ⟨_, _, rfl⟩

end GarageConsole.Audit
