import GarageConsole.Garage.Mutation

/-! # Granting a key on a bucket

`handleGrantBucketKey` decodes the request's body into a map, writes the bucket's ID of the URL into it and
sends it to Garage. The JSON value `null` decodes into the nil map, which cannot be written to: for that body, and
for no other one, the handler panics (`grants_iff`).
-/

namespace GarageConsole.Permissions

open Foundations Foundations.Text Foundations.Json Foundations.GoJson Foundations.Calls GarageConsole.Garage

set_option autoImplicit false

/-- How a handler ends. -/
inductive Ending where
  | answered (resp : Response)
  | panicked
  deriving DecidableEq

def invalidRequestBody : Response := ⟨400, .text "\x7b\"error\":\"invalid request body\"\x7d\n"⟩

section

variable {V : Type} (zero : V) (any : Decoder V) (string : String → V)

/-- `POST /api/buckets/{id}/keys`. `V` is what a member of the body decodes into, by `any`. -/
def handleGrantBucketKey (bucketID : String) (body : Bytes) : MutationProg (GoMap V) Ending :=
  match decodeFirst (pointer .empty (map zero any)) none body with
  | none => return .answered invalidRequestBody
  | some none => return .panicked
  | some (some body) => do
    let resp ← proxyGarageMutation "/v2/AllowBucketKey" (body.set "bucketId" (string bucketID))
    return .answered resp

/-- The value under the last member of the name. -/
def memberNamed (name : String) (members : List (String × Json)) : Option Json :=
  (members.reverse.find? fun m => m.1 = name).map Prod.snd

/-- The grant carries the body's members with the bucket of the URL. -/
structure Carries (bucketID : String) (members : List (String × Json)) (sent : GoMap V) : Prop where
  bucket : sent.get "bucketId" = some (string bucketID)
  others : ∀ name, name ≠ "bucketId" → sent.get name = (memberNamed name members).bind (any zero)
  decoded : ∀ m ∈ members, (any zero m.2).isSome

/-- Every run refuses the request without a call, or sends Garage one grant that carries the body's object. -/
def Grants (bucketID : String) (body : Bytes) : Prop :=
  ∀ log ending, Runs (handleGrantBucketKey zero any string bucketID body) log ending →
    (ending = .answered invalidRequestBody ∧ log = []) ∨
      ∃ members rest request reply, parsePrefix body = some (.obj members, rest) ∧
        Carries zero any string bucketID members request ∧
        log = sent "/v2/AllowBucketKey" request reply ∧ ending = .answered (forwardResponse reply)

end

/-! ## Decoding into a map -/

section

variable {V : Type} {zero : V} {any : Decoder V} {string : String → V}

theorem memberNamed_append (name : String) (members : List (String × Json)) (m : String × Json) :
    memberNamed name (members ++ [m]) = if m.1 = name then some m.2 else memberNamed name members := by
  unfold memberNamed
  by_cases h : m.1 = name <;> simp [h]

theorem map_obj {members : List (String × Json)} {m : GoMap V} (h : map zero any .empty (.obj members) = some m) :
    (∀ name, m.get name = (memberNamed name members).bind (any zero)) ∧
      ∀ entry ∈ members, (any zero entry.2).isSome := by
  induction members using List.reverseRecOn generalizing m with
  | nil =>
    cases h
    exact ⟨fun name => rfl, fun entry hmem => absurd hmem List.not_mem_nil⟩
  | append_singleton members entry ih =>
    rw [GoJson.map, List.foldlM_append] at h
    obtain ⟨before, hbefore, hlast⟩ := Option.bind_eq_some_iff.mp h
    obtain ⟨hget, hsome⟩ := ih hbefore
    rw [List.foldlM_cons] at hlast
    obtain ⟨after, hafter, hend⟩ := Option.bind_eq_some_iff.mp hlast
    obtain rfl := Option.some.inj hend
    obtain ⟨v, hv, rfl⟩ := Option.map_eq_some_iff.mp hafter
    constructor
    · intro name
      rw [GoMap.get_set, memberNamed_append]
      by_cases hname : entry.1 = name
      · rw [if_pos hname.symm, if_pos hname]
        exact hv.symm
      · rw [if_neg (Ne.symm hname), if_neg hname]
        exact hget name
    · intro e he
      rcases List.mem_append.mp he with he | he
      · exact hsome e he
      · rw [List.mem_singleton.mp he, hv]
        rfl

theorem carries_set {bucketID : String} {members : List (String × Json)} {m : GoMap V}
    (h : map zero any .empty (.obj members) = some m) :
    Carries zero any string bucketID members (m.set "bucketId" (string bucketID)) := by
  obtain ⟨hget, hsome⟩ := map_obj h
  refine ⟨?_, ?_, hsome⟩
  · rw [GoMap.get_set, if_pos rfl]
  · intro name hname
    rw [GoMap.get_set, if_neg hname]
    exact hget name

/-! ## The bodies that are granted -/

/-- What a body decodes into: only an object gives a map, only `null` gives the nil map. -/
theorem decodeFirst_cases {body : Bytes} {decoded : Option (GoMap V)}
    (h : decodeFirst (pointer .empty (map zero any)) none body = some decoded) :
    (decoded = none ∧ ∃ rest, parsePrefix body = some (.null, rest)) ∨
      ∃ m members rest, decoded = some m ∧ parsePrefix body = some (.obj members, rest) ∧
        map zero any .empty (.obj members) = some m := by
  obtain ⟨⟨v, rest⟩, hparse, hdecode⟩ := Option.bind_eq_some_iff.mp h
  dsimp only at hdecode
  split_ifs at hdecode
  cases v with
  | null =>
    cases hdecode
    exact .inl ⟨rfl, rest, hparse⟩
  | obj members =>
    obtain ⟨m, hm, rfl⟩ := Option.map_eq_some_iff.mp hdecode
    exact .inr ⟨m, members, rest, rfl, hparse, hm⟩
  | bool b => cases hdecode
  | num n => cases hdecode
  | str s => cases hdecode
  | arr items => cases hdecode

theorem panics_of_null {bucketID : String} {body rest : Bytes} (h : parsePrefix body = some (.null, rest)) :
    Runs (handleGrantBucketKey zero any string bucketID body) [] .panicked := by
  have hnil : decodeFirst (pointer .empty (map zero any)) none body = some none := by
    rw [decodeFirst, h]
    rfl
  rw [handleGrantBucketKey, hnil]
  exact .ret _

theorem not_grants_of_panic {bucketID : String} {body : Bytes} {log : MutationLog (GoMap V)}
    (h : Runs (handleGrantBucketKey zero any string bucketID body) log .panicked) :
    ¬Grants zero any string bucketID body := by
  intro hgrants
  obtain ⟨hending, -⟩ | ⟨members, _, request, reply, -, -, -, hending⟩ := hgrants log .panicked h
  · cases hending
  · cases hending

end

/-- A grant goes right for every body but one whose first JSON value is `null`. -/
theorem grants_iff {V : Type} (zero : V) (any : Decoder V) (string : String → V) (bucketID : String) (body : Bytes) :
    Grants zero any string bucketID body ↔ ¬∃ rest, parsePrefix body = some (.null, rest) := by
  constructor
  · rintro hgrants ⟨rest, hnull⟩
    exact not_grants_of_panic (panics_of_null hnull) hgrants
  · intro hnull log ending hrun
    cases hdecode : decodeFirst (pointer .empty (map zero any)) none body with
    | none =>
      rw [handleGrantBucketKey, hdecode] at hrun
      obtain ⟨rfl, rfl⟩ := runs_ret.mp hrun
      exact .inl ⟨rfl, rfl⟩
    | some decoded =>
      obtain ⟨-, hbody⟩ | ⟨m, members, rest, rfl, hparse, hm⟩ := decodeFirst_cases hdecode
      · exact absurd hbody hnull
      · rw [handleGrantBucketKey, hdecode] at hrun
        obtain ⟨l, resp, r, rfl, hl, hr⟩ := runs_bind.mp hrun
        obtain ⟨reply, rfl, rfl⟩ := runs_proxyGarageMutation.mp hl
        obtain ⟨rfl, rfl⟩ := runs_ret.mp hr
        exact .inr ⟨members, rest, _, reply, hparse, carries_set hm, List.append_nil _, rfl⟩

/-- The body `null` makes the handler panic. -/
theorem null_body_panics : Runs (handleGrantBucketKey .null anyValue .str "611e4978" (bytes "null")) [] .panicked ∧
    ¬Grants .null anyValue .str "611e4978" (bytes "null") := by
  have hnull : parsePrefix (bytes "null") = some (.null, []) := by decide +kernel
  exact ⟨panics_of_null hnull, not_grants_of_panic (panics_of_null hnull)⟩

end GarageConsole.Permissions
