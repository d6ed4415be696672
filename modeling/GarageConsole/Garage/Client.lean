import GarageConsole.Foundations.Calls
import GarageConsole.Foundations.GoJson

/-! # Garage's admin API and the responses of the console

A handler of the console is a `Prog` whose calls go to Garage. Every call is answered by a `Reply`;
`readReply` is what `garageRequestJSON` makes of one. Each part of the console has its own type of
calls, with the path every call is sent to.
-/

namespace GarageConsole.Garage

open Foundations Foundations.Text Foundations.GoJson Foundations.Calls

set_option autoImplicit false

/-- What comes back from one request: nothing (a transport failure or a timeout), or an answer whose
body is `none` when it broke off while being read. -/
inductive Reply where
  | unreachable
  | answered (status : ℕ) (contentType : String) (body : Option Bytes)
  deriving DecidableEq, Repr

/-- Why a request to Garage gave no value. `status` keeps Garage's own answer, to be forwarded. -/
inductive GarageError where
  | transport
  | unreadable (path : String)
  | status (path : String) (status : ℕ) (contentType : String) (body : Bytes)
  | decode (path : String)
  deriving DecidableEq, Repr

class GarageCall (Req : Type) where
  path : Req → String

abbrev GarageProg (Req : Type) (α : Type) := Prog Req (fun _ => Reply) α

abbrev GarageLog (Req : Type) := List (Exchange Req fun _ => Reply)

/-- A 2xx answer is decoded; everything else is a `GarageError`. -/
def readReply {α : Type} (path : String) (dec : Decoder α) (zero : α) : Reply → Except GarageError α
  | .unreachable => .error .transport
  | .answered _ _ none => .error (.unreadable path)
  | .answered status contentType (some body) =>
    if status < 200 ∨ 300 ≤ status then .error (.status path status contentType body)
    else match unmarshal dec zero body with
      | some v => .ok v
      | none => .error (.decode path)

def garageRequestJSON {Req α : Type} [GarageCall Req] (r : Req) (dec : Decoder α) (zero : α) :
    GarageProg Req (Except GarageError α) := do
  let reply ← (Prog.send r : GarageProg Req Reply)
  return readReply (GarageCall.path r) dec zero reply

theorem readReply_ok_iff {α : Type} {path : String} {dec : Decoder α} {zero v : α} {reply : Reply} :
    readReply path dec zero reply = .ok v ↔
      ∃ status contentType body, reply = .answered status contentType (some body) ∧
        200 ≤ status ∧ status < 300 ∧ unmarshal dec zero body = some v := by
  match reply with
  | .unreachable => simp [readReply]
  | .answered _ _ none => simp [readReply]
  | .answered status contentType (some body) =>
    by_cases hs : status < 200 ∨ 300 ≤ status
    · have hno : ¬(200 ≤ status ∧ status < 300) := by omega
      simp only [readReply, hs, if_true, reduceCtorEq, Reply.answered.injEq, Option.some.injEq, false_iff]
      rintro ⟨_, _, _, ⟨rfl, -, -⟩, h₁, h₂, -⟩
      exact hno ⟨h₁, h₂⟩
    · cases hu : unmarshal dec zero body with
      | none => simp [readReply, hs, hu]
      | some w =>
        have hr : 200 ≤ status ∧ status < 300 := by omega
        simp [readReply, hs, hu, hr]

/-! ## Responses -/

inductive Body where
  | empty
  | text (message : String)
  | json (value : Json)
  | forwarded (contentType : String) (body : Option Bytes)
  deriving DecidableEq

structure Response where
  status : ℕ
  body : Body
  deriving DecidableEq

def writeJSONError (status : ℕ) (msg : String) : Response :=
  ⟨status, .json (.obj [("error", .str msg)])⟩

/-- An upstream answer streamed to the client; a transport failure becomes a 502. -/
def forwardResponse : Reply → Response
  | .unreachable => ⟨502, .text "Bad Gateway"⟩
  | .answered status contentType body =>
    ⟨status, .forwarded (if contentType = "" then "application/json" else contentType) body⟩

def proxyGarageRequest {Req : Type} (r : Req) : GarageProg Req Response := do
  let reply ← (Prog.send r : GarageProg Req Reply)
  return forwardResponse reply

/-! ## Request bodies -/

/-- A request body as it arrives: complete, or breaking off with a read error after some bytes. -/
inductive Incoming where
  | complete (body : Bytes)
  | broken (received : Bytes)
  deriving DecidableEq

def Incoming.received : Incoming → Bytes
  | .complete body => body
  | .broken received => received

/-- `readRequestBody`: the body, or the response for one that is over the limit or unreadable. -/
def readRequestBody (limit : ℕ) (incoming : Incoming) : Except Response Bytes :=
  if limit < incoming.received.length then
    .error (writeJSONError 413 ("request body too large (limit " ++ toString limit ++ " bytes)"))
  else match incoming with
    | .broken _ => .error (writeJSONError 400 "request body unreadable")
    | .complete body => .ok body

theorem readRequestBody_error {limit : ℕ} {incoming : Incoming} {response : Response}
    (h : readRequestBody limit incoming = .error response) : response.status = 413 ∨ response.status = 400 := by
  unfold readRequestBody at h
  split_ifs at h
  · obtain rfl := Except.error.inj h
    exact .inl rfl
  · split at h
    · obtain rfl := Except.error.inj h
      exact .inr rfl
    · cases h

theorem readRequestBody_ok {limit : ℕ} {incoming : Incoming} {data : Bytes}
    (h : readRequestBody limit incoming = .ok data) : incoming = .complete data ∧ data.length ≤ limit := by
  unfold readRequestBody at h
  split_ifs at h with hlong
  split at h
  · cases h
  · obtain rfl := Except.ok.inj h
    exact ⟨rfl, Nat.le_of_not_lt hlong⟩

def hexIDPattern (id : String) : Bool :=
  1 ≤ id.length && id.length ≤ 64 &&
    id.toList.all fun c => ('0' ≤ c && c ≤ '9') || ('a' ≤ c && c ≤ 'f') || ('A' ≤ c && c ≤ 'F')

def nodeIDParam (id : String) : Except Response String :=
  if hexIDPattern id ∨ id = "self" then .ok id
  else .error (writeJSONError 400 "invalid node id: must be hex or \"self\"")

end GarageConsole.Garage
