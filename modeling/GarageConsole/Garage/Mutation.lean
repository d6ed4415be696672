import GarageConsole.Garage.Client

/-! # Requests that change Garage

`proxyGarageMutation` sends one request to Garage, drops the cached lists when Garage accepted it and hands
the answer on. `B` is what the request's body is made from.
-/

namespace GarageConsole.Garage

open Foundations Foundations.Calls

set_option autoImplicit false

variable {B : Type}

inductive MutationCall (B : Type) where
  | request (garagePath : String) (body : B)
  | invalidateListCaches

abbrev MutationCall.Ans : MutationCall B → Type
  | .request _ _ => Reply
  | .invalidateListCaches => Unit

abbrev MutationProg (B α : Type) := Prog (MutationCall B) MutationCall.Ans α

abbrev MutationLog (B : Type) := List (Exchange (MutationCall B) MutationCall.Ans)

def accepted : Reply → Bool
  | .unreachable => false
  | .answered status _ _ => 200 ≤ status && status < 300

def proxyGarageMutation (garagePath : String) (body : B) : MutationProg B Response :=
  .call (.request garagePath body) fun reply =>
    if accepted reply then .call .invalidateListCaches fun () => return forwardResponse reply
    else return forwardResponse reply

/-- What a request to Garage leaves in the log. -/
def sent (garagePath : String) (body : B) (reply : Reply) : MutationLog B :=
  ⟨.request garagePath body, reply⟩ :: if accepted reply then [⟨.invalidateListCaches, ()⟩] else []

theorem runs_proxyGarageMutation {garagePath : String} {body : B} {log : MutationLog B} {resp : Response} :
    Runs (proxyGarageMutation garagePath body) log resp ↔
      ∃ reply, log = sent garagePath body reply ∧ resp = forwardResponse reply := by
  unfold proxyGarageMutation sent
  rw [runs_call]
  constructor
  · rintro ⟨reply, rest, rfl, h⟩
    refine ⟨reply, ?_⟩
    split_ifs at h ⊢ with haccepted
    · obtain ⟨⟨⟩, last, rfl, hlast⟩ := runs_call.mp h
      obtain ⟨rfl, rfl⟩ := runs_ret.mp hlast
      exact ⟨rfl, rfl⟩
    · obtain ⟨rfl, rfl⟩ := runs_ret.mp h
      exact ⟨rfl, rfl⟩
  · rintro ⟨reply, rfl, rfl⟩
    refine ⟨reply, _, rfl, ?_⟩
    split_ifs
    · exact .call (.ret _)
    · exact .ret _

end GarageConsole.Garage
