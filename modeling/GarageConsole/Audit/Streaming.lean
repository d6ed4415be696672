import GarageConsole.Foundations.Streams
import GarageConsole.Audit.Detail

/-! # The audit log reads ahead of the handler

`auditDetail` takes the first bytes off the body of a request and puts them back in front of what is left of it,
before the handler reads it. The body is a reader over the connection, with whatever pieces the client sends, and
may break off with an error.
-/

namespace GarageConsole.Audit.Streaming

open Foundations Foundations.Text Foundations.Streams GarageConsole.Garage GarageConsole.Permissions

set_option autoImplicit false

variable {σ : Type}

/-- `r.Body`: none, that of the connection, or the one that `auditDetail` puts in its place. -/
inductive Body (σ : Type) where
  | none
  | original (s : σ)
  | restored (s : Multi Bytes σ)

def Body.incoming : Option σ → Body σ
  | .none => .none
  | some s => .original s

/-- The connection behind a body. -/
def Body.connection : Body σ → Option σ
  | .none => .none
  | .original s => some s
  | .restored s => some s.second

def readBody (r : Reader UInt8 σ) : Reader UInt8 (Body σ)
  | .none, _ => (⟨[], some .eof⟩, .none)
  | .original s, n => ((r s n).1, .original (r s n).2)
  | .restored s, n => ((multiReader listReader r s n).1, .restored (multiReader listReader r s n).2)

/-- `r.Body.Close()`, with its error. -/
def closeBody (close : σ → Option String × σ) : Body σ → Option String × Body σ
  | .none => (.none, .none)
  | .original s => ((close s).1, .original (close s).2)
  | .restored s => ((close s.second).1, .restored { s with second := (close s.second).2 })

structure Request (B : Type) where
  method : String
  path : Bytes
  body : B

def isAuditedRequest {B : Type} (request : Request B) : Bool :=
  (request.method = "POST" || request.method = "PUT" || request.method = "PATCH" || request.method = "DELETE") &&
    !(bytes "/api/auth/").isPrefixOf request.path

/-- The detail, and the body for the handler. -/
def auditDetail (r : Reader UInt8 σ) (room : ℕ → ℕ) (fuel : ℕ) (request : Request (Option σ)) :
    Option (Option Detail × Body σ) :=
  match request.body, extractorFor request.method request.path with
  | some s, some extract =>
    (readAll (limitReader r) room fuel (maxAuditBodyBytes + 1, s)).map fun (buf, err, orig) =>
      let d := extract (buf.take maxAuditBodyBytes) (buf.length ≤ maxAuditBodyBytes)
      (if err.isSome ∨ d = [] then none else some d, .restored ⟨.first, buf, orig.2⟩)
  | body, _ => some (none, .incoming body)

/-- The detail for the audit log, if the request is audited at all, and the request that `next` serves. -/
def accessLog (r : Reader UInt8 σ) (room : ℕ → ℕ) (fuel : ℕ) (request : Request (Option σ)) :
    Option (Option (Option Detail) × Request (Body σ)) :=
  if isAuditedRequest request then
    (auditDetail r room fuel request).map fun (detail, body) => (some detail, ⟨request.method, request.path, body⟩)
  else some (none, ⟨request.method, request.path, .incoming request.body⟩)

/-! ## What a handler gets from a body -/

section Reading

variable {r : Reader UInt8 σ}

theorem gets_none : Gets (readBody r) .none [] .eof :=
  (emptyStream.gets ()).kept (f := fun _ => Body.none) fun _ _ => rfl

theorem gets_original {s : σ} {data : Bytes} {ending : Streams.Ending} (h : Gets r s data ending) :
    Gets (readBody r) (.original s) data ending :=
  h.kept (f := Body.original) fun _ _ => rfl

theorem gets_restored {s : Multi Bytes σ} {data : Bytes} {ending : Streams.Ending}
    (h : Gets (multiReader listReader r) s data ending) : Gets (readBody r) (.restored s) data ending :=
  h.kept (f := Body.restored) fun _ _ => rfl

theorem closeBody_connection (close : σ → Option String × σ) {body : Body σ} {t : σ} (h : body.connection = some t) :
    (closeBody close body).1 = (close t).1 ∧ (closeBody close body).2.connection = some (close t).2 := by
  cases body with
  | none => cases h
  | original s =>
    cases h
    exact ⟨rfl, rfl⟩
  | restored s =>
    cases h
    exact ⟨rfl, rfl⟩

theorem connection_reads {s t : σ} {body : Body σ} (hbody : body.connection = some t) (h : Reached r s t)
    (sizes : List ℕ) : ∃ u, (reads (readBody r) body sizes).2.connection = some u ∧ Reached r s u := by
  cases body with
  | none => cases hbody
  | original t' =>
    cases hbody
    rw [reads_kept (f := Body.original) (r := r) fun _ _ => rfl]
    exact ⟨_, rfl, h.reads sizes⟩
  | restored m =>
    cases hbody
    rw [reads_kept (f := Body.restored) (r := multiReader listReader r) fun _ _ => rfl]
    exact ⟨_, rfl, reached_second listReader h sizes⟩

end Reading

/-! ## The request goes on undisturbed -/

/-- A body as it arrives, by its bytes and its ending. -/
def arrived (data : Bytes) : Streams.Ending → Incoming
  | .eof => .complete data
  | .failed _ => .broken data

theorem readLimited_arrived {r : Reader UInt8 σ} {stream : Stream r} {s : σ} {limit : ℕ} {buf : Bytes} {t : ℕ × σ}
    {err : Option String} (htaken : Taken stream s limit buf t)
    (hend : err = none ∧ buf.length = limit ∨ err = (stream.ending s).message ∧ stream.rest t.2 = [])
    (hlength : stream.ending s ≠ .eof → (stream.rest s).length ≠ limit) :
    readLimited limit (arrived (stream.rest s) (stream.ending s)) = if err.isSome then none else some buf := by
  have hbuf := htaken.data_eq (hend.imp And.right And.right)
  have hrest := congrArg List.length htaken.rest_eq
  have hle := htaken.length_eq
  rw [List.length_append] at hrest
  cases hending : stream.ending s with
  | eof =>
    have herr : err = none := by
      rcases hend with ⟨herr, -⟩ | ⟨herr, -⟩
      · exact herr
      · rw [herr, hending]
        rfl
    rw [herr, hbuf]
    rfl
  | failed message =>
    have hne := hlength (by rw [hending]; exact fun h => nomatch h)
    rcases hend with ⟨rfl, hlen⟩ | ⟨herr, hnil⟩
    · rw [hbuf, arrived, readLimited, if_neg (by omega)]
      rfl
    · rw [hnil, List.length_nil] at hrest
      rw [herr, hending, arrived, readLimited, if_pos (by omega)]
      rfl

/-- The body for the handler is as good as the one that came in: whatever sizes the handler asks for it gets the
same bytes and the same ending, and whenever it closes it, the connection is what is closed. -/
structure Undisturbed (r : Reader UInt8 σ) (close : σ → Option String × σ) (before : Option σ) (body : Body σ) :
    Prop where
  gets : ∃ data ending, Gets (readBody r) (.incoming before) data ending ∧ Gets (readBody r) body data ending
  closes : ∀ s, before = some s → ∀ sizes, ∃ t, Reached r s t ∧
    (closeBody close (reads (readBody r) body sizes).2).1 = (close t).1 ∧
    (closeBody close (reads (readBody r) body sizes).2).2.connection = some (close t).2
  absent : before = none → body = .none

section Results

variable {r : Reader UInt8 σ} (stream : Stream r) (close : σ → Option String × σ)

include stream

theorem undisturbed_incoming (before : Option σ) : Undisturbed r close before (.incoming before) where
  gets := by
    cases before with
    | none => exact ⟨[], .eof, gets_none, gets_none⟩
    | some s => exact ⟨_, _, gets_original (stream.gets s), gets_original (stream.gets s)⟩
  closes s hs sizes := by
    subst hs
    obtain ⟨t, ht, hreached⟩ := connection_reads (show (Body.original s).connection = some s from rfl) (.refl r s) sizes
    exact ⟨t, hreached, closeBody_connection close ht⟩
  absent h := by rw [h]; rfl

theorem undisturbed_restored {s : σ} {limit : ℕ} {data : Bytes} {t : ℕ × σ} (h : Taken stream s limit data t) :
    Undisturbed r close (some s) (.restored ⟨.first, data, t.2⟩) where
  gets := ⟨_, _, gets_original (stream.gets s), gets_restored (stream.gets_restored h)⟩
  closes s' hs sizes := by
    cases hs
    have hbody : (Body.restored ⟨.first, data, t.2⟩ : Body σ).connection = some t.2 := rfl
    obtain ⟨u, hu, hreached⟩ := connection_reads hbody h.reached sizes
    exact ⟨u, hreached, closeBody_connection close hu⟩
  absent h := nomatch h

variable (room : ℕ → ℕ)

/-- What `auditDetail` does with a body that an extractor is there for. -/
theorem auditDetail_extract {request : Request (Option σ)} {s : σ} {extract : Extractor} (hbody : request.body = some s)
    (hextract : extractorFor request.method request.path = some extract) :
    ∃ enough, ∀ fuel, enough ≤ fuel → ∃ buf err t,
      auditDetail r room fuel request = some
        (if err.isSome ∨ extract (buf.take maxAuditBodyBytes) (buf.length ≤ maxAuditBodyBytes) = [] then none
          else some (extract (buf.take maxAuditBodyBytes) (buf.length ≤ maxAuditBodyBytes)),
          .restored ⟨.first, buf, t.2⟩) ∧
      Taken stream s (maxAuditBodyBytes + 1) buf t ∧
      (err = none ∧ buf.length = maxAuditBodyBytes + 1 ∨ err = (stream.ending s).message ∧ stream.rest t.2 = []) := by
  obtain ⟨enough, henough⟩ := stream.readAll_limit room (maxAuditBodyBytes + 1) s
  refine ⟨enough, fun fuel hfuel => ?_⟩
  obtain ⟨buf, err, t, hread, htaken, hend⟩ := henough fuel hfuel
  exact ⟨buf, err, t, by rw [auditDetail, hbody, hextract]; dsimp only; rw [hread]; rfl, htaken, hend⟩

theorem auditDetail_undisturbed (request : Request (Option σ)) : ∃ enough, ∀ fuel, enough ≤ fuel → ∃ detail body,
    auditDetail r room fuel request = some (detail, body) ∧ Undisturbed r close request.body body := by
  cases hbody : request.body with
  | none =>
    refine ⟨0, fun fuel _ => ⟨none, .none, by rw [auditDetail, hbody]; rfl, ?_⟩⟩
    exact undisturbed_incoming stream close none
  | some s =>
    cases hextract : extractorFor request.method request.path with
    | none =>
      refine ⟨0, fun fuel _ => ⟨none, .original s, by rw [auditDetail, hbody, hextract]; rfl, ?_⟩⟩
      exact undisturbed_incoming stream close (some s)
    | some extract =>
      obtain ⟨enough, henough⟩ := auditDetail_extract stream room hbody hextract
      refine ⟨enough, fun fuel hfuel => ?_⟩
      obtain ⟨buf, err, t, hdetail, htaken, -⟩ := henough fuel hfuel
      exact ⟨_, _, hdetail, undisturbed_restored stream close htaken⟩

/-- The detail is that of the bytes that arrive. Only where the connection fails right at the limit does it depend on
the pieces. -/
theorem auditDetail_arrived {request : Request (Option σ)} {s : σ} (hbody : request.body = some s)
    (hlength : stream.ending s ≠ .eof → (stream.rest s).length ≠ maxAuditBodyBytes + 1) :
    ∃ enough, ∀ fuel, enough ≤ fuel → ∃ body, auditDetail r room fuel request =
      some (Audit.auditDetail request.method request.path (arrived (stream.rest s) (stream.ending s)), body) := by
  cases hextract : extractorFor request.method request.path with
  | none =>
    refine ⟨0, fun fuel _ => ⟨.original s, ?_⟩⟩
    rw [auditDetail, hbody, hextract, Audit.auditDetail, hextract]
    rfl
  | some extract =>
    obtain ⟨enough, henough⟩ := auditDetail_extract stream room hbody hextract
    refine ⟨enough, fun fuel hfuel => ?_⟩
    obtain ⟨buf, err, t, hdetail, htaken, hend⟩ := henough fuel hfuel
    refine ⟨.restored ⟨.first, buf, t.2⟩, ?_⟩
    rw [hdetail, Audit.auditDetail, hextract, readLimited_arrived htaken hend hlength]
    cases err with
    | none => simp
    | some message => rfl

/-- For every body, in whatever pieces it comes and however it ends, and for every route: the middleware comes to
an end, and the handler then gets the bytes and the ending that it would have got without it. -/
theorem handler_undisturbed (request : Request (Option σ)) : ∃ enough, ∀ fuel, enough ≤ fuel →
    (∃ detail body, auditDetail r room fuel request = some (detail, body) ∧ Undisturbed r close request.body body) ∧
    ∃ audit next, accessLog r room fuel request = some (audit, next) ∧ next.method = request.method ∧
      next.path = request.path ∧ Undisturbed r close request.body next.body := by
  obtain ⟨enough, henough⟩ := auditDetail_undisturbed stream close room request
  refine ⟨enough, fun fuel hfuel => ?_⟩
  obtain ⟨detail, body, hdetail, hundisturbed⟩ := henough fuel hfuel
  refine ⟨⟨detail, body, hdetail, hundisturbed⟩, ?_⟩
  rw [accessLog]
  split_ifs
  · exact ⟨some detail, ⟨_, _, body⟩, by rw [hdetail]; rfl, rfl, rfl, hundisturbed⟩
  · exact ⟨none, ⟨_, _, _⟩, rfl, rfl, rfl, undisturbed_incoming stream close request.body⟩

end Results

/-- The start of a body that the connection breaks off after two pieces. -/
def brokenOff : List Bytes × Streams.Ending :=
  ([bytes "\x7b\"read\":true,", [], bytes "\"wri"], .failed "unexpected EOF")

theorem handler_undisturbed_brokenOff
    (close : List Bytes × Streams.Ending → Option String × (List Bytes × Streams.Ending)) :
    ∃ enough, ∀ fuel, enough ≤ fuel → ∃ audit next,
      accessLog pieceReader (fun _ => 511) fuel ⟨"PUT", bytes "/api/buckets/ab/keys/GK1", some brokenOff⟩ =
        some (audit, next) ∧ Undisturbed pieceReader close (some brokenOff) next.body := by
  obtain ⟨enough, henough⟩ := handler_undisturbed pieceStream close (fun _ => 511)
    ⟨"PUT", bytes "/api/buckets/ab/keys/GK1", some brokenOff⟩
  refine ⟨enough, fun fuel hfuel => ?_⟩
  obtain ⟨-, audit, next, haudit, -, -, hundisturbed⟩ := henough fuel hfuel
  exact ⟨audit, next, haudit, hundisturbed⟩

end GarageConsole.Audit.Streaming
