import GarageConsole.Sessions.Model

/-! # When the refreshed cookie is added

Behind `authMiddleware` the handler of a session that is due has a writer that refreshes the session just before the
headers of the response go out, or when the handler has returned. A handler that has set the session cookie by then
keeps its own. What reaches the writer below is listed in order, the handler's calls and the cookie that is added.
-/

namespace GarageConsole.Sessions

open Foundations Foundations.Text

set_option autoImplicit false

def sessionName : String := "garage-admin-session"

/-- What a handler does with its writer. Of the header only the values of `Set-Cookie` matter; an edit may change them
in any way. -/
inductive WriterCall where
  | header (edit : List Bytes → List Bytes)
  | writeHeader (code : ℕ)
  | write (b : Bytes)
  | flush

/-- `WriteHeader`, `Write` or `Flush`: the headers go out, if they have not before. -/
def WriterCall.sends : WriterCall → Bool
  | .header _ => false
  | _ => true

/-- What is done to the writer below. -/
inductive Below where
  | call (c : WriterCall)
  | addCookie (value : Bytes)

def Below.sends : Below → Bool
  | .call c => c.sends
  | .addCookie _ => false

def Below.isCall : Below → Bool
  | .call _ => true
  | .addCookie _ => false

def Below.edit : Below → List Bytes → List Bytes
  | .call (.header edit), values => edit values
  | .call _, values => values
  | .addCookie value, values => values ++ [value]

/-- The values of `Set-Cookie` after these were done, from those that were there when the handler was called. -/
def setCookieValues (start : List Bytes) (below : List Below) : List Bytes :=
  below.foldl (fun values b => b.edit values) start

def hasSessionSetCookie (values : List Bytes) : Bool :=
  values.any fun v => (bytes (sessionName ++ "=")).isPrefixOf v

structure SessionRefreshWriter where
  below : List Below := []
  done : Bool := false

section Writer

-- `saved` is the cookie that `Save` adds, none if it fails; `flusher` says whether the writer below can flush
variable (start : List Bytes) (flusher : Bool) (saved : Option Bytes)

def SessionRefreshWriter.refresh (sw : SessionRefreshWriter) : SessionRefreshWriter :=
  if sw.done then sw
  else if hasSessionSetCookie (setCookieValues start sw.below) then { sw with done := true }
  else { below := sw.below ++ (saved.map Below.addCookie).toList, done := true }

def SessionRefreshWriter.pass (sw : SessionRefreshWriter) (c : WriterCall) : SessionRefreshWriter :=
  { sw with below := sw.below ++ [.call c] }

def SessionRefreshWriter.call (sw : SessionRefreshWriter) : WriterCall → SessionRefreshWriter
  | .header edit => sw.pass (.header edit)
  | .writeHeader code => (sw.refresh start saved).pass (.writeHeader code)
  | .write b => (sw.refresh start saved).pass (.write b)
  | .flush => if flusher then (sw.refresh start saved).pass .flush else sw.refresh start saved

/-- The handler's calls, and the refresh after it has returned. -/
def served (calls : List WriterCall) : List Below :=
  ((calls.foldl (SessionRefreshWriter.call start flusher saved) {}).refresh start saved).below

end Writer

/-! ## What is done below -/

/-- A handler has set the session cookie. -/
def SetsSession (values : List Bytes) : Prop := ∃ v ∈ values, bytes (sessionName ++ "=") <+: v

theorem hasSessionSetCookie_iff {values : List Bytes} : hasSessionSetCookie values = true ↔ SetsSession values := by
  simp only [hasSessionSetCookie, List.any_eq_true, List.isPrefixOf_iff_prefix, SetsSession]

/-- What a call of the handler is below: nothing for a flush that the writer below does not know. -/
def passed (flusher : Bool) : WriterCall → List Below
  | .flush => if flusher then [.call .flush] else []
  | c => [.call c]

/-- The calls up to the first one that sends the headers. -/
def editsFirst (calls : List WriterCall) : List WriterCall := calls.takeWhile fun c => !c.sends

/-- The values of `Set-Cookie` when the headers are about to go out. -/
def atFirst (start : List Bytes) (calls : List WriterCall) : List Bytes :=
  setCookieValues start ((editsFirst calls).map .call)

/-- The cookie that is added to these values. -/
def refreshed (saved : Option Bytes) (values : List Bytes) : List Below :=
  if hasSessionSetCookie values then [] else (saved.map Below.addCookie).toList

section Results

variable {start : List Bytes} {flusher : Bool} {saved : Option Bytes}

theorem refresh_of_done {sw : SessionRefreshWriter} (h : sw.done = true) : sw.refresh start saved = sw := if_pos h

theorem refresh_of_not_done {below : List Below} : SessionRefreshWriter.refresh start saved ⟨below, false⟩ =
    ⟨below ++ refreshed saved (setCookieValues start below), true⟩ := by
  rw [SessionRefreshWriter.refresh, if_neg Bool.false_ne_true, refreshed]
  split
  · rw [List.append_nil]
  · rfl

theorem call_eq (sw : SessionRefreshWriter) {c : WriterCall} (hc : c.sends = true) :
    sw.call start flusher saved c =
      { sw.refresh start saved with below := (sw.refresh start saved).below ++ passed flusher c } := by
  cases c with
  | header edit => cases hc
  | writeHeader code => rfl
  | write b => rfl
  | flush =>
    rw [SessionRefreshWriter.call, passed]
    split
    · rfl
    · rw [List.append_nil]

/-- After the refresh the calls are passed on. -/
theorem calls_of_done (calls : List WriterCall) (below : List Below) :
    calls.foldl (SessionRefreshWriter.call start flusher saved) ⟨below, true⟩ =
      ⟨below ++ calls.flatMap (passed flusher), true⟩ := by
  induction calls generalizing below with
  | nil => rw [List.flatMap_nil, List.append_nil, List.foldl_nil]
  | cons c calls ih =>
    have hcall : SessionRefreshWriter.call start flusher saved ⟨below, true⟩ c = ⟨below ++ passed flusher c, true⟩ := by
      cases c with
      | header edit => rfl
      | _ => rw [call_eq _ rfl, refresh_of_done rfl]
    rw [List.foldl_cons, hcall, ih, List.flatMap_cons, List.append_assoc]

theorem edits_passed (calls : List WriterCall) (below : List Below) :
    (editsFirst calls).foldl (SessionRefreshWriter.call start flusher saved) ⟨below, false⟩ =
      ⟨below ++ (editsFirst calls).map .call, false⟩ := by
  induction calls generalizing below with
  | nil => rw [editsFirst, List.takeWhile_nil, List.map_nil, List.append_nil, List.foldl_nil]
  | cons c calls ih =>
    cases c with
    | header edit =>
      rw [show editsFirst (.header edit :: calls) = .header edit :: editsFirst calls from rfl, List.foldl_cons,
        List.map_cons, List.append_cons, ← ih]
      rfl
    | _ => rw [editsFirst, List.takeWhile_cons_of_neg (by simp [WriterCall.sends]), List.map_nil, List.append_nil,
        List.foldl_nil]

/-- The handler's calls, with the refresh in front of the first that sends the headers, or at the end. -/
theorem served_eq (calls : List WriterCall) : served start flusher saved calls =
    (editsFirst calls).map .call ++ refreshed saved (atFirst start calls) ++
      (calls.dropWhile fun c => !c.sends).flatMap (passed flusher) := by
  have hsplit : calls = editsFirst calls ++ calls.dropWhile fun c => !c.sends := List.takeWhile_append_dropWhile.symm
  have hedits : (editsFirst calls).foldl (SessionRefreshWriter.call start flusher saved) {} =
      ⟨(editsFirst calls).map .call, false⟩ := edits_passed calls []
  have hrun : calls.foldl (SessionRefreshWriter.call start flusher saved) {} =
      (calls.dropWhile fun c => !c.sends).foldl (SessionRefreshWriter.call start flusher saved)
        ⟨(editsFirst calls).map .call, false⟩ := by
    conv_lhs => rw [hsplit, List.foldl_append, hedits]
  rw [served, hrun]
  cases hrest : calls.dropWhile fun c => !c.sends with
  | nil =>
    rw [List.foldl_nil, refresh_of_not_done, List.flatMap_nil, List.append_nil]
    rfl
  | cons c rest =>
    have hsends : c.sends = true := by
      have hne : (calls.dropWhile fun c => !c.sends) ≠ [] := by rw [hrest]; exact List.cons_ne_nil c rest
      simpa [hrest] using List.head_dropWhile_not (fun c : WriterCall => !c.sends) hne
    rw [List.foldl_cons, call_eq _ hsends, refresh_of_not_done, calls_of_done, refresh_of_done rfl, List.flatMap_cons,
      List.append_assoc _ (passed flusher c)]
    rfl

theorem isCall_of_mem_passed {c : WriterCall} {b : Below} (h : b ∈ passed flusher c) : b.isCall = true := by
  cases c with
  | flush =>
    rw [passed] at h
    split at h
    · rw [List.mem_singleton.mp h]
      rfl
    · exact absurd h List.not_mem_nil
  | _ =>
    rw [List.mem_singleton.mp h]
    rfl

theorem sends_of_mem_editsFirst {calls : List WriterCall} {c : WriterCall} (h : c ∈ editsFirst calls) :
    c.sends = false := by
  have hedit := List.mem_takeWhile_imp h
  rwa [Bool.not_eq_true'] at hedit

theorem passed_edits (calls : List WriterCall) :
    (editsFirst calls).flatMap (passed flusher) = (editsFirst calls).map .call := by
  rw [List.map_eq_flatMap]
  refine List.flatMap_congr fun c hc => ?_
  cases c with
  | header edit => rfl
  | _ => cases sends_of_mem_editsFirst hc

theorem isCall_of_mem_edits {calls : List WriterCall} {b : Below} (h : b ∈ (editsFirst calls).map Below.call) :
    b.isCall = true := by
  obtain ⟨c, -, rfl⟩ := List.mem_map.mp h
  rfl

theorem isCall_of_mem_rest {calls : List WriterCall} {b : Below} (h : b ∈ calls.flatMap (passed flusher)) :
    b.isCall = true := by
  obtain ⟨c, -, hb⟩ := List.mem_flatMap.mp h
  exact isCall_of_mem_passed hb

theorem mem_refreshed {values : List Bytes} {b : Below} : b ∈ refreshed saved values ↔
    ∃ value, b = .addCookie value ∧ saved = some value ∧ ¬SetsSession values := by
  rw [refreshed, ← hasSessionSetCookie_iff]
  split
  · rename_i hset
    simp [hset]
  · rename_i hset
    simp [hset, eq_comm, and_comm]

/-- The handler's calls reach the writer below as they are. -/
theorem filter_isCall_served (calls : List WriterCall) :
    (served start flusher saved calls).filter Below.isCall = calls.flatMap (passed flusher) := by
  have hnone : (refreshed saved (atFirst start calls)).filter Below.isCall = [] := by
    rw [List.filter_eq_nil_iff]
    intro b hb
    obtain ⟨value, rfl, -⟩ := mem_refreshed.mp hb
    exact Bool.false_ne_true
  rw [served_eq, List.filter_append, List.filter_append, hnone, List.append_nil,
    List.filter_eq_self.mpr fun b hb => isCall_of_mem_edits hb,
    List.filter_eq_self.mpr fun b hb => isCall_of_mem_rest hb, ← passed_edits, ← List.flatMap_append, editsFirst,
    List.takeWhile_append_dropWhile]

/-- The cookie is all that is added. -/
theorem filter_added_served (calls : List WriterCall) :
    (served start flusher saved calls).filter (fun b => !b.isCall) = refreshed saved (atFirst start calls) := by
  have hcalls : ∀ {b : Below}, b.isCall = true → ¬(!b.isCall) = true := fun h => by rw [h]; exact Bool.false_ne_true
  have hadded : ∀ b ∈ refreshed saved (atFirst start calls), (!b.isCall) = true := by
    intro b hb
    obtain ⟨value, rfl, -⟩ := mem_refreshed.mp hb
    rfl
  rw [served_eq, List.filter_append, List.filter_append,
    List.filter_eq_nil_iff.mpr fun b hb => hcalls (isCall_of_mem_edits hb),
    List.filter_eq_nil_iff.mpr fun b hb => hcalls (isCall_of_mem_rest hb), List.filter_eq_self.mpr hadded,
    List.nil_append, List.append_nil]

theorem length_refreshed_le (values : List Bytes) : (refreshed saved values).length ≤ 1 := by
  rw [refreshed]
  split
  · exact Nat.zero_le 1
  · cases saved <;> simp

theorem mem_served {calls : List WriterCall} {value : Bytes} : .addCookie value ∈ served start flusher saved calls ↔
    saved = some value ∧ ¬SetsSession (atFirst start calls) := by
  rw [served_eq, List.mem_append, List.mem_append, mem_refreshed]
  constructor
  · rintro ((h | ⟨_, heq, h⟩) | h)
    · exact absurd (isCall_of_mem_edits h) Bool.false_ne_true
    · cases heq
      exact h
    · exact absurd (isCall_of_mem_rest h) Bool.false_ne_true
  · exact fun h => .inl (.inr ⟨value, rfl, h⟩)

/-- What comes before the cookie that is added. -/
theorem before_cookie {calls : List WriterCall} {before after : List Below} {value : Bytes}
    (h : served start flusher saved calls = before ++ .addCookie value :: after) :
    before = (editsFirst calls).map .call ∧ after = (calls.dropWhile fun c => !c.sends).flatMap (passed flusher) := by
  have hmem : .addCookie value ∈ served start flusher saved calls := by rw [h]; simp
  obtain ⟨hsaved, hset⟩ := mem_served.mp hmem
  have hcookie : refreshed saved (atFirst start calls) = [.addCookie value] := by
    rw [refreshed, if_neg (fun hhas => hset (hasSessionSetCookie_iff.mp hhas)), hsaved]
    rfl
  rw [served_eq, hcookie, List.append_assoc, List.singleton_append] at h
  have hedits : Below.addCookie value ∉ (editsFirst calls).map Below.call := fun hmem =>
    absurd (isCall_of_mem_edits hmem) Bool.false_ne_true
  have hrest : Below.addCookie value ∉ (calls.dropWhile fun c => !c.sends).flatMap (passed flusher) := fun hmem =>
    absurd (isCall_of_mem_rest hmem) Bool.false_ne_true
  obtain ⟨hbefore, -, hafter⟩ := (List.append_cons_inj_of_notMem hedits hrest).mp h
  exact ⟨hbefore.symm, hafter.symm⟩

/-- Whatever the handler does with its writer, at most one cookie is added, before the headers go out and not after a
session cookie of the handler; it is the one that could be saved, and it is added if and only if there is one and the
handler had not set the session cookie when the headers were about to go out. The handler's own calls reach the writer
below as they are. -/
theorem handler_has_last_word (start : List Bytes) (flusher : Bool) (saved : Option Bytes) (calls : List WriterCall) :
    ((served start flusher saved calls).filter fun b => !b.isCall).length ≤ 1 ∧
      (∀ before value after, served start flusher saved calls = before ++ .addCookie value :: after →
        (∀ b ∈ before, b.sends = false) ∧ ¬SetsSession (setCookieValues start before)) ∧
      (∀ value, .addCookie value ∈ served start flusher saved calls ↔
        saved = some value ∧ ¬SetsSession (atFirst start calls)) ∧
      (served start flusher saved calls).filter Below.isCall = calls.flatMap (passed flusher) := by
  refine ⟨?_, fun before value after h => ?_, fun value => mem_served, filter_isCall_served calls⟩
  · rw [filter_added_served]
    exact length_refreshed_le _
  · have hset := (mem_served.mp (show .addCookie value ∈ served start flusher saved calls by rw [h]; simp)).2
    obtain ⟨rfl, -⟩ := before_cookie h
    refine ⟨fun b hb => ?_, hset⟩
    obtain ⟨c, hc, rfl⟩ := List.mem_map.mp hb
    exact sends_of_mem_editsFirst hc

end Results

/-! ## The cookies that go out -/

/-- The headers go out with this, and not only those of an informational response. -/
def Below.answers : Below → Bool
  | .call (.writeHeader code) => !(100 ≤ code && code ≤ 199 && code ≠ 101)
  | b => b.sends

/-- The values of `Set-Cookie` in the response. -/
def goneOut : List Bytes → List Below → List Bytes
  | values, [] => values
  | values, b :: rest => if b.answers then values else goneOut (b.edit values) rest

theorem goneOut_append {done : List Below} (h : ∀ b ∈ done, b.answers = false) (values : List Bytes)
    (rest : List Below) : goneOut values (done ++ rest) = goneOut (setCookieValues values done) rest := by
  induction done generalizing values with
  | nil => rfl
  | cons b done ih =>
    rw [List.cons_append, goneOut, if_neg (by rw [h b List.mem_cons_self]; exact Bool.false_ne_true),
      ih (fun b' hb' => h b' (List.mem_cons_of_mem b hb'))]
    rfl

/-- The response has the values that were there when the headers were about to go out, and the cookie that is added. -/
theorem goneOut_served (start : List Bytes) (flusher : Bool) (saved : Option Bytes) (calls : List WriterCall) :
    goneOut start (served start flusher saved calls) =
      goneOut (setCookieValues (atFirst start calls) (refreshed saved (atFirst start calls)))
        ((calls.dropWhile fun c => !c.sends).flatMap (passed flusher)) := by
  have hquiet : ∀ b ∈ (editsFirst calls).map Below.call ++ refreshed saved (atFirst start calls),
      b.answers = false := by
    intro b hb
    rcases List.mem_append.mp hb with hb | hb
    · obtain ⟨c, hc, rfl⟩ := List.mem_map.mp hb
      cases c with
      | header edit => rfl
      | _ => cases sends_of_mem_editsFirst hc
    · obtain ⟨value, rfl, -⟩ := mem_refreshed.mp hb
      rfl
  rw [served_eq, goneOut_append hquiet, setCookieValues, List.foldl_append]
  rfl

section Cookies

-- the value of a cookie and its attributes, as they are written
variable (encoded : SetCookie → Bytes)

def cookieText (c : SetCookie) : Bytes := bytes (sessionName ++ "=") ++ encoded c

/-- A handler that sets these cookies and answers with this status. -/
def handlerCalls (response : Response) : List WriterCall :=
  response.setCookies.map (fun c => .header (· ++ [cookieText encoded c])) ++ [.writeHeader response.status]

theorem editsFirst_handlerCalls (response : Response) : editsFirst (handlerCalls encoded response) =
    response.setCookies.map fun c => .header (· ++ [cookieText encoded c]) := by
  rw [editsFirst, handlerCalls, List.takeWhile_append_of_pos, List.takeWhile_cons_of_neg, List.append_nil]
  · exact Bool.false_ne_true
  · intro c hc
    obtain ⟨cookie, -, rfl⟩ := List.mem_map.mp hc
    rfl

theorem setCookieValues_handlerCalls (cookies : List SetCookie) (values : List Bytes) :
    setCookieValues values (cookies.map fun c => .call (.header (· ++ [cookieText encoded c]))) =
      values ++ cookies.map (cookieText encoded) := by
  induction cookies generalizing values with
  | nil => rw [List.map_nil, List.map_nil, List.append_nil]; rfl
  | cons c cookies ih =>
    rw [List.map_cons, List.map_cons, List.append_cons, ← ih]
    rfl

theorem atFirst_handlerCalls (response : Response) :
    atFirst [] (handlerCalls encoded response) = response.setCookies.map (cookieText encoded) := by
  rw [atFirst, editsFirst_handlerCalls, List.map_map]
  exact setCookieValues_handlerCalls encoded response.setCookies []

theorem dropWhile_handlerCalls (response : Response) :
    (handlerCalls encoded response).dropWhile (fun c => !c.sends) = [.writeHeader response.status] := by
  rw [handlerCalls, List.dropWhile_append_of_pos]
  · rfl
  · intro c hc
    obtain ⟨cookie, -, rfl⟩ := List.mem_map.mp hc
    rfl

theorem setsSession_cookies {cookies : List SetCookie} :
    SetsSession (cookies.map (cookieText encoded)) ↔ cookies ≠ [] := by
  cases cookies with
  | nil => simp [SetsSession]
  | cons c cookies => exact ⟨fun _ => List.cons_ne_nil c cookies, fun _ => ⟨_, List.mem_cons_self, _, rfl⟩⟩

variable {encoded}

theorem goneOut_writeHeader (values : List Bytes) (code : ℕ) : goneOut values [.call (.writeHeader code)] = values := by
  rw [goneOut]
  split
  · rfl
  · rfl

/-- The response goes out with the cookies that `refresh` gives it. -/
theorem goneOut_refresh (encodes : SessionValues → Bool) (flusher : Bool) (sess : SessionValues)
    (response : Response) :
    goneOut [] (served [] flusher ((save encodes sess false).map (cookieText encoded))
        (handlerCalls encoded response)) =
      (refresh encodes sess response).setCookies.map (cookieText encoded) := by
  have hhas : hasSessionSetCookie (response.setCookies.map (cookieText encoded)) = true ↔
      response.setCookies ≠ [] := hasSessionSetCookie_iff.trans (setsSession_cookies encoded)
  rw [goneOut_served, dropWhile_handlerCalls, atFirst_handlerCalls, List.flatMap_singleton, refreshed, refresh]
  refine (goneOut_writeHeader _ response.status).trans ?_
  by_cases hset : response.setCookies ≠ []
  · rw [if_pos (hhas.mpr hset), if_pos hset]
    rfl
  · rw [if_neg fun h => hset (hhas.mp h), if_neg hset, not_not.mp hset]
    cases save encodes sess false <;> rfl

end Cookies

/-! ## A session that cannot be saved

`Save` is gorilla's: the values are written with `encoding/gob`, encrypted and signed, and a text of more than 4096
bytes is refused. How long the text is depends on the values alone.
-/

/-- An unsigned number of gob: one byte up to 127, else a byte for the count and the bytes of the number. -/
def gobUint (n : ℕ) : ℕ :=
  if n ≤ 0x7F then 1 else n.log2 / 8 + 2

/-- The sign of a gob number is its lowest bit. -/
def gobInt (i : ℤ) : ℕ :=
  gobUint (if 0 ≤ i then 2 * i else -2 * i - 1).toNat

/-- A value of so many bytes held in an interface: the name of its type and the type's number, then how much follows,
and the value after a zero byte. -/
def gobInterface (typeName : String) (n : ℕ) : ℕ :=
  1 + (bytes typeName).length + 1 + gobUint (1 + n) + (1 + n)

def gobText (text : Bytes) : ℕ := gobInterface "string" (gobUint text.length + text.length)

def gobTime (time : ℤ) : ℕ := gobInterface "int64" (gobInt time)

def gobEntries (values : SessionValues) : List ℕ :=
  let key (name : String) := gobText (bytes name)
  (values.state.map fun v => key "oauth_state" + gobText (bytes v)).toList ++
    (values.username.map fun v => key "username" + gobText (bytes v)).toList ++
    (values.avatar.map fun v => key "avatar_url" + gobText (bytes v)).toList ++
    (values.next.map fun v => key "login_next" + gobText v).toList ++
    (values.issuedAt.map fun v => key "issued_at" + gobTime v).toList ++
    (values.refreshedAt.map fun v => key "refreshed_at" + gobTime v).toList

/-- The map of the values: the definition of its type, then its type, a zero byte, how many there are and the values. -/
def gobLength (values : SessionValues) : ℕ :=
  let body := 2 + 1 + gobUint (gobEntries values).length + (gobEntries values).sum
  14 + gobUint body + body

def base64Length (n : ℕ) : ℕ := 4 * ((n + 2) / 3)

/-- The values behind the sixteen bytes that encryption starts from; then the date in ten digits, the values and the
signature, with a bar after each of the first two. -/
def cookieLength (values : SessionValues) : ℕ :=
  base64Length (10 + 1 + base64Length (16 + gobLength values) + 1 + 32)

def fitsCookie (values : SessionValues) : Bool := cookieLength values ≤ 4096

/-- A session from before there were times in it. -/
def untimedSession (avatar : String) : SessionValues :=
  { username := some "octocat", avatar := some avatar }

/-- It fits as it is and no longer does with the times. -/
theorem untimedSession_fits {avatar : String} (h : (bytes avatar).length = 2140) :
    fitsCookie (untimedSession avatar) = true ∧
      fitsCookie { untimedSession avatar with issuedAt := some 1700000000, refreshedAt := some 1700000000 } =
        false := by
  simp only [fitsCookie, cookieLength, gobLength, gobEntries, untimedSession, gobText, h, Option.map_none,
    Option.map_some, Option.toList_none, Option.toList_some, List.append_nil, List.nil_append]
  decide +kernel

/-- It is due. -/
theorem checkSession_untimed (avatar : String) :
    checkSession (.decoded (untimedSession avatar)) (1700000000 * second) =
      .accepted { untimedSession avatar with issuedAt := some 1700000000, refreshedAt := some 1700000000 } true := by
  rfl

def avatarHost : String := "https://avatars.example/u/"

theorem length_avatar (n : ℕ) :
    (bytes (String.ofList (avatarHost.toList ++ List.replicate n '7'))).length = 26 + n := by
  have hhost : (bytes avatarHost).length = 26 := by decide +kernel
  have hseven : String.utf8EncodeChar '7' = [0x37] := by decide +kernel
  rw [bytes, String.toList_ofList, List.flatMap_append, List.length_append, ← bytes, hhost,
    List.flatMap_replicate, hseven, List.flatten_replicate_singleton, List.length_replicate]

/-- Its avatar's address has 2140 bytes. -/
def fullSession : SessionValues :=
  untimedSession (String.ofList (avatarHost.toList ++ List.replicate 2114 '7'))

/-- The handler does nothing, and no cookie is added. -/
theorem full_session_not_refreshed : fitsCookie fullSession = true ∧ ∃ sess,
    checkSession (.decoded fullSession) (1700000000 * second) = .accepted sess true ∧
      ¬∀ calls : List WriterCall, (∃ value, .addCookie value ∈
        served [] true ((save fitsCookie sess false).map (cookieText fun _ => [])) calls) ↔
          ¬SetsSession (atFirst [] calls) := by
  obtain ⟨hfits, hnot⟩ := untimedSession_fits (length_avatar 2114)
  refine ⟨hfits, _, checkSession_untimed _, ?_⟩
  intro h
  obtain ⟨value, hvalue⟩ := (h []).mpr fun ⟨v, hv, _⟩ => absurd hv List.not_mem_nil
  rw [save, hnot] at hvalue
  cases (mem_served.mp hvalue).1

end GarageConsole.Sessions
