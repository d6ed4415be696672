import GarageConsole.Foundations.Histories
import GarageConsole.Sessions.Model

/-! # Where a session comes from

A run is what the server answered, request by request, to clients that present any cookie set before.
Every cookie with a user descends from a callback that matched the state and found the user an active
member of the team, and its times are in order.
-/

namespace GarageConsole.Sessions

open Foundations Foundations.Calls Foundations.Histories GarageConsole.Garage

set_option autoImplicit false

variable {encodes : SessionValues → Bool}

/-! ## What one request issues -/

/-- The values were issued anew: same user, same login. -/
structure Reissued (old : SessionValues) (clock : ℤ) (new : SessionValues) : Prop where
  username : new.username = old.username
  issuedAt : old.issuedAt.isSome → new.issuedAt = old.issuedAt
  refreshedAt : new.refreshedAt = old.refreshedAt ∨ new.refreshedAt = some (unix clock)

theorem Reissued.refl (old : SessionValues) (clock : ℤ) : Reissued old clock old :=
  ⟨rfl, fun _ => rfl, .inl rfl⟩

theorem save_eq_some {values : SessionValues} {expires : Bool} {set : SetCookie}
    (h : save encodes values expires = some set) : set = ⟨values, expires⟩ ∧ encodes values = true := by
  rw [save] at h
  split_ifs at h with hfits
  cases h
  exact ⟨rfl, hfits⟩

theorem save_of_fits {values : SessionValues} {expires : Bool} (h : encodes values = true) :
    save encodes values expires = some ⟨values, expires⟩ := if_pos h

theorem handleLogin_cookies (encodes : SessionValues → Bool) (state : Option String) (next : Text.Bytes)
    (cookie : Presented) :
    (handleLogin encodes state next cookie).setCookies = [] ∨
      ∃ state' next', encodes { cookie.values with state := state', next := next' } = true ∧
        (handleLogin encodes state next cookie).setCookies =
          [⟨{ cookie.values with state := state', next := next' }, false⟩] := by
  cases state with
  | none => exact .inl rfl
  | some state =>
    rw [handleLogin]
    split
    · rename_i first hfirst
      obtain ⟨rfl, hfits⟩ := save_eq_some hfirst
      exact .inr ⟨_, _, hfits, rfl⟩
    · split_ifs
      · exact .inl rfl
      · split
        · rename_i second hsecond
          obtain ⟨rfl, hfits⟩ := save_eq_some hsecond
          exact .inr ⟨_, _, hfits, rfl⟩
        · exact .inl rfl

theorem handleLogin_issues {state : Option String} {next : Text.Bytes} {cookie : Presented}
    {set : SetCookie} (h : set ∈ (handleLogin encodes state next cookie).setCookies) (clock : ℤ) :
    Reissued cookie.values clock set.values := by
  rcases handleLogin_cookies encodes state next cookie with hnone | ⟨state', next', -, hset⟩
  · rw [hnone] at h
    exact absurd h List.not_mem_nil
  · rw [hset] at h
    obtain rfl := List.mem_singleton.mp h
    exact ⟨rfl, fun _ => rfl, .inl rfl⟩

/-- A callback that logs `user` in: the state is that of the presented session, GitHub named the user, and
it answered that this user is an active member. -/
inductive LoginOf (user : GitHubUser) : Request → Presented → GitHubLog → Prop where
  | mk {state code token : String} {cookie : Presented} {userReply memberReply : GitHubReply} :
      state ≠ "" → cookie.values.state = some state → fetchGitHubUser userReply = some user →
      checkTeamMembership memberReply = true →
      LoginOf user (.callback state code) cookie
        [⟨.exchange code, some token⟩, ⟨.user token, userReply⟩, ⟨.membership token user.login, memberReply⟩]

theorem LoginOf.request_eq {user : GitHubUser} {request : Request} {cookie : Presented} {log : GitHubLog}
    (h : LoginOf user request cookie log) : ∃ state code, request = .callback state code := by
  cases h with
  | mk => exact ⟨_, _, rfl⟩

def namedUser (log : GitHubLog) : Option GitHubUser :=
  log.findSome? fun
    | ⟨.user _, reply⟩ => fetchGitHubUser reply
    | _ => none

theorem LoginOf.namedUser_eq {user : GitHubUser} {request : Request} {cookie : Presented} {log : GitHubLog}
    (h : LoginOf user request cookie log) : namedUser log = some user := by
  cases h with
  | mk _ _ huser _ => simp [namedUser, huser]

theorem handleCallback_runs {state code : String} {cookie : Presented} {clock : ℤ} {log : GitHubLog}
    {response : Response} (h : Runs (handleCallback encodes state code cookie clock) log response) :
    (response.setCookies = [] ∧ response.status ≠ 302) ∨ ∃ user, LoginOf user (.callback state code) cookie log ∧
      response = startSession encodes cookie.values user clock := by
  rw [handleCallback] at h
  split_ifs at h with hstate
  · obtain ⟨-, rfl⟩ := runs_ret.mp h
    exact .inl ⟨rfl, by decide⟩
  · obtain ⟨token, rest, rfl, hexchange⟩ := runs_call.mp h
    cases token with
    | none =>
      obtain ⟨-, rfl⟩ := runs_ret.mp hexchange
      exact .inl ⟨rfl, by decide⟩
    | some token =>
      obtain ⟨userReply, rest, rfl, hfetch⟩ := runs_call.mp hexchange
      cases huser : fetchGitHubUser userReply with
      | none =>
        rw [huser] at hfetch
        obtain ⟨-, rfl⟩ := runs_ret.mp hfetch
        exact .inl ⟨rfl, by decide⟩
      | some user =>
        rw [huser] at hfetch
        obtain ⟨memberReply, rest, rfl, hcheck⟩ := runs_call.mp hfetch
        cases hmember : checkTeamMembership memberReply with
        | false =>
          rw [hmember, if_neg Bool.false_ne_true] at hcheck
          obtain ⟨-, rfl⟩ := runs_ret.mp hcheck
          exact .inl ⟨rfl, by decide⟩
        | true =>
          rw [hmember, if_pos rfl] at hcheck
          obtain ⟨rfl, rfl⟩ := runs_ret.mp hcheck
          simp only [not_or, not_not] at hstate
          obtain ⟨hne, hstate, heq⟩ := hstate
          have hsome : cookie.values.state = some state := by
            cases hs : cookie.values.state with
            | none => simp [hs] at hne
            | some expected =>
              rw [hs] at heq
              exact congrArg some heq
          exact .inr ⟨user, .mk hstate hsome huser hmember, rfl⟩

theorem LoginOf.runs {user : GitHubUser} {request : Request} {cookie : Presented} {log : GitHubLog}
    (h : LoginOf user request cookie log) (clock : ℤ) :
    Runs (serve encodes request cookie clock) log (startSession encodes cookie.values user clock) := by
  cases h with
  | mk hne hstate huser hmember =>
    rw [serve, handleCallback, hstate, Option.getD_some, if_neg (by simp [hne])]
    refine .call (.call ?_)
    rw [huser]
    refine .call ?_
    rw [hmember, if_pos rfl]
    exact .ret _

theorem startSession_issues {old : SessionValues} {user : GitHubUser} {clock : ℤ} {set : SetCookie}
    (h : set ∈ (startSession encodes old user clock).setCookies) :
    set.values = old ∨ set.values = loggedIn user clock := by
  rw [startSession] at h
  split at h
  · exact absurd h List.not_mem_nil
  · rename_i expired hexpired
    split at h
    · obtain rfl := List.mem_singleton.mp h
      exact .inl (congrArg SetCookie.values (save_eq_some hexpired).1)
    · rename_i set' hset
      rcases List.mem_pair.mp h with rfl | rfl
      · exact .inl (congrArg SetCookie.values (save_eq_some hexpired).1)
      · exact .inr (congrArg SetCookie.values (save_eq_some hset).1)

theorem checkValues_reissued {values : SessionValues} {clock : ℤ} {sess : SessionValues}
    (h : checkValues values clock = .expired sess ∨ ∃ due, checkValues values clock = .accepted sess due) :
    Reissued values clock sess := by
  have hissued : Reissued values clock { values with issuedAt := some (values.issued clock) } := by
    refine ⟨rfl, fun hsome => ?_, .inl rfl⟩
    obtain ⟨issuedAt, hissued⟩ := Option.isSome_iff_exists.mp hsome
    rw [SessionValues.issued, hissued, Option.getD_some]
  rw [checkValues] at h
  split_ifs at h
  · rcases h with h | ⟨due, h⟩ <;> cases h
  · rcases h with h | ⟨due, h⟩
    · cases h
      exact hissued
    · cases h
  · rcases h with h | ⟨due, h⟩
    · cases h
    · cases h
      exact ⟨rfl, hissued.issuedAt, .inr rfl⟩
  · rcases h with h | ⟨due, h⟩
    · cases h
    · cases h
      exact hissued

theorem checkSession_reissued {cookie : Presented} {clock : ℤ} {sess : SessionValues}
    (h : checkSession cookie clock = .expired sess ∨ ∃ due, checkSession cookie clock = .accepted sess due) :
    Reissued cookie.values clock sess := by
  cases cookie with
  | undecodable =>
    rcases h with h | ⟨due, h⟩
    · cases h
      exact .refl _ _
    · cases h
  | absent => exact checkValues_reissued h
  | decoded values => exact checkValues_reissued h

theorem refresh_of_none {sess : SessionValues} {response : Response} (h : response.setCookies = []) :
    refresh encodes sess response = { response with setCookies := (save encodes sess false).toList } := by
  rw [refresh, if_neg (not_not.mpr h)]

theorem handler_issues {route : Route} {sess : SessionValues} {set : SetCookie}
    (h : set ∈ (route.handler encodes sess).setCookies) : set.values = sess := by
  cases route with
  | other status => exact absurd h List.not_mem_nil
  | logout =>
    rw [Route.handler, handleLogout] at h
    split at h
    · exact absurd h List.not_mem_nil
    · rename_i set' hset
      obtain rfl := List.mem_singleton.mp h
      rw [(save_eq_some hset).1]

theorem authMiddleware_issues {cookie : Presented} {clock : ℤ} {route : Route} {set : SetCookie}
    (h : set ∈ (authMiddleware encodes cookie clock (route.handler encodes)).setCookies) :
    Reissued cookie.values clock set.values := by
  rw [authMiddleware] at h
  cases hcheck : checkSession cookie clock with
  | unauthenticated =>
    rw [hcheck] at h
    exact absurd h List.not_mem_nil
  | expired sess =>
    rw [hcheck] at h
    rw [(save_eq_some (Option.mem_toList.mp h)).1]
    exact checkSession_reissued (.inl hcheck)
  | accepted sess due =>
    have hsess := checkSession_reissued (.inr ⟨due, hcheck⟩)
    rw [hcheck] at h
    dsimp only at h
    split_ifs at h
    · rw [refresh] at h
      split_ifs at h
      · rwa [handler_issues h]
      · rwa [(save_eq_some (Option.mem_toList.mp h)).1]
    · rwa [handler_issues h]

/-- **What a request issues.** The presented session anew, or the session of a login. -/
theorem serve_issues {request : Request} {cookie : Presented} {clock : ℤ} {log : GitHubLog} {response : Response}
    {set : SetCookie} (h : Runs (serve encodes request cookie clock) log response)
    (hset : set ∈ response.setCookies) :
    Reissued cookie.values clock set.values ∨
      ∃ user, LoginOf user request cookie log ∧ set.values = loggedIn user clock := by
  cases request with
  | login state next =>
    obtain ⟨-, rfl⟩ := runs_ret.mp h
    exact .inl (handleLogin_issues hset clock)
  | callback state code =>
    rcases handleCallback_runs h with ⟨hnone, -⟩ | ⟨user, hlogin, rfl⟩
    · rw [hnone] at hset
      exact absurd hset List.not_mem_nil
    · rcases startSession_issues hset with heq | heq
      · rw [heq]
        exact .inl (.refl _ _)
      · exact .inr ⟨user, hlogin, heq⟩
  | authed route =>
    obtain ⟨-, rfl⟩ := runs_ret.mp h
    exact .inl (authMiddleware_issues hset)

/-! ## Runs -/

/-- A request that was served: its clock was read at `clock`, its response went out at `sent`. -/
structure Served where
  request : Request
  cookie : Presented
  clock : ℤ
  sent : ℤ
  log : GitHubLog
  response : Response

def Served.issues (e : Served) (values : SessionValues) : Prop := ∃ set ∈ e.response.setCookies, set.values = values

/-- What may happen after `before`, in the order of the responses: a request presents what does not decode
or any cookie that went out before. -/
structure Allowed (encodes : SessionValues → Bool) (before : List Served) (e : Served) : Prop where
  runs : Runs (serve encodes e.request e.cookie e.clock) e.log e.response
  clock_le : e.clock ≤ e.sent
  sent_le : ∀ e' ∈ before, e'.sent ≤ e.sent
  presented : ∀ values, e.cookie = .decoded values → ∃ e' ∈ before, e'.sent ≤ e.clock ∧ e'.issues values

/-- The values were set by the callback `login`, or issued anew from such values, with the same user and
login time. -/
inductive Descends (run : List Served) (login : Served) (user : GitHubUser) : SessionValues → Prop where
  | login : login ∈ run → LoginOf user login.request login.cookie login.log → login.issues (loggedIn user login.clock) →
      Descends run login user (loggedIn user login.clock)
  | reissue {e : Served} {old new : SessionValues} : e ∈ run → e.cookie = .decoded old → e.issues new →
      Descends run login user old → new.username = old.username → new.issuedAt = old.issuedAt →
      Descends run login user new

theorem Descends.mono {run : List Served} {login e : Served} {user : GitHubUser} {values : SessionValues}
    (h : Descends run login user values) : Descends (e :: run) login user values := by
  induction h with
  | login hmem hlogin hissues => exact .login (List.mem_cons_of_mem _ hmem) hlogin hissues
  | reissue hmem hcookie hissues _ hname hissued ih =>
    exact .reissue (List.mem_cons_of_mem _ hmem) hcookie hissues ih hname hissued

theorem Descends.keeps {run : List Served} {login : Served} {user : GitHubUser} {values : SessionValues}
    (h : Descends run login user values) :
    values.username = some user.login ∧ values.issuedAt = some (unix login.clock) := by
  induction h with
  | login => exact ⟨rfl, rfl⟩
  | reissue _ _ _ _ hname hissued ih => exact ⟨hname.trans ih.1, hissued.trans ih.2⟩

def InOrder (values : SessionValues) (sent : ℤ) : Prop :=
  ∃ issuedAt refreshedAt, values.issuedAt = some issuedAt ∧ values.refreshedAt = some refreshedAt ∧
    issuedAt ≤ refreshedAt ∧ refreshedAt * second ≤ sent

def Rooted (run : List Served) (e : Served) : Prop :=
  ∀ values, e.issues values → values.username.isSome →
    (∃ login user, Descends run login user values) ∧ InOrder values e.sent

theorem unix_mul_le (t : ℤ) : unix t * second ≤ t := Int.ediv_mul_le t (by decide)

theorem le_unix {r t : ℤ} (h : r * second ≤ t) : r ≤ unix t := (Int.le_ediv_iff_mul_le (by decide)).mpr h

theorem Allowed.presented_of_username {before : List Served} {e : Served} (h : Allowed encodes before e)
    (hname : e.cookie.values.username.isSome) :
    ∃ old e', e.cookie = .decoded old ∧ e' ∈ before ∧ e'.sent ≤ e.clock ∧ e'.issues old := by
  cases hcookie : e.cookie with
  | absent =>
    rw [hcookie] at hname
    cases hname
  | undecodable =>
    rw [hcookie] at hname
    cases hname
  | decoded old =>
    obtain ⟨e', hmem, hsent, hissues⟩ := h.presented old hcookie
    exact ⟨old, e', rfl, hmem, hsent, hissues⟩

theorem rooted_step {before : List Served} {e : Served} (h : Allowed encodes before e)
    (ih : ∀ e' ∈ before, Rooted before e') : Rooted (e :: before) e := by
  rintro values ⟨set, hset, rfl⟩ hname
  rcases serve_issues h.runs hset with hre | ⟨user, hlogin, heq⟩
  · rw [hre.username] at hname
    obtain ⟨old, e', hcookie, hmem, hsent, hissues⟩ := h.presented_of_username hname
    rw [hcookie] at hre hname
    obtain ⟨⟨login, user, hdesc⟩, issuedAt, refreshedAt, hissued, hrefreshed, hle, hpast⟩ :=
      ih e' hmem old hissues hname
    have hkept : set.values.issuedAt = old.issuedAt := hre.issuedAt (by rw [Presented.values, hissued]; rfl)
    refine ⟨⟨login, user, .reissue List.mem_cons_self hcookie ⟨set, hset, rfl⟩ hdesc.mono hre.username hkept⟩, ?_⟩
    have hclock : refreshedAt * second ≤ e.clock := hpast.trans hsent
    rcases hre.refreshedAt with hr | hr
    · exact ⟨issuedAt, refreshedAt, hkept.trans hissued, hr.trans hrefreshed, hle, hclock.trans h.clock_le⟩
    · exact ⟨issuedAt, unix e.clock, hkept.trans hissued, hr, hle.trans (le_unix hclock),
        (unix_mul_le e.clock).trans h.clock_le⟩
  · rw [heq]
    refine ⟨⟨e, user, .login List.mem_cons_self hlogin ⟨set, hset, heq⟩⟩, ?_⟩
    exact ⟨_, _, rfl, rfl, le_rfl, (unix_mul_le e.clock).trans h.clock_le⟩

/-- Every cookie with a user that a run sets descends from a login, and its times are in order. -/
theorem rooted {run : List Served} (h : History (Allowed encodes) run) : ∀ e ∈ run, Rooted run e :=
  h.forall_mem (fun _ _ hallowed ih => rooted_step hallowed ih) fun _ _ _ he values hissues hname =>
    ⟨(he values hissues hname).1.imp fun _ ⟨user, hdesc⟩ => ⟨user, hdesc.mono⟩, (he values hissues hname).2⟩

/-! ## What is accepted -/

theorem over_eq_false_iff {values : SessionValues} {clock : ℤ} :
    values.over clock = false ↔ clock - values.issued clock * second ≤ sessionAbsoluteMax ∧
      ∀ refreshedAt, values.refreshedAt = some refreshedAt → clock - refreshedAt * second ≤ sessionMaxAge * second := by
  have hpos : 0 < sessionMaxAge * second := by decide
  rw [SessionValues.over, Bool.or_eq_false_iff, decide_eq_false_iff_not, not_lt, SessionValues.idle]
  refine and_congr_right fun _ => ?_
  cases values.refreshedAt <;> simp [hpos]

def Served.accepted (e : Served) : Prop :=
  ∃ route sess due, e.request = .authed route ∧ checkSession e.cookie e.clock = .accepted sess due

theorem checkValues_accepted_iff {values : SessionValues} {clock : ℤ} :
    (∃ sess due, checkValues values clock = .accepted sess due) ↔
      values.username.getD "" ≠ "" ∧ values.over clock = false := by
  rw [checkValues]
  by_cases hname : values.username.getD "" = ""
  · simp [hname]
  · cases hover : values.over clock with
    | true => simp [hname]
    | false =>
      cases values.due clock <;> simp [hname]

theorem checkSession_accepted {cookie : Presented} {clock : ℤ} {sess : SessionValues} {due : Bool}
    (h : checkSession cookie clock = .accepted sess due) :
    cookie.values.username.getD "" ≠ "" ∧ cookie.values.over clock = false := by
  cases cookie with
  | undecodable => cases h
  | absent => exact checkValues_accepted_iff.mp ⟨sess, due, h⟩
  | decoded values => exact checkValues_accepted_iff.mp ⟨sess, due, h⟩

theorem accepted_cookie {e : Served} (h : e.accepted) :
    e.cookie.values.username.isSome ∧ e.cookie.values.over e.clock = false := by
  obtain ⟨route, sess, due, -, hcheck⟩ := h
  obtain ⟨hname, hover⟩ := checkSession_accepted hcheck
  refine ⟨?_, hover⟩
  cases hu : e.cookie.values.username with
  | none => simp [hu] at hname
  | some name => rfl

/-- What holds of one request of a run. -/
structure Sound (run : List Served) (e : Served) : Prop where
  origin : ∀ values, e.issues values → values.username.isSome → ∃ login user, Descends run login user values
  kept : (∀ state code, e.request ≠ .callback state code) → ∀ old, e.cookie = .decoded old → old.username.isSome →
    ∀ new, e.issues new → new.username = old.username ∧ new.issuedAt = old.issuedAt
  ordered : ∀ values, e.issues values → values.username.isSome → InOrder values e.sent
  fresh : e.accepted → ∃ values issuedAt refreshedAt, e.cookie = .decoded values ∧ values.issuedAt = some issuedAt ∧
    values.refreshedAt = some refreshedAt ∧ e.clock - issuedAt * second ≤ sessionAbsoluteMax ∧
    e.clock - refreshedAt * second ≤ sessionMaxAge * second

theorem sound {run : List Served} (h : History (Allowed encodes) run) {e : Served} (he : e ∈ run) : Sound run e := by
  have hrooted := rooted h e he
  obtain ⟨after, before, hsplit, hbefore, hallowed⟩ := h.allowed_of_mem he
  -- what is presented with a user was issued before, so its times are there
  have hpresented : e.cookie.values.username.isSome → ∃ old, e.cookie = .decoded old ∧ ∃ sent, InOrder old sent := by
    intro hname
    obtain ⟨old, e', hcookie, hmem, -, hissues⟩ := hallowed.presented_of_username hname
    rw [hcookie] at hname
    exact ⟨old, hcookie, _, (rooted hbefore e' hmem old hissues hname).2⟩
  refine ⟨fun values hissues hname => (hrooted values hissues hname).1, ?_,
    fun values hissues hname => (hrooted values hissues hname).2, ?_⟩
  · intro hrequest old hcookie hname new ⟨set, hset, hnew⟩
    obtain ⟨old', hcookie', sent, issuedAt, refreshedAt, hissued, -⟩ := hpresented (by rw [hcookie]; exact hname)
    obtain rfl : old = old' := Presented.decoded.inj (hcookie.symm.trans hcookie')
    rcases serve_issues hallowed.runs hset with hre | ⟨user, hlogin, -⟩
    · rw [hcookie, hnew] at hre
      exact ⟨hre.username, hre.issuedAt (by rw [Presented.values, hissued]; rfl)⟩
    · obtain ⟨state, code, hcallback⟩ := hlogin.request_eq
      exact absurd hcallback (hrequest state code)
  · intro haccepted
    obtain ⟨hname, hover⟩ := accepted_cookie haccepted
    obtain ⟨old, hcookie, sent, issuedAt, refreshedAt, hissued, hrefreshed, -⟩ := hpresented hname
    rw [hcookie] at hover
    obtain ⟨habsolute, hidle⟩ := over_eq_false_iff.mp hover
    rw [Presented.values, SessionValues.issued, hissued] at habsolute
    exact ⟨old, issuedAt, refreshedAt, hcookie, hissued, hrefreshed, habsolute, hidle refreshedAt hrefreshed⟩

end GarageConsole.Sessions
