import GarageConsole.Sessions.Soundness

/-! # A browser that stays logged in

A browser presents the newest cookie it was sent. As long as its requests behind `authMiddleware` are at
most `sessionMaxAge` less `sessionRefreshInterval` apart, none is rejected before `sessionAbsoluteMax` has
passed since the login: whatever the lazy refresh skipped is less than `sessionRefreshInterval`.
-/

namespace GarageConsole.Sessions

open Foundations Foundations.Calls Foundations.Histories GarageConsole.Garage

set_option autoImplicit false

variable {encodes : SessionValues → Bool}

/-! ## The cookie jar -/

def Presented.set (_ : Presented) (c : SetCookie) : Presented := if c.expires then .absent else .decoded c.values

def Presented.after (jar : Presented) (response : Response) : Presented := response.setCookies.foldl Presented.set jar

/-- The requests of one browser, the first one first: each presents the jar, none before the last one. -/
inductive Browses (encodes : SessionValues → Bool) : Presented → ℤ → List Served → Prop where
  | nil (jar : Presented) (last : ℤ) : Browses encodes jar last []
  | cons {jar : Presented} {last : ℤ} {e : Served} {es : List Served} :
      Runs (serve encodes e.request e.cookie e.clock) e.log e.response → e.cookie = jar → last ≤ e.clock →
      Browses encodes (jar.after e.response) e.clock es → Browses encodes jar last (e :: es)

/-- The browser neither logs out nor logs in once more. -/
def Served.stays (e : Served) : Prop :=
  e.request ≠ .authed .logout ∧ ∀ state code, e.request = .callback state code → e.response.setCookies = []

def Served.isAuthed (e : Served) : Prop := ∃ route, e.request = .authed route

inductive Within (gap : ℤ) : ℤ → List Served → Prop where
  | nil (last : ℤ) : Within gap last []
  | authed {last : ℤ} {e : Served} {es : List Served} : e.isAuthed → e.clock - last ≤ gap → Within gap e.clock es →
      Within gap last (e :: es)
  | other {last : ℤ} {e : Served} {es : List Served} : ¬e.isAuthed → Within gap last es → Within gap last (e :: es)

/-- A session that fits a cookie also fits it with a new time in the place of the last refresh. -/
def Redates (encodes : SessionValues → Bool) : Prop :=
  ∀ values refreshedAt t, values.refreshedAt = some refreshedAt → encodes values = true →
    encodes { values with refreshedAt := some t } = true

/-! ## A live session -/

/-- The session of a jar that was used at `last`: the refresh it has is recent enough. -/
structure Live (encodes : SessionValues → Bool) (issuedAt last : ℤ) (values : SessionValues) : Prop where
  user : values.username.getD "" ≠ ""
  issuedAt_eq : values.issuedAt = some issuedAt
  recent : ∃ refreshedAt, values.refreshedAt = some refreshedAt ∧ last - refreshedAt * second < sessionRefreshInterval
  fits : encodes values = true

theorem lt_unix_mul (t : ℤ) : t - unix t * second < sessionRefreshInterval := by
  have hmod := Int.emod_lt_of_pos t (b := second) (by decide)
  have hdiv := Int.mul_ediv_add_emod t second
  have hsecond : second ≤ sessionRefreshInterval := by decide
  rw [unix, Int.mul_comm]
  omega

theorem Live.not_over {issuedAt last clock : ℤ} {values : SessionValues} (h : Live encodes issuedAt last values)
    (hgap : clock - last ≤ sessionMaxAge * second - sessionRefreshInterval)
    (hlimit : clock ≤ issuedAt * second + sessionAbsoluteMax) : values.over clock = false := by
  rw [over_eq_false_iff]
  constructor
  · rw [SessionValues.issued, h.issuedAt_eq, Option.getD_some]
    omega
  · intro refreshedAt hrefreshed
    obtain ⟨refreshedAt', hrefreshed', hrecent⟩ := h.recent
    obtain rfl : refreshedAt = refreshedAt' := Option.some.inj (hrefreshed.symm.trans hrefreshed')
    omega

theorem Live.checkValues_eq {issuedAt last clock : ℤ} {values : SessionValues} (h : Live encodes issuedAt last values)
    (hover : values.over clock = false) :
    checkValues values clock = if values.due clock then .accepted { values with refreshedAt := some (unix clock) } true
      else .accepted values false := by
  have hissued : some (values.issued clock) = values.issuedAt := by
    rw [SessionValues.issued, h.issuedAt_eq, Option.getD_some]
  rw [checkValues, if_neg h.user, hover, hissued]
  rfl

theorem Live.visit {issuedAt last clock : ℤ} {values : SessionValues} (status : ℕ) (hredate : Redates encodes)
    (h : Live encodes issuedAt last values) (hover : values.over clock = false) :
    ∃ values', (Presented.decoded values).after
        (authMiddleware encodes (.decoded values) clock ((Route.other status).handler encodes)) = .decoded values' ∧
      Live encodes issuedAt clock values' := by
  have hcheck : checkSession (.decoded values) clock = checkValues values clock := rfl
  rw [authMiddleware, hcheck, h.checkValues_eq hover]
  cases hdue : values.due clock with
  | true =>
    obtain ⟨refreshedAt, hrefreshed, -⟩ := h.recent
    have hfits := hredate values refreshedAt (unix clock) hrefreshed h.fits
    refine ⟨{ values with refreshedAt := some (unix clock) }, ?_, h.user, h.issuedAt_eq,
      ⟨_, rfl, lt_unix_mul clock⟩, hfits⟩
    rw [if_pos rfl]
    dsimp only
    rw [if_pos rfl, refresh_of_none rfl, save_of_fits hfits]
    rfl
  | false =>
    obtain ⟨refreshedAt, hrefreshed, -⟩ := h.recent
    rw [SessionValues.due, Bool.or_eq_false_iff, SessionValues.idle, hrefreshed] at hdue
    have hrecent := not_le.mp (of_decide_eq_false hdue.2)
    exact ⟨values, rfl, h.user, h.issuedAt_eq, ⟨refreshedAt, hrefreshed, hrecent⟩, h.fits⟩

theorem Live.handleLogin {issuedAt last : ℤ} {values : SessionValues} {state : Option String}
    {next : Foundations.Text.Bytes} (h : Live encodes issuedAt last values) :
    ∃ values', (Presented.decoded values).after (handleLogin encodes state next (.decoded values)) = .decoded values' ∧
      Live encodes issuedAt last values' := by
  rw [Presented.after]
  rcases handleLogin_cookies encodes state next (.decoded values) with hnone | ⟨state', next', hfits, hset⟩
  · rw [hnone]
    exact ⟨values, rfl, h⟩
  · rw [hset]
    exact ⟨_, rfl, h.user, h.issuedAt_eq, h.recent, hfits⟩

/-! ## A visit -/

theorem Browses.last_le {jar : Presented} {last : ℤ} {es : List Served} (h : Browses encodes jar last es) :
    ∀ e ∈ es, last ≤ e.clock := by
  induction h with
  | nil => exact fun e he => absurd he List.not_mem_nil
  | cons _ _ hle _ ih =>
    intro e he
    rcases List.mem_cons.mp he with rfl | he
    · exact hle
    · exact hle.trans (ih e he)

theorem Live.accepted {issuedAt : ℤ} (hredate : Redates encodes)
    {jar : Presented} {last : ℤ} {es : List Served} (hbrowse : Browses encodes jar last es)
    (hstays : ∀ e ∈ es, e.stays) {used : ℤ} {values : SessionValues} (hjar : jar = .decoded values)
    (hlive : Live encodes issuedAt used values)
    (hwithin : Within (sessionMaxAge * second - sessionRefreshInterval) used es) :
    ∀ e ∈ es, e.isAuthed → e.clock ≤ issuedAt * second + sessionAbsoluteMax → e.accepted := by
  induction hbrowse generalizing used values with
  | nil => exact fun e he => absurd he List.not_mem_nil
  | @cons jar last e es hrun hcookie hle hbrowse ih =>
    subst hjar
    have hrest : ∀ e' ∈ es, e'.stays := fun e' he' => hstays e' (List.mem_cons_of_mem _ he')
    have hstay := hstays e List.mem_cons_self
    cases hwithin with
    | authed hauthed hgap hwithin =>
      obtain ⟨route, hroute⟩ := hauthed
      cases route with
      | logout => exact absurd hroute hstay.1
      | other status =>
        by_cases hlimit : e.clock ≤ issuedAt * second + sessionAbsoluteMax
        · have hover := hlive.not_over hgap hlimit
          rw [hroute, hcookie] at hrun
          obtain ⟨-, hresponse⟩ := runs_ret.mp hrun
          obtain ⟨values', hafter, hlive'⟩ := hlive.visit status hredate hover
          rw [← hresponse] at hafter
          intro e' he' hauthed hlimit'
          rcases List.mem_cons.mp he' with rfl | he'
          · obtain ⟨sess, due, hcheck⟩ := checkValues_accepted_iff.mpr ⟨hlive.user, hover⟩
            refine ⟨_, sess, due, hroute, ?_⟩
            rw [hcookie]
            exact hcheck
          · exact ih hrest hafter hlive' hwithin e' he' hauthed hlimit'
        · -- what follows is past the limit too
          intro e' he' _ hlimit'
          rcases List.mem_cons.mp he' with rfl | he'
          · exact absurd hlimit' hlimit
          · exact absurd ((hbrowse.last_le e' he').trans hlimit') hlimit
    | other hother hwithin =>
      have hafter : ∃ values', (Presented.decoded values).after e.response = .decoded values' ∧
          Live encodes issuedAt used values' := by
        cases hreq : e.request with
        | authed route => exact absurd ⟨route, hreq⟩ hother
        | callback state code => exact ⟨values, by rw [Presented.after, hstay.2 _ _ hreq]; rfl, hlive⟩
        | login state next =>
          rw [hreq, hcookie] at hrun
          obtain ⟨-, hresponse⟩ := runs_ret.mp hrun
          rw [hresponse]
          exact hlive.handleLogin
      obtain ⟨values', hjar, hlive'⟩ := hafter
      intro e' he' hauthed hlimit
      rcases List.mem_cons.mp he' with rfl | he'
      · exact absurd hauthed hother
      · exact ih hrest hjar hlive' hwithin e' he' hauthed hlimit

/-- A login that succeeded, in a whole second, and what its browser does then: it stays, and its requests
behind `authMiddleware` are close enough. -/
structure Visit (encodes : SessionValues → Bool) (user : GitHubUser) (login : Served) (es : List Served) : Prop where
  callback : LoginOf user login.request login.cookie login.log
  runs : Runs (serve encodes login.request login.cookie login.clock) login.log login.response
  redirected : login.response.status = 302
  named : user.login ≠ ""
  wholeSecond : second ∣ login.clock
  browses : Browses encodes (login.cookie.after login.response) login.clock es
  stays : ∀ e ∈ es, e.stays
  within : Within (sessionMaxAge * second - sessionRefreshInterval) login.clock es

theorem Visit.jar {user : GitHubUser} {login : Served} {es : List Served} (h : Visit encodes user login es) :
    login.cookie.after login.response = .decoded (loggedIn user login.clock) ∧
      encodes (loggedIn user login.clock) = true := by
  obtain ⟨state, code, hrequest⟩ := h.callback.request_eq
  have hrun := h.runs
  have hok := h.redirected
  rw [hrequest] at hrun
  rcases handleCallback_runs hrun with ⟨-, hstatus⟩ | ⟨user', hlogin, hresponse⟩
  · exact absurd hok hstatus
  · obtain rfl : user = user' := Option.some.inj (h.callback.namedUser_eq.symm.trans hlogin.namedUser_eq)
    rw [hresponse, startSession] at hok
    rw [hresponse, startSession]
    cases hold : save encodes login.cookie.values true with
    | none =>
      rw [hold] at hok
      cases hok
    | some expired =>
      rw [hold] at hok
      cases hnew : save encodes (loggedIn user login.clock) false with
      | none =>
        rw [hnew] at hok
        cases hok
      | some set =>
        obtain ⟨rfl, hfits⟩ := save_eq_some hnew
        exact ⟨rfl, hfits⟩

theorem Visit.accepted {user : GitHubUser} {login : Served} {es : List Served} (h : Visit encodes user login es)
    (hredate : Redates encodes) :
    ∀ e ∈ es, e.isAuthed → e.clock - login.clock ≤ sessionAbsoluteMax → e.accepted := by
  obtain ⟨hjar, hfits⟩ := h.jar
  have hwhole : unix login.clock * second = login.clock := Int.ediv_mul_cancel h.wholeSecond
  have hlive : Live encodes (unix login.clock) login.clock (loggedIn user login.clock) :=
    ⟨h.named, rfl, ⟨_, rfl, lt_unix_mul login.clock⟩, hfits⟩
  intro e he hauthed hlimit
  refine Live.accepted hredate h.browses h.stays hjar hlive h.within e he hauthed ?_
  rw [hwhole]
  omega

/-! ## Sessions are sound -/

/-- **Sessions over whole runs.** Every cookie with a user descends from a login of this user, re-issues keep
its user and login time, its times are in order, and what is accepted is fresh; and a browser that stays
and keeps asking is never rejected before the absolute limit. -/
theorem sessions_sound (encodes : SessionValues → Bool) :
    (∀ run, History (Allowed encodes) run → ∀ e ∈ run, Sound run e) ∧
      (Redates encodes → ∀ user login es, Visit encodes user login es →
        ∀ e ∈ es, e.isAuthed → e.clock - login.clock ≤ sessionAbsoluteMax → e.accepted) :=
  ⟨fun _ hrun _ he => sound hrun he, fun hredate _ _ _ hvisit => hvisit.accepted hredate⟩

/-- One login: started at 0 s, done at 10 s, and a request 400 s later. -/
def octocat : GitHubUser := ⟨"octocat", "https://avatars/1"⟩

def startEvent : Served :=
  ⟨.login (some "s1") [], .absent, 0, 0, [], handleLogin (fun _ => true) (some "s1") [] .absent⟩

def callbackEvent : Served where
  request := .callback "s1" "code"
  cookie := .decoded { state := some "s1" }
  clock := 10 * second
  sent := 10 * second
  log := [⟨.exchange "code", some "token"⟩,
    ⟨.user "token", .answered 200 (.complete (Text.bytes
      "\x7b\"login\":\"octocat\",\"avatar_url\":\"https://avatars/1\"\x7d"))⟩,
    ⟨.membership "token" "octocat", .answered 200 (.complete (Text.bytes "\x7b\"state\":\"active\"\x7d"))⟩]
  response := startSession (fun _ => true) { state := some "s1" } octocat (10 * second)

def pageEvent : Served where
  request := .authed (.other 200)
  cookie := .decoded (loggedIn octocat (10 * second))
  clock := 410 * second
  sent := 411 * second
  log := []
  response := authMiddleware (fun _ => true) (.decoded (loggedIn octocat (10 * second))) (410 * second)
    ((Route.other 200).handler fun _ => true)

theorem callbackEvent_login : LoginOf octocat callbackEvent.request callbackEvent.cookie callbackEvent.log :=
  .mk (by decide) rfl (by decide +kernel) (by decide +kernel)

theorem eventHistory : History (Allowed fun _ => true) [pageEvent, callbackEvent, startEvent] := by
  refine .cons (.cons (.cons .nil ?_) ?_) ?_
  · exact ⟨.ret _, le_rfl, by decide, nofun⟩
  · refine ⟨callbackEvent_login.runs _, le_rfl, by decide, fun values hcookie => ?_⟩
    obtain rfl := Presented.decoded.inj hcookie
    exact ⟨startEvent, by simp, by decide, _, List.mem_singleton_self _, by decide +kernel⟩
  · refine ⟨.ret _, by decide, by decide, fun values hcookie => ?_⟩
    obtain rfl := Presented.decoded.inj hcookie
    exact ⟨callbackEvent, by simp, by decide, ⟨loggedIn octocat (10 * second), false⟩, by decide +kernel, rfl⟩

theorem eventVisit : Visit (fun _ => true) octocat callbackEvent [pageEvent] where
  callback := callbackEvent_login
  runs := callbackEvent_login.runs _
  redirected := by decide +kernel
  named := by decide
  wholeSecond := by decide
  browses := .cons (.ret _) rfl (by decide) (.nil _ _)
  stays := by
    intro e he
    obtain rfl := List.mem_singleton.mp he
    exact ⟨by decide, nofun⟩
  within := .authed ⟨_, rfl⟩ (by decide) (.nil _)

theorem sessions_sound_at_login : Sound [pageEvent, callbackEvent, startEvent] pageEvent ∧ pageEvent.accepted :=
  ⟨(sessions_sound _).1 _ eventHistory pageEvent (by simp),
    (sessions_sound _).2 (fun _ _ _ _ _ => rfl) _ _ _ eventVisit pageEvent (by simp) ⟨_, rfl⟩ (by decide)⟩

end GarageConsole.Sessions
