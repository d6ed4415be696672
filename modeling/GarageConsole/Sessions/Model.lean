import Mathlib.Algebra.Order.Ring.Int
import GarageConsole.Garage.Client
import GarageConsole.Sessions.NextPath

/-! # Sessions

The server keeps no session: all of it is in the cookie. `handleLogin`, `handleCallback`, `handleLogout`
and `authMiddleware` read the cookie a request presents and may set new ones. Times are nanoseconds,
the times in a cookie are seconds. Which values fit a cookie is up to the codec, `encodes`; a cookie that
is presented decodes to the values it was made from, or not at all.
-/

namespace GarageConsole.Sessions

open Foundations Foundations.Text Foundations.GoJson Foundations.Calls GarageConsole.Garage

set_option autoImplicit false

/-! ## Time -/

def second : ℤ := 1000000000

def unix (t : ℤ) : ℤ := t / second

def sessionMaxAge : ℤ := 3600

def sessionRefreshInterval : ℤ := 5 * 60 * second

def sessionAbsoluteMax : ℤ := 12 * 60 * 60 * second

/-! ## Cookies -/

@[ext] structure SessionValues where
  state : Option String := none
  username : Option String := none
  avatar : Option String := none
  next : Option Bytes := none
  issuedAt : Option ℤ := none
  refreshedAt : Option ℤ := none
  deriving DecidableEq

/-- The session cookie of a request. -/
inductive Presented where
  | absent
  | undecodable
  | decoded (values : SessionValues)
  deriving DecidableEq

/-- The session that is loaded: a fresh one when no cookie decodes. -/
def Presented.values : Presented → SessionValues
  | .decoded values => values
  | _ => {}

/-- A `Set-Cookie` for the session; one that expires tells the browser to drop it. -/
structure SetCookie where
  values : SessionValues
  expires : Bool
  deriving DecidableEq

inductive Location where
  | gitHub (state : String)
  | page (path : Bytes)
  deriving DecidableEq

structure Response where
  status : ℕ
  setCookies : List SetCookie := []
  location : Option Location := none
  deriving DecidableEq

section Handlers

variable (encodes : SessionValues → Bool)

def save (values : SessionValues) (expires : Bool) : Option SetCookie :=
  if encodes values then some ⟨values, expires⟩ else none

/-! ## Logging in -/

def withLogin (sess : SessionValues) (state : String) (next : Bytes) : SessionValues :=
  { sess with state := some state, next := if safeNextPath next ≠ [] then some (safeNextPath next) else none }

/-- `GET /api/auth/login`; `state` is the random state, or none when there is no randomness. -/
def handleLogin (state : Option String) (next : Bytes) (cookie : Presented) : Response :=
  match state with
  | none => { status := 500 }
  | some state =>
    let values := withLogin cookie.values state next
    match save encodes values false with
    | some set => ⟨302, [set], some (.gitHub state)⟩
    | none =>
      -- the path to return to is the only value that can be dropped
      if values.next = none then { status := 500 }
      else match save encodes { values with next := none } false with
        | some set => ⟨302, [set], some (.gitHub state)⟩
        | none => { status := 500 }

inductive GitHubCall where
  | exchange (code : String)
  | user (accessToken : String)
  | membership (accessToken login : String)
  deriving DecidableEq

inductive GitHubReply where
  | unreachable
  | answered (status : ℕ) (body : Incoming)

abbrev GitHubAnswer : GitHubCall → Type
  | .exchange _ => Option String
  | _ => GitHubReply

abbrev GitHubLog := List (Exchange GitHubCall GitHubAnswer)

structure GitHubUser where
  login : String := ""
  avatarURL : String := ""
  deriving DecidableEq

def fetchGitHubUser : GitHubReply → Option GitHubUser
  | .unreachable => none
  | .answered status body =>
    if status ≠ 200 then none
    else decodeFirst (struct
      [("login", fun u v => (string u.login v).map ({ u with login := · })),
       ("avatar_url", fun u v => (string u.avatarURL v).map ({ u with avatarURL := · }))]) {} body.received

def checkTeamMembership : GitHubReply → Bool
  | .unreachable => false
  | .answered status body =>
    status = 200 && decodeFirst (struct [("state", string)]) "" body.received = some "active"

def loggedIn (user : GitHubUser) (clock : ℤ) : SessionValues :=
  { username := some user.login, avatar := some user.avatarURL, issuedAt := some (unix clock),
    refreshedAt := some (unix clock) }

/-- The end of a callback, for a user who may log in: the old cookie is expired and a new one set. -/
def startSession (old : SessionValues) (user : GitHubUser) (clock : ℤ) : Response :=
  match save encodes old true with
  | none => { status := 500 }
  | some expired =>
    match save encodes (loggedIn user clock) false with
    | none => { status := 500, setCookies := [expired] }
    | some set =>
      { status := 302, setCookies := [expired, set],
        location := some (.page (callbackLocation (old.next.getD []))) }

/-- `GET /api/auth/callback`; `clock` is read after GitHub answered. -/
def handleCallback (state code : String) (cookie : Presented) (clock : ℤ) :
    Prog GitHubCall GitHubAnswer Response :=
  let expectedState := cookie.values.state.getD ""
  if expectedState = "" ∨ state = "" ∨ expectedState ≠ state then return { status := 403 }
  else .call (.exchange code) fun token => match token with
    | none => return { status := 401 }
    | some token => .call (.user token) fun reply =>
      match fetchGitHubUser reply with
      | none => return { status := 401 }
      | some user => .call (.membership token user.login) fun reply =>
        if checkTeamMembership reply then return startSession encodes cookie.values user clock
        else return { status := 403 }

/-! ## Requests of a session -/

inductive Verdict where
  | unauthenticated
  | expired (sess : SessionValues)
  | accepted (sess : SessionValues) (due : Bool)
  deriving DecidableEq

/-- The login time; a session without one, from before there was one, begins now. -/
def SessionValues.issued (values : SessionValues) (clock : ℤ) : ℤ := values.issuedAt.getD (unix clock)

/-- The time since the last refresh; without one the session was never refreshed. -/
def SessionValues.idle (values : SessionValues) (clock : ℤ) : ℤ := clock - values.refreshedAt.getD 0 * second

def SessionValues.over (values : SessionValues) (clock : ℤ) : Bool :=
  sessionAbsoluteMax < clock - values.issued clock * second ||
    (values.refreshedAt.isSome && 0 < sessionMaxAge * second && sessionMaxAge * second < values.idle clock)

def SessionValues.due (values : SessionValues) (clock : ℤ) : Bool :=
  values.issuedAt = none || sessionRefreshInterval ≤ values.idle clock

/-- The check of a session: the session as the handler gets it, and whether it is due for a refresh. -/
def checkValues (values : SessionValues) (clock : ℤ) : Verdict :=
  let sess := { values with issuedAt := some (values.issued clock) }
  if values.username.getD "" = "" then .unauthenticated
  else if values.over clock then .expired sess
  else if values.due clock then .accepted { sess with refreshedAt := some (unix clock) } true
  else .accepted sess false

def checkSession : Presented → ℤ → Verdict
  | .undecodable, _ => .expired {}
  | cookie, clock => checkValues cookie.values clock

/-- A session cookie the handler set itself is left alone. -/
def refresh (sess : SessionValues) (response : Response) : Response :=
  if response.setCookies ≠ [] then response
  else { response with setCookies := (save encodes sess false).toList }

def authMiddleware (cookie : Presented) (clock : ℤ) (handler : SessionValues → Response) : Response :=
  match checkSession cookie clock with
  | .unauthenticated => { status := 401 }
  | .expired sess => { status := 401, setCookies := (save encodes sess true).toList }
  | .accepted sess due => if due then refresh encodes sess (handler sess) else handler sess

/-- `POST /api/auth/logout`. -/
def handleLogout (sess : SessionValues) : Response :=
  match save encodes sess true with
  | none => { status := 500 }
  | some set => { status := 204, setCookies := [set] }

/-- The routes behind `authMiddleware`. Only logout sets session cookies; of the others the status matters. -/
inductive Route where
  | logout
  | other (status : ℕ)
  deriving DecidableEq

def Route.handler : Route → SessionValues → Response
  | .logout, sess => handleLogout encodes sess
  | .other status, _ => { status := status }

inductive Request where
  | login (state : Option String) (next : Bytes)
  | callback (state code : String)
  | authed (route : Route)
  deriving DecidableEq

def serve : Request → Presented → ℤ → Prog GitHubCall GitHubAnswer Response
  | .login state next, cookie, _ => return handleLogin encodes state next cookie
  | .callback state code, cookie, clock => handleCallback encodes state code cookie clock
  | .authed route, cookie, clock => return authMiddleware encodes cookie clock (route.handler encodes)

end Handlers

end GarageConsole.Sessions
