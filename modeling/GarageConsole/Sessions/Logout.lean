import Mathlib.Data.List.Induction
import GarageConsole.Sessions.Sliding

/-! # Logging out with other requests in flight

A browser has requests in flight, one of them the logout. The server handles each at some time and each
response is processed when it arrives, in any order. A response that refreshes the session and arrives
after the logout's puts the session back.
-/

namespace GarageConsole.Sessions

open Foundations

set_option autoImplicit false

variable {encodes : SessionValues → Bool}

/-- A request behind `authMiddleware`, with the cookie it was sent with and the time it is handled. -/
structure InFlight where
  route : Route
  cookie : Presented
  clock : ℤ

def InFlight.response (encodes : SessionValues → Bool) (f : InFlight) : Response :=
  authMiddleware encodes f.cookie f.clock (f.route.handler encodes)

def jarAfter (encodes : SessionValues → Bool) (jar : Presented) (arrived : List InFlight) : Presented :=
  arrived.foldl (fun jar f => jar.after (f.response encodes)) jar

def Presented.acceptable (jar : Presented) (clock : ℤ) : Prop := ∃ sess due, checkSession jar clock = .accepted sess due

/-! ## What a response does to the jar -/

/-- The request is due for a refresh when it is handled, and refreshes the session. -/
def InFlight.Refreshes (encodes : SessionValues → Bool) (f : InFlight) (sess : SessionValues) : Prop :=
  f.route ≠ .logout ∧ checkSession f.cookie f.clock = .accepted sess true ∧ encodes sess = true

def InFlight.Expires (encodes : SessionValues → Bool) (f : InFlight) : Prop :=
  ∃ sess, encodes sess = true ∧ (checkSession f.cookie f.clock = .expired sess ∨
    f.route = .logout ∧ ∃ due, checkSession f.cookie f.clock = .accepted sess due)

theorem after_of_refreshes {f : InFlight} {sess : SessionValues} (h : f.Refreshes encodes sess) (jar : Presented) :
    jar.after (f.response encodes) = .decoded sess := by
  obtain ⟨hroute, hcheck, hfits⟩ := h
  rw [InFlight.response, authMiddleware, hcheck]
  cases hr : f.route with
  | logout => exact absurd hr hroute
  | other status =>
    dsimp only
    rw [if_pos rfl, refresh_of_none rfl, save_of_fits hfits]
    rfl

theorem after_of_expires {f : InFlight} (h : f.Expires encodes) (jar : Presented) :
    jar.after (f.response encodes) = .absent := by
  obtain ⟨sess, hfits, hcheck | ⟨hroute, due, hcheck⟩⟩ := h
  · rw [InFlight.response, authMiddleware, hcheck]
    dsimp only
    rw [save_of_fits hfits]
    rfl
  · rw [InFlight.response, authMiddleware, hcheck, hroute]
    dsimp only
    have hlogout : Route.logout.handler encodes sess = ⟨204, [⟨sess, true⟩], none⟩ := by
      rw [Route.handler, handleLogout, save_of_fits hfits]
    rw [hlogout]
    cases due <;> rfl

theorem after_of_neither {f : InFlight} (hrefresh : ∀ sess, ¬f.Refreshes encodes sess) (hexpire : ¬f.Expires encodes)
    (jar : Presented) : jar.after (f.response encodes) = jar := by
  have hnone : (f.response encodes).setCookies = [] := by
    rw [InFlight.response, authMiddleware]
    cases hcheck : checkSession f.cookie f.clock with
    | unauthenticated => rfl
    | expired sess =>
      have hfits : ¬encodes sess = true := fun hfits => hexpire ⟨sess, hfits, .inl hcheck⟩
      dsimp only
      rw [save, if_neg hfits]
      rfl
    | accepted sess due =>
      dsimp only
      cases hroute : f.route with
      | logout =>
        have hfits : ¬encodes sess = true := fun hfits => hexpire ⟨sess, hfits, .inr ⟨hroute, due, hcheck⟩⟩
        have hlogout : Route.logout.handler encodes sess = ⟨500, [], none⟩ := by
          rw [Route.handler, handleLogout, save, if_neg hfits]
        rw [hlogout, refresh_of_none rfl, save, if_neg hfits]
        cases due <;> rfl
      | other status =>
        cases due with
        | false => rfl
        | true =>
          have hother : f.route ≠ .logout := by
            intro hlogout
            cases hroute.symm.trans hlogout
          have hfits : ¬encodes sess = true := fun hfits => hrefresh sess ⟨hother, hcheck, hfits⟩
          rw [if_pos rfl, refresh_of_none rfl, save, if_neg hfits]
          rfl
  rw [Presented.after, hnone]
  rfl

/-! ## The end -/

/-- The last response that changes the jar is a refresh, and the refreshed session is not over. -/
def Undone (encodes : SessionValues → Bool) (arrived : List InFlight) (clock : ℤ) : Prop :=
  ∃ before f after sess, arrived = before ++ f :: after ∧ f.Refreshes encodes sess ∧ sess.over clock = false ∧
    ∀ g ∈ after, ¬g.Expires encodes ∧ ∀ sess', ¬g.Refreshes encodes sess'

theorem InFlight.Refreshes.acceptable_iff {f : InFlight} {sess : SessionValues} (h : f.Refreshes encodes sess)
    (clock : ℤ) : (Presented.decoded sess).acceptable clock ↔ sess.over clock = false := by
  have hname : sess.username.getD "" ≠ "" := by
    rw [(checkSession_reissued (.inr ⟨true, h.2.1⟩)).username]
    exact (checkSession_accepted h.2.1).1
  exact checkValues_accepted_iff.trans (and_iff_right hname)

theorem jarAfter_append (jar : Presented) (arrived : List InFlight) (f : InFlight) :
    jarAfter encodes jar (arrived ++ [f]) = (jarAfter encodes jar arrived).after (f.response encodes) := by
  rw [jarAfter, List.foldl_append]
  rfl

theorem undone_append_iff {arrived : List InFlight} {f : InFlight} {clock : ℤ} :
    Undone encodes (arrived ++ [f]) clock ↔
      (∃ sess, f.Refreshes encodes sess ∧ sess.over clock = false) ∨
        (¬f.Expires encodes ∧ ∀ sess, ¬f.Refreshes encodes sess) ∧ Undone encodes arrived clock := by
  constructor
  · rintro ⟨before, g, after, sess, hsplit, hrefresh, hover, hafter⟩
    rcases after.eq_nil_or_concat' with rfl | ⟨after', x, rfl⟩
    · obtain ⟨-, hf⟩ := List.append_inj' hsplit rfl
      obtain rfl : f = g := List.singleton_inj.mp hf
      exact .inl ⟨sess, hrefresh, hover⟩
    · rw [← List.cons_append, ← List.append_assoc] at hsplit
      obtain ⟨harrived, hf⟩ := List.append_inj' hsplit rfl
      obtain rfl : f = x := List.singleton_inj.mp hf
      refine .inr ⟨hafter f (by simp), before, g, after', sess, harrived, hrefresh, hover, ?_⟩
      exact fun g' hg' => hafter g' (List.mem_append_left _ hg')
  · rintro (⟨sess, hrefresh, hover⟩ | ⟨hneither, before, g, after, sess, rfl, hrefresh, hover, hafter⟩)
    · exact ⟨arrived, f, [], sess, rfl, hrefresh, hover, fun g hg => absurd hg List.not_mem_nil⟩
    · refine ⟨before, g, after ++ [f], sess, by simp, hrefresh, hover, ?_⟩
      intro g' hg'
      rcases List.mem_append.mp hg' with hg' | hg'
      · exact hafter g' hg'
      · rwa [List.mem_singleton.mp hg']

theorem InFlight.Expires.not_refreshes {f : InFlight} (h : f.Expires encodes) (sess : SessionValues) :
    ¬f.Refreshes encodes sess := by
  rintro ⟨hroute, haccepted, -⟩
  obtain ⟨sess', -, hcheck | ⟨hlogout, -⟩⟩ := h
  · cases haccepted.symm.trans hcheck
  · exact hroute hlogout

theorem acceptable_iff_undone {jar : Presented} {clock : ℤ} {arrived : List InFlight}
    (hexpires : ∃ f ∈ arrived, f.Expires encodes) :
    (jarAfter encodes jar arrived).acceptable clock ↔ Undone encodes arrived clock := by
  induction arrived using List.reverseRecOn with
  | nil =>
    obtain ⟨f, hf, -⟩ := hexpires
    exact absurd hf List.not_mem_nil
  | append_singleton arrived f ih =>
    rw [jarAfter_append, undone_append_iff]
    by_cases hexpire : f.Expires encodes
    · rw [after_of_expires hexpire]
      refine iff_of_false ?_ ?_
      · rintro ⟨sess, due, hcheck⟩
        exact (checkSession_accepted hcheck).1 rfl
      · rintro (⟨sess, hrefresh, -⟩ | ⟨⟨hnot, -⟩, -⟩)
        · exact hexpire.not_refreshes sess hrefresh
        · exact hnot hexpire
    · by_cases hrefresh : ∃ sess, f.Refreshes encodes sess
      · obtain ⟨sess, hrefresh⟩ := hrefresh
        rw [after_of_refreshes hrefresh, hrefresh.acceptable_iff clock]
        constructor
        · exact fun hover => .inl ⟨sess, hrefresh, hover⟩
        · rintro (⟨sess', hrefresh', hover⟩ | ⟨⟨-, hnot⟩, -⟩)
          · cases hrefresh.2.1.symm.trans hrefresh'.2.1
            exact hover
          · exact absurd hrefresh (hnot sess)
      · rw [not_exists] at hrefresh
        rw [after_of_neither hrefresh hexpire]
        have hrest : ∃ g ∈ arrived, g.Expires encodes := by
          obtain ⟨g, hg, hgexpires⟩ := hexpires
          rcases List.mem_append.mp hg with hg | hg
          · exact ⟨g, hg, hgexpires⟩
          · rw [List.mem_singleton.mp hg] at hgexpires
            exact absurd hgexpires hexpire
        rw [ih hrest]
        constructor
        · exact fun hundone => .inr ⟨⟨hexpire, hrefresh⟩, hundone⟩
        · rintro (⟨sess, hsess, -⟩ | ⟨-, hundone⟩)
          · exact absurd hsess (hrefresh sess)
          · exact hundone

/-- **When a logout holds.** However the requests are handled and their responses arrive, the browser is left
without an acceptable session exactly when the last response that changes its jar is no refresh, or the
refreshed session is over. -/
theorem logout_holds_iff {jar : Presented} {clock : ℤ} {handled arrived : List InFlight} {logout : InFlight}
    {sess : SessionValues} (horder : arrived.Perm handled) (hmem : logout ∈ handled) (hroute : logout.route = .logout)
    (hsess : checkSession logout.cookie logout.clock = .expired sess ∨
      ∃ due, checkSession logout.cookie logout.clock = .accepted sess due)
    (hfits : encodes sess = true) :
    ¬(jarAfter encodes jar arrived).acceptable clock ↔ ¬Undone encodes arrived clock := by
  refine not_congr (acceptable_iff_undone ⟨logout, horder.mem_iff.mpr hmem, sess, hfits, ?_⟩)
  exact hsess.imp_right fun haccepted => ⟨hroute, haccepted⟩

/-- The session of a login at 10 s, in the requests of one browser: a page handled at 399 s, which refreshes
it, and the logout handled at 400 s. -/
def pageInFlight : InFlight := ⟨.other 200, .decoded (loggedIn octocat (10 * second)), 399 * second⟩

def logoutInFlight : InFlight := ⟨.logout, .decoded (loggedIn octocat (10 * second)), 400 * second⟩

/-- The page's response arrives after the logout's, and the browser is logged in again. -/
theorem logout_undone :
    (jarAfter (fun _ => true) (.decoded (loggedIn octocat (10 * second))) [logoutInFlight, pageInFlight]).acceptable
      (401 * second) :=
  ⟨{ loggedIn octocat (10 * second) with refreshedAt := some 399 }, false, by decide +kernel⟩

theorem logout_undone_iff :
    ¬(jarAfter (fun _ => true) (.decoded (loggedIn octocat (10 * second))) [logoutInFlight, pageInFlight]).acceptable
      (401 * second) ↔ ¬Undone (fun _ => true) [logoutInFlight, pageInFlight] (401 * second) := by
  have hcheck : checkSession logoutInFlight.cookie logoutInFlight.clock =
      .accepted { loggedIn octocat (10 * second) with refreshedAt := some 400 } true := by decide +kernel
  exact logout_holds_iff (.swap pageInFlight logoutInFlight []) (by simp) rfl (.inr ⟨true, hcheck⟩) rfl

end GarageConsole.Sessions
