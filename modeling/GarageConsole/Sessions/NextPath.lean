import GarageConsole.Foundations.Url

/-! # The path to return to after login

`safeNextPath` checks a path given to the login route before it is kept in the session, and again when
the callback takes it out. The callback's redirect cleans the path as it is written, `#` and escapes
included, and so may lead to the API where the checked path does not.
-/

namespace GarageConsole.Sessions

open Foundations Foundations.Text Foundations.Url

set_option autoImplicit false

def maxLoginNextLen : ℕ := 1024

def backslash : UInt8 := 0x5C

def PointsAtApi (path : Bytes) : Prop := Path.clean path = bytes "/api" ∨ bytes "/api/" <+: Path.clean path

instance (path : Bytes) : Decidable (PointsAtApi path) := inferInstanceAs (Decidable (_ ∨ _))

/-- `raw`, or the empty string when it is no path to return to. -/
def safeNextPath (raw : Bytes) : Bytes :=
  if raw = [] ∨ maxLoginNextLen < raw.length ∨ raw.head? ≠ some Path.slash then []
  else if [Path.slash, Path.slash] <+: raw ∨ backslash ∈ raw then []
  -- a control character is one byte in UTF-8
  else if raw.any isControl then []
  else match parseRooted raw with
    | none => []
    | some path => if PointsAtApi path then [] else raw

/-- The `Location` of the callback for the path saved in the session, empty when there is none. -/
def callbackLocation (saved : Bytes) : Bytes :=
  redirectLocation (if safeNextPath saved ≠ [] then saved else [Path.slash])

/-- A path on the console's own pages, read as a browser reads it. -/
structure SafeLocation (loc : Bytes) : Prop where
  first : loc.head? = some Path.slash
  second : loc[1]? ≠ some Path.slash ∧ loc[1]? ≠ some backslash
  printable : ∀ b ∈ loc, 0x20 ≤ b ∧ b < 0x7F
  offApi : ∃ path, unescape (pathPart loc) = some path ∧ ¬PointsAtApi path

/-! ## What is accepted -/

structure Accepted (raw : Bytes) : Prop where
  rooted : raw.head? = some Path.slash
  noBackslash : backslash ∉ raw
  noControl : ∀ b ∈ raw, isControl b = false
  parses : ∃ path, parseRooted raw = some path ∧ ¬PointsAtApi path

theorem accepted_of_safeNextPath {raw : Bytes} (h : safeNextPath raw ≠ []) : Accepted raw := by
  rw [safeNextPath] at h
  split_ifs at h with hroot hhost hcontrol
  · exact absurd rfl h
  · exact absurd rfl h
  · exact absurd rfl h
  · simp only [not_or, not_not] at hroot hhost
    cases hparse : parseRooted raw with
    | none =>
      rw [hparse] at h
      exact absurd rfl h
    | some path =>
      rw [hparse] at h
      refine ⟨hroot.2.2, hhost.2, by simpa using hcontrol, path, hparse, ?_⟩
      intro hapi
      exact h (if_pos hapi)

theorem safeNextPath_eq (raw : Bytes) : safeNextPath raw = [] ∨ safeNextPath raw = raw := by
  rw [safeNextPath]
  split_ifs
  · exact .inl rfl
  · exact .inl rfl
  · exact .inl rfl
  · cases parseRooted raw with
    | none => exact .inl rfl
    | some path =>
      dsimp only
      split_ifs
      · exact .inl rfl
      · exact .inr rfl

/-! ## What the redirect makes of it -/

/-- The segments before the first `?` that are left when every `..` among them, as written, has taken
away the segment before it. -/
def survivors (saved : Bytes) : List Bytes := Path.resolve (Path.segments (saved.takeWhile (· ≠ question)))

/-- The segments, up to the first `#` in them, lead to `api` first once they are decoded. -/
def LeadToApi (ss : List Bytes) : Prop :=
  ∃ path, unescape ((Path.joined ss).takeWhile (· ≠ hash)) = some path ∧
    (Path.resolve (Path.segments path)).head? = some (bytes "api")

theorem pointsAtApi_iff (path : Bytes) :
    PointsAtApi path ↔ (Path.resolve (Path.segments path)).head? = some (bytes "api") :=
  Path.under_iff (x := bytes "api") (by decide) (by decide)

/-- What the browser reads from the cleaned target are the survivors, decoded and resolved once more. -/
theorem pathPart_cleanTarget {url path : Bytes} (h : parseRooted url = some path) :
    ∃ v w, unescape ((Path.joined (survivors url)).takeWhile (· ≠ hash)) = some v ∧
      unescape (pathPart (cleanTarget url)) = some w ∧
      Path.resolve (Path.segments w) = Path.resolve (Path.segments v) := by
  have hwhole : (unescape (Path.joined (survivors url))).isSome := by
    have hurl := unescape_of_parseRooted h
    rw [← Path.joined_segments (url.takeWhile (· ≠ question)), unescape_joined_isSome] at hurl
    exact unescape_joined_isSome.mpr fun s hs => hurl s ((Path.resolve_sublist _).subset hs)
  obtain ⟨v, hv⟩ := Option.isSome_iff_exists.mp (unescape_takeWhile_isSome apart_hash hwhole)
  have hslash : Path.slash ≠ percent := by decide
  have hkept : (Path.slash :: Path.joined (survivors url)).takeWhile (· ≠ hash) =
      Path.slash :: (Path.joined (survivors url)).takeWhile (· ≠ hash) := by
    rw [List.takeWhile_cons, if_pos (by decide)]
  refine ⟨v, ?_⟩
  rw [pathPart_eq, takeWhile_cleanTarget, cleanKeeping]
  split_ifs
  · rw [Path.clean, ← survivors, List.cons_append]
    rcases cut_cases hash (Path.joined (survivors url)) with ⟨hnone, -⟩ | ⟨l, r, hl, hnone, -⟩
    · -- the slash at the end belongs to the path
      rw [takeWhile_ne hnone] at hv
      refine ⟨Path.slash :: (v ++ [Path.slash]), by rw [takeWhile_ne hnone]; exact hv, ?_, by simp⟩
      rw [List.takeWhile_cons, if_pos (by decide), takeWhile_ne_append hnone, unescape_cons_of_ne hslash]
      have happ := unescape_append_cons apart_slash (Path.joined (survivors url)) []
      rw [hv] at happ
      rw [List.takeWhile_cons, if_pos (by decide), List.takeWhile_nil, happ]
      rfl
    · refine ⟨Path.slash :: v, hv, ?_, by simp⟩
      have hsame : (Path.joined (survivors url) ++ [Path.slash]).takeWhile (· ≠ hash) =
          (Path.joined (survivors url)).takeWhile (· ≠ hash) := by
        rw [hl, List.append_assoc, takeWhile_ne_append hnone, takeWhile_ne_append hnone]
        simp
      rw [List.takeWhile_cons, if_pos (by decide), hsame, unescape_cons_of_ne hslash, hv]
      rfl
  · refine ⟨Path.slash :: v, hv, ?_, by simp⟩
    rw [Path.clean, ← survivors, hkept, unescape_cons_of_ne hslash, hv]
    rfl

theorem offApi_cleanTarget {url path : Bytes} (h : parseRooted url = some path) :
    (∃ w, unescape (pathPart (hexEscapeNonASCII (cleanTarget url))) = some w ∧ ¬PointsAtApi w) ↔
      ¬LeadToApi (survivors url) := by
  obtain ⟨v, w, hv, hw, hsame⟩ := pathPart_cleanTarget h
  have hread := unescape_hexEscape hw
  rw [← pathPart_hexEscape] at hread
  rw [hread, LeadToApi, hv]
  simp only [Option.some.injEq, exists_eq_left', pointsAtApi_iff, hsame]

/-! ## The redirect -/

theorem safeLocation_root : SafeLocation [Path.slash] :=
  ⟨rfl, ⟨by decide, by decide⟩, by decide +kernel, [Path.slash], rfl, by decide +kernel⟩

theorem safeLocation_iff_offApi {saved : Bytes} (h : Accepted saved) :
    SafeLocation (hexEscapeNonASCII (cleanTarget saved)) ↔
      ∃ w, unescape (pathPart (hexEscapeNonASCII (cleanTarget saved))) = some w ∧ ¬PointsAtApi w := by
  refine ⟨SafeLocation.offApi, fun hoff => ?_⟩
  obtain ⟨t, ht, hhead⟩ := cleanTarget_eq_cons saved
  have hslash : Path.slash < 0x80 := by decide
  have hcontrol : ∀ b ∈ cleanTarget saved, isControl b = false := by
    intro b hb
    rcases mem_cleanTarget hb with rfl | hb
    · decide
    · exact h.noControl b hb
  refine ⟨?_, ?_, printable_hexEscape hcontrol, hoff⟩
  · rw [ht, hexEscape_cons_ascii hslash]
    rfl
  · rw [ht, hexEscape_cons_ascii hslash]
    cases t with
    | nil => exact ⟨nofun, nofun⟩
    | cons b t =>
      have hmem : b ∈ cleanTarget saved := ht ▸ List.mem_cons_of_mem _ List.mem_cons_self
      have hb : b ≠ Path.slash := fun hb => hhead (congrArg some hb)
      have hback : b ≠ backslash := by
        rintro rfl
        rcases mem_cleanTarget hmem with hmem | hmem
        · exact absurd hmem (by decide)
        · exact h.noBackslash hmem
      by_cases hascii : b < 0x80
      · rw [hexEscape_cons_ascii hascii]
        exact ⟨fun heq => hb (Option.some.inj heq), fun heq => hback (Option.some.inj heq)⟩
      · rw [hexEscape_cons, if_neg hascii]
        have hfirst : percent ≠ Path.slash ∧ percent ≠ backslash := by decide
        exact ⟨fun heq => hfirst.1 (Option.some.inj heq), fun heq => hfirst.2 (Option.some.inj heq)⟩

theorem callback_safe_iff (saved : Bytes) :
    SafeLocation (callbackLocation saved) ↔ safeNextPath saved = [] ∨ ¬LeadToApi (survivors saved) := by
  by_cases hsafe : safeNextPath saved = []
  · have hroot : callbackLocation saved = [Path.slash] := by
      rw [callbackLocation, if_neg (not_not.mpr hsafe)]
      decide +kernel
    rw [hroot]
    exact iff_of_true safeLocation_root (.inl hsafe)
  · have haccepted := accepted_of_safeNextPath hsafe
    obtain ⟨path, hparse, -⟩ := haccepted.parses
    have hloc : callbackLocation saved = hexEscapeNonASCII (cleanTarget saved) := by
      rw [callbackLocation, if_pos hsafe, redirectLocation, hparse]
    rw [hloc, or_iff_right hsafe, ← offApi_cleanTarget hparse]
    exact safeLocation_iff_offApi haccepted

/-- **Where the callback redirects to.** The `Location` for a value in the session, or for one given to the
login route, is a safe path exactly when the value is rejected, so that it is the root, or its segments
before the first `?` do not lead to the API once every `..` among them, as written, has taken away the
segment before it. -/
theorem redirect_safe_iff (saved next : Bytes) :
    (SafeLocation (callbackLocation saved) ↔ safeNextPath saved = [] ∨ ¬LeadToApi (survivors saved)) ∧
      (SafeLocation (callbackLocation (safeNextPath next)) ↔
        safeNextPath next = [] ∨ ¬LeadToApi (survivors next)) := by
  refine ⟨callback_safe_iff saved, ?_⟩
  rcases safeNextPath_eq next with hnext | hnext
  · have hempty : safeNextPath [] = [] := rfl
    rw [hnext]
    exact iff_of_true ((callback_safe_iff []).mpr (.inl hempty)) (.inl rfl)
  · have hsame : callbackLocation (safeNextPath next) = callbackLocation next := congrArg callbackLocation hnext
    rw [hsame]
    exact callback_safe_iff next

/-- A `..` in the fragment takes the `#` away: `/a#/../api/auth/logout` is accepted, as the path `/a`. -/
theorem redirect_to_api : ¬SafeLocation (callbackLocation (safeNextPath (bytes "/a#/../api/auth/logout"))) := by
  have hloc : callbackLocation (safeNextPath (bytes "/a#/../api/auth/logout")) = bytes "/api/auth/logout" := by
    decide +kernel
  rw [hloc]
  rintro ⟨-, -, -, path, hpath, hoff⟩
  obtain rfl : path = bytes "/api/auth/logout" := by
    have : unescape (pathPart (bytes "/api/auth/logout")) = some (bytes "/api/auth/logout") := by decide +kernel
    exact Option.some.inj (hpath.symm.trans this)
  exact hoff (by decide +kernel)

end GarageConsole.Sessions
