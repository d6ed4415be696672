import GarageConsole.Foundations.Ascii
import GarageConsole.Foundations.Json
import GarageConsole.Foundations.Numbers

/-! # Routing rules of a website

The rules are typed as JSON. The console checks each of them on its own and reports all that it finds, with the number
of the rule. A text is taken exactly when every rule reads as a rule whose parts go together, and a message has a
rule's number exactly when that rule does not (`routing_rules_accepted`).
-/

namespace GarageConsole.Buckets

open Foundations Foundations.Utf16

set_option autoImplicit false

/-! ## Rules as JSON

An object has its members in the order of `Object.keys`, each name once. -/

abbrev JsonObject := List (String × Json)

/-- What `JSON.parse` makes of a number: the double nearest to it. -/
def jsNumber : Number → Numbers.Number
  | .int n => Numbers.decimal (n < 0) n.natAbs 0
  | .minusZero => Numbers.decimal true 0 0
  | .dec mantissa exponent => Numbers.decimal (mantissa < 0) mantissa.natAbs exponent

/-- `JSON.parse`: a value, or what is wrong. -/
abbrev JsonParse := Units → Except String Json

def firstNonObject (items : List Json) : Option ℕ := items.findIdx? fun item => match item with
  | .obj _ => false
  | _ => true

def parseRulesJson (parseJson : JsonParse) (text : Units) : Except String (List Json) :=
  match parseJson (if trim text = [] then utf16 "[]" else text) with
  | .error message => .error ("JSON の構文エラー: " ++ message)
  | .ok (.arr items) =>
    match firstNonObject items with
    | some bad => .error (toString (bad + 1) ++ " 番目の要素がオブジェクトではありません")
    | none => .ok items
  | .ok _ => .error "ルールは JSON 配列 ([...]) で指定してください"

def ROUTING_RULES_EXAMPLE : List Json :=
  [.obj [("Condition", .obj [("KeyPrefixEquals", .str "old/")]),
     ("Redirect", .obj [("ReplaceKeyPrefixWith", .str "new/"), ("HttpRedirectCode", .num (.int 301))])],
   .obj [("Condition", .obj [("KeyPrefixEquals", .str "docs/")]),
     ("Redirect", .obj [("HostName", .str "docs.example.com"), ("Protocol", .str "https"),
       ("HttpRedirectCode", .num (.int 302))])]]

/-! ## Checks -/

def REDIRECT_CODES : List ℕ := [301, 302, 303, 307, 308]

def REWRITE_CODES : List ℕ := [200, 404]

def CONDITION_KEYS : List String := ["KeyPrefixEquals", "HttpErrorCodeReturnedEquals"]

def REDIRECT_KEYS : List String :=
  ["HostName", "Protocol", "HttpRedirectCode", "ReplaceKeyPrefixWith", "ReplaceKeyWith"]

/-- Neither absent nor null. -/
def given (obj : JsonObject) (key : String) : Option Json :=
  match obj.lookup key with
  | none | some .null => none
  | some v => some v

def present (obj : JsonObject) (key : String) : Bool := (given obj key).isSome

def unknownKeys (obj : JsonObject) (allowed : List String) : List String :=
  (obj.map Prod.fst).filter fun k => !allowed.contains k

def stringOf : Json → Option String
  | .str s => some s
  | _ => none

/-- Whether a value is the number `code`. -/
def isCode (code : ℕ) : Json → Bool
  | .num n => jsNumber n = Numbers.decimal false code 0
  | _ => false

/-- The message `text` if `wrong`. -/
def report (wrong : Bool) (text : String) : List String := if wrong then [text] else []

/-- Whether the member `key` is there and not a string. -/
def notString (obj : JsonObject) (key : String) : Bool := (given obj key).any fun v => (stringOf v).isNone

def conditionErrors (named : String → String) : Option Json → List String
  | none => []
  | some (.obj cond) =>
    (unknownKeys cond CONDITION_KEYS).map (fun k => named ("Condition に不明なキー \"" ++ k ++ "\" があります")) ++
    report (notString cond "KeyPrefixEquals") (named "Condition.KeyPrefixEquals は文字列で指定してください") ++
    report ((given cond "HttpErrorCodeReturnedEquals").any fun v => !isCode 404 v)
      (named "Condition.HttpErrorCodeReturnedEquals は 404 のみ指定できます")
  | some _ => [named "Condition はオブジェクトで指定してください"]

def joinCodes (codes : List ℕ) : String := " / ".intercalate (codes.map toString)

/-- The code of a list that a value is. -/
def codeIn (codes : List ℕ) (v : Json) : Option ℕ := codes.find? fun code => isCode code v

def codeErrors (named : String → String) (redirect : JsonObject) (code : Json) : List String :=
  let hasHost := ((redirect.lookup "HostName").bind stringOf).isSome
  let hasProtocol := ((redirect.lookup "Protocol").bind stringOf).isSome
  match codeIn REDIRECT_CODES code, codeIn REWRITE_CODES code with
  | some _, _ =>
    report (hasProtocol && !hasHost) (named "Redirect.Protocol を指定する場合は HostName も指定してください")
  | none, some n =>
    report (hasHost || hasProtocol)
      (named ("HttpRedirectCode が " ++ toString n ++ " のときは HostName / Protocol を指定できません"))
  | none, none =>
    [named ("Redirect.HttpRedirectCode は " ++ joinCodes REDIRECT_CODES ++ " (リダイレクト) か " ++
      joinCodes REWRITE_CODES ++ " (書き換え) で指定してください")]

def redirectErrors (named : String → String) : Option Json → List String
  | none => [named "Redirect は必須です"]
  | some (.obj redirect) =>
    (unknownKeys redirect REDIRECT_KEYS).map (fun k => named ("Redirect に不明なキー \"" ++ k ++ "\" があります")) ++
    ["HostName", "Protocol", "ReplaceKeyPrefixWith", "ReplaceKeyWith"].flatMap (fun k =>
      report (notString redirect k) (named ("Redirect." ++ k ++ " は文字列で指定してください"))) ++
    report (((redirect.lookup "Protocol").bind stringOf).any fun s => s ≠ "http" && s ≠ "https")
      (named "Redirect.Protocol は \"http\" か \"https\" で指定してください") ++
    report (present redirect "ReplaceKeyPrefixWith" && present redirect "ReplaceKeyWith")
      (named "Redirect.ReplaceKeyPrefixWith と ReplaceKeyWith は同時に指定できません") ++
    (given redirect "HttpRedirectCode").elim [] (codeErrors named redirect)
  | some _ => [named "Redirect はオブジェクトで指定してください"]

def validateRule (rule : Json) (start : String) : List String :=
  let named (text : String) := start ++ ": " ++ text
  match rule with
  | .obj rule =>
    (unknownKeys rule ["Condition", "Redirect"]).map
      (fun k => named ("不明なキー \"" ++ k ++ "\" があります (Condition / Redirect のみ指定できます)")) ++
    conditionErrors named (given rule "Condition") ++ redirectErrors named (given rule "Redirect")
  | _ => [named "オブジェクトではありません"]

def numberOfRule (i : ℕ) : String := toString (i + 1) ++ " 番目のルール"

def parseRoutingRules (parseJson : JsonParse) (text : Units) : Except (List String) (List Json) :=
  match parseRulesJson parseJson text with
  | .error message => .error [message]
  | .ok rules =>
    let errors := (rules.mapIdx fun i rule => validateRule rule (numberOfRule i)).flatten
    if errors ≠ [] then .error errors else .ok rules

/-! ## Rules -/

inductive Protocol where
  | http
  | https
  deriving DecidableEq

def Protocol.name : Protocol → String
  | http => "http"
  | https => "https"

inductive Replacement where
  | keyPrefix (s : String)
  | key (s : String)
  deriving DecidableEq

def Replacement.keyPrefixWith : Replacement → Option String
  | keyPrefix s => some s
  | key _ => none

def Replacement.keyWith : Replacement → Option String
  | keyPrefix _ => none
  | key s => some s

/-- A redirect may name a host, and a protocol with it; a rewrite names neither. -/
def GoTogether (hostName : Option String) (protocol : Option Protocol) (code : ℕ) : Prop :=
  code ∈ REDIRECT_CODES ∧ (protocol ≠ none → hostName ≠ none) ∨
    code ∈ REWRITE_CODES ∧ hostName = none ∧ protocol = none

structure RoutingRule where
  keyPrefixEquals : Option String
  /-- Only for objects that are not found. -/
  notFound : Bool
  hostName : Option String
  protocol : Option Protocol
  httpRedirectCode : Option ℕ
  replacement : Option Replacement
  together : ∀ code, httpRedirectCode = some code → GoTogether hostName protocol code

def OnlyKeys (obj : JsonObject) (allowed : List String) : Prop := ∀ k ∈ obj.map Prod.fst, k ∈ allowed

def SaysText (obj : JsonObject) (key : String) (s : Option String) : Prop := given obj key = s.map Json.str

def SaysCode (obj : JsonObject) (key : String) (code : Option ℕ) : Prop :=
  match code with
  | none => given obj key = none
  | some code => ∃ v, given obj key = some v ∧ isCode code v = true

structure SaysCondition (cond : JsonObject) (keyPrefixEquals : Option String) (notFound : Bool) : Prop where
  keys : OnlyKeys cond CONDITION_KEYS
  keyPrefixSaid : SaysText cond "KeyPrefixEquals" keyPrefixEquals
  codeSaid : SaysCode cond "HttpErrorCodeReturnedEquals" (if notFound then some 404 else none)

structure SaysRedirect (redirect : JsonObject) (hostName : Option String) (protocol : Option Protocol)
    (httpRedirectCode : Option ℕ) (replacement : Option Replacement) : Prop where
  keys : OnlyKeys redirect REDIRECT_KEYS
  hostSaid : SaysText redirect "HostName" hostName
  protocolSaid : SaysText redirect "Protocol" (protocol.map Protocol.name)
  codeSaid : SaysCode redirect "HttpRedirectCode" httpRedirectCode
  keyPrefixSaid : SaysText redirect "ReplaceKeyPrefixWith" (replacement.bind Replacement.keyPrefixWith)
  keySaid : SaysText redirect "ReplaceKeyWith" (replacement.bind Replacement.keyWith)

/-- The document says the rule and nothing else. A condition may be left out. -/
def RoutingRule.Says (rule : Json) (r : RoutingRule) : Prop :=
  ∃ members redirect, rule = .obj members ∧ OnlyKeys members ["Condition", "Redirect"] ∧
    ((given members "Condition" = none ∧ r.keyPrefixEquals = none ∧ r.notFound = false) ∨
      ∃ cond, given members "Condition" = some (.obj cond) ∧ SaysCondition cond r.keyPrefixEquals r.notFound) ∧
    given members "Redirect" = some (.obj redirect) ∧
    SaysRedirect redirect r.hostName r.protocol r.httpRedirectCode r.replacement

/-! ## No message, no problem -/

theorem report_eq_nil {wrong : Bool} {text : String} : report wrong text = [] ↔ wrong = false := by
  cases wrong <;> simp [report]

theorem unknownKeys_eq_nil {obj : JsonObject} {allowed : List String} :
    unknownKeys obj allowed = [] ↔ OnlyKeys obj allowed := by
  rw [unknownKeys, List.filter_eq_nil_iff, OnlyKeys]
  refine forall₂_congr fun k _ => ?_
  rw [Bool.not_eq_true', Bool.not_eq_false, List.contains_iff_mem]

theorem notString_eq_false {obj : JsonObject} {key : String} :
    notString obj key = false ↔ ∃ s, SaysText obj key s := by
  unfold notString SaysText
  cases given obj key with
  | none => exact iff_of_true rfl ⟨none, rfl⟩
  | some v =>
    cases v with
    | str s => exact iff_of_true rfl ⟨some s, rfl⟩
    | _ =>
      refine iff_of_false Bool.noConfusion ?_
      rintro ⟨s, hs⟩
      cases s <;> cases hs

theorem stringOf_lookup {obj : JsonObject} {key : String} {s : Option String} (h : SaysText obj key s) :
    (obj.lookup key).bind stringOf = s := by
  unfold SaysText given at h
  cases hlookup : obj.lookup key with
  | none =>
    rw [hlookup] at h
    cases s with
    | none => rfl
    | some s => cases h
  | some v =>
    rw [hlookup] at h
    cases v with
    | null =>
      cases s with
      | none => rfl
      | some s => cases h
    | str t =>
      cases s with
      | none => cases h
      | some s =>
        obtain rfl : t = s := by simpa using h
        rfl
    | _ => cases s <;> cases h

theorem present_text {obj : JsonObject} {key : String} {s : Option String} (h : SaysText obj key s) :
    present obj key = s.isSome := by
  rw [present, h, Option.isSome_map]

theorem conditionErrors_eq_nil {named : String → String} {cond : JsonObject} :
    conditionErrors named (some (.obj cond)) = [] ↔ ∃ keyPrefixEquals notFound,
      SaysCondition cond keyPrefixEquals notFound := by
  have hcode : ((given cond "HttpErrorCodeReturnedEquals").any fun v => !isCode 404 v) = false ↔
      ∃ notFound : Bool, SaysCode cond "HttpErrorCodeReturnedEquals" (if notFound then some 404 else none) := by
    cases hgiven : given cond "HttpErrorCodeReturnedEquals" with
    | none => exact iff_of_true rfl ⟨false, hgiven⟩
    | some v =>
      rw [Option.any_some, Bool.not_eq_false']
      constructor
      · exact fun hv => ⟨true, v, hgiven, hv⟩
      · rintro ⟨_ | _, h⟩
        · exact absurd (hgiven.symm.trans h) (Option.some_ne_none v)
        · obtain ⟨w, hw, hcode⟩ := h
          rwa [Option.some.inj (hgiven.symm.trans hw)]
  rw [conditionErrors, List.append_eq_nil_iff, List.append_eq_nil_iff, List.map_eq_nil_iff, unknownKeys_eq_nil,
    report_eq_nil, report_eq_nil, notString_eq_false, hcode]
  constructor
  · rintro ⟨⟨hkeys, keyPrefixEquals, hkeyPrefix⟩, notFound, hfound⟩
    exact ⟨keyPrefixEquals, notFound, hkeys, hkeyPrefix, hfound⟩
  · rintro ⟨keyPrefixEquals, notFound, h⟩
    exact ⟨⟨h.keys, keyPrefixEquals, h.keyPrefixSaid⟩, notFound, h.codeSaid⟩

theorem codeIn_some {codes : List ℕ} {v : Json} {code : ℕ} (h : codeIn codes v = some code) :
    code ∈ codes ∧ isCode code v = true := by
  rw [codeIn] at h
  exact ⟨List.mem_of_find?_eq_some h, List.find?_some (p := fun code => isCode code v) h⟩

/-- No number is the code of a redirect and of a rewrite. -/
theorem codes_apart : ∀ c ∈ REDIRECT_CODES, ∀ d ∈ REWRITE_CODES,
    Numbers.decimal false c 0 ≠ Numbers.decimal false d 0 := by decide +kernel

theorem codeIn_redirect_none {v : Json} {code : ℕ} (hcode : code ∈ REWRITE_CODES) (hv : isCode code v = true) :
    codeIn REDIRECT_CODES v = none := by
  rw [codeIn, List.find?_eq_none]
  intro c hc hcv
  cases v with
  | num n => exact codes_apart c hc code hcode ((of_decide_eq_true hcv).symm.trans (of_decide_eq_true hv))
  | _ => cases hv

theorem codeErrors_eq_nil {named : String → String} {redirect : JsonObject} {v : Json} {hostName : Option String}
    {protocol : Option Protocol} (hhost : SaysText redirect "HostName" hostName)
    (hprotocol : SaysText redirect "Protocol" (protocol.map Protocol.name)) :
    codeErrors named redirect v = [] ↔ ∃ code, isCode code v = true ∧ GoTogether hostName protocol code := by
  rw [codeErrors, stringOf_lookup hhost, stringOf_lookup hprotocol, Option.isSome_map]
  cases hredirect : codeIn REDIRECT_CODES v with
  | some c =>
    obtain ⟨hc, hcv⟩ := codeIn_some hredirect
    dsimp only
    rw [report_eq_nil]
    constructor
    · intro h
      refine ⟨c, hcv, .inl ⟨hc, fun hprotocol hhost => ?_⟩⟩
      rw [hhost, Option.isSome_none, Bool.not_false, Bool.and_true] at h
      exact hprotocol (Option.not_isSome_iff_eq_none.mp (by rw [h]; decide))
    · rintro ⟨code, hcode, ⟨-, hneeds⟩ | ⟨hrewrite, -⟩⟩
      · cases protocol with
        | none => rfl
        | some q =>
          obtain ⟨host, rfl⟩ := Option.ne_none_iff_exists'.mp (hneeds (Option.some_ne_none q))
          rfl
      · rw [codeIn_redirect_none hrewrite hcode] at hredirect
        cases hredirect
  | none =>
    have hnot {c : ℕ} (hc : c ∈ REDIRECT_CODES) : ¬isCode c v = true := List.find?_eq_none.mp hredirect c hc
    cases hrewrite : codeIn REWRITE_CODES v with
    | some c =>
      obtain ⟨hc, hcv⟩ := codeIn_some hrewrite
      dsimp only
      rw [report_eq_nil, Bool.or_eq_false_iff, ← Bool.not_eq_true, ← Bool.not_eq_true, Option.not_isSome_iff_eq_none,
        Option.not_isSome_iff_eq_none]
      constructor
      · exact fun h => ⟨c, hcv, .inr ⟨hc, h⟩⟩
      · rintro ⟨code, hcode, ⟨hin, -⟩ | ⟨-, hneither⟩⟩
        · exact absurd hcode (hnot hin)
        · exact hneither
    | none =>
      refine iff_of_false (List.cons_ne_nil _ _) ?_
      rintro ⟨code, hcode, ⟨hin, -⟩ | ⟨hin, -⟩⟩
      · exact absurd hcode (hnot hin)
      · exact absurd hcode (List.find?_eq_none.mp hrewrite code hin)

/-- What the checks of a protocol that is a string ask for. -/
theorem protocol_named {s : Option String} : (s.any fun s => s ≠ "http" && s ≠ "https") = false ↔
    ∃ protocol : Option Protocol, s = protocol.map Protocol.name := by
  cases s with
  | none => exact iff_of_true rfl ⟨none, rfl⟩
  | some s =>
    rw [Option.any_some, Bool.and_eq_false_iff, decide_eq_false_iff_not, decide_eq_false_iff_not, not_not, not_not]
    constructor
    · rintro (rfl | rfl)
      · exact ⟨some .http, rfl⟩
      · exact ⟨some .https, rfl⟩
    · rintro ⟨_ | _ | _, h⟩
      · cases h
      · exact .inl (Option.some.inj h)
      · exact .inr (Option.some.inj h)

/-- A rule replaces at most one of the two. -/
theorem replacement_of {keyPrefix key : Option String} (h : (keyPrefix.isSome && key.isSome) = false) :
    ∃ replacement : Option Replacement, keyPrefix = replacement.bind Replacement.keyPrefixWith ∧
      key = replacement.bind Replacement.keyWith := by
  cases keyPrefix with
  | none =>
    cases key with
    | none => exact ⟨none, rfl, rfl⟩
    | some s => exact ⟨some (.key s), rfl, rfl⟩
  | some s =>
    cases key with
    | none => exact ⟨some (.keyPrefix s), rfl, rfl⟩
    | some _ => cases h

theorem redirectErrors_eq_nil {named : String → String} {redirect : JsonObject} :
    redirectErrors named (some (.obj redirect)) = [] ↔ ∃ host protocol httpRedirectCode replacement,
      SaysRedirect redirect host protocol httpRedirectCode replacement ∧
        ∀ code, httpRedirectCode = some code → GoTogether host protocol code := by
  rw [redirectErrors]
  simp only [List.append_eq_nil_iff, List.map_eq_nil_iff, unknownKeys_eq_nil, report_eq_nil, List.flatMap_cons,
    List.flatMap_nil, List.append_nil, notString_eq_false]
  constructor
  · rintro ⟨⟨⟨⟨hkeys, ⟨host, hhost⟩, ⟨s, hs⟩, ⟨keyPrefix, hkeyPrefix⟩, key, hkey⟩, hnamed⟩, hboth⟩, hcode⟩
    rw [stringOf_lookup hs] at hnamed
    obtain ⟨protocol, rfl⟩ := protocol_named.mp hnamed
    rw [present_text hkeyPrefix, present_text hkey] at hboth
    obtain ⟨replacement, rfl, rfl⟩ := replacement_of hboth
    cases hgiven : given redirect "HttpRedirectCode" with
    | none => exact ⟨host, protocol, none, replacement, ⟨hkeys, hhost, hs, hgiven, hkeyPrefix, hkey⟩, nofun⟩
    | some v =>
      rw [hgiven, Option.elim_some, codeErrors_eq_nil hhost hs] at hcode
      obtain ⟨code, hcode, htogether⟩ := hcode
      refine ⟨host, protocol, some code, replacement, ⟨hkeys, hhost, hs, ⟨v, hgiven, hcode⟩, hkeyPrefix, hkey⟩, ?_⟩
      rintro _ ⟨⟩
      exact htogether
  · rintro ⟨host, protocol, httpRedirectCode, replacement, h, htogether⟩
    refine ⟨⟨⟨⟨h.keys, ⟨_, h.hostSaid⟩, ⟨_, h.protocolSaid⟩, ⟨_, h.keyPrefixSaid⟩, _, h.keySaid⟩, ?_⟩, ?_⟩, ?_⟩
    · rw [stringOf_lookup h.protocolSaid]
      exact protocol_named.mpr ⟨protocol, rfl⟩
    · rw [present_text h.keyPrefixSaid, present_text h.keySaid]
      cases replacement with
      | none => rfl
      | some r => cases r <;> rfl
    · cases httpRedirectCode with
      | none =>
        rw [show given redirect "HttpRedirectCode" = none from h.codeSaid]
        rfl
      | some code =>
        obtain ⟨v, hgiven, hcode⟩ := h.codeSaid
        rw [hgiven, Option.elim_some, codeErrors_eq_nil h.hostSaid h.protocolSaid]
        exact ⟨code, hcode, htogether code rfl⟩

/-- A rule is reported on exactly if it says no rule whose parts go together. -/
theorem validateRule_eq_nil {rule : Json} (start : String) :
    validateRule rule start = [] ↔ ∃ r : RoutingRule, r.Says rule := by
  cases rule with
  | obj members =>
    rw [validateRule]
    dsimp only
    rw [List.append_eq_nil_iff, List.append_eq_nil_iff, List.map_eq_nil_iff, unknownKeys_eq_nil]
    constructor
    · rintro ⟨⟨hkeys, hcondition⟩, hredirect⟩
      have hcondition : ∃ keyPrefixEquals notFound,
          (given members "Condition" = none ∧ keyPrefixEquals = none ∧ notFound = false) ∨
            ∃ cond, given members "Condition" = some (.obj cond) ∧ SaysCondition cond keyPrefixEquals notFound := by
        cases hgiven : given members "Condition" with
        | none => exact ⟨none, false, .inl ⟨rfl, rfl, rfl⟩⟩
        | some v =>
          rw [hgiven] at hcondition
          cases v with
          | obj cond =>
            obtain ⟨keyPrefixEquals, notFound, h⟩ := conditionErrors_eq_nil.mp hcondition
            exact ⟨keyPrefixEquals, notFound, .inr ⟨cond, rfl, h⟩⟩
          | _ => cases hcondition
      obtain ⟨keyPrefixEquals, notFound, hsaid⟩ := hcondition
      cases hgiven : given members "Redirect" with
      | none => rw [hgiven] at hredirect; cases hredirect
      | some v =>
        rw [hgiven] at hredirect
        cases v with
        | obj redirect =>
          obtain ⟨host, protocol, code, replacement, h, htogether⟩ := redirectErrors_eq_nil.mp hredirect
          exact ⟨⟨keyPrefixEquals, notFound, host, protocol, code, replacement, htogether⟩, members, redirect, rfl,
            hkeys, hsaid, hgiven, h⟩
        | _ => cases hredirect
    · rintro ⟨r, _, redirect, ⟨⟩, hkeys, hcondition, hgiven, h⟩
      refine ⟨⟨hkeys, ?_⟩, ?_⟩
      · obtain ⟨hnone, -, -⟩ | ⟨cond, hcond, hsaid⟩ := hcondition
        · rw [hnone]
          rfl
        · rw [hcond]
          exact conditionErrors_eq_nil.mpr ⟨_, _, hsaid⟩
      · rw [hgiven]
        exact redirectErrors_eq_nil.mpr ⟨_, _, _, _, h, r.together⟩
  | _ =>
    refine iff_of_false (List.cons_ne_nil _ _) ?_
    rintro ⟨r, members, redirect, h, -⟩
    cases h

/-- The example that the editor offers passes. -/
theorem example_sound : ∀ rule ∈ ROUTING_RULES_EXAMPLE, ∃ r : RoutingRule, r.Says rule := by
  intro rule hrule
  refine (validateRule_eq_nil "").mp ?_
  simp only [ROUTING_RULES_EXAMPLE, List.mem_cons, List.not_mem_nil, or_false] at hrule
  obtain rfl | rfl := hrule <;> decide +kernel

/-! ## Whose message it is -/

def AllNamed (named : String → String) (errors : List String) : Prop := ∀ e ∈ errors, ∃ text, e = named text

section

variable {named : String → String}

theorem AllNamed.append {errors more : List String} (h : AllNamed named errors) (hmore : AllNamed named more) :
    AllNamed named (errors ++ more) := fun e he => (List.mem_append.mp he).elim (h e) (hmore e)

theorem AllNamed.flatMap {α : Type} {l : List α} {f : α → List String} (h : ∀ a ∈ l, AllNamed named (f a)) :
    AllNamed named (l.flatMap f) := by
  intro e he
  obtain ⟨a, ha, he⟩ := List.mem_flatMap.mp he
  exact h a ha e he

theorem allNamed_nil : AllNamed named [] := fun _ he => absurd he List.not_mem_nil

theorem allNamed_single (text : String) : AllNamed named [named text] := fun _ he => ⟨text, List.mem_singleton.mp he⟩

theorem allNamed_report (wrong : Bool) (text : String) : AllNamed named (report wrong (named text)) := by
  cases wrong
  · exact allNamed_nil
  · exact allNamed_single text

theorem allNamed_map {α : Type} (l : List α) (text : α → String) : AllNamed named (l.map fun a => named (text a)) := by
  intro e he
  obtain ⟨a, -, rfl⟩ := List.mem_map.mp he
  exact ⟨text a, rfl⟩

theorem allNamed_conditionErrors (cond : Option Json) : AllNamed named (conditionErrors named cond) := by
  unfold conditionErrors
  split
  · exact allNamed_nil
  · exact ((allNamed_map _ _).append (allNamed_report _ _)).append (allNamed_report _ _)
  · exact allNamed_single _

theorem allNamed_codeErrors (redirect : JsonObject) (code : Json) :
    AllNamed named (codeErrors named redirect code) := by
  unfold codeErrors
  dsimp only
  split
  · exact allNamed_report _ _
  · exact allNamed_report _ _
  · exact allNamed_single _

theorem allNamed_redirectErrors (redirect : Option Json) : AllNamed named (redirectErrors named redirect) := by
  unfold redirectErrors
  split
  · exact allNamed_single _
  · rename_i members
    refine ((((allNamed_map _ _).append (AllNamed.flatMap fun _ _ => allNamed_report _ _)).append
      (allNamed_report _ _)).append (allNamed_report _ _)).append ?_
    cases given members "HttpRedirectCode" with
    | none => exact allNamed_nil
    | some v => exact allNamed_codeErrors members v
  · exact allNamed_single _

end

theorem allNamed_validateRule (rule : Json) (start : String) :
    AllNamed (fun text => start ++ ": " ++ text) (validateRule rule start) := by
  unfold validateRule
  dsimp only
  split
  · exact ((allNamed_map _ _).append (allNamed_conditionErrors _)).append (allNamed_redirectErrors _)
  · exact allNamed_single _

/-- The number of a rule can be read off its messages. -/
theorem numberOfRule_injective {i j : ℕ} {message message' : String}
    (h : numberOfRule i ++ ": " ++ message = numberOfRule j ++ ": " ++ message') : i = j := by
  have hdigits (k : ℕ) (rest : String) :
      (numberOfRule k ++ ": " ++ rest).toList.takeWhile Char.isDigit = (toString (k + 1)).toList := by
    have hall : ∀ c ∈ (toString (k + 1)).toList, c.isDigit = true := by
      intro c hc
      rw [Nat.toString_eq_repr, Nat.toList_repr] at hc
      exact Nat.isDigit_of_mem_toDigits (by decide) (by decide) hc
    have hlist : (numberOfRule k ++ ": " ++ rest).toList =
        (toString (k + 1)).toList ++ ' ' :: ("番目のルール: ".toList ++ rest.toList) := by
      simp [numberOfRule]
    rw [hlist, List.takeWhile_append_of_pos hall, List.takeWhile_cons_of_neg (by decide), List.append_nil]
  have hnumbers : toString (i + 1) = toString (j + 1) := by
    rw [← String.toList_inj, ← hdigits i message, ← hdigits j message', h]
  exact Nat.succ_injective (Text.decimal_injective (congrArg Text.bytes hnumbers))

/-- **Exactly the rules that say something sound are taken.** A text is taken if it is an array of objects and each of
them says a rule whose parts go together; then the rules are sent as they were typed. Of an array of objects that is
not taken each message has the number of a rule, and a rule's number is in a message exactly if the rule says nothing
sound. -/
theorem routing_rules_accepted (parseJson : JsonParse) (text : Units) :
    (∀ rules, parseRoutingRules parseJson text = .ok rules ↔
      parseRulesJson parseJson text = .ok rules ∧ ∀ rule ∈ rules, ∃ r : RoutingRule, r.Says rule) ∧
    ∀ rules errors, parseRulesJson parseJson text = .ok rules → parseRoutingRules parseJson text = .error errors →
      (∀ e ∈ errors, ∃ i < rules.length, ∃ message, e = numberOfRule i ++ ": " ++ message) ∧
      ∀ (i : ℕ) (hi : i < rules.length), (∃ message, numberOfRule i ++ ": " ++ message ∈ errors) ↔
        ¬∃ r : RoutingRule, r.Says rules[i] := by
  have hflat {rules : List Json} {e : String} :
      e ∈ (rules.mapIdx fun i rule => validateRule rule (numberOfRule i)).flatten ↔
        ∃ (i : ℕ) (hi : i < rules.length), e ∈ validateRule rules[i] (numberOfRule i) := by
    rw [List.mem_flatten]
    constructor
    · rintro ⟨_, hl, he⟩
      obtain ⟨i, hi, rfl⟩ := List.mem_mapIdx.mp hl
      exact ⟨i, hi, he⟩
    · rintro ⟨i, hi, he⟩
      exact ⟨_, List.mem_mapIdx.mpr ⟨i, hi, rfl⟩, he⟩
  refine ⟨fun rules => ?_, fun rules errors hrules herrors => ?_⟩
  · rw [parseRoutingRules]
    cases hparsed : parseRulesJson parseJson text with
    | error message => exact iff_of_false (fun h => by cases h) fun h => by cases h.1
    | ok items =>
      dsimp only
      have hnone : (items.mapIdx fun i rule => validateRule rule (numberOfRule i)).flatten = [] ↔
          ∀ rule ∈ items, ∃ r : RoutingRule, r.Says rule := by
        rw [List.eq_nil_iff_forall_not_mem]
        constructor
        · intro h rule hrule
          obtain ⟨i, hi, rfl⟩ := List.getElem_of_mem hrule
          refine (validateRule_eq_nil (numberOfRule i)).mp (List.eq_nil_iff_forall_not_mem.mpr fun e he => ?_)
          exact h e (hflat.mpr ⟨i, hi, he⟩)
        · intro h e he
          obtain ⟨i, hi, he⟩ := hflat.mp he
          rw [(validateRule_eq_nil _).mpr (h _ (List.getElem_mem hi))] at he
          exact List.not_mem_nil he
      rw [ite_not]
      split_ifs with hempty
      · constructor
        · rintro ⟨⟩
          exact ⟨rfl, hnone.mp hempty⟩
        · rintro ⟨⟨⟩, -⟩
          rfl
      · refine iff_of_false (fun h => by cases h) ?_
        rintro ⟨⟨⟩, hall⟩
        exact hempty (hnone.mpr hall)
  · rw [parseRoutingRules, hrules] at herrors
    dsimp only at herrors
    split_ifs at herrors
    obtain rfl := Except.error.inj herrors
    refine ⟨fun e he => ?_, fun i hi => ?_⟩
    · obtain ⟨i, hi, he⟩ := hflat.mp he
      exact ⟨i, hi, allNamed_validateRule _ _ e he⟩
    · rw [← validateRule_eq_nil (numberOfRule i)]
      constructor
      · rintro ⟨message, hmessage⟩ hnil
        obtain ⟨j, hj, hin⟩ := hflat.mp hmessage
        obtain ⟨text', htext⟩ := allNamed_validateRule _ _ _ hin
        obtain rfl := numberOfRule_injective htext
        rw [hnil] at hin
        exact List.not_mem_nil hin
      · intro hne
        obtain ⟨e, he⟩ := List.exists_mem_of_ne_nil _ hne
        obtain ⟨message, rfl⟩ := allNamed_validateRule _ _ e he
        exact ⟨message, hflat.mpr ⟨i, hi, he⟩⟩

end GarageConsole.Buckets
