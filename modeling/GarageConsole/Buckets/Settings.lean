import GarageConsole.Buckets.RoutingRules
import GarageConsole.Foundations.ServerForm
import GarageConsole.Foundations.Systems

/-! # Settings of a bucket

Each card has a form over its part of the bucket's details, which may be fetched again at any time, and saves on its
own. Website rules that are not touched are not sent, and whatever the run, they only go away after a dialog that says
so was confirmed (`website_rules_kept`). What is typed stays whatever is fetched (`website_edits_kept`). The rules of
the other two cards go away without a dialog only if there were none when the form was filled
(`rules_not_deleted_unasked`).
-/

namespace GarageConsole.Buckets

open Foundations Foundations.Utf16 Foundations.Systems

set_option autoImplicit false

/-- `JSON.stringify` of rules, indented by two. -/
abbrev Stringify := List Json → Units

def rulesToText (stringify : Stringify) (rules : Option (List Json)) : Units := stringify (rules.getD [])

/-! ## Website access -/

structure WebsiteConfig where
  indexDocument : Units
  errorDocument : Option Units
  routingRules : Option (List Json)

/-- What the details of a bucket say about its website. -/
structure WebsiteDetail where
  websiteAccess : Bool
  websiteConfig : Option WebsiteConfig

structure WebsiteForm where
  enabled : Bool
  indexDocument : Units
  errorDocument : Units
  rulesText : Units
  deriving DecidableEq

structure WebsiteServer extends WebsiteForm where
  ruleCount : ℕ
  deriving DecidableEq

def websiteServer (stringify : Stringify) (b : WebsiteDetail) : WebsiteServer :=
  let rules := b.websiteConfig.bind WebsiteConfig.routingRules
  { enabled := b.websiteAccess
    indexDocument := b.websiteConfig.elim (utf16 "index.html") WebsiteConfig.indexDocument
    errorDocument := (b.websiteConfig.bind WebsiteConfig.errorDocument).getD []
    rulesText := rulesToText stringify rules
    ruleCount := rules.elim 0 List.length }

def websiteForm : WebsiteServer → WebsiteForm := WebsiteServer.toWebsiteForm

inductive WebsiteAccess where
  | disabled
  | enabled (indexDocument : Units) (errorDocument : Option Units) (routingRules : Option (List Json))
  deriving DecidableEq

inductive WebsiteConfirm where
  | disable
  | clearRules (body : WebsiteAccess)
  | insertExample
  deriving DecidableEq

/-- A request to save, with the dialog that was confirmed for it and the rules that were shown. -/
structure WebsiteRequest where
  websiteAccess : WebsiteAccess
  confirmed : Option WebsiteConfirm
  rulesText : Units
  deriving DecidableEq

structure WebsiteCard where
  fields : ServerForm WebsiteServer WebsiteForm
  confirm : Option WebsiteConfirm := none
  pending : Option WebsiteRequest := none
  /-- Every request that was sent. -/
  sent : List WebsiteRequest := []

inductive WebsiteEvent where
  | refetched (b : WebsiteDetail)
  | setEnabled (v : Bool)
  | setIndexDocument (s : Units)
  | setErrorDocument (s : Units)
  | setRulesText (s : Units)
  | insertExample
  | save
  | reset
  | confirmed
  | cancelled
  | saved (b : WebsiteDetail)
  | failed

namespace WebsiteCard

def base (c : WebsiteCard) : WebsiteServer := c.fields.base

def form (c : WebsiteCard) : WebsiteForm := c.fields.form

def rulesTouched (c : WebsiteCard) : Bool := c.form.rulesText ≠ c.base.rulesText

def dirty (c : WebsiteCard) : Bool :=
  c.form.enabled ≠ c.base.enabled ||
    c.form.enabled && (c.form.indexDocument ≠ c.base.indexDocument || c.form.errorDocument ≠ c.base.errorDocument ||
      c.rulesTouched)

variable (parseJson : JsonParse) (stringify : Stringify)

def rulesValid (c : WebsiteCard) : Bool :=
  match parseRoutingRules parseJson c.form.rulesText with
  | .ok _ => true
  | .error _ => false

def canSave (c : WebsiteCard) : Bool :=
  !c.form.enabled || trim c.form.indexDocument ≠ [] && (!c.rulesTouched || c.rulesValid parseJson)

/-- The rules that go along, and whether they clear what there is. Rules that are left out stay as they are. -/
def editedRules (c : WebsiteCard) : Option (List Json) × Bool :=
  match c.rulesTouched, parseRoutingRules parseJson c.form.rulesText with
  | true, .ok (rule :: rules) => (some (rule :: rules), false)
  | true, .ok [] => if 0 < c.base.ruleCount then (some [], true) else (none, false)
  | _, _ => (none, false)

def update (c : WebsiteCard) (edit : WebsiteForm → WebsiteForm) : WebsiteCard :=
  { c with fields := c.fields.next websiteForm (.edited edit) }

def send (c : WebsiteCard) (websiteAccess : WebsiteAccess) (confirmed : Option WebsiteConfirm) : WebsiteCard :=
  { c with
    pending := some ⟨websiteAccess, confirmed, c.form.rulesText⟩
    sent := c.sent ++ [⟨websiteAccess, confirmed, c.form.rulesText⟩] }

/-- The body that switches the website on, with these rules or without any. -/
def websiteBody (c : WebsiteCard) (routingRules : Option (List Json)) : WebsiteAccess :=
  .enabled (trim c.form.indexDocument)
    (if trim c.form.errorDocument = [] then none else some (trim c.form.errorDocument)) routingRules

def onSave (c : WebsiteCard) : WebsiteCard :=
  if !c.form.enabled then { c with confirm := some .disable }
  else
    let (routingRules, clearsRules) := c.editedRules parseJson
    if clearsRules then { c with confirm := some (.clearRules (c.websiteBody routingRules)) }
    else c.send (c.websiteBody routingRules) none

def showExample (form : WebsiteForm) : WebsiteForm := { form with rulesText := stringify ROUTING_RULES_EXAMPLE }

/-- What an event does; `none` where the card does not offer it. A dialog covers the card. -/
def step (c : WebsiteCard) : WebsiteEvent → Option WebsiteCard
  | .refetched b => some { c with fields := c.fields.next websiteForm (.refetched (websiteServer stringify b)) }
  | .setEnabled v => if c.confirm.isSome then none else some (c.update ({ · with enabled := v }))
  | .setIndexDocument s =>
    if c.confirm.isSome || !c.form.enabled then none else some (c.update ({ · with indexDocument := s }))
  | .setErrorDocument s =>
    if c.confirm.isSome || !c.form.enabled then none else some (c.update ({ · with errorDocument := s }))
  | .setRulesText s => if c.confirm.isSome || !c.form.enabled then none else some (c.update ({ · with rulesText := s }))
  | .insertExample =>
    if c.confirm.isSome || !c.form.enabled || c.pending.isSome then none
    else if 0 < c.base.ruleCount || c.rulesTouched then some { c with confirm := some .insertExample }
    else some (c.update (showExample stringify))
  | .save =>
    if c.confirm.isSome || !c.dirty || !c.canSave parseJson || c.pending.isSome then none
    else some (c.onSave parseJson)
  | .reset =>
    if c.confirm.isSome || !c.dirty || c.pending.isSome then none
    else some { c with fields := c.fields.next websiteForm (.reset c.base) }
  | .confirmed =>
    if c.pending.isSome then none
    else match c.confirm with
      | none => none
      | some .insertExample => some { c.update (showExample stringify) with confirm := none }
      | some (.clearRules body) => some (c.send body c.confirm)
      | some .disable => some (c.send .disabled c.confirm)
  | .cancelled => if c.pending.isSome || c.confirm.isNone then none else some { c with confirm := none }
  | .saved b =>
    c.pending.map fun r =>
      let server := websiteServer stringify b
      { c with
        fields := { c.fields with server }.next websiteForm (.reset server)
        confirm := if r.confirmed.isSome then none else c.confirm
        pending := none }
  | .failed => c.pending.map fun _ => { c with pending := none }

end WebsiteCard

def websiteCard (parseJson : JsonParse) (stringify : Stringify) : System WebsiteCard WebsiteEvent where
  init c := ∃ b, c = { fields := ServerForm.opened websiteForm (websiteServer stringify b) }
  step c event d := c.step parseJson stringify event = some d

/-- How Garage updates the rules of a website, as far as the card relies on it: an update that says no rules leaves
them. -/
structure UpdatesRules (update : List Json → WebsiteAccess → List Json) : Prop where
  omitted : ∀ before indexDocument errorDocument, update before (.enabled indexDocument errorDocument none) = before
  given : ∀ before indexDocument errorDocument rules,
    update before (.enabled indexDocument errorDocument (some rules)) = rules

def rulesAfter (before : List Json) : WebsiteAccess → List Json
  | .disabled => []
  | .enabled _ _ routingRules => routingRules.getD before

theorem updatesRules_rulesAfter : UpdatesRules rulesAfter :=
  ⟨fun _ _ _ => rfl, fun _ _ _ _ => rfl⟩

section

variable {parseJson : JsonParse} {stringify : Stringify}

/-- What a request does to the rules, by the dialog that was confirmed for it. -/
def WebsiteRequest.Asked (parseJson : JsonParse) (r : WebsiteRequest) : Prop :=
  match r.confirmed with
  | none => ∃ indexDocument errorDocument routingRules,
      r.websiteAccess = .enabled indexDocument errorDocument routingRules ∧ indexDocument ≠ [] ∧
        ∀ rules, routingRules = some rules → rules ≠ [] ∧ parseRoutingRules parseJson r.rulesText = .ok rules
  | some .disable => r.websiteAccess = .disabled
  | some (.clearRules _) => ∃ indexDocument errorDocument,
      r.websiteAccess = .enabled indexDocument errorDocument (some []) ∧ indexDocument ≠ [] ∧
        parseRoutingRules parseJson r.rulesText = .ok []
  | some .insertExample => False

/-- What the dialog that is open says of the form. -/
def DialogFits (parseJson : JsonParse) (c : WebsiteCard) : WebsiteConfirm → Prop
  | .disable => c.form ≠ websiteForm c.base
  | .clearRules body => c.form ≠ websiteForm c.base ∧ parseRoutingRules parseJson c.form.rulesText = .ok [] ∧
      ∃ indexDocument errorDocument, body = .enabled indexDocument errorDocument (some []) ∧ indexDocument ≠ []
  | .insertExample => True

structure WebsiteInv (parseJson : JsonParse) (c : WebsiteCard) : Prop where
  follows : ServerForm.Follows websiteForm c.fields
  dialog : ∀ d, c.confirm = some d → DialogFits parseJson c d
  pending : ∀ r, c.pending = some r → c.confirm = r.confirmed
  asked : ∀ r ∈ c.sent, r.Asked parseJson

theorem WebsiteInv.update {c : WebsiteCard} (h : WebsiteInv parseJson c) (hconfirm : c.confirm = none)
    (edit : WebsiteForm → WebsiteForm) : WebsiteInv parseJson (c.update edit) where
  follows := ServerForm.follows_next _ _
  dialog d hd := absurd (hconfirm.symm.trans hd) (Option.some_ne_none d).symm
  pending := h.pending
  asked := h.asked

theorem WebsiteInv.send {c : WebsiteCard} (h : WebsiteInv parseJson c) {websiteAccess : WebsiteAccess}
    (hasked : WebsiteRequest.Asked parseJson ⟨websiteAccess, c.confirm, c.form.rulesText⟩) :
    WebsiteInv parseJson (c.send websiteAccess c.confirm) where
  follows := h.follows
  dialog := h.dialog
  pending _ hr := (Option.some.inj hr) ▸ rfl
  asked := List.forall_mem_append.mpr ⟨h.asked, List.forall_mem_singleton.mpr hasked⟩

theorem WebsiteInv.refetched {c : WebsiteCard} (h : WebsiteInv parseJson c) (server : WebsiteServer) :
    WebsiteInv parseJson { c with fields := c.fields.next websiteForm (.refetched server) } where
  follows := ServerForm.follows_next _ _
  dialog d hd := by
    have hkept (htouched : c.form ≠ websiteForm c.base) :
        c.fields.next websiteForm (.refetched server) = { c.fields with server } :=
      ServerForm.refetched_of_touched htouched server
    have hfits := h.dialog d hd
    cases d with
    | disable =>
      rw [hkept hfits]
      exact hfits
    | clearRules body =>
      rw [hkept hfits.1]
      exact hfits
    | insertExample => trivial
  pending := h.pending
  asked := h.asked

theorem editedRules_cases (parseJson : JsonParse) (c : WebsiteCard) : c.editedRules parseJson = (none, false) ∨
    (∃ rules, c.editedRules parseJson = (some rules, false) ∧ rules ≠ [] ∧
      parseRoutingRules parseJson c.form.rulesText = .ok rules) ∨
    c.editedRules parseJson = (some [], true) ∧ c.rulesTouched = true ∧
      parseRoutingRules parseJson c.form.rulesText = .ok [] := by
  rw [WebsiteCard.editedRules]
  cases htouched : c.rulesTouched with
  | false => exact .inl rfl
  | true =>
    cases hparsed : parseRoutingRules parseJson c.form.rulesText with
    | error errors => exact .inl rfl
    | ok rules =>
      cases rules with
      | nil =>
        dsimp only
        split_ifs
        · exact .inr (.inr ⟨rfl, rfl, rfl⟩)
        · exact .inl rfl
      | cons rule rules => exact .inr (.inl ⟨_, rfl, List.cons_ne_nil _ _, rfl⟩)

theorem touched_of_dirty {c : WebsiteCard} (h : c.dirty = true) : c.form ≠ websiteForm c.base := by
  intro heq
  have hfields : c.form = c.base.toWebsiteForm := heq
  rw [WebsiteCard.dirty, WebsiteCard.rulesTouched, hfields] at h
  simp at h

theorem touched_of_rules {c : WebsiteCard} (h : c.rulesTouched = true) : c.form ≠ websiteForm c.base := by
  intro heq
  have hfields : c.form = c.base.toWebsiteForm := heq
  rw [WebsiteCard.rulesTouched, hfields] at h
  simp at h

theorem WebsiteInv.onSave {c : WebsiteCard} (h : WebsiteInv parseJson c) (hconfirm : c.confirm = none)
    (hpending : c.pending = none) (hdirty : c.dirty = true) (hsave : c.canSave parseJson = true) :
    WebsiteInv parseJson (c.onSave parseJson) := by
  have hopen (d : WebsiteConfirm) (hfits : DialogFits parseJson c d) :
      WebsiteInv parseJson { c with confirm := some d } :=
    { follows := h.follows
      dialog := fun d' hd' => (Option.some.inj hd') ▸ hfits
      pending := fun r hr => absurd (hpending.symm.trans hr) (Option.some_ne_none r).symm
      asked := h.asked }
  have hsend (rules : Option (List Json))
      (hasked : WebsiteRequest.Asked parseJson ⟨c.websiteBody rules, none, c.form.rulesText⟩) :
      WebsiteInv parseJson (c.send (c.websiteBody rules) none) := by
    rw [← hconfirm] at hasked ⊢
    exact h.send hasked
  rw [WebsiteCard.onSave]
  by_cases hoff : (!c.form.enabled) = true
  · rw [if_pos hoff]
    exact hopen .disable (touched_of_dirty hdirty)
  · have hindex : trim c.form.indexDocument ≠ [] := by
      rw [WebsiteCard.canSave, Bool.or_eq_true, Bool.and_eq_true, decide_eq_true_eq] at hsave
      exact (hsave.resolve_left hoff).1
    rw [if_neg hoff]
    obtain hrules | ⟨rules, hrules, hne, hparsed⟩ | ⟨hrules, htouched, hparsed⟩ := editedRules_cases parseJson c
    · rw [hrules]
      exact hsend none ⟨_, _, none, rfl, hindex, nofun⟩
    · rw [hrules]
      refine hsend (some rules) ⟨_, _, some rules, rfl, hindex, ?_⟩
      rintro _ ⟨⟩
      exact ⟨hne, hparsed⟩
    · rw [hrules]
      exact hopen _ ⟨touched_of_rules htouched, hparsed, _, _, rfl, hindex⟩

theorem WebsiteInv.opened (server : WebsiteServer) :
    WebsiteInv parseJson { fields := ServerForm.opened websiteForm server } where
  follows := fun _ => rfl
  dialog d hd := by cases hd
  pending r hr := by cases hr
  asked r hr := absurd hr List.not_mem_nil

theorem WebsiteInv.step {c d : WebsiteCard} {event : WebsiteEvent} (h : WebsiteInv parseJson c)
    (hstep : c.step parseJson stringify event = some d) : WebsiteInv parseJson d := by
  cases event with
  | refetched b =>
    obtain rfl := Option.some.inj hstep
    exact h.refetched _
  | setEnabled v =>
    rw [WebsiteCard.step] at hstep
    split_ifs at hstep with hopen
    obtain rfl := Option.some.inj hstep
    exact h.update (Option.not_isSome_iff_eq_none.mp hopen) _
  | setIndexDocument s | setErrorDocument s | setRulesText s =>
    rw [WebsiteCard.step] at hstep
    split_ifs at hstep with hopen
    obtain rfl := Option.some.inj hstep
    rw [Bool.or_eq_true, not_or] at hopen
    exact h.update (Option.not_isSome_iff_eq_none.mp hopen.1) _
  | insertExample =>
    rw [WebsiteCard.step] at hstep
    split_ifs at hstep with hopen hask
    · obtain rfl := Option.some.inj hstep
      rw [Bool.or_eq_true, not_or] at hopen
      have hpending := Option.not_isSome_iff_eq_none.mp hopen.2
      exact { h with
        dialog := fun d hd => (Option.some.inj hd) ▸ trivial
        pending := fun r hr => absurd (hpending.symm.trans hr) (Option.some_ne_none r).symm }
    · obtain rfl := Option.some.inj hstep
      rw [Bool.or_eq_true, Bool.or_eq_true, not_or, not_or] at hopen
      exact h.update (Option.not_isSome_iff_eq_none.mp hopen.1.1) _
  | save =>
    rw [WebsiteCard.step] at hstep
    split_ifs at hstep with hopen
    obtain rfl := Option.some.inj hstep
    simp only [Bool.or_eq_true, not_or, Bool.not_eq_true', Bool.not_eq_false] at hopen
    obtain ⟨⟨⟨hconfirm, hdirty⟩, hsave⟩, hpending⟩ := hopen
    exact h.onSave (Option.not_isSome_iff_eq_none.mp hconfirm) (Option.not_isSome_iff_eq_none.mp hpending) hdirty hsave
  | reset =>
    rw [WebsiteCard.step] at hstep
    split_ifs at hstep with hopen
    obtain rfl := Option.some.inj hstep
    rw [Bool.or_eq_true, Bool.or_eq_true, not_or, not_or] at hopen
    have hconfirm := Option.not_isSome_iff_eq_none.mp hopen.1.1
    exact { h with
      follows := ServerForm.follows_next _ _
      dialog := fun d hd => absurd (hconfirm.symm.trans hd) (Option.some_ne_none d).symm }
  | confirmed =>
    rw [WebsiteCard.step] at hstep
    split_ifs at hstep with hpending
    cases hconfirm : c.confirm with
    | none => rw [hconfirm] at hstep; cases hstep
    | some d =>
      have hfits := h.dialog d hconfirm
      rw [hconfirm] at hstep
      have hsend (websiteAccess : WebsiteAccess)
          (hasked : WebsiteRequest.Asked parseJson ⟨websiteAccess, some d, c.form.rulesText⟩) :
          WebsiteInv parseJson (c.send websiteAccess (some d)) := by
        rw [← hconfirm] at hasked ⊢
        exact h.send hasked
      cases d with
      | disable =>
        obtain rfl := Option.some.inj hstep
        exact hsend .disabled rfl
      | clearRules body =>
        obtain rfl := Option.some.inj hstep
        obtain ⟨-, hparsed, indexDocument, errorDocument, rfl, hindex⟩ := hfits
        exact hsend _ ⟨indexDocument, errorDocument, rfl, hindex, hparsed⟩
      | insertExample =>
        obtain rfl := Option.some.inj hstep
        exact {
          follows := ServerForm.follows_next _ _
          dialog := fun d hd => by cases hd
          pending := fun r hr => absurd (Option.isSome_iff_exists.mpr ⟨r, hr⟩) hpending
          asked := h.asked }
  | cancelled =>
    rw [WebsiteCard.step] at hstep
    split_ifs at hstep with hpending
    obtain rfl := Option.some.inj hstep
    rw [Bool.or_eq_true, not_or] at hpending
    exact { h with
      dialog := fun d hd => by cases hd
      pending := fun r hr => absurd (Option.isSome_iff_exists.mpr ⟨r, hr⟩) hpending.1 }
  | saved b =>
    obtain ⟨r, hr, rfl⟩ := Option.map_eq_some_iff.mp hstep
    have hclosed : (if r.confirmed.isSome = true then none else c.confirm) = none := by
      rw [h.pending r hr]
      cases r.confirmed <;> rfl
    exact {
      follows := ServerForm.follows_next _ _
      dialog := fun d hd => absurd (hclosed.symm.trans hd) (Option.some_ne_none d).symm
      pending := fun _ hr => by cases hr
      asked := h.asked }
  | failed =>
    obtain ⟨r, hr, rfl⟩ := Option.map_eq_some_iff.mp hstep
    exact { h with pending := fun _ hr => by cases hr }

theorem websiteInv {c : WebsiteCard} (h : Reachable (websiteCard parseJson stringify) (fun _ _ => True) c) :
    WebsiteInv parseJson c := by
  refine h.invariant ?_ fun c event d hc _ hstep => hc.step hstep
  rintro _ ⟨b, rfl⟩
  exact WebsiteInv.opened _

/-- **Rules of a website do not go away unasked.** Whatever is typed, fetched, saved and refused in whatever order, and
whatever the rules are by the time a request is carried out: it leaves them as they are, or it puts those that were
typed in their place, which are not none unless the dialog that says that all rules will be deleted was confirmed, or
the dialog that says that the website and its rules will be dropped was confirmed. An untouched form shows what was
fetched last. -/
theorem website_rules_kept {c : WebsiteCard} {update : List Json → WebsiteAccess → List Json}
    (hupdate : UpdatesRules update) (h : Reachable (websiteCard parseJson stringify) (fun _ _ => True) c) :
    (c.form = websiteForm c.base → c.base = c.fields.server) ∧ ∀ r ∈ c.sent, ∀ before : List Json,
      update before r.websiteAccess = before ∨
      (parseRoutingRules parseJson r.rulesText = .ok (update before r.websiteAccess) ∧
        (update before r.websiteAccess = [] → ∃ body, r.confirmed = some (.clearRules body))) ∨
      (r.websiteAccess = .disabled ∧ r.confirmed = some .disable) := by
  have hinv := websiteInv h
  refine ⟨fun hform => hinv.follows (decide_eq_true hform), fun r hr before => ?_⟩
  have hasked := hinv.asked r hr
  rw [WebsiteRequest.Asked] at hasked
  cases hconfirmed : r.confirmed with
  | none =>
    rw [hconfirmed] at hasked
    obtain ⟨indexDocument, errorDocument, routingRules, heq, -, hrules⟩ := hasked
    rw [heq]
    cases routingRules with
    | none => exact .inl (hupdate.omitted _ _ _)
    | some rules =>
      obtain ⟨hne, hparsed⟩ := hrules rules rfl
      rw [hupdate.given]
      exact .inr (.inl ⟨hparsed, fun hnil => absurd hnil hne⟩)
  | some d =>
    rw [hconfirmed] at hasked
    cases d with
    | disable => exact .inr (.inr ⟨hasked, rfl⟩)
    | clearRules body =>
      obtain ⟨indexDocument, errorDocument, heq, -, hparsed⟩ := hasked
      rw [heq, hupdate.given]
      exact .inr (.inl ⟨hparsed, fun _ => ⟨body, rfl⟩⟩)
    | insertExample => exact absurd hasked id

end

/-! A bucket with one rule, whose rules are deleted. -/

def oneRule : WebsiteDetail := ⟨true, some ⟨utf16 "index.html", none, some [.obj []]⟩⟩

/-- A reader of no rules and of nothing else. -/
def parseBlank : JsonParse := fun s => if s = utf16 "[]" then .ok (.arr []) else .error "unexpected"

def oneRuleText : Stringify := fun rules => if rules = [] then utf16 "[]" else utf16 "[\x7b\x7d]"

theorem website_rules_kept_cleared : ∃ c : WebsiteCard, c.sent ≠ [] ∧
    ((c.form = websiteForm c.base → c.base = c.fields.server) ∧ ∀ r ∈ c.sent, ∀ before : List Json,
      rulesAfter before r.websiteAccess = before ∨
      (parseRoutingRules parseBlank r.rulesText = .ok (rulesAfter before r.websiteAccess) ∧
        (rulesAfter before r.websiteAccess = [] → ∃ body, r.confirmed = some (.clearRules body))) ∨
      (r.websiteAccess = .disabled ∧ r.confirmed = some .disable)) := by
  let c₀ : WebsiteCard := { fields := ServerForm.opened websiteForm (websiteServer oneRuleText oneRule) }
  have hstart : Reachable (websiteCard parseBlank oneRuleText) (fun _ _ => True) c₀ := .init ⟨oneRule, rfl⟩
  have hrun : ∃ c₁ c₂ c₃, c₀.step parseBlank oneRuleText (.setRulesText []) = some c₁ ∧
      c₁.step parseBlank oneRuleText .save = some c₂ ∧ c₂.step parseBlank oneRuleText .confirmed = some c₃ ∧
      c₃.sent ≠ [] := ⟨_, _, _, rfl, rfl, rfl, by decide⟩
  obtain ⟨c₁, c₂, c₃, h₁, h₂, h₃, hsent⟩ := hrun
  exact ⟨c₃, hsent,
    website_rules_kept updatesRules_rulesAfter (((hstart.step trivial h₁).step trivial h₂).step trivial h₃)⟩

/-! ### What is typed -/

/-- What an event does to the fields; none for those that fill the form anew. -/
def WebsiteEvent.onFields (stringify : Stringify) :
    WebsiteEvent → Option (List (ServerForm.Event WebsiteServer WebsiteForm))
  | .refetched b => some [.refetched (websiteServer stringify b)]
  | .setEnabled v => some [.edited ({ · with enabled := v })]
  | .setIndexDocument s => some [.edited ({ · with indexDocument := s })]
  | .setErrorDocument s => some [.edited ({ · with errorDocument := s })]
  | .setRulesText s => some [.edited ({ · with rulesText := s })]
  | .save | .cancelled | .failed => some []
  | .insertExample | .reset | .confirmed | .saved _ => none

section

variable {parseJson : JsonParse} {stringify : Stringify}

theorem fields_onSave (c : WebsiteCard) : (c.onSave parseJson).fields = c.fields := by
  rw [WebsiteCard.onSave]
  split_ifs
  · rfl
  · dsimp only
    split_ifs <;> rfl

theorem fields_step {c d : WebsiteCard} {event : WebsiteEvent}
    {onFields : List (ServerForm.Event WebsiteServer WebsiteForm)}
    (hstep : c.step parseJson stringify event = some d) (hevent : event.onFields stringify = some onFields) :
    d.fields = onFields.foldl (ServerForm.next websiteForm) c.fields := by
  cases event with
  | refetched b =>
    obtain rfl := Option.some.inj hstep
    obtain rfl := Option.some.inj hevent
    rfl
  | setEnabled v | setIndexDocument s | setErrorDocument s | setRulesText s =>
    rw [WebsiteCard.step] at hstep
    split_ifs at hstep
    obtain rfl := Option.some.inj hstep
    obtain rfl := Option.some.inj hevent
    rfl
  | save =>
    rw [WebsiteCard.step] at hstep
    split_ifs at hstep
    obtain rfl := Option.some.inj hstep
    obtain rfl := Option.some.inj hevent
    exact fields_onSave c
  | cancelled =>
    rw [WebsiteCard.step] at hstep
    split_ifs at hstep
    obtain rfl := Option.some.inj hstep
    obtain rfl := Option.some.inj hevent
    rfl
  | failed =>
    obtain ⟨r, -, rfl⟩ := Option.map_eq_some_iff.mp hstep
    obtain rfl := Option.some.inj hevent
    rfl
  | insertExample | reset | confirmed | saved b => cases hevent

theorem fields_run {events : List WebsiteEvent} :
    ∀ {c d : WebsiteCard} {onFields : List (List (ServerForm.Event WebsiteServer WebsiteForm))},
      run (WebsiteCard.step parseJson stringify) (fun _ _ => true) c events = some d →
        events.mapM (WebsiteEvent.onFields stringify) = some onFields →
          d.fields = onFields.flatten.foldl (ServerForm.next websiteForm) c.fields := by
  induction events with
  | nil =>
    intro c d onFields hrun hevents
    obtain rfl := Option.some.inj hrun
    obtain rfl := Option.some.inj hevents
    rfl
  | cons event events ih =>
    intro c d onFields hrun hevents
    rw [run, if_pos rfl] at hrun
    obtain ⟨c', hstep, hrun⟩ := Option.bind_eq_some_iff.mp hrun
    rw [List.mapM_cons] at hevents
    obtain ⟨first, hfirst, hevents⟩ := Option.bind_eq_some_iff.mp hevents
    obtain ⟨rest, hrest, hevents⟩ := Option.bind_eq_some_iff.mp hevents
    obtain rfl := Option.some.inj hevents
    rw [ih hrun hrest, fields_step hstep hfirst, List.flatten_cons, List.foldl_append]

/-- **What is typed is not overwritten.** Whatever is fetched, refused and cancelled while the form is edited: as long
as it is not as it was filled, it holds what was typed, over the data that it was filled from. -/
theorem website_edits_kept {c d : WebsiteCard} {events : List WebsiteEvent}
    {onFields : List (List (ServerForm.Event WebsiteServer WebsiteForm))} {typed : List (WebsiteForm → WebsiteForm)}
    (hrun : run (WebsiteCard.step parseJson stringify) (fun _ _ => true) c events = some d)
    (hevents : events.mapM (WebsiteEvent.onFields stringify) = some onFields)
    (htyped : ServerForm.edits onFields.flatten = some typed)
    (htouched : ServerForm.StaysTouched (websiteForm c.base) c.form typed) :
    d.base = c.base ∧ d.form = typed.foldl (fun form edit => edit form) c.form := by
  obtain ⟨hbase, hform⟩ := ServerForm.edits_kept htyped htouched
  rw [← fields_run hrun hevents] at hbase hform
  exact ⟨hbase, hform⟩

end

/-- The first page is edited when the website turns out to be switched off, and then the error page is. -/
theorem website_edits_kept_refetched : ∃ c d : WebsiteCard,
    run (WebsiteCard.step parseBlank oneRuleText) (fun _ _ => true) c
      [.refetched ⟨false, none⟩, .setErrorDocument (utf16 "e.html")] = some d ∧
    d.base = c.base ∧ d.form = { c.form with errorDocument := utf16 "e.html" } := by
  let filled := ServerForm.opened websiteForm (websiteServer oneRuleText oneRule)
  let c : WebsiteCard := { fields := filled.next websiteForm (.edited ({ · with indexDocument := utf16 "a.html" })) }
  have hrun : ∃ d, run (WebsiteCard.step parseBlank oneRuleText) (fun _ _ => true) c
      [.refetched ⟨false, none⟩, .setErrorDocument (utf16 "e.html")] = some d := ⟨_, rfl⟩
  obtain ⟨d, hrun⟩ := hrun
  have hfirst : c.form ≠ websiteForm c.base := by decide
  have hsecond : { c.form with errorDocument := utf16 "e.html" } ≠ websiteForm c.base := by decide
  exact ⟨c, d, hrun, website_edits_kept hrun rfl rfl ⟨hfirst, hsecond⟩⟩

/-! ## CORS and lifecycle rules -/

/-- A request to save, with whether it was confirmed, the text that was shown and what the form was filled from. -/
structure RulesRequest where
  rules : List Json
  confirmed : Bool
  text : Units
  base : List Json

structure RulesCard where
  fields : ServerForm (List Json) Units
  confirmDelete : Bool := false
  pending : Option RulesRequest := none
  /-- Every request that was sent. -/
  sent : List RulesRequest := []

inductive RulesEvent where
  | refetched (rules : Option (List Json))
  | setText (s : Units)
  | insertExample
  | save
  | reset
  | confirmed
  | cancelled
  | saved (rules : Option (List Json))
  | failed

namespace RulesCard

variable (parseJson : JsonParse) (stringify : Stringify) (offered : List Json)

def base (c : RulesCard) : List Json := c.fields.base

def text (c : RulesCard) : Units := c.fields.form

def toForm (rules : List Json) : Units := rulesToText stringify (some rules)

def dirty (c : RulesCard) : Bool := c.text ≠ toForm stringify c.base

def update (c : RulesCard) (text : Units) : RulesCard :=
  { c with fields := c.fields.next (toForm stringify) (.edited fun _ => text) }

def send (c : RulesCard) (rules : List Json) (confirmed : Bool) : RulesCard :=
  { c with pending := some ⟨rules, confirmed, c.text, c.base⟩, sent := c.sent ++ [⟨rules, confirmed, c.text, c.base⟩] }

/-- What an event does; `none` where the card does not offer it. A dialog covers the card. -/
def step (c : RulesCard) : RulesEvent → Option RulesCard
  | .refetched rules => some { c with fields := c.fields.next (toForm stringify) (.refetched (rules.getD [])) }
  | .setText s => if c.confirmDelete then none else some (c.update stringify s)
  | .insertExample =>
    if c.confirmDelete || c.pending.isSome then none
    else some (c.update stringify (rulesToText stringify (some offered)))
  | .save =>
    if c.confirmDelete || !c.dirty stringify || c.pending.isSome then none
    else match parseRulesJson parseJson c.text with
      | .error _ => none
      | .ok rules =>
        if rules = [] ∧ c.base ≠ [] then some { c with confirmDelete := true } else some (c.send rules false)
  | .reset =>
    if c.confirmDelete || !c.dirty stringify || c.pending.isSome then none
    else some { c with fields := c.fields.next (toForm stringify) (.reset c.base) }
  | .confirmed => if !c.confirmDelete || c.pending.isSome then none else some (c.send [] true)
  | .cancelled => if !c.confirmDelete || c.pending.isSome then none else some { c with confirmDelete := false }
  | .saved rules =>
    c.pending.map fun r =>
      { c with
        fields := { c.fields with server := rules.getD [] }.next (toForm stringify) (.reset (rules.getD []))
        confirmDelete := if r.confirmed then false else c.confirmDelete
        pending := none }
  | .failed => c.pending.map fun _ => { c with pending := none }

end RulesCard

def rulesCard (parseJson : JsonParse) (stringify : Stringify) (offered : List Json) : System RulesCard RulesEvent where
  init c := ∃ rules, c = { fields := ServerForm.opened (RulesCard.toForm stringify) rules }
  step c event d := c.step parseJson stringify offered event = some d

section

variable {parseJson : JsonParse} {stringify : Stringify} {offered : List Json}

structure RulesInv (parseJson : JsonParse) (stringify : Stringify) (c : RulesCard) : Prop where
  follows : ServerForm.Follows (RulesCard.toForm stringify) c.fields
  /-- The dialog is open over an emptied text only, and there is something to delete. -/
  dialog : c.confirmDelete = true →
    c.text ≠ RulesCard.toForm stringify c.base ∧ c.base ≠ [] ∧ parseRulesJson parseJson c.text = .ok []
  pending : ∀ r, c.pending = some r → c.confirmDelete = r.confirmed
  asked : ∀ r ∈ c.sent, parseRulesJson parseJson r.text = .ok r.rules ∧
    r.text ≠ RulesCard.toForm stringify r.base ∧ (r.rules = [] → r.base ≠ [] → r.confirmed = true)

theorem RulesInv.send {c : RulesCard} (h : RulesInv parseJson stringify c) {rules : List Json} {confirmed : Bool}
    (hconfirm : c.confirmDelete = confirmed) (hparsed : parseRulesJson parseJson c.text = .ok rules)
    (hdirty : c.text ≠ RulesCard.toForm stringify c.base) (hasked : rules = [] → c.base ≠ [] → confirmed = true) :
    RulesInv parseJson stringify (c.send rules confirmed) where
  follows := h.follows
  dialog := h.dialog
  pending _ hr := (Option.some.inj hr) ▸ hconfirm
  asked := List.forall_mem_append.mpr ⟨h.asked, List.forall_mem_singleton.mpr ⟨hparsed, hdirty, hasked⟩⟩

theorem RulesInv.next {c : RulesCard} (h : RulesInv parseJson stringify c) (hconfirm : c.confirmDelete = false)
    (event : ServerForm.Event (List Json) Units) :
    RulesInv parseJson stringify { c with fields := c.fields.next (RulesCard.toForm stringify) event } where
  follows := ServerForm.follows_next _ _
  dialog hopen := absurd (hconfirm.symm.trans hopen) Bool.false_ne_true
  pending := h.pending
  asked := h.asked

theorem RulesInv.step {c d : RulesCard} {event : RulesEvent} (h : RulesInv parseJson stringify c)
    (hstep : c.step parseJson stringify offered event = some d) : RulesInv parseJson stringify d := by
  cases event with
  | refetched rules =>
    obtain rfl := Option.some.inj hstep
    by_cases hconfirm : c.confirmDelete = true
    · have hkept : c.fields.next (RulesCard.toForm stringify) (.refetched (rules.getD [])) =
          { c.fields with server := rules.getD [] } := ServerForm.refetched_of_touched (h.dialog hconfirm).1 _
      exact {
        follows := ServerForm.follows_next _ _
        dialog := fun _ => by
          rw [hkept]
          exact h.dialog hconfirm
        pending := h.pending
        asked := h.asked }
    · exact h.next (Bool.not_eq_true _ ▸ hconfirm) _
  | setText s =>
    rw [RulesCard.step] at hstep
    split_ifs at hstep with hopen
    obtain rfl := Option.some.inj hstep
    exact h.next (Bool.not_eq_true _ ▸ hopen) _
  | insertExample =>
    rw [RulesCard.step] at hstep
    split_ifs at hstep with hopen
    obtain rfl := Option.some.inj hstep
    rw [Bool.or_eq_true, not_or, Bool.not_eq_true] at hopen
    exact h.next hopen.1 _
  | save =>
    rw [RulesCard.step] at hstep
    split_ifs at hstep with hopen
    simp only [Bool.or_eq_true, not_or, Bool.not_eq_true', Bool.not_eq_false] at hopen
    have hdirty : c.text ≠ RulesCard.toForm stringify c.base := of_decide_eq_true hopen.1.2
    cases hparsed : parseRulesJson parseJson c.text with
    | error message => rw [hparsed] at hstep; cases hstep
    | ok rules =>
      rw [hparsed] at hstep
      dsimp only at hstep
      split_ifs at hstep with hdelete
      · obtain rfl := Option.some.inj hstep
        obtain ⟨rfl, hbase⟩ := hdelete
        have hpending := Option.not_isSome_iff_eq_none.mp hopen.2
        exact { h with
          dialog := fun _ => ⟨hdirty, hbase, hparsed⟩
          pending := fun r hr => absurd (hpending.symm.trans hr) (Option.some_ne_none r).symm }
      · obtain rfl := Option.some.inj hstep
        exact h.send (Bool.not_eq_true _ ▸ hopen.1.1) hparsed hdirty fun hnil hbase => absurd ⟨hnil, hbase⟩ hdelete
  | reset =>
    rw [RulesCard.step] at hstep
    split_ifs at hstep with hopen
    obtain rfl := Option.some.inj hstep
    rw [Bool.or_eq_true, Bool.or_eq_true, not_or, not_or, Bool.not_eq_true] at hopen
    exact h.next hopen.1.1 _
  | confirmed =>
    rw [RulesCard.step] at hstep
    split_ifs at hstep with hopen
    obtain rfl := Option.some.inj hstep
    rw [Bool.or_eq_true, not_or, Bool.not_eq_true', Bool.not_eq_false] at hopen
    obtain ⟨hdirty, -, hparsed⟩ := h.dialog hopen.1
    exact h.send hopen.1 hparsed hdirty fun _ _ => rfl
  | cancelled =>
    rw [RulesCard.step] at hstep
    split_ifs at hstep with hopen
    obtain rfl := Option.some.inj hstep
    rw [Bool.or_eq_true, not_or] at hopen
    exact { h with
      dialog := fun hd => by cases hd
      pending := fun r hr => absurd (Option.isSome_iff_exists.mpr ⟨r, hr⟩) hopen.2 }
  | saved rules =>
    obtain ⟨r, hr, rfl⟩ := Option.map_eq_some_iff.mp hstep
    have hclosed : (if r.confirmed = true then false else c.confirmDelete) = false := by
      rw [h.pending r hr]
      cases r.confirmed <;> rfl
    exact {
      follows := ServerForm.follows_next _ _
      dialog := fun hopen => absurd (hclosed.symm.trans hopen) Bool.false_ne_true
      pending := fun _ hr => by cases hr
      asked := h.asked }
  | failed =>
    obtain ⟨r, hr, rfl⟩ := Option.map_eq_some_iff.mp hstep
    exact { h with pending := fun _ hr => by cases hr }

/-- **Rules are not deleted unasked, as far as the form knows.** Whatever is typed, fetched, saved and refused in
whatever order, what is sent is what the text said, which was not the text that the form was filled with; and it
deletes all rules only after that was confirmed, or if there were none when the form was filled. An untouched form
shows what was fetched last. -/
theorem rules_not_deleted_unasked {c : RulesCard}
    (h : Reachable (rulesCard parseJson stringify offered) (fun _ _ => True) c) :
    (c.text = RulesCard.toForm stringify c.base → c.base = c.fields.server) ∧
      ∀ r ∈ c.sent, parseRulesJson parseJson r.text = .ok r.rules ∧ r.text ≠ RulesCard.toForm stringify r.base ∧
        (r.rules = [] → r.base ≠ [] → r.confirmed = true) := by
  have hinv : RulesInv parseJson stringify c := by
    refine h.invariant ?_ fun c event d hc _ hstep => hc.step hstep
    rintro _ ⟨rules, rfl⟩
    exact {
      follows := fun _ => rfl
      dialog := fun hopen => by cases hopen
      pending := fun r hr => by cases hr
      asked := fun r hr => absurd hr List.not_mem_nil }
  exact ⟨fun htext => hinv.follows (decide_eq_true htext), hinv.asked⟩

end

theorem rules_not_deleted_unasked_cleared : ∃ c : RulesCard, c.sent ≠ [] ∧
    (c.text = RulesCard.toForm oneRuleText c.base → c.base = c.fields.server) ∧
      ∀ r ∈ c.sent, parseRulesJson parseBlank r.text = .ok r.rules ∧ r.text ≠ RulesCard.toForm oneRuleText r.base ∧
        (r.rules = [] → r.base ≠ [] → r.confirmed = true) := by
  let c₀ : RulesCard := { fields := ServerForm.opened (RulesCard.toForm oneRuleText) [.obj []] }
  have hstart : Reachable (rulesCard parseBlank oneRuleText []) (fun _ _ => True) c₀ := .init ⟨_, rfl⟩
  have hrun : ∃ c₁ c₂ c₃, c₀.step parseBlank oneRuleText [] (.setText []) = some c₁ ∧
      c₁.step parseBlank oneRuleText [] .save = some c₂ ∧ c₂.step parseBlank oneRuleText [] .confirmed = some c₃ ∧
      c₃.sent ≠ [] := ⟨_, _, _, rfl, rfl, rfl, List.cons_ne_nil _ _⟩
  obtain ⟨c₁, c₂, c₃, h₁, h₂, h₃, hsent⟩ := hrun
  exact ⟨c₃, hsent, rules_not_deleted_unasked (((hstart.step trivial h₁).step trivial h₂).step trivial h₃)⟩

end GarageConsole.Buckets
