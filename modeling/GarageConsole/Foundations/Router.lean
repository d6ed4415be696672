import Mathlib.Data.List.Forall2
import GarageConsole.Foundations.Escapes

/-! # Routing on a path as it was sent

A path arrives percent-encoded. `setPath` keeps it decoded and, where it is not the encoding that would be made of
the decoded path, as it was sent too; a router takes the second where there is one. A route is a sequence of
words and placeholders, one for each segment. Read decoded, a segment with an escaped slash is several.
-/

namespace Foundations.Router

open Text Foundations.Path Url

set_option autoImplicit false

/-! ## Paths -/

/-- What the default encoding of a path leaves as it is. -/
def keptInPath (b : UInt8) : Bool := isUnreserved b || b ∈ [0x24, 0x26, 0x2B, 0x2C, 0x2F, 0x3A, 0x3B, 0x3D, 0x40]

def escapePath (path : Bytes) : Bytes := percentEncode keptInPath path

/-- `url.URL`: the decoded path, and the path as sent if that is not its default encoding. -/
structure UrlPath where
  path : Bytes
  rawPath : Bytes
  deriving DecidableEq

/-- `URL.setPath` -/
def setPath (sent : Bytes) : Option UrlPath :=
  (unescape sent).map fun path => ⟨path, if sent = escapePath path then [] else sent⟩

/-- `url.ParseRequestURI` of a target that begins with a slash: its path, and its query. -/
def parseRequestURI (target : Bytes) : Option (UrlPath × Bytes) :=
  if target.any isControl then none else (setPath (cut question target).1).map fun u => (u, (cut question target).2)

/-- The path that is routed. -/
def UrlPath.routed (u : UrlPath) : Bytes := if u.rawPath = [] then u.path else u.rawPath

theorem setPath_of_unescape {sent path : Bytes} (h : unescape sent = some path) :
    setPath sent = some ⟨path, if sent = escapePath path then [] else sent⟩ := by
  rw [setPath, h]
  rfl

theorem setPath_path {sent : Bytes} {u : UrlPath} (hu : setPath sent = some u) : unescape sent = some u.path := by
  obtain ⟨path, hpath, rfl⟩ := Option.map_eq_some_iff.mp hu
  exact hpath

/-! ## Routes -/

/-- The segments of a route: words, and `none` for a placeholder. -/
abbrev Shape := List (Option Bytes)

/-- Whether a route takes the segments. A placeholder takes an empty segment at most where more follows it, and
only if the router has it so. -/
def admits (takesEmpty : Bool) : Shape → List Bytes → Bool
  | [], [] => true
  | some w :: ps, s :: ss => s = w && admits takesEmpty ps ss
  | none :: ps, s :: ss => (s ≠ [] || (takesEmpty && ps ≠ [])) && admits takesEmpty ps ss
  | _, _ => false

/-- The words of the route stand at their places. -/
def verbatim : Shape → List Bytes → Bool
  | [], [] => true
  | some w :: ps, s :: ss => s = w && verbatim ps ss
  | none :: ps, _ :: ss => verbatim ps ss
  | _, _ => false

/-- The segments at the placeholders. -/
def placeholders : Shape → List Bytes → List Bytes
  | some _ :: ps, _ :: ss => placeholders ps ss
  | none :: ps, s :: ss => s :: placeholders ps ss
  | _, _ => []

/-- A word that is written without escapes. -/
def PlainWord (w : Bytes) : Prop := slash ∉ w ∧ w.all keptInPath = true

instance (w : Bytes) : Decidable (PlainWord w) := inferInstanceAs (Decidable (_ ∧ _))

def PlainShape (q : Shape) : Prop := ∀ p ∈ q, ∀ w ∈ p, PlainWord w

instance (q : Shape) : Decidable (PlainShape q) := inferInstanceAs (Decidable (∀ _ ∈ q, _))

/-- A segment that stays one segment, and not an empty one, when it is decoded. -/
def Whole (s : Bytes) : Prop := ∃ t, unescape s = some t ∧ t ≠ [] ∧ slash ∉ t

section

variable {takesEmpty : Bool}

theorem verbatim_of_admits {q : Shape} {ss : List Bytes} (h : admits takesEmpty q ss = true) :
    verbatim q ss = true := by
  fun_induction admits takesEmpty q ss with
  | case1 => rfl
  | case2 w ps s ss ih =>
    rw [Bool.and_eq_true] at h
    rw [verbatim, h.1, ih h.2]
    rfl
  | case3 ps s ss ih =>
    rw [Bool.and_eq_true] at h
    exact ih h.2
  | case4 => cases h

theorem length_of_verbatim {q : Shape} {ss : List Bytes} (h : verbatim q ss = true) : ss.length = q.length := by
  fun_induction verbatim q ss with
  | case1 => rfl
  | case2 w ps s ss ih =>
    rw [Bool.and_eq_true] at h
    rw [List.length_cons, List.length_cons, ih h.2]
  | case3 ps s ss ih => rw [List.length_cons, List.length_cons, ih h]
  | case4 => cases h

theorem admits_of_verbatim {q : Shape} {ss : List Bytes} (h : verbatim q ss = true)
    (hne : ∀ s ∈ placeholders q ss, s ≠ []) :
    admits takesEmpty q ss = true := by
  fun_induction verbatim q ss with
  | case1 => rfl
  | case2 w ps s ss ih =>
    rw [Bool.and_eq_true] at h
    rw [admits, h.1, ih h.2 hne]
    rfl
  | case3 ps s ss ih =>
    rw [placeholders, List.forall_mem_cons] at hne
    rw [admits, ih h hne.2, decide_eq_true hne.1]
    rfl
  | case4 => cases h

theorem none_mem_of_placeholder {q : Shape} {ss : List Bytes} {s : Bytes} (h : s ∈ placeholders q ss) : none ∈ q := by
  fun_induction placeholders q ss with
  | case1 w ps t ss ih => exact List.mem_cons_of_mem _ (ih h)
  | case2 ps t ss ih => exact List.mem_cons_self
  | case3 => exact absurd h List.not_mem_nil

/-- Two routes that no path fits both: of different lengths, or with different words at one place. -/
def apart : Shape → Shape → Bool
  | some v :: ps, some w :: qs => v ≠ w || apart ps qs
  | _ :: ps, _ :: qs => apart ps qs
  | [], [] => false
  | _, _ => true

theorem not_apart {p q : Shape} {ss : List Bytes} (hp : verbatim p ss = true) (hq : verbatim q ss = true) :
    apart p q = false := by
  fun_induction apart p q generalizing ss with
  | case1 v ps w qs ih =>
    cases ss with
    | nil => cases hp
    | cons s ss =>
      rw [verbatim, Bool.and_eq_true, decide_eq_true_eq] at hp hq
      have hvw : v = w := hp.1.symm.trans hq.1
      rw [ih hp.2 hq.2, hvw]
      simp
  | case2 a ps b qs hwords ih =>
    cases ss with
    | nil => cases a <;> cases hp
    | cons s ss =>
      refine @ih ss ?_ ?_
      · cases a with
        | none => exact hp
        | some v => exact (Bool.and_eq_true _ _ ▸ hp).2
      · cases b with
        | none => exact hq
        | some w => exact (Bool.and_eq_true _ _ ▸ hq).2
  | case3 => rfl
  | case4 p q h₁ h₂ h₃ =>
    have hlength := (length_of_verbatim hp).symm.trans (length_of_verbatim hq)
    match p, q with
    | [], [] => exact absurd rfl (h₃ rfl)
    | [], _ :: _ => cases hlength
    | _ :: _, [] => cases hlength
    | a :: p, b :: q => exact absurd rfl (h₂ a p b q rfl)

end

/-- The first of some alternatives that exclude each other is the only one. -/
theorem find?_of_exclusive {α : Type} {p : α → Bool} {l : List α} (hl : l.Pairwise fun a b => p a = true → p b = false)
    {a : α} : l.find? p = some a ↔ a ∈ l ∧ p a = true := by
  refine ⟨fun h => ⟨List.mem_of_find?_eq_some h, List.find?_some h⟩, ?_⟩
  rintro ⟨hmem, ha⟩
  induction hl with
  | nil => exact absurd hmem List.not_mem_nil
  | @cons b l hb _ ih =>
    rcases List.mem_cons.mp hmem with rfl | hmem
    · exact List.find?_cons_of_pos ha
    · have hnot : ¬p b = true := by
        intro hpb
        rw [hb a hmem hpb] at ha
        cases ha
      rw [List.find?_cons_of_neg hnot, ih hmem]

/-! ## The route that is found -/

/-- Where they first differ, the first route has a word and the second a placeholder. -/
def prefers : Shape → Shape → Bool
  | some _ :: _, none :: _ => true
  | some v :: ps, some w :: qs => v = w && prefers ps qs
  | none :: ps, none :: qs => prefers ps qs
  | _, _ => false

theorem prefers_self (p : Shape) : prefers p p = false := by
  induction p with
  | nil => rfl
  | cons a p ih => cases a <;> simp [prefers, ih]

theorem not_prefers {p q : Shape} (h : prefers p q = true) : prefers q p = false := by
  fun_induction prefers p q with
  | case1 => rfl
  | case2 v ps w qs ih =>
    rw [Bool.and_eq_true] at h
    rw [prefers, ih h.2, Bool.and_false]
  | case3 ps qs ih => exact ih h
  | case4 => cases h

section

variable {R : Type} {routes : List R} {serves : String → R → Bool} {shape : R → Shape}

/-- Routes in an order in which of two that take a path by one method the preferred one comes first. -/
def WordsFirst (routes : List R) (serves : String → R → Bool) (shape : R → Shape) : Prop :=
  routes.Pairwise fun r r' => ∀ method, serves method r = true → serves method r' = true →
    (apart (shape r) (shape r') || prefers (shape r) (shape r')) = true

/-- What is relied on of a router for some routes: what it finds takes the path by the method, it finds a route
wherever there is one, and of two that take the path it finds the one with a word for a placeholder. -/
structure Mux (routes : List R) (serves : String → R → Bool) (shape : R → Shape) where
  takesEmpty : Bool
  find : String → UrlPath → Option R
  sound : ∀ {method u r}, find method u = some r →
    r ∈ routes ∧ (serves method r && admits takesEmpty (shape r) (segments u.routed)) = true
  complete : ∀ {method u r}, r ∈ routes →
    (serves method r && admits takesEmpty (shape r) (segments u.routed)) = true → (find method u).isSome = true
  wordFirst : ∀ {method u r r'}, find method u = some r → r' ∈ routes →
    (serves method r' && admits takesEmpty (shape r') (segments u.routed)) = true → prefers (shape r') (shape r) = false

theorem preferred_or_same {takesEmpty : Bool} {method : String} {ss : List Bytes} {first r : R}
    (horder : WordsFirst routes serves shape)
    (hfirst : routes.find? (fun r => serves method r && admits takesEmpty (shape r) ss) = some first)
    (hmem : r ∈ routes) (htakes : (serves method r && admits takesEmpty (shape r) ss) = true) :
    r = first ∨ prefers (shape first) (shape r) = true := by
  obtain ⟨hfits, before, after, rfl, hbefore⟩ := List.find?_eq_some_iff_append.mp hfirst
  have hnot : r ∉ before := fun hr => by
    have hrejects := hbefore r hr
    rw [htakes] at hrejects
    cases hrejects
  rcases List.mem_append.mp hmem with hr | hr
  · exact absurd hr hnot
  · refine (List.mem_cons.mp hr).imp_right fun hr => ?_
    obtain ⟨hserved, hadmits⟩ := Bool.and_eq_true_iff.mp htakes
    obtain ⟨hserved', hadmits'⟩ := Bool.and_eq_true_iff.mp hfits
    have hlater := (List.pairwise_cons.mp (List.pairwise_append.mp horder).2.1).1 r hr method hserved' hserved
    rw [not_apart (verbatim_of_admits hadmits') (verbatim_of_admits hadmits), Bool.false_or] at hlater
    exact hlater

/-- In such an order the router finds the first route that takes the path. -/
theorem Mux.find_eq (mux : Mux routes serves shape) (horder : WordsFirst routes serves shape) (method : String)
    (u : UrlPath) : mux.find method u =
      routes.find? fun r => serves method r && admits mux.takesEmpty (shape r) (segments u.routed) := by
  cases hfirst : routes.find? fun r => serves method r && admits mux.takesEmpty (shape r) (segments u.routed) with
  | none =>
    rw [Option.eq_none_iff_forall_ne_some]
    intro r hr
    obtain ⟨hmem, htakes⟩ := mux.sound hr
    exact List.find?_eq_none.mp hfirst r hmem htakes
  | some first =>
    have hmem := List.mem_of_find?_eq_some hfirst
    have htakes := List.find?_some hfirst
    obtain ⟨r, hr⟩ := Option.isSome_iff_exists.mp (mux.complete hmem htakes)
    obtain ⟨hrmem, hrtakes⟩ := mux.sound hr
    rcases preferred_or_same horder hfirst hrmem hrtakes with rfl | hprefers
    · exact hr
    · rw [mux.wordFirst hr hmem htakes] at hprefers
      cases hprefers

/-- The router that tries the routes one after the other. -/
def Mux.ofOrder (takesEmpty : Bool) (horder : WordsFirst routes serves shape) : Mux routes serves shape where
  takesEmpty := takesEmpty
  find method u := routes.find? fun r => serves method r && admits takesEmpty (shape r) (segments u.routed)
  sound h := by
    have htakes := List.find?_some h
    exact ⟨List.mem_of_find?_eq_some h, htakes⟩
  complete hmem htakes := List.find?_isSome.mpr ⟨_, hmem, htakes⟩
  wordFirst h hmem htakes := by
    rcases preferred_or_same horder h hmem htakes with rfl | hprefers
    · exact prefers_self _
    · exact not_prefers hprefers

end

/-! ## Reading the segments decoded -/

/-- Each segment with what it decodes to. -/
abbrev Decodes (ss ts : List Bytes) : Prop := List.Forall₂ (fun s t => unescape s = some t) ss ts

theorem unescape_joined : ∀ {ss : List Bytes} {path : Bytes}, unescape (joined ss) = some path →
    ∃ ts, Decodes ss ts ∧ path = joined ts
  | [], path, h => by
      cases h
      exact ⟨[], .nil, rfl⟩
  | [s], path, h => by
      rw [joined, List.intercalate_singleton] at h
      exact ⟨[path], .cons h .nil, List.intercalate_singleton.symm⟩
  | s :: s' :: ss, path, h => by
      have hcons : ∀ a b : Bytes, ∀ l, joined (a :: b :: l) = a ++ slash :: joined (b :: l) := by
        intro a b l
        rw [joined, List.intercalate_cons_cons, List.append_assoc]
        rfl
      rw [hcons, unescape_append_cons apart_slash] at h
      obtain ⟨t, ht, hrest⟩ := Option.bind_eq_some_iff.mp h
      obtain ⟨rest, hjoined, rfl⟩ := Option.map_eq_some_iff.mp hrest
      obtain ⟨ts, hts, rfl⟩ := unescape_joined hjoined
      cases hts with
      | cons ht' hts => exact ⟨_, .cons ht (.cons ht' hts), (hcons _ _ _).symm⟩

theorem segments_append_slash_cons (a b : Bytes) : segments (a ++ slash :: b) = segments a ++ segments b :=
  List.splitOn_append_cons_self _ _

theorem segments_joined_flatMap : ∀ {ts : List Bytes}, ts ≠ [] → segments (joined ts) = ts.flatMap segments
  | [], h => absurd rfl h
  | [t], _ => by rw [joined, List.intercalate_singleton, List.flatMap_singleton]
  | t :: t' :: ts, _ => by
      rw [joined, List.intercalate_cons_cons, List.append_assoc, List.singleton_append, segments_append_slash_cons,
        List.flatMap_cons]
      exact congrArg _ (segments_joined_flatMap (List.cons_ne_nil t' ts))

/-- The segments of a decoded path: those of each segment as sent, decoded. -/
theorem segments_decoded {sent path : Bytes} (h : unescape sent = some path) :
    ∃ ts, Decodes (segments sent) ts ∧ segments path = ts.flatMap segments := by
  rw [← joined_segments sent] at h
  obtain ⟨ts, hts, rfl⟩ := unescape_joined h
  refine ⟨ts, hts, segments_joined_flatMap ?_⟩
  rintro rfl
  cases hsplit : segments sent with
  | nil => exact List.splitOn_ne_nil _ _ hsplit
  | cons s ss =>
    rw [hsplit] at hts
    cases hts

theorem segments_of_slashless {t : Bytes} (h : slash ∉ t) : segments t = [t] := by
  have hjoined := @segments_joined [t] (by simpa using h) (List.cons_ne_nil _ _)
  rwa [joined, List.intercalate_singleton] at hjoined

theorem segments_injective : Function.Injective segments := Function.LeftInverse.injective joined_segments

theorem segments_ne_nil (t : Bytes) : segments t ≠ [] := List.splitOn_ne_nil _ _

section

variable {takesEmpty : Bool} {q : Shape} {ss ts : List Bytes}

theorem unescape_plain_append {w : Bytes} (hw : w.all keptInPath = true) (rest : Bytes) :
    unescape (w ++ rest) = (unescape rest).map (w ++ ·) := by
  induction w with
  | nil => simp
  | cons b w ih =>
    rw [List.all_cons, Bool.and_eq_true] at hw
    have hne : b ≠ percent := by
      rintro rfl
      exact absurd hw.1 (by decide)
    rw [List.cons_append, unescape_cons_of_ne hne, ih hw.2, Option.map_map]
    rfl

theorem unescape_plain {w : Bytes} (hw : w.all keptInPath = true) : unescape w = some w := by
  have h := unescape_plain_append hw []
  rwa [List.append_nil, unescape_nil, Option.map_some, List.append_nil] at h

theorem length_le_flatMap_segments (ts : List Bytes) : ts.length ≤ (ts.flatMap segments).length := by
  induction ts with
  | nil => exact Nat.zero_le _
  | cons t ts ih =>
    have hpos := List.length_pos_iff.mpr (segments_ne_nil t)
    rw [List.flatMap_cons, List.length_append, List.length_cons]
    omega

/-- A word of the route is one of the decoded segments. -/
theorem decodes_word {w : Bytes} (hw : PlainWord w) (hdecodes : Decodes ss ts) (h : verbatim (some w :: q) ss = true) :
    ∃ ss' ts', Decodes ss' ts' ∧ verbatim q ss' = true ∧ ss = w :: ss' ∧
      ts.flatMap segments = w :: ts'.flatMap segments := by
  cases hdecodes with
  | nil => cases h
  | @cons s t ss ts ht hts =>
    rw [verbatim, Bool.and_eq_true, decide_eq_true_eq] at h
    obtain ⟨rfl, hrest⟩ := h
    rw [unescape_plain hw.2] at ht
    obtain rfl := Option.some.inj ht
    refine ⟨ss, ts, hts, hrest, rfl, ?_⟩
    rw [List.flatMap_cons, segments_of_slashless hw.1, List.singleton_append]

theorem decodes_last_word {w : Bytes} (hw : PlainWord w) (hdecodes : Decodes ss ts)
    (h : verbatim (q ++ [some w]) ss = true) : (ts.flatMap segments).getLast? = some w := by
  induction hdecodes generalizing q with
  | nil =>
    have hlength := length_of_verbatim h
    simp at hlength
  | @cons s t ss ts ht hts ih =>
    cases q with
    | nil =>
      obtain ⟨ss', ts', hts', hrest, -, hdecoded⟩ := decodes_word hw (.cons ht hts) h
      cases hts' with
      | nil => rw [hdecoded]; rfl
      | cons _ _ => cases hrest
    | cons p q =>
      have hrest : verbatim (q ++ [some w]) ss = true := by
        cases p with
        | none => exact h
        | some v => exact (Bool.and_eq_true _ _ ▸ h).2
      have hlast := ih hrest
      rw [List.flatMap_cons, List.getLast?_append, hlast, Option.some_or]

/-- With whole segments at its placeholders, a route that takes the segments takes them decoded. -/
theorem admits_decoded (hplain : PlainShape q) (hdecodes : Decodes ss ts) (h : verbatim q ss = true)
    (hwhole : ∀ s ∈ placeholders q ss, Whole s) : admits takesEmpty q (ts.flatMap segments) = true := by
  induction q generalizing ss ts with
  | nil =>
    cases hdecodes with
    | nil => rfl
    | cons _ _ => cases h
  | cons p q ih =>
    obtain ⟨hp, hq⟩ := List.forall_mem_cons.mp hplain
    cases p with
    | some w =>
      obtain ⟨ss', ts', hts', hrest, rfl, hdecoded⟩ := decodes_word (hp w rfl) hdecodes h
      rw [hdecoded, admits, ih hq hts' hrest hwhole]
      simp
    | none =>
      cases hdecodes with
      | nil => cases h
      | @cons s t ss ts ht hts =>
        obtain ⟨⟨t', ht', hne, hslash⟩, hrest⟩ := List.forall_mem_cons.mp hwhole
        obtain rfl := Option.some.inj (ht.symm.trans ht')
        rw [List.flatMap_cons, segments_of_slashless hslash, List.singleton_append, admits, ih hq hts h hrest,
          decide_eq_true hne]
        rfl

/-- Conversely, a route whose words stand at their places and that takes the decoded segments has whole segments
at its placeholders. -/
theorem whole_of_admits_decoded (hdecodes : Decodes ss ts) (h : verbatim q ss = true)
    (hdecoded : admits false q (ts.flatMap segments) = true) : ∀ s ∈ placeholders q ss, Whole s := by
  induction hdecodes generalizing q with
  | nil =>
    cases q with
    | nil => exact fun s hs => absurd hs List.not_mem_nil
    | cons p q => cases p <;> cases h
  | @cons s t ss ts ht hts ih =>
    rw [List.flatMap_cons] at hdecoded
    -- one segment for each part of the route leaves room for one of `t` only
    have hone : ∃ a, segments t = [a] := by
      have hlong := length_of_verbatim (verbatim_of_admits hdecoded)
      have hshort := length_of_verbatim h
      have hsame := hts.length_eq
      have hrest := length_le_flatMap_segments ts
      have hpos := List.length_pos_iff.mpr (segments_ne_nil t)
      rw [List.length_append] at hlong
      rw [List.length_cons] at hshort
      exact List.length_eq_one_iff.mp (by omega)
    obtain ⟨a, ha⟩ := hone
    have hat : a = t := by
      have hjoined := joined_segments t
      rw [ha, joined, List.intercalate_singleton] at hjoined
      exact hjoined
    subst hat
    rw [ha, List.singleton_append] at hdecoded
    cases q with
    | nil => cases h
    | cons p q =>
      cases p with
      | some w =>
        rw [verbatim, Bool.and_eq_true] at h
        rw [admits, Bool.and_eq_true] at hdecoded
        exact ih h.2 hdecoded.2
      | none =>
        rw [admits, Bool.and_eq_true] at hdecoded
        have hne : a ≠ [] := by simpa using hdecoded.1
        have hslash : slash ∉ a := slash_not_mem_of_mem_segments (ha ▸ List.mem_singleton_self a)
        exact List.forall_mem_cons.mpr ⟨⟨a, ht, hne, hslash⟩, ih h hdecoded.2⟩

end

/-! ## The path that is routed -/

theorem keptInPath_slash : keptInPath slash = true := by decide

theorem escapePath_injective {a b : Bytes} (h : escapePath a = escapePath b) : a = b := by
  have ha := @unescape_percentEncode keptInPath (by decide) a
  have hb := @unescape_percentEncode keptInPath (by decide) b
  rw [show percentEncode keptInPath a = percentEncode keptInPath b from h, hb] at ha
  exact (Option.some.inj ha).symm

theorem escapePath_plain {w : Bytes} (hw : w.all keptInPath = true) : escapePath w = w := percentEncode_kept hw

theorem slash_mem_escapePath {s : Bytes} : slash ∈ escapePath s ↔ slash ∈ s := by
  rw [escapePath, mem_percentEncode apart_slash]
  exact and_iff_left keptInPath_slash

theorem escapePath_joined : ∀ ss : List Bytes, escapePath (joined ss) = joined (ss.map escapePath)
  | [] => rfl
  | [s] => by rw [joined, List.intercalate_singleton, List.map_singleton, joined, List.intercalate_singleton]
  | s :: s' :: ss => by
      have ih := escapePath_joined (s' :: ss)
      rw [joined, List.intercalate_cons_cons, escapePath, percentEncode_append, percentEncode_append, List.map_cons,
        List.map_cons, joined, List.intercalate_cons_cons]
      exact congrArg ((escapePath s ++ [slash]) ++ ·) ih

theorem segments_escapePath (path : Bytes) : segments (escapePath path) = (segments path).map escapePath := by
  have hjoined := escapePath_joined (segments path)
  rw [joined_segments] at hjoined
  rw [hjoined]
  apply segments_joined
  · intro s hs
    obtain ⟨t, ht, rfl⟩ := List.mem_map.mp hs
    exact fun hs => slash_not_mem_of_mem_segments ht (slash_mem_escapePath.mp hs)
  · simpa using segments_ne_nil path

theorem admits_map_escapePath {takesEmpty : Bool} : ∀ {q : Shape}, PlainShape q → ∀ ss : List Bytes,
    admits takesEmpty q (ss.map escapePath) = admits takesEmpty q ss
  | [], _, [] => rfl
  | [], _, _ :: _ => rfl
  | some _ :: _, _, [] => rfl
  | none :: _, _, [] => rfl
  | some w :: ps, hplain, s :: ss => by
      obtain ⟨hword, hps⟩ := List.forall_mem_cons.mp hplain
      have hw := escapePath_plain (hword w rfl).2
      have hiff : escapePath s = w ↔ s = w := by
        constructor
        · intro h
          exact escapePath_injective (h.trans hw.symm)
        · intro h
          rw [h, hw]
      rw [List.map_cons, admits, admits, admits_map_escapePath hps]
      simp only [hiff]
  | none :: ps, hplain, s :: ss => by
      have hiff : escapePath s = [] ↔ s = [] := ⟨fun h => escapePath_injective h, by
        rintro rfl
        rfl⟩
      rw [List.map_cons, admits, admits, admits_map_escapePath (List.forall_mem_cons.mp hplain).2]
      simp only [ne_eq, hiff]

/-- Routes of plain words take the path that is routed exactly when they take it as it was sent. -/
theorem admits_routed {takesEmpty : Bool} {q : Shape} (hplain : PlainShape q) {sent : Bytes} {u : UrlPath}
    (h : setPath sent = some u) :
    admits takesEmpty q (segments u.routed) = admits takesEmpty q (segments sent) := by
  obtain ⟨path, hpath, rfl⟩ := Option.map_eq_some_iff.mp h
  unfold UrlPath.routed
  dsimp only
  by_cases hdefault : sent = escapePath path
  · rw [if_pos hdefault, if_pos rfl, hdefault, segments_escapePath, admits_map_escapePath hplain]
  · rw [if_neg hdefault]
    split_ifs with hempty
    · subst hempty
      cases hpath
      exact absurd rfl hdefault
    · rfl

end Foundations.Router
