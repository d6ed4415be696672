import Mathlib.Data.List.Forall2
import GarageConsole.Foundations.Browser

/-! # Query strings as they are written

A name or a value is spelled by some encoder; as long as a spelling reads back and holds nothing that separates
(`Spells`), pairs of spellings joined by `&` are read back as they were, in their order (`parseQuery_spelled`).
`formEncode` writes a space as `+`; it is `URLSearchParams`' encoder and Go's `url.QueryEscape`, for the bytes
that each of them keeps.
-/

namespace Foundations.Url

open Text

set_option autoImplicit false

/-- What may stand in the spelling of a name or a value. -/
def inQuery (c : UInt8) : Bool := !isControl c && c ∉ [ampersand, equals, semicolon, apostrophe]

structure Spells (piece v : Bytes) : Prop where
  reads : queryUnescape piece = some v
  clean : piece.all inQuery = true

def joinPairs (pairs : List (Bytes × Bytes)) : Bytes :=
  [ampersand].intercalate (pairs.map fun p => p.1 ++ equals :: p.2)

/-! ## Reading pairs back -/

theorem not_mem_of_clean {piece : Bytes} (h : piece.all inQuery = true) {c : UInt8} (hc : inQuery c = false) :
    c ∉ piece := by
  intro hmem
  rw [List.all_eq_true.mp h c hmem] at hc
  cases hc

theorem cut_append {c : UInt8} {l : Bytes} (h : c ∉ l) (r : Bytes) : cut c (l ++ c :: r) = (l, r) := by
  have hne : ∀ b ∈ l, decide (b ≠ c) = true := fun b hb => decide_eq_true fun heq => h (heq ▸ hb)
  rw [cut, List.takeWhile_append_of_pos hne, List.dropWhile_append_of_pos hne]
  simp

/-- A pair of spellings. -/
def SpellsPair (s p : Bytes × Bytes) : Prop := Spells s.1 p.1 ∧ Spells s.2 p.2

theorem parameter_spelled {s p : Bytes × Bytes} (h : SpellsPair s p) : parameter (s.1 ++ equals :: s.2) = some p := by
  obtain ⟨hname, hvalue⟩ := h
  have hsemicolon : semicolon ∉ s.1 ++ equals :: s.2 := by
    rw [List.mem_append, List.mem_cons, not_or, not_or]
    exact ⟨not_mem_of_clean hname.clean (by decide), by decide, not_mem_of_clean hvalue.clean (by decide)⟩
  rw [parameter, if_neg (not_or.mpr ⟨hsemicolon, by simp⟩), cut_append (not_mem_of_clean hname.clean (by decide)),
    hname.reads, hvalue.reads]

theorem ampersand_not_mem {s p : Bytes × Bytes} (h : SpellsPair s p) : ampersand ∉ s.1 ++ equals :: s.2 := by
  rw [List.mem_append, List.mem_cons, not_or, not_or]
  exact ⟨not_mem_of_clean h.1.clean (by decide), by decide, not_mem_of_clean h.2.clean (by decide)⟩

theorem count_intercalate {c : UInt8} : ∀ {pieces : List Bytes}, (∀ piece ∈ pieces, c ∉ piece) →
    ([c].intercalate pieces).count c + 1 ≤ max pieces.length 1
  | [], _ => by simp
  | [piece], h => by simp [List.count_eq_zero.mpr (h piece List.mem_cons_self)]
  | piece :: next :: pieces, h => by
    obtain ⟨hpiece, hrest⟩ := List.forall_mem_cons.mp h
    have ih := count_intercalate hrest
    rw [List.intercalate_cons_cons, List.count_append, List.count_append, List.count_eq_zero.mpr hpiece]
    simp only [List.count_singleton_self, List.length_cons] at ih ⊢
    omega

/-- Pairs that are spelled in any way are read as they are, in their order. -/
theorem parseQuery_spelled {spelled pairs : List (Bytes × Bytes)} (h : List.Forall₂ SpellsPair spelled pairs)
    (hlen : pairs.length ≤ maxQueryParams) : parseQuery (joinPairs spelled) = pairs := by
  have hpieces : ∀ piece ∈ spelled.map fun s => s.1 ++ equals :: s.2, ampersand ∉ piece := by
    clear hlen
    induction h with
    | nil => exact fun piece hpiece => absurd hpiece List.not_mem_nil
    | cons hfirst _ ih => exact List.forall_mem_cons.mpr ⟨ampersand_not_mem hfirst, ih⟩
  have hread : (spelled.map fun s => s.1 ++ equals :: s.2).filterMap parameter = pairs := by
    clear hlen hpieces
    induction h with
    | nil => rfl
    | cons hfirst _ ih => rw [List.map_cons, List.filterMap_cons, parameter_spelled hfirst, ih]
  have hcount := count_intercalate hpieces
  rw [List.length_map, h.length_eq] at hcount
  have hmax : 1 ≤ maxQueryParams := by decide
  rw [parseQuery, joinPairs, if_neg (by omega)]
  by_cases hnil : spelled.map (fun s => s.1 ++ equals :: s.2) = []
  · rw [hnil, List.filterMap_nil] at hread
    rw [hnil, ← hread]
    rfl
  · rw [List.splitOn_intercalate ampersand hpieces hnil, hread]

/-! ## Encoders -/

/-- The bytes that an encoder of names and values must not keep. -/
def KeepsClean (kept : UInt8 → Bool) : Prop := ∀ c, inQuery c = false ∨ c = percent ∨ c = plus → kept c = false

theorem inQuery_of_not_apart {c : UInt8} (h : ¬Apart c) : inQuery c = true := by
  rw [Apart, not_and_or, not_not] at h
  rcases h with rfl | h
  · decide
  · rw [fromHex] at h
    grind [inQuery, isControl, ampersand, equals, semicolon, apostrophe]

theorem clean_percentByte (b : UInt8) : (percentByte b).all inQuery = true :=
  List.all_eq_true.mpr fun _ hc => inQuery_of_not_apart fun hapart => not_mem_percentByte hapart b hc

section

variable {kept : UInt8 → Bool} (h : KeepsClean kept)

include h

theorem KeepsClean.inQuery {b : UInt8} (hb : kept b = true) : inQuery b = true := by
  by_contra hnot
  rw [h b (.inl (eq_false_of_ne_true hnot))] at hb
  cases hb

/-- A percent-encoded value spells it. -/
theorem spells_percentEncode (v : Bytes) : Spells (percentEncode kept v) v := by
  refine ⟨queryUnescape_percentEncode (fun c hc => h c ?_) v, ?_⟩
  · have hmarks : ([percent, plus, semicolon, ampersand].all fun c =>
        !inQuery c || c = percent || c = plus) = true := by decide
    simpa [or_assoc] using List.all_eq_true.mp hmarks c hc
  · rw [percentEncode, List.all_flatMap, List.all_eq_true]
    intro b _
    split_ifs with hb
    · rw [List.all_cons, h.inQuery hb]
      rfl
    · exact clean_percentByte b

end

/-- A byte as forms write it. -/
def formByte (kept : UInt8 → Bool) (b : UInt8) : Bytes :=
  if b = space then [plus] else if kept b then [b] else percentByte b

def formEncode (kept : UInt8 → Bool) (s : Bytes) : Bytes := s.flatMap (formByte kept)

theorem queryUnescape_formByte {kept : UInt8 → Bool} (h : KeepsClean kept) (b : UInt8) (rest : Bytes) :
    queryUnescape (formByte kept b ++ rest) = (queryUnescape rest).map (b :: ·) := by
  rw [queryUnescape, queryUnescape, formByte, List.map_append]
  split_ifs with hspace hkept
  · rw [hspace]
    exact unescape_cons_of_ne (by decide) _
  · have hplus : b ≠ plus := by
      rintro rfl
      rw [h plus (.inr (.inr rfl))] at hkept
      cases hkept
    have hpercent : b ≠ percent := by
      rintro rfl
      rw [h percent (.inr (.inl rfl))] at hkept
      cases hkept
    rw [List.map_cons, if_neg hplus]
    exact unescape_cons_of_ne hpercent _
  · have hsame : (percentByte b).map (fun c => if c = plus then space else c) = percentByte b := by
      have hnone := not_mem_percentByte (c := plus) (by decide) b
      calc (percentByte b).map (fun c => if c = plus then space else c) = (percentByte b).map id := by
            refine List.map_congr_left fun c hc => if_neg ?_
            rintro rfl
            exact hnone hc
        _ = percentByte b := List.map_id _
    rw [hsame, unescape_percentByte]

/-- A form-encoded value spells it. -/
theorem spells_formEncode {kept : UInt8 → Bool} (h : KeepsClean kept) (v : Bytes) : Spells (formEncode kept v) v := by
  constructor
  · induction v with
    | nil => rfl
    | cons b v ih => rw [formEncode, List.flatMap_cons, queryUnescape_formByte h, ← formEncode, ih, Option.map_some]
  · rw [formEncode, List.all_flatMap, List.all_eq_true]
    intro b _
    rw [formByte]
    split_ifs with hspace hkept
    · decide
    · rw [List.all_cons, h.inQuery hkept]
      rfl
    · exact clean_percentByte b

/-! ## The encoders in use -/

/-- What `URLSearchParams` keeps. -/
def keptInForm (b : UInt8) : Bool := (isUnreserved b && b ≠ 0x7E) || b = 0x2A

/-- `URLSearchParams.toString` -/
def searchParams (pairs : List (Bytes × Bytes)) : Bytes :=
  joinPairs (pairs.map fun p => (formEncode keptInForm p.1, formEncode keptInForm p.2))

/-- `url.Values.Encode`, of pairs whose names are sorted. -/
def encodeValues (pairs : List (Bytes × Bytes)) : Bytes :=
  joinPairs (pairs.map fun p => (formEncode isUnreserved p.1, formEncode isUnreserved p.2))

theorem keepsClean_unreserved : KeepsClean isUnreserved := by
  intro c hc
  by_contra hkept
  rw [Bool.not_eq_false] at hkept
  rcases hc with hc | rfl | rfl
  · have hmark : c ∉ [ampersand, equals, semicolon, apostrophe] := by
      rintro hmem
      have hall : ([ampersand, equals, semicolon, apostrophe].all fun c => !isUnreserved c) = true := by decide
      have hnot := List.all_eq_true.mp hall c hmem
      rw [hkept] at hnot
      cases hnot
    have hcontrol : isControl c = false := by grind [isUnreserved, isControl]
    rw [inQuery, hcontrol, decide_eq_true hmark] at hc
    cases hc
  · exact absurd hkept (by decide)
  · exact absurd hkept (by decide)

theorem keepsClean_form : KeepsClean keptInForm := by
  intro c hc
  rw [keptInForm, keepsClean_unreserved c hc, Bool.false_and, Bool.false_or, decide_eq_false_iff_not]
  rintro rfl
  exact absurd hc (by decide)

theorem spelled_forms {kept : UInt8 → Bool} (h : KeepsClean kept) (pairs : List (Bytes × Bytes)) :
    List.Forall₂ SpellsPair (pairs.map fun p => (formEncode kept p.1, formEncode kept p.2)) pairs := by
  induction pairs with
  | nil => exact .nil
  | cons p pairs ih => exact .cons ⟨spells_formEncode h p.1, spells_formEncode h p.2⟩ ih

/-- A query string in which nothing is left to escape: a browser sends it as it is. -/
theorem joinPairs_clean {spelled pairs : List (Bytes × Bytes)} (h : List.Forall₂ SpellsPair spelled pairs) :
    (joinPairs spelled).any isControl = false ∧ apostrophe ∉ joinPairs spelled := by
  have hclean : ∀ c ∈ joinPairs spelled, inQuery c = true ∨ c = ampersand ∨ c = equals := by
    induction h with
    | nil => exact fun c hc => absurd hc List.not_mem_nil
    | @cons s p spelled pairs hfirst hrest ih =>
      have hpiece : ∀ c ∈ s.1 ++ equals :: s.2, inQuery c = true ∨ c = ampersand ∨ c = equals := by
        intro c hc
        rcases List.mem_append.mp hc with hc | hc
        · exact .inl (List.all_eq_true.mp hfirst.1.clean c hc)
        · rcases List.mem_cons.mp hc with hc | hc
          · exact .inr (.inr hc)
          · exact .inl (List.all_eq_true.mp hfirst.2.clean c hc)
      cases spelled with
      | nil =>
        rw [joinPairs, List.map_singleton, List.intercalate_singleton]
        exact hpiece
      | cons t spelled =>
        intro c hc
        rw [joinPairs, List.map_cons, List.map_cons, List.intercalate_cons_cons, List.mem_append, List.mem_append,
          List.mem_singleton] at hc
        rcases hc with (hc | hc) | hc
        · exact hpiece c hc
        · exact .inr (.inl hc)
        · exact ih c (by rwa [joinPairs, List.map_cons])
  constructor
  · rw [List.any_eq_false]
    intro c hc hcontrol
    rcases hclean c hc with hin | rfl | rfl
    · rw [inQuery, hcontrol] at hin
      cases hin
    · exact absurd hcontrol (by decide)
    · exact absurd hcontrol (by decide)
  · intro hc
    exact absurd (hclean apostrophe hc) (by decide)

theorem fetchQuery_of_not_mem {query : Bytes} (h : apostrophe ∉ query) : fetchQuery query = query := by
  rw [fetchQuery, List.flatMap_congr (g := fun b => [b]), List.flatMap_singleton']
  intro b hb
  rw [if_neg]
  rintro rfl
  exact h hb

theorem parseQuery_encodeValues {pairs : List (Bytes × Bytes)} (hlen : pairs.length ≤ maxQueryParams) :
    parseQuery (encodeValues pairs) = pairs := parseQuery_spelled (spelled_forms keepsClean_unreserved pairs) hlen

end Foundations.Url
