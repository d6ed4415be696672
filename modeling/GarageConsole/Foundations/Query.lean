import GarageConsole.Foundations.Escapes

/-! # Query strings

The parameters of a query string in their order, as `net/url` reads them: pieces between `&`, each cut at its
first `=` and unescaped, with `+` for a space. A piece that is empty, holds a `;` or does not unescape is passed
over, and a string of too many pieces is not read at all.
-/

namespace Foundations.Url

open Text

set_option autoImplicit false

def ampersand : UInt8 := 0x26

def equals : UInt8 := 0x3D

def semicolon : UInt8 := 0x3B

def plus : UInt8 := 0x2B

def space : UInt8 := 0x20

/-- `url.QueryUnescape` -/
def queryUnescape (s : Bytes) : Option Bytes := unescape (s.map fun b => if b = plus then space else b)

def parameter (piece : Bytes) : Option (Bytes × Bytes) :=
  if semicolon ∈ piece ∨ piece = [] then none
  else match queryUnescape (cut equals piece).1, queryUnescape (cut equals piece).2 with
    | some key, some value => some (key, value)
    | _, _ => none

/-- The default of `urlmaxqueryparams`. -/
def maxQueryParams : ℕ := 10000

/-- `url.ParseQuery`, what it keeps of a string with errors in it. -/
def parseQuery (query : Bytes) : List (Bytes × Bytes) :=
  if maxQueryParams < query.count ampersand + 1 then [] else (query.splitOn ampersand).filterMap parameter

def values (q : List (Bytes × Bytes)) (key : Bytes) : List Bytes := (q.filter (·.1 = key)).map (·.2)

/-- `Values.Get`: the first value, empty if there is none. -/
def getValue (q : List (Bytes × Bytes)) (key : Bytes) : Bytes := (values q key).headD []

/-- `Values.Has` -/
def hasValue (q : List (Bytes × Bytes)) (key : Bytes) : Bool := values q key ≠ []

/-! ## Reading one encoded value -/

theorem unreserved_apart : ∀ c ∈ [percent, plus, semicolon, ampersand], isUnreserved c = false := by
  simp [isUnreserved, percent, plus, semicolon, ampersand]

section

variable {kept : UInt8 → Bool} (hkept : ∀ c ∈ [percent, plus, semicolon, ampersand], kept c = false)

include hkept

theorem queryUnescape_percentEncode (v : Bytes) : queryUnescape (percentEncode kept v) = some v := by
  have hplus : plus ∉ percentEncode kept v := by
    rw [mem_percentEncode (by decide), hkept plus (by decide)]
    exact fun h => Bool.noConfusion h.2
  have hsame : (percentEncode kept v).map (fun b => if b = plus then space else b) = percentEncode kept v := by
    refine (List.map_congr_left fun b hb => ?_).trans (List.map_id _)
    rw [if_neg]
    · rfl
    · rintro rfl
      exact hplus hb
  rw [queryUnescape, hsame, unescape_percentEncode (hkept percent (by decide))]

/-- A query of one parameter, whose name needs no escapes. -/
theorem parseQuery_percentEncode {name : Bytes} (hname : name.all isUnreserved = true) (v : Bytes) :
    parseQuery (name ++ equals :: percentEncode kept v) = [(name, v)] := by
  have hplain : ∀ {c : UInt8}, isUnreserved c = false → c ∉ name := by
    intro c hc hmem
    rw [List.all_eq_true.mp hname c hmem] at hc
    cases hc
  have hvalue : ∀ {c : UInt8}, Apart c → c ∈ [percent, plus, semicolon, ampersand] → c ∉ percentEncode kept v := by
    intro c hc hmem
    rw [mem_percentEncode hc, hkept c hmem]
    exact fun h => Bool.noConfusion h.2
  have hnone : ∀ {c : UInt8}, isUnreserved c = false → Apart c → c ∈ [percent, plus, semicolon, ampersand] →
      c ≠ equals → c ∉ name ++ equals :: percentEncode kept v := by
    intro c hc hapart hmem hne hin
    rcases List.mem_append.mp hin with hin | hin
    · exact hplain hc hin
    · rcases List.mem_cons.mp hin with hin | hin
      · exact hne hin
      · exact hvalue hapart hmem hin
  have hcut : cut equals (name ++ equals :: percentEncode kept v) = (name, percentEncode kept v) := by
    have hstop := hplain (show isUnreserved equals = false by decide)
    rw [cut, takeWhile_ne_append hstop, dropWhile_ne_append hstop]
    simp
  have hwhole : name = percentEncode isUnreserved name := (percentEncode_kept hname).symm
  have hread : queryUnescape name = some name := by
    rw [hwhole]
    refine (queryUnescape_percentEncode unreserved_apart name).trans ?_
    rw [← hwhole]
  have hampersand := hnone (c := ampersand) (by decide) (by decide) (by decide) (by decide)
  have hsemicolon := hnone (c := semicolon) (by decide) (by decide) (by decide) (by decide)
  rw [parseQuery, List.count_eq_zero.mpr hampersand, if_neg (by decide), List.splitOn_eq_singleton hampersand]
  simp [parameter, hsemicolon, hcut, hread, queryUnescape_percentEncode hkept]

end

example : parseQuery (bytes "a=1&&b=x+%2B&a=2&c;d=3&e=%zz&f") =
    [(bytes "a", bytes "1"), (bytes "b", bytes "x +"), (bytes "a", bytes "2"), (bytes "f", [])] := by decide +kernel

end Foundations.Url
