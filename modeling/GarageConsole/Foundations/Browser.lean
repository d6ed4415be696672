import GarageConsole.Foundations.Query

/-! # URLs as a browser builds and sends them

`encodeURIComponent` of a well-formed string, and what `fetch` changes in a URL that is put together from such
components, plain words, slashes and a query: segments that are one or two dots, escaped or not, are resolved, and
apostrophes in the query are escaped.
-/

namespace Foundations.Url

open Text Foundations.Path

set_option autoImplicit false

def keptInComponent (b : UInt8) : Bool := isUnreserved b || b ∈ [0x21, 0x27, 0x28, 0x29, 0x2A]

def encodeURIComponent (s : String) : Bytes := percentEncode keptInComponent (bytes s)

/-! ## What fetch changes -/

def singleDots : List Bytes := [bytes ".", bytes "%2e", bytes "%2E"]

def isSingleDot (s : Bytes) : Bool := singleDots.any fun a => s = a

def isDoubleDot (s : Bytes) : Bool := singleDots.any fun a => singleDots.any fun b => s = a ++ b

/-- The segments after those kept, which come last first. -/
def resolveDots : List Bytes → List Bytes → List Bytes
  | kept, [] => kept.reverse
  | kept, s :: ss =>
    if isDoubleDot s then (if ss = [] then ([] :: kept.tail).reverse else resolveDots kept.tail ss)
    else if isSingleDot s then (if ss = [] then ([] :: kept).reverse else resolveDots kept ss)
    else resolveDots (s :: kept) ss

/-- The path of a URL; the empty segment before its first slash stays. -/
def fetchPath (path : Bytes) : Bytes := joined ((segments path).take 1 ++ resolveDots [] ((segments path).drop 1))

def apostrophe : UInt8 := 0x27

def fetchQuery (query : Bytes) : Bytes := query.flatMap fun b => if b = apostrophe then percentByte b else [b]

/-- The request target that is sent for a URL. -/
def fetchTarget (url : Bytes) : Bytes :=
  if question ∈ url then fetchPath (cut question url).1 ++ question :: fetchQuery (cut question url).2
  else fetchPath url

theorem resolveDots_plain {ss : List Bytes} (h : ∀ s ∈ ss, isDoubleDot s = false ∧ isSingleDot s = false) :
    ∀ kept, resolveDots kept ss = kept.reverse ++ ss := by
  induction ss with
  | nil => exact fun kept => (List.append_nil _).symm
  | cons s ss ih =>
    obtain ⟨⟨hdouble, hsingle⟩, hss⟩ := List.forall_mem_cons.mp h
    intro kept
    rw [resolveDots, if_neg (by simp [hdouble]), if_neg (by simp [hsingle]), ih hss, List.reverse_cons,
      List.append_assoc]
    rfl

theorem fetchPath_plain {path : Bytes} (h : ∀ s ∈ segments path, isDoubleDot s = false ∧ isSingleDot s = false) :
    fetchPath path = path := by
  rw [fetchPath, resolveDots_plain fun s hs => h s (List.mem_of_mem_drop hs), List.reverse_nil, List.nil_append,
    List.take_append_drop, joined_segments]

/-- Apostrophes that are kept before are escaped in the end. -/
theorem fetchQuery_percentEncode {kept : UInt8 → Bool} (s : Bytes) :
    fetchQuery (percentEncode kept s) = percentEncode (fun b => kept b && b ≠ apostrophe) s := by
  induction s with
  | nil => rfl
  | cons b s ih =>
    have happend : fetchQuery (percentEncode kept (b :: s)) =
        fetchQuery (if kept b then [b] else percentByte b) ++ fetchQuery (percentEncode kept s) := by
      rw [percentEncode_cons, fetchQuery, List.flatMap_append]
      rfl
    have hescape : fetchQuery (percentByte b) = percentByte b := by
      have hnone := not_mem_percentByte (c := apostrophe) (by decide) b
      rw [fetchQuery, List.flatMap_congr (g := fun b => [b]), List.flatMap_singleton']
      intro c hc
      rw [if_neg]
      rintro rfl
      exact hnone hc
    rw [happend, ih, percentEncode_cons]
    congr 1
    cases hkept : kept b with
    | false => rw [if_neg (by simp), if_neg (by simp), hescape]
    | true =>
      by_cases hb : b = apostrophe
      · rw [if_pos rfl, if_neg (by simp [hb]), fetchQuery, List.flatMap_singleton, if_pos hb]
      · rw [if_pos rfl, if_pos (by simp [hb]), fetchQuery, List.flatMap_singleton, if_neg hb]

/-- Only the dots themselves are encoded as dot segments, since every form of those reads as dots. -/
theorem not_dots_percentEncode {kept : UInt8 → Bool} (hpercent : kept percent = false) {s : Bytes}
    (hdot : s ≠ bytes ".") (hdots : s ≠ bytes "..") :
    isDoubleDot (percentEncode kept s) = false ∧ isSingleDot (percentEncode kept s) = false := by
  have hread := unescape_percentEncode hpercent s
  have hsingle : ∀ a ∈ singleDots, unescape a = some (bytes ".") := by decide
  have hdouble : ∀ a ∈ singleDots, ∀ b ∈ singleDots, unescape (a ++ b) = some (bytes "..") := by decide
  constructor
  · rw [isDoubleDot, List.any_eq_false]
    intro a ha hany
    obtain ⟨b, hb, heq⟩ := List.any_eq_true.mp hany
    rw [of_decide_eq_true heq, hdouble a ha b hb] at hread
    exact hdots (Option.some.inj hread).symm
  · rw [isSingleDot, List.any_eq_false]
    intro a ha heq
    rw [of_decide_eq_true heq, hsingle a ha] at hread
    exact hdot (Option.some.inj hread).symm

end Foundations.Url
