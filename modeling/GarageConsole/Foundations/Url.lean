import Mathlib.Data.List.TakeWhile
import GarageConsole.Foundations.Path

/-! # Percent-escapes and URLs that begin with a slash

The escapes of `net/url`: `queryEscape` for a query parameter, with `+` for a space, and `unescape`,
which fails on a `%` that two hexadecimal digits do not follow. `parseRooted` is `url.Parse` for a string
that begins with one slash, and `redirectLocation` what `http.Redirect` sends for one.
-/

namespace Foundations.Url

open Text

set_option autoImplicit false

def isUnreserved (b : UInt8) : Bool :=
  (0x61 ≤ b && b ≤ 0x7A) || (0x41 ≤ b && b ≤ 0x5A) || (0x30 ≤ b && b ≤ 0x39) ||
    b = 0x2D || b = 0x5F || b = 0x2E || b = 0x7E

def upperHex (n : ℕ) : Char := if n < 10 then Char.ofNat (0x30 + n) else Char.ofNat (0x41 + (n - 10))

def escapeByte (b : UInt8) : List Char := ['%', upperHex (b.toNat / 16), upperHex (b.toNat % 16)]

def queryEscape (s : String) : String :=
  String.ofList ((bytes s).flatMap fun b =>
    if isUnreserved b then [Char.ofNat b.toNat] else if b = 0x20 then ['+'] else escapeByte b)

example : queryEscape "a b/é" = "a+b%2F%C3%A9" := by decide

/-! ## Unescaping -/

def percent : UInt8 := 0x25

def fromHex (b : UInt8) : Option UInt8 :=
  if 0x30 ≤ b && b ≤ 0x39 then some (b - 0x30)
  else if 0x61 ≤ b && b ≤ 0x66 then some (b - 0x61 + 10)
  else if 0x41 ≤ b && b ≤ 0x46 then some (b - 0x41 + 10)
  else none

def unescape : Bytes → Option Bytes
  | [] => some []
  | b :: rest =>
    if b = percent then
      match rest with
      | h :: l :: rest' =>
        match fromHex h, fromHex l with
        | some x, some y => (unescape rest').map ((x * 16 + y) :: ·)
        | _, _ => none
      | _ => none
    else (unescape rest).map (b :: ·)

@[simp] theorem unescape_nil : unescape [] = some [] := rfl

theorem unescape_cons_of_ne {b : UInt8} (h : b ≠ percent) (rest : Bytes) :
    unescape (b :: rest) = (unescape rest).map (b :: ·) := by
  rw [unescape.eq_def (b :: rest)]
  exact if_neg h

theorem unescape_escape {h l x y : UInt8} (hx : fromHex h = some x) (hy : fromHex l = some y) (rest : Bytes) :
    unescape (percent :: h :: l :: rest) = (unescape rest).map ((x * 16 + y) :: ·) := by
  rw [unescape, if_pos rfl, hx, hy]

theorem unescape_broken {h l : UInt8} (hbad : ∀ x y, fromHex h = some x → fromHex l = some y → False)
    (rest : Bytes) : unescape (percent :: h :: l :: rest) = none := by
  rw [unescape, if_pos rfl]
  split
  · rename_i x y hx hy
    exact absurd hy fun hy => hbad x y hx hy
  · rfl

def Apart (c : UInt8) : Prop := c ≠ percent ∧ fromHex c = none

instance (c : UInt8) : Decidable (Apart c) := inferInstanceAs (Decidable (_ ∧ _))

/-- Such a byte cuts the string in two that are unescaped apart. -/
theorem unescape_append_cons {c : UInt8} (hc : Apart c) (l r : Bytes) :
    unescape (l ++ c :: r) = (unescape l).bind fun a => (unescape r).map fun b => a ++ c :: b := by
  induction l using unescape.induct with
  | case1 =>
    rw [List.nil_append, unescape_cons_of_ne hc.1]
    rfl
  | case2 h l rest x y hy hx ih =>
    rw [List.cons_append, List.cons_append, List.cons_append, unescape_escape hx hy, ih, unescape_escape hx hy]
    cases unescape rest <;> cases unescape r <;> rfl
  | case3 h l rest hbad =>
    rw [List.cons_append, List.cons_append, List.cons_append, unescape_broken hbad, unescape_broken hbad]
    rfl
  | case4 rest hshort =>
    -- the escape would have to take `c` as a digit
    match rest, hshort with
    | [], _ => 
      cases r with
      | nil => rfl
      | cons b r => exact unescape_broken (fun x y hx _ => by simp [hc.2] at hx) r
    | [h], _ => exact unescape_broken (fun x y _ hy => by simp [hc.2] at hy) r
    | h :: l :: rest, hshort => exact absurd rfl (hshort h l rest)
  | case5 b rest hb ih =>
    rw [List.cons_append, unescape_cons_of_ne hb, ih, unescape_cons_of_ne hb]
    cases unescape rest <;> cases unescape r <;> rfl

theorem unescape_append_cons_isSome {c : UInt8} (hc : Apart c) {l r : Bytes} :
    (unescape (l ++ c :: r)).isSome ↔ (unescape l).isSome ∧ (unescape r).isSome := by
  rw [unescape_append_cons hc]
  cases unescape l <;> cases unescape r <;> simp

/-! ## Location headers -/

def lowerHex (n : UInt8) : UInt8 := if n < 10 then 0x30 + n else 0x61 + (n - 10)

def hexEscapeNonASCII (s : Bytes) : Bytes :=
  s.flatMap fun b => if b < 0x80 then [b] else [percent, lowerHex (b / 16), lowerHex (b % 16)]

theorem fromHex_lowerHex {n : UInt8} (h : n < 16) : fromHex (lowerHex n) = some n := by
  have hall : ∀ k : Fin 16, fromHex (lowerHex (UInt8.ofNat k)) = some (UInt8.ofNat k) := by decide
  have hn := hall ⟨n.toNat, UInt8.lt_iff_toNat_lt.mp h⟩
  rwa [UInt8.ofNat_toNat] at hn

theorem halves_lt (b : UInt8) : b / 16 < 16 ∧ b % 16 < 16 := by
  constructor
  · rw [UInt8.lt_iff_toNat_lt, UInt8.toNat_div]
    have := b.toNat_lt
    show b.toNat / 16 < 16
    omega
  · rw [UInt8.lt_iff_toNat_lt, UInt8.toNat_mod]
    exact Nat.mod_lt _ (by decide)

theorem halves_eq (b : UInt8) : b / 16 * 16 + b % 16 = b := by
  apply UInt8.toNat_inj.mp
  have hb := b.toNat_lt
  rw [UInt8.toNat_add, UInt8.toNat_mul, UInt8.toNat_div, UInt8.toNat_mod]
  show (b.toNat / 16 * 16 % 256 + b.toNat % 16) % 256 = b.toNat
  omega

theorem fromHex_lt {b x : UInt8} (h : fromHex b = some x) : b < 0x80 := by
  rw [fromHex] at h
  split_ifs at h <;> grind

theorem hexEscape_cons (b : UInt8) (s : Bytes) : hexEscapeNonASCII (b :: s) =
    (if b < 0x80 then [b] else [percent, lowerHex (b / 16), lowerHex (b % 16)]) ++ hexEscapeNonASCII s :=
  List.flatMap_cons

theorem hexEscape_cons_ascii {b : UInt8} (h : b < 0x80) (s : Bytes) :
    hexEscapeNonASCII (b :: s) = b :: hexEscapeNonASCII s := by
  rw [hexEscape_cons, if_pos h]
  rfl

/-- Escaping what is not ASCII changes nothing in what is read. -/
theorem unescape_hexEscape {s v : Bytes} (h : unescape s = some v) : unescape (hexEscapeNonASCII s) = some v := by
  induction s using unescape.induct generalizing v with
  | case1 => exact h
  | case2 h' l rest x y hy hx ih =>
    rw [unescape_escape hx hy] at h
    obtain ⟨w, hw, rfl⟩ := Option.map_eq_some_iff.mp h
    rw [hexEscape_cons_ascii (by decide), hexEscape_cons_ascii (fromHex_lt hx), hexEscape_cons_ascii (fromHex_lt hy),
      unescape_escape hx hy, ih hw]
    rfl
  | case3 h' l rest hbad =>
    rw [unescape_broken hbad] at h
    cases h
  | case4 rest hshort =>
    match rest, hshort with
    | [], _ => cases h
    | [_], _ => cases h
    | h' :: l :: rest, hshort => exact absurd rfl (hshort h' l rest)
  | case5 b rest hb ih =>
    rw [unescape_cons_of_ne hb] at h
    obtain ⟨w, hw, rfl⟩ := Option.map_eq_some_iff.mp h
    by_cases hascii : b < 0x80
    · rw [hexEscape_cons_ascii hascii, unescape_cons_of_ne hb, ih hw]
      rfl
    · obtain ⟨hhigh, hlow⟩ := halves_lt b
      rw [hexEscape_cons, if_neg hascii]
      show unescape (percent :: lowerHex (b / 16) :: lowerHex (b % 16) :: hexEscapeNonASCII rest) = _
      rw [unescape_escape (fromHex_lowerHex hhigh) (fromHex_lowerHex hlow), ih hw, halves_eq]
      rfl

theorem lowerHex_printable {n : UInt8} (h : n < 16) : 0x20 ≤ lowerHex n ∧ lowerHex n < 0x7F := by
  have hall : ∀ k : Fin 16, 0x20 ≤ lowerHex (UInt8.ofNat k) ∧ lowerHex (UInt8.ofNat k) < 0x7F := by decide
  have hn := hall ⟨n.toNat, UInt8.lt_iff_toNat_lt.mp h⟩
  rwa [UInt8.ofNat_toNat] at hn

def isControl (b : UInt8) : Bool := b < 0x20 || b = 0x7F

theorem printable_hexEscape {s : Bytes} (h : ∀ b ∈ s, isControl b = false) :
    ∀ b ∈ hexEscapeNonASCII s, 0x20 ≤ b ∧ b < 0x7F := by
  intro b hb
  obtain ⟨a, ha, hb⟩ := List.mem_flatMap.mp hb
  split_ifs at hb with hascii
  · obtain rfl := List.mem_singleton.mp hb
    have hcontrol := h b ha
    rw [isControl] at hcontrol
    grind
  · obtain ⟨hhigh, hlow⟩ := halves_lt a
    rcases List.mem_cons.mp hb with rfl | hb
    · decide
    · rcases List.mem_pair.mp hb with rfl | rfl
      · exact lowerHex_printable hhigh
      · exact lowerHex_printable hlow

def question : UInt8 := 0x3F

def hash : UInt8 := 0x23

def pathPart (s : Bytes) : Bytes := s.takeWhile fun b => b ≠ hash && b ≠ question

theorem lowerHex_not_special {n : UInt8} (h : n < 16) : lowerHex n ≠ hash ∧ lowerHex n ≠ question := by
  have hall : ∀ k : Fin 16, lowerHex (UInt8.ofNat k) ≠ hash ∧ lowerHex (UInt8.ofNat k) ≠ question := by decide
  have hn := hall ⟨n.toNat, UInt8.lt_iff_toNat_lt.mp h⟩
  rwa [UInt8.ofNat_toNat] at hn

theorem pathPart_eq (s : Bytes) : pathPart s = (s.takeWhile (· ≠ question)).takeWhile (· ≠ hash) := by
  rw [List.takeWhile_takeWhile, pathPart]
  simp

theorem pathPart_append {l : Bytes} (h : ∀ b ∈ l, b ≠ hash ∧ b ≠ question) (r : Bytes) :
    pathPart (l ++ r) = l ++ pathPart r :=
  List.takeWhile_append_of_pos fun b hb => by simp [h b hb]

theorem pathPart_stop {b : UInt8} (h : b = hash ∨ b = question) (s : Bytes) : pathPart (b :: s) = [] := by
  rw [pathPart, List.takeWhile_cons, if_neg (by rcases h with rfl | rfl <;> decide)]

theorem pathPart_hexEscape (s : Bytes) : pathPart (hexEscapeNonASCII s) = hexEscapeNonASCII (pathPart s) := by
  induction s with
  | nil => rfl
  | cons b s ih =>
    by_cases hb : b = hash ∨ b = question
    · have hascii : b < 0x80 := by rcases hb with rfl | rfl <;> decide
      rw [hexEscape_cons_ascii hascii, pathPart_stop hb, pathPart_stop hb]
      rfl
    · obtain ⟨hhigh, hlow⟩ := halves_lt b
      have hall : ∀ x ∈ (if b < 0x80 then [b] else [percent, lowerHex (b / 16), lowerHex (b % 16)]),
          x ≠ hash ∧ x ≠ question := by
        split_ifs
        · simpa using hb
        · simp [lowerHex_not_special hhigh, lowerHex_not_special hlow]
          decide
      have hcons : pathPart (b :: s) = b :: pathPart s := pathPart_append (l := [b]) (by simpa using hb) s
      rw [hexEscape_cons, pathPart_append hall, ih, hcons, hexEscape_cons]

/-! ## Strings that begin with one slash -/

/-- `strings.Cut`. -/
def cut (sep : UInt8) (s : Bytes) : Bytes × Bytes := (s.takeWhile (· ≠ sep), (s.dropWhile (· ≠ sep)).drop 1)

theorem cut_cases (c : UInt8) (s : Bytes) :
    (c ∉ s ∧ cut c s = (s, [])) ∨ ∃ l r, s = l ++ c :: r ∧ c ∉ l ∧ cut c s = (l, r) := by
  by_cases hmem : c ∈ s
  · obtain ⟨l, r, rfl, hl⟩ := List.eq_append_cons_of_mem hmem
    refine .inr ⟨l, r, rfl, hl, ?_⟩
    rw [cut, takeWhile_ne_append_cons hl, dropWhile_ne_append hl, List.dropWhile_cons]
    simp
  · have hdrop := dropWhile_ne_append hmem []
    rw [List.append_nil] at hdrop
    refine .inl ⟨hmem, ?_⟩
    rw [cut, takeWhile_ne hmem, hdrop]
    rfl

/-- `url.Parse` for a string that begins with one slash, which has no scheme and no host: its decoded path. -/
def parseRooted (raw : Bytes) : Option Bytes :=
  if (cut hash raw).1.any isControl then none
  else
    match unescape (cut question (cut hash raw).1).1, unescape (cut hash raw).2 with
    | some path, some _ => some path
    | _, _ => none

/-- A cleaned path, with a slash at its end kept. -/
def cleanKeeping (path : Bytes) : Bytes :=
  if path.getLast? = some Path.slash ∧ (Path.clean path).getLast? ≠ some Path.slash then
    Path.clean path ++ [Path.slash]
  else Path.clean path

/-- The target of a redirect with the part before its first `?` cleaned. -/
def cleanTarget (url : Bytes) : Bytes :=
  cleanKeeping (url.takeWhile (· ≠ question)) ++ url.dropWhile (· ≠ question)

/-- The `Location` header that `http.Redirect` sends for a target that begins with one slash. -/
def redirectLocation (url : Bytes) : Bytes :=
  hexEscapeNonASCII (match parseRooted url with
    | none => url
    | some _ => cleanTarget url)

/-! ## Escapes of a cleaned target -/

theorem apart_slash : Apart Path.slash := by decide

theorem apart_hash : Apart hash := by decide

theorem apart_question : Apart question := by decide

theorem unescape_takeWhile_isSome {c : UInt8} (hc : Apart c) {s : Bytes} (h : (unescape s).isSome) :
    (unescape (s.takeWhile (· ≠ c))).isSome := by
  rcases cut_cases c s with ⟨hmem, -⟩ | ⟨l, r, rfl, hl, -⟩
  · rwa [takeWhile_ne hmem]
  · rw [unescape_append_cons_isSome hc] at h
    rw [takeWhile_ne_append hl, List.takeWhile_cons]
    simpa using h.1

theorem unescape_joined_isSome : ∀ {ss : List Bytes},
    (unescape (Path.joined ss)).isSome ↔ ∀ s ∈ ss, (unescape s).isSome
  | [] => by simp [Path.joined]
  | [s] => by simp [Path.joined]
  | s :: t :: ss => by
      rw [Path.joined, List.intercalate_cons_cons, List.append_assoc, List.singleton_append,
        unescape_append_cons_isSome apart_slash, List.forall_mem_cons]
      exact and_congr_right fun _ => unescape_joined_isSome

theorem unescape_of_parseRooted {url path : Bytes} (h : parseRooted url = some path) :
    (unescape (url.takeWhile (· ≠ question))).isSome := by
  rw [parseRooted] at h
  split_ifs at h
  split at h
  · rename_i decoded fragment hpath hfragment
    have hpath := Option.isSome_of_eq_some hpath
    have hfragment := Option.isSome_of_eq_some hfragment
    rcases cut_cases hash url with ⟨-, hcut⟩ | ⟨l, r, rfl, -, hcut⟩
    · rwa [hcut] at hpath
    · rw [hcut] at hpath hfragment
      by_cases hquestion : question ∈ l
      · -- the `?` comes first
        obtain ⟨l₁, l₂, rfl, hl₁⟩ := List.eq_append_cons_of_mem hquestion
        rw [List.append_assoc, List.cons_append, takeWhile_ne_append hl₁, List.takeWhile_cons]
        rw [cut, takeWhile_ne_append hl₁, List.takeWhile_cons] at hpath
        simpa using hpath
      · rw [cut, takeWhile_ne hquestion] at hpath
        rw [takeWhile_ne_append hquestion, List.takeWhile_cons, if_pos (by decide),
          unescape_append_cons_isSome apart_hash]
        exact ⟨hpath, unescape_takeWhile_isSome apart_question hfragment⟩
  · cases h

/-! ## A cleaned target -/

theorem mem_cleanKeeping {b : UInt8} {path : Bytes} (h : b ∈ cleanKeeping path) : b = Path.slash ∨ b ∈ path := by
  rw [cleanKeeping] at h
  split_ifs at h
  · rcases List.mem_append.mp h with h | h
    · exact Path.mem_clean h
    · exact .inl (List.mem_singleton.mp h)
  · exact Path.mem_clean h

theorem mem_cleanTarget {b : UInt8} {url : Bytes} (h : b ∈ cleanTarget url) : b = Path.slash ∨ b ∈ url := by
  rcases List.mem_append.mp h with h | h
  · exact (mem_cleanKeeping h).imp_right fun h => List.takeWhile_subset _ h
  · exact .inr (List.dropWhile_subset _ h)

theorem takeWhile_cleanTarget (url : Bytes) :
    (cleanTarget url).takeWhile (· ≠ question) = cleanKeeping (url.takeWhile (· ≠ question)) := by
  have hnone : question ∉ cleanKeeping (url.takeWhile (· ≠ question)) := by
    intro h
    rcases mem_cleanKeeping h with h | h
    · exact absurd h (by decide)
    · exact not_mem_takeWhile_ne question url h
  rw [cleanTarget, takeWhile_ne_append hnone]
  rcases cut_cases question url with ⟨hmem, -⟩ | ⟨l, r, rfl, hl, -⟩
  · have hdrop := dropWhile_ne_append hmem []
    rw [List.append_nil] at hdrop
    rw [hdrop, List.dropWhile_nil, List.takeWhile_nil, List.append_nil]
  · rw [dropWhile_ne_append hl]
    simp

theorem cleanTarget_eq_cons (url : Bytes) : ∃ t, cleanTarget url = Path.slash :: t ∧ t.head? ≠ some Path.slash := by
  have hquery : (url.dropWhile (· ≠ question)).head? ≠ some Path.slash := by
    intro h
    have hall := List.head?_dropWhile_not (· ≠ question) url
    rw [h] at hall
    exact absurd hall (by decide)
  obtain ⟨t, ht, hhead⟩ := Path.clean_eq_cons (url.takeWhile (· ≠ question))
  rw [cleanTarget, cleanKeeping]
  split_ifs with hlast
  · -- the cleaned path is not the root, or no slash would be added
    refine ⟨t ++ [Path.slash] ++ url.dropWhile (· ≠ question), by rw [ht]; simp, ?_⟩
    cases t with
    | nil =>
      rw [ht] at hlast
      exact absurd rfl hlast.2
    | cons b t => exact hhead
  · refine ⟨t ++ url.dropWhile (· ≠ question), by rw [ht]; simp, ?_⟩
    cases t with
    | nil => exact hquery
    | cons b t => exact hhead

example : parseRooted (bytes "/a%2fb/..?q=%zz#x") = some (bytes "/a/b/..") := by decide +kernel
example : redirectLocation (bytes "/a//../b/?q=//é") = bytes "/b/?q=//%c3%a9" := by decide +kernel

end Foundations.Url
