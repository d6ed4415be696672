import GarageConsole.Foundations.JsonTokens

/-! # Texts that break off

A reader that knows where what it reads ends (`SelfDelimiting`) finds the same in a text that breaks off, or nothing,
if the text breaks off before that end (`SelfDelimiting.cut`). The strings of an array are read so, one after the
other, blanks and commas included.
-/

namespace Foundations.CutOff

open Text Json GoJson JsonTokens

set_option autoImplicit false

variable {α β : Type}

/-- What is read is taken from the front, and what follows has no part in it. -/
def SelfDelimiting (read : Bytes → Option (α × Bytes)) : Prop :=
  ∀ bs a rest, read bs = some (a, rest) → ∃ taken, bs = taken ++ rest ∧ ∀ more, read (taken ++ more) = some (a, more)

section Readers

variable {read : Bytes → Option (α × Bytes)}

/-- In a text that breaks off there is what the whole text has, or that ends only in what is not seen. -/
theorem SelfDelimiting.cut (h : SelfDelimiting read) {seen unseen rest : Bytes} {a : α}
    (hread : read (seen ++ unseen) = some (a, rest)) :
    (read seen = none ∧ rest.length < unseen.length) ∨ ∃ left, read seen = some (a, left) ∧ rest = left ++ unseen := by
  cases hseen : read seen with
  | some out =>
    obtain ⟨b, left⟩ := out
    obtain ⟨taken, rfl, hagain⟩ := h seen b left hseen
    rw [List.append_assoc, hagain] at hread
    cases hread
    exact .inr ⟨left, rfl, rfl⟩
  | none =>
    refine .inl ⟨rfl, ?_⟩
    obtain ⟨taken, hsplit, hagain⟩ := h _ a rest hread
    by_contra hshort
    obtain ⟨left, rfl⟩ : ∃ left, seen = taken ++ left := by
      obtain ⟨missing, htaken, hunseen⟩ | ⟨left, hleft, -⟩ := List.append_eq_append_iff.mp hsplit
      · have hnothing : missing = [] := by
          rw [← List.length_eq_zero_iff]
          rw [hunseen, List.length_append] at hshort
          omega
        exact ⟨[], by rw [htaken, hnothing, List.append_nil, List.append_nil]⟩
      · exact ⟨left, hleft⟩
    rw [hagain] at hseen
    cases hseen

theorem SelfDelimiting.map (h : SelfDelimiting read) (f : α → β) :
    SelfDelimiting fun bs => (read bs).map fun out => (f out.1, out.2) := by
  intro bs b rest hread
  obtain ⟨⟨a, rest⟩, ha, heq⟩ := Option.map_eq_some_iff.mp hread
  cases heq
  obtain ⟨taken, hsplit, hagain⟩ := h bs a rest ha
  exact ⟨taken, hsplit, fun more => Option.map_eq_some_iff.mpr ⟨(a, more), hagain more, rfl⟩⟩

/-- A reader behind a byte. -/
def behind (b : UInt8) (read : Bytes → Option (α × Bytes)) : Bytes → Option (α × Bytes)
  | [] => none
  | c :: rest => if c = b then read rest else none

theorem SelfDelimiting.behind (h : SelfDelimiting read) (b : UInt8) : SelfDelimiting (behind b read) := by
  intro bs a rest hread
  cases bs with
  | nil => cases hread
  | cons c bs =>
    rw [CutOff.behind] at hread
    split at hread
    · rename_i hc
      obtain ⟨taken, rfl, hagain⟩ := h bs a rest hread
      exact ⟨c :: taken, rfl, fun more => by rw [List.cons_append, CutOff.behind, if_pos hc, hagain]⟩
    · cases hread

theorem skipSpace_eq_append (bs : Bytes) : ∃ blanks, bs = blanks ++ skipSpace bs ∧ ∀ b ∈ blanks, isSpace b = true :=
  ⟨bs.takeWhile isSpace, List.takeWhile_append_dropWhile.symm, fun _ hb => List.mem_takeWhile_imp hb⟩

theorem skipSpace_blanks {blanks : Bytes} (h : ∀ b ∈ blanks, isSpace b = true) (bs : Bytes) :
    skipSpace (blanks ++ bs) = skipSpace bs := List.dropWhile_append_of_pos h

theorem skipSpace_of_head {bs : Bytes} {b : UInt8} (h : isSpace b = false) : skipSpace (b :: bs) = b :: bs :=
  List.dropWhile_cons_of_neg (by rw [h]; exact Bool.false_ne_true)

/-- A reader that passes over blanks. -/
theorem SelfDelimiting.blanks (h : SelfDelimiting read) (hnil : read [] = none) :
    SelfDelimiting fun bs => read (skipSpace bs) := by
  intro bs a rest hread
  obtain ⟨blanks, hbs, hblanks⟩ := skipSpace_eq_append bs
  obtain ⟨taken, hsplit, hagain⟩ := h _ a rest hread
  refine ⟨blanks ++ taken, by rw [hbs, List.append_assoc, ← hsplit], fun more => ?_⟩
  cases taken with
  | nil =>
    have hempty := hagain []
    rw [List.nil_append, hnil] at hempty
    cases hempty
  | cons b taken =>
    have hb : isSpace b = false := by
      have hne : bs.dropWhile isSpace ≠ [] := by rw [← skipSpace, hsplit]; exact List.cons_ne_nil b _
      have hhead : (skipSpace bs).head hne = b := by simp [hsplit]
      rw [← hhead]
      exact List.head_dropWhile_not isSpace hne
    dsimp only
    rw [List.append_assoc, skipSpace_blanks hblanks, List.cons_append, skipSpace_of_head hb, ← List.cons_append, hagain]

end Readers

/-! ## Strings -/

theorem scan_plain {c : UInt8} (hquote : ¬c = 0x22) (hcontrol : ¬c < 0x20) (hescape : ¬c = 0x5C) (more : Bytes) :
    scanString ([c] ++ more) = (scanString more).map fun out => ([c] ++ out.1, out.2) := by
  rw [List.singleton_append, scanString.eq_def]
  dsimp only
  rw [if_neg hquote, if_neg hcontrol, if_neg hescape]
  rfl

theorem scan_unicode {h₁ h₂ h₃ h₄ : UInt8} (hhex : ¬(hex4 [h₁, h₂, h₃, h₄]).isNone = true) (more : Bytes) :
    scanString ([0x5C, 0x75, h₁, h₂, h₃, h₄] ++ more) =
      (scanString more).map fun out => ([0x5C, 0x75, h₁, h₂, h₃, h₄] ++ out.1, out.2) := by
  simp only [List.cons_append, List.nil_append]
  rw [scanString.eq_def]
  dsimp only
  rw [if_neg (by decide), if_neg (by decide), if_pos rfl]
  exact if_neg hhex

theorem scan_escape {e : UInt8} (hescape : ¬(simpleEscape e).isNone = true) (more : Bytes) :
    scanString ([0x5C, e] ++ more) = (scanString more).map fun out => ([0x5C, e] ++ out.1, out.2) := by
  simp only [List.cons_append, List.nil_append]
  rw [scanString.eq_def]
  dsimp only
  rw [if_neg (by decide), if_neg (by decide), if_pos rfl]
  split
  · rename_i he
    obtain ⟨rfl, -⟩ := List.cons.inj he
    exact absurd rfl hescape
  · rename_i he
    obtain ⟨rfl, rfl⟩ := List.cons.inj he
    rw [if_neg hescape]
  · rename_i he
    cases he

/-- More of a string in front of what was read of it. -/
theorem scan_more {lead rest : Bytes}
    (hlead : ∀ more, scanString (lead ++ more) = (scanString more).map fun out => (lead ++ out.1, out.2))
    (ih : ∀ a left, scanString rest = some (a, left) →
      ∃ taken, rest = taken ++ left ∧ ∀ more, scanString (taken ++ more) = some (a, more)) {a left : Bytes}
    (h : scanString (lead ++ rest) = some (a, left)) :
    ∃ taken, lead ++ rest = taken ++ left ∧ ∀ more, scanString (taken ++ more) = some (a, more) := by
  rw [hlead] at h
  obtain ⟨⟨raw, left⟩, hraw, heq⟩ := Option.map_eq_some_iff.mp h
  cases heq
  obtain ⟨taken, rfl, hagain⟩ := ih raw left hraw
  exact ⟨lead ++ taken, (List.append_assoc _ _ _).symm, fun more => by rw [List.append_assoc, hlead, hagain]; rfl⟩

/-- By induction on the pieces that the scanner takes: a character, or an escape. -/
theorem selfDelimiting_scanString : SelfDelimiting scanString := by
  intro bs
  fun_induction scanString bs with
  | case1 => exact nofun
  | case2 rest =>
    intro a left h
    cases h
    exact ⟨[0x22], rfl, fun more => by rw [List.singleton_append, scanString.eq_def]; exact if_pos rfl⟩
  | case3 c rest hquote hcontrol => exact nofun
  | case4 h₁ h₂ h₃ h₄ rest hhex => exact nofun
  | case5 h₁ h₂ h₃ h₄ rest hhex hquote hcontrol ih =>
    intro a left h
    exact scan_more (scan_unicode hhex) ih ((scan_unicode hhex rest).trans h)
  | case6 e rest hplain hescape => exact nofun
  | case7 e rest hplain hescape hquote hcontrol ih =>
    intro a left h
    exact scan_more (scan_escape hescape) ih ((scan_escape hescape rest).trans h)
  | case8 => exact nofun
  | case9 c rest hquote hcontrol hescape ih =>
    intro a left h
    exact scan_more (scan_plain hquote hcontrol hescape) ih
      ((scan_plain hquote hcontrol hescape rest).trans h)

theorem selfDelimiting_parseString : SelfDelimiting parseString :=
  selfDelimiting_scanString.map fun raw => String.ofList (unquote raw.length raw)

/-! ## Strings in an array -/

/-- A string with its quotes. -/
def quoted : Bytes → Option (String × Bytes) := behind 0x22 parseString

/-- The next string in an array: the first one, or one behind a comma. -/
def nextString (first : Bool) (bs : Bytes) : Option (String × Bytes) :=
  if first then quoted (skipSpace bs) else behind 0x2C (fun rest => quoted (skipSpace rest)) (skipSpace bs)

theorem selfDelimiting_nextString (first : Bool) : SelfDelimiting (nextString first) := by
  have hquoted : SelfDelimiting fun bs => quoted (skipSpace bs) := (selfDelimiting_parseString.behind 0x22).blanks rfl
  cases first with
  | true => exact hquoted
  | false => exact (hquoted.behind 0x2C).blanks rfl

theorem parseValue_quote (fuel : ℕ) (bs : Bytes) : parseValue (fuel + 1) (0x22 :: bs) =
    (parseString bs).map fun out => (.str out.1, out.2) := by
  unfold parseValue
  rfl

theorem elementToken_quote (bs : Bytes) : elementToken (0x22 :: bs) =
    (parseString bs).elim .error fun out => .value (.str out.1) out.2 := by
  rw [elementToken, if_neg (by simp), parseValue_quote]
  cases parseString bs with
  | none => rfl
  | some out => rfl

/-- A string begins with a quote. -/
theorem quote_of_string {fuel : ℕ} {bs rest : Bytes} {s : String} (h : parseValue fuel bs = some (.str s, rest)) :
    bs.head? = some 0x22 := by
  cases fuel with
  | zero => cases h
  | succ fuel =>
    have hplain : ¬(bs.head? = some 0x5B ∨ bs.head? = some 0x7B) := of_decide_eq_false (nested_eq h).symm
    unfold parseValue at h
    split at h
    · rfl
    · exact absurd (.inl rfl) hplain
    · exact absurd (.inr rfl) hplain
    · cases literal_eq h
    · cases literal_eq h
    · cases literal_eq h
    · obtain ⟨out, -, heq⟩ := Option.map_eq_some_iff.mp h
      cases heq

theorem quote_of_token {bs rest : Bytes} {s : String} (h : elementToken bs = .value (.str s) rest) :
    bs.head? = some 0x22 := by
  rw [elementToken] at h
  split at h
  · cases h
  · split at h
    · rename_i v left hvalue
      split at h
      · cases h
        exact quote_of_string hvalue
      · cases h
    · cases h

theorem elementToken_string {bs rest : Bytes} {s : String} :
    elementToken bs = .value (.str s) rest ↔ quoted bs = some (s, rest) := by
  by_cases hquote : bs.head? = some 0x22
  · obtain ⟨inside, rfl⟩ := List.head?_eq_some_iff.mp hquote
    rw [elementToken_quote, quoted, behind, if_pos rfl]
    cases parseString inside with
    | none => simp
    | some out => simp [Prod.ext_iff]
  · refine ⟨fun h => absurd (quote_of_token h) hquote, fun h => ?_⟩
    cases bs with
    | nil => cases h
    | cons b bs =>
      rw [quoted, behind, if_neg fun hb => hquote (by rw [hb]; rfl)] at h
      cases h

theorem arrayToken_string {first : Bool} {bs rest : Bytes} {s : String} :
    arrayToken first bs = .value (.str s) rest ↔ nextString first bs = some (s, rest) := by
  cases first with
  | true =>
    rw [nextString, if_pos rfl, ← elementToken_string]
    by_cases hclose : (skipSpace bs).head? = some 0x5D
    · obtain ⟨after, hafter⟩ := List.head?_eq_some_iff.mp hclose
      rw [arrayToken_close hafter, hafter]
      exact ⟨nofun, fun h => absurd (quote_of_token h) (by simp)⟩
    · rw [arrayToken_first hclose]
  | false =>
    rw [nextString, if_neg Bool.false_ne_true]
    cases hbs : skipSpace bs with
    | nil =>
      unfold arrayToken
      rw [hbs]
      exact ⟨nofun, nofun⟩
    | cons b after =>
      by_cases hcomma : b = 0x2C
      · rw [hcomma] at hbs
        rw [arrayToken_comma hbs, behind, if_pos hcomma, elementToken_string]
      · rw [behind, if_neg hcomma]
        refine ⟨fun h => ?_, nofun⟩
        unfold arrayToken at h
        rw [hbs] at h
        split at h
        · cases h
        · contradiction
        · rename_i hhead
          exact absurd (List.cons.inj hhead).1 hcomma
        · cases h

theorem skipSpace_append {seen : Bytes} {b : UInt8} {inside : Bytes} (h : skipSpace seen = b :: inside)
    (unseen : Bytes) : skipSpace (seen ++ unseen) = b :: (inside ++ unseen) := by
  rw [skipSpace, List.dropWhile_append, ← skipSpace, h]
  rfl

theorem skipSpace_append_blank {seen : Bytes} (h : skipSpace seen = []) (unseen : Bytes) :
    skipSpace (seen ++ unseen) = skipSpace unseen := by
  rw [skipSpace, List.dropWhile_append, ← skipSpace, h]
  rfl

/-- An item that begins like a string and breaks off is an error. -/
theorem elementToken_broken {seen unseen : Bytes} {out : String × Bytes}
    (h : quoted (skipSpace (seen ++ unseen)) = some out) (hseen : quoted (skipSpace seen) = none) :
    elementToken (skipSpace seen) = .error := by
  cases hbs : skipSpace seen with
  | nil => rfl
  | cons b inside =>
    rw [skipSpace_append hbs, quoted, behind] at h
    split at h
    · rename_i hquote
      rw [hbs, quoted, behind, if_pos hquote] at hseen
      rw [hquote, elementToken_quote, hseen]
      rfl
    · cases h

theorem arrayToken_blank {first : Bool} {bs : Bytes} (h : skipSpace bs = []) : arrayToken first bs = .error := by
  unfold arrayToken
  rw [h]
  cases first <;> rfl

theorem arrayToken_broken {first : Bool} {seen unseen : Bytes} {out : String × Bytes}
    (h : nextString first (seen ++ unseen) = some out) (hseen : nextString first seen = none) :
    arrayToken first seen = .error := by
  cases hbs : skipSpace seen with
  | nil => exact arrayToken_blank hbs
  | cons b inside =>
    cases first with
    | true =>
      rw [nextString, if_pos rfl] at h hseen
      rw [arrayToken_first, elementToken_broken h hseen]
      rw [skipSpace_append hbs, quoted, behind] at h
      split at h
      · rename_i hquote
        rw [hbs, hquote, List.head?_cons]
        decide
      · cases h
    | false =>
      rw [nextString, if_neg Bool.false_ne_true, skipSpace_append hbs, behind] at h
      rw [nextString, if_neg Bool.false_ne_true, hbs, behind] at hseen
      split at h
      · rename_i hcomma
        rw [if_pos hcomma] at hseen
        rw [hcomma] at hbs
        rw [arrayToken_comma hbs, elementToken_broken h hseen]
      · cases h

/-- In a text that breaks off, the next string of an array is there as a whole, or it is an error. -/
theorem arrayToken_cut {first : Bool} {seen unseen next : Bytes} {s : String}
    (h : arrayToken first (seen ++ unseen) = .value (.str s) next) :
    (arrayToken first seen = .error ∧ next.length < unseen.length) ∨
      ∃ left, arrayToken first seen = .value (.str s) left ∧ next = left ++ unseen := by
  rw [arrayToken_string] at h
  obtain ⟨hnone, hlength⟩ | ⟨left, hleft, heq⟩ := (selfDelimiting_nextString first).cut h
  · exact .inl ⟨arrayToken_broken h hnone, hlength⟩
  · exact .inr ⟨left, arrayToken_string.mpr hleft, heq⟩

theorem length_lt_of_string {first : Bool} {bs next : Bytes} {s : String}
    (h : arrayToken first bs = .value (.str s) next) : next.length < bs.length := by
  obtain ⟨taken, rfl, hagain⟩ := selfDelimiting_nextString first bs s next (arrayToken_string.mp h)
  cases taken with
  | nil =>
    have hnothing : nextString first [] = none := by cases first <;> rfl
    cases hnothing.symm.trans (hagain [])
  | cons b taken =>
    rw [List.length_append, List.length_cons]
    omega

theorem length_lt_of_skip {bs after : Bytes} {b : UInt8} (h : skipSpace bs = b :: after) :
    after.length < bs.length := by
  have hle : (skipSpace bs).length ≤ bs.length := (List.dropWhile_suffix isSpace).length_le
  rw [h] at hle
  exact hle

/-- The text of an array from after its bracket, or after one of its items: these strings up to the closing bracket,
and then `after`. -/
inductive StringItems (after : Bytes) : Bool → Bytes → List String → Prop where
  | close {first : Bool} {bs : Bytes} : skipSpace bs = 0x5D :: after → StringItems after first bs []
  | item {first : Bool} {bs next : Bytes} {s : String} {items : List String} :
      arrayToken first bs = .value (.str s) next → StringItems after false next items →
        StringItems after first bs (s :: items)

theorem StringItems.length_lt {after bs : Bytes} {first : Bool} {items : List String}
    (h : StringItems after first bs items) : after.length < bs.length := by
  induction h with
  | close hclose => exact length_lt_of_skip hclose
  | item htoken _ ih => exact ih.trans (length_lt_of_string htoken)

/-- By induction on the parser's fuel. -/
theorem stringItems_of_parse {fuel : ℕ} : ∀ {bs after text : Bytes} {first : Bool} {items : List String},
    parseItems fuel bs = some (items.map .str, after) → arrayToken first text = elementToken bs →
      StringItems after first text items := by
  induction fuel with
  | zero =>
    intro bs after text first items h
    cases h
  | succ fuel ih =>
    intro bs after text first items h htoken
    rw [parseItems] at h
    split at h
    · cases h
    · rename_i v rest hvalue
      rw [elementToken_of_parse hvalue] at htoken
      split at h
      · rename_i hclose
        obtain ⟨hitems, rfl⟩ := Prod.mk.inj (Option.some.inj h)
        obtain ⟨s, rfl, rfl⟩ := List.map_eq_singleton_iff.mp hitems.symm
        exact .item htoken (.close hclose)
      · rename_i next hcomma
        obtain ⟨out, hout, heq⟩ := Option.map_eq_some_iff.mp h
        obtain ⟨hitems, rfl⟩ := Prod.mk.inj heq
        obtain ⟨s, more, rfl, rfl, hmore⟩ := List.map_eq_cons_iff.mp hitems.symm
        exact .item htoken (ih (by rw [hout, hmore]) (arrayToken_comma hcomma))
      · cases h

theorem stringItems_of_array {text after : Bytes} {items : List String}
    (h : parsePrefix text = some (.arr (items.map .str), after)) :
    ∃ inside, skipSpace text = 0x5B :: inside ∧ StringItems after true inside items := by
  obtain ⟨inside, hopen, ⟨hclose, hv⟩ | ⟨fuel, vs, -, hfirst, hitems, hv⟩⟩ | ⟨-, hother⟩ := array_of_parse h
  · obtain rfl : items = [] := List.map_eq_nil_iff.mp (Json.arr.inj hv)
    exact ⟨inside, hopen, .close hclose⟩
  · obtain rfl := Json.arr.inj hv
    exact ⟨inside, hopen, stringItems_of_parse hitems (arrayToken_first hfirst)⟩
  · exact absurd rfl (hother _)

end Foundations.CutOff
