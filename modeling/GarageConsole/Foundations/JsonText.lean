import GarageConsole.Foundations.Json

/-! # Writing a list of strings as a document

`stringsDocument name items` is the text `{"name":["…","…"]}` for strings of plain characters: ASCII
without controls, quotes and backslashes, which a writer copies as they are. The reader gets back what
was written.
-/

namespace Foundations.JsonText

open Text Json

set_option autoImplicit false

def Plain (b : UInt8) : Prop := 0x20 ≤ b ∧ b < 0x80 ∧ b ≠ 0x22 ∧ b ≠ 0x5C

def plainText (bs : Bytes) : String := String.ofList (bs.map fun b => Char.ofNat b.toNat)

def closeQuote (bs rest : Bytes) : Bytes := bs ++ 0x22 :: rest

theorem scanString_plain {bs : Bytes} (h : ∀ b ∈ bs, Plain b) (rest : Bytes) :
    scanString (closeQuote bs rest) = some (bs, rest) := by
  induction bs with
  | nil =>
    rw [closeQuote, List.nil_append, scanString.eq_def]
    rfl
  | cons b bs ih =>
    obtain ⟨hlow, -, hquote, hback⟩ := h b List.mem_cons_self
    have hnot : ¬b < 0x20 := UInt8.not_lt.mpr hlow
    have ih := ih fun b' hb' => h b' (List.mem_cons_of_mem _ hb')
    rw [closeQuote, List.cons_append, scanString.eq_def]
    simp only [hquote, hnot, hback, if_false]
    rw [← closeQuote, ih]
    rfl

theorem unquote_plain {bs : Bytes} (h : ∀ b ∈ bs, Plain b) :
    unquote bs.length bs = bs.map fun b => Char.ofNat b.toNat := by
  induction bs with
  | nil => rfl
  | cons b bs ih =>
    obtain ⟨-, hascii, -, hback⟩ := h b List.mem_cons_self
    have hchar : unquoteChar (b :: bs) = some (Char.ofNat b.toNat, bs) := by
      have hrune : decodeRune (b :: bs) = some (Char.ofNat b.toNat, bs) := by simp [decodeRune, hascii]
      unfold unquoteChar
      split
      · next heq => exact absurd (List.cons.inj heq).1 hback
      · next heq => exact absurd (List.cons.inj heq).1 hback
      · exact hrune
    rw [List.length_cons, unquote, hchar, List.map_cons]
    dsimp only
    rw [ih fun b' hb' => h b' (List.mem_cons_of_mem _ hb')]

theorem parseString_plain {bs : Bytes} (h : ∀ b ∈ bs, Plain b) (rest : Bytes) :
    parseString (closeQuote bs rest) = some (plainText bs, rest) := by
  rw [parseString, scanString_plain h, Option.map_some, unquote_plain h]
  rfl

theorem parseValue_plain {bs : Bytes} (h : ∀ b ∈ bs, Plain b) (fuel : ℕ) (rest : Bytes) :
    parseValue (fuel + 1) (0x22 :: closeQuote bs rest) = some (.str (plainText bs), rest) := by
  rw [parseValue, parseString_plain h]
  rfl

/-! ## The items -/

def closeItems : List Bytes → Bytes → Bytes
  | [], rest => 0x5D :: rest
  | [bs], rest => 0x22 :: closeQuote bs (0x5D :: rest)
  | bs :: more, rest => 0x22 :: closeQuote bs (0x2C :: closeItems more rest)

theorem closeItems_cons (bs next : Bytes) (more : List Bytes) (rest : Bytes) :
    closeItems (bs :: next :: more) rest = 0x22 :: closeQuote bs (0x2C :: closeItems (next :: more) rest) := rfl

theorem skipSpace_quote (rest : Bytes) : skipSpace (0x22 :: rest) = 0x22 :: rest := rfl

theorem skipSpace_closeItems (bs : Bytes) (more : List Bytes) (rest : Bytes) :
    skipSpace (closeItems (bs :: more) rest) = closeItems (bs :: more) rest := by
  cases more <;> rfl

theorem parseItems_closeItems {bs : Bytes} {more : List Bytes} (h : ∀ s ∈ bs :: more, ∀ b ∈ s, Plain b)
    (fuel : ℕ) (rest : Bytes) :
    parseItems (more.length + 2 + fuel) (closeItems (bs :: more) rest) =
      some ((bs :: more).map fun s => .str (plainText s), rest) := by
  induction more generalizing bs with
  | nil =>
    have hbs := h bs List.mem_cons_self
    rw [show ([] : List Bytes).length + 2 + fuel = fuel + 1 + 1 by simp; omega, parseItems, closeItems,
      parseValue_plain hbs]
    rfl
  | cons next more ih =>
    have hbs := h bs List.mem_cons_self
    have ih := ih fun s hs => h s (List.mem_cons_of_mem _ hs)
    rw [show (next :: more).length + 2 + fuel = more.length + 2 + fuel + 1 by simp; omega, parseItems,
      closeItems_cons, show more.length + 2 + fuel = more.length + 1 + fuel + 1 by omega, parseValue_plain hbs,
      show more.length + 1 + fuel + 1 = more.length + 2 + fuel by omega]
    have hskip : skipSpace (0x2C :: closeItems (next :: more) rest) = 0x2C :: closeItems (next :: more) rest := rfl
    simp only [hskip, skipSpace_closeItems, ih]
    rfl

/-! ## The document -/

def stringsDocument (name : Bytes) (items : List Bytes) : Bytes :=
  0x7B :: 0x22 :: closeQuote name (0x3A :: 0x5B :: closeItems items [0x7D])

theorem length_closeItems (items : List Bytes) (rest : Bytes) : items.length ≤ (closeItems items rest).length := by
  induction items with
  | nil => simp [closeItems]
  | cons bs more ih =>
    cases more with
    | nil => simp [closeItems]
    | cons next more =>
      rw [closeItems_cons]
      simp only [closeQuote, List.length_cons, List.length_append] at ih ⊢
      omega

theorem length_closeItems_le {items : List Bytes} {m : ℕ} (h : ∀ s ∈ items, s.length ≤ m) (rest : Bytes) :
    (closeItems items rest).length ≤ items.length * (m + 3) + rest.length + 1 := by
  induction items with
  | nil => simp [closeItems]
  | cons bs more ih =>
    have hbs := h bs List.mem_cons_self
    have ih := ih fun s hs => h s (List.mem_cons_of_mem _ hs)
    rw [List.length_cons, Nat.succ_mul]
    cases more with
    | nil =>
      simp only [closeItems, closeQuote, List.length_cons, List.length_append, List.length_nil]
      omega
    | cons next more =>
      rw [closeItems_cons]
      simp only [closeQuote, List.length_cons, List.length_append] at ih ⊢
      omega

/-- **What is written is read back.** -/
theorem parsePrefix_stringsDocument {name bs : Bytes} {more : List Bytes} (hname : ∀ b ∈ name, Plain b)
    (h : ∀ s ∈ bs :: more, ∀ b ∈ s, Plain b) :
    parsePrefix (stringsDocument name (bs :: more)) =
      some (.obj [(plainText name, .arr ((bs :: more).map fun s => .str (plainText s)))], []) := by
  have hlen := length_closeItems (bs :: more) [0x7D]
  obtain ⟨fuel, hfuel⟩ : ∃ fuel, 2 * (stringsDocument name (bs :: more)).length + 1 =
      more.length + 2 + fuel + 1 + 1 + 1 := by
    refine ⟨2 * (stringsDocument name (bs :: more)).length + 1 - (more.length + 5), ?_⟩
    simp only [stringsDocument, closeQuote, List.length_cons, List.length_append] at hlen ⊢
    omega
  have hskip : skipSpace (stringsDocument name (bs :: more)) = stringsDocument name (bs :: more) := rfl
  have hitems : skipSpace (closeItems (bs :: more) [0x7D]) = closeItems (bs :: more) [0x7D] :=
    skipSpace_closeItems bs more _
  have harr : parseValue (more.length + 2 + fuel + 1) (0x5B :: closeItems (bs :: more) [0x7D]) =
      some (.arr ((bs :: more).map fun s => .str (plainText s)), [0x7D]) := by
    rw [parseValue, hitems]
    have hhead : ∀ tail, closeItems (bs :: more) [0x7D] ≠ 0x5D :: tail := by
      intro tail
      cases more <;> simp [closeItems]
    split
    · next heq => exact absurd heq (hhead _)
    · rw [parseItems_closeItems h]
      rfl
  have hcolon : ∀ tail, skipSpace (0x3A :: tail) = 0x3A :: tail := fun _ => rfl
  have hbracket : ∀ tail, skipSpace (0x5B :: tail) = 0x5B :: tail := fun _ => rfl
  have hmembers : parseMembers (more.length + 2 + fuel + 2)
      (0x22 :: closeQuote name (0x3A :: 0x5B :: closeItems (bs :: more) [0x7D])) =
      some ([(plainText name, .arr ((bs :: more).map fun s => .str (plainText s)))], []) := by
    rw [parseMembers, parseString_plain hname]
    simp only [hcolon, hbracket, harr]
    rfl
  rw [parsePrefix, hfuel, hskip, stringsDocument, parseValue, skipSpace_quote]
  split
  · next heq => exact absurd (List.cons.inj heq).1 (by decide)
  · rw [hmembers]
    rfl

end Foundations.JsonText
