import Mathlib.Data.Int.Notation
import GarageConsole.Foundations.Text

/-! # JSON documents

`Json` is the syntax tree of a document: an object keeps its members in the order of the text, with
repeated names. `parse` reads a whole text (RFC 8259), `parsePrefix` the first value of a text,
leaving what follows it unread. Strings are decoded with U+FFFD for lone surrogates and for bytes
that are not UTF-8. Neither reader bounds the nesting; `Json.depth` is what a reader that does
compares with its bound.
-/

namespace Foundations

open Text

set_option autoImplicit false

/-- A number literal: an integer literal, or one with a fraction or an exponent, whose value is
`mantissa * 10 ^ exponent`. The literal `-0` is kept apart, since not every reader takes it for `0`. -/
inductive Number where
  | int (n : ℤ)
  | minusZero
  | dec (mantissa exponent : ℤ)
  deriving DecidableEq, Repr

inductive Json where
  | null
  | bool (b : Bool)
  | num (n : Number)
  | str (s : String)
  | arr (items : List Json)
  | obj (members : List (String × Json))
  deriving Repr, Inhabited

namespace Json

mutual

def depth : Json → ℕ
  | .arr items => depthItems items + 1
  | .obj members => depthMembers members + 1
  | _ => 0

def depthItems : List Json → ℕ
  | [] => 0
  | v :: rest => max v.depth (depthItems rest)

def depthMembers : List (String × Json) → ℕ
  | [] => 0
  | (_, v) :: rest => max v.depth (depthMembers rest)

end

mutual

def decEq : (a b : Json) → Decidable (a = b)
  | .null, .null => isTrue rfl
  | .bool a, .bool b => decidable_of_iff (a = b) (by simp)
  | .num a, .num b => decidable_of_iff (a = b) (by simp)
  | .str a, .str b => decidable_of_iff (a = b) (by simp)
  | .arr a, .arr b => @decidable_of_iff _ (a = b) (by simp) (decEqItems a b)
  | .obj a, .obj b => @decidable_of_iff _ (a = b) (by simp) (decEqMembers a b)
  | .null, .bool _ | .null, .num _ | .null, .str _ | .null, .arr _ | .null, .obj _ => isFalse nofun
  | .bool _, .null | .bool _, .num _ | .bool _, .str _ | .bool _, .arr _ | .bool _, .obj _ => isFalse nofun
  | .num _, .null | .num _, .bool _ | .num _, .str _ | .num _, .arr _ | .num _, .obj _ => isFalse nofun
  | .str _, .null | .str _, .bool _ | .str _, .num _ | .str _, .arr _ | .str _, .obj _ => isFalse nofun
  | .arr _, .null | .arr _, .bool _ | .arr _, .num _ | .arr _, .str _ | .arr _, .obj _ => isFalse nofun
  | .obj _, .null | .obj _, .bool _ | .obj _, .num _ | .obj _, .str _ | .obj _, .arr _ => isFalse nofun

def decEqItems : (a b : List Json) → Decidable (a = b)
  | [], [] => isTrue rfl
  | [], _ :: _ | _ :: _, [] => isFalse nofun
  | v :: a, w :: b =>
    match decEq v w, decEqItems a b with
    | isTrue hv, isTrue ha => isTrue (by rw [hv, ha])
    | isFalse hv, _ => isFalse fun h => hv (List.cons.inj h).1
    | _, isFalse ha => isFalse fun h => ha (List.cons.inj h).2

def decEqMembers : (a b : List (String × Json)) → Decidable (a = b)
  | [], [] => isTrue rfl
  | [], _ :: _ | _ :: _, [] => isFalse nofun
  | (m, v) :: a, (n, w) :: b =>
    match (inferInstance : Decidable (m = n)), decEq v w, decEqMembers a b with
    | isTrue hm, isTrue hv, isTrue ha => isTrue (by rw [hm, hv, ha])
    | isFalse hm, _, _ => isFalse fun h => hm (Prod.mk.inj (List.cons.inj h).1).1
    | _, isFalse hv, _ => isFalse fun h => hv (Prod.mk.inj (List.cons.inj h).1).2
    | _, _, isFalse ha => isFalse fun h => ha (List.cons.inj h).2

end

instance : DecidableEq Json := decEq

/-! ## Lexical level -/

def isSpace (b : UInt8) : Bool := b = 0x20 || b = 0x09 || b = 0x0A || b = 0x0D

def skipSpace (bs : Bytes) : Bytes := bs.dropWhile isSpace

def isDigit (b : UInt8) : Bool := 0x30 ≤ b && b ≤ 0x39

def hexValue (b : UInt8) : Option ℕ :=
  if 0x30 ≤ b && b ≤ 0x39 then some (b.toNat - 0x30)
  else if 0x61 ≤ b && b ≤ 0x66 then some (b.toNat - 0x61 + 10)
  else if 0x41 ≤ b && b ≤ 0x46 then some (b.toNat - 0x41 + 10)
  else none

def hex4 : Bytes → Option (ℕ × Bytes)
  | a :: b :: c :: d :: rest => do
    let a ← hexValue a
    let b ← hexValue b
    let c ← hexValue c
    let d ← hexValue d
    some (((a * 16 + b) * 16 + c) * 16 + d, rest)
  | _ => none

def simpleEscape (b : UInt8) : Option Char :=
  if b = 0x22 then some '"'
  else if b = 0x5C then some '\\'
  else if b = 0x2F then some '/'
  else if b = 0x62 then some '\x08'
  else if b = 0x66 then some '\x0C'
  else if b = 0x6E then some '\n'
  else if b = 0x72 then some '\r'
  else if b = 0x74 then some '\t'
  else none

/-- From after an opening quote: the raw contents up to the closing quote, and what follows it. -/
def scanString : Bytes → Option (Bytes × Bytes)
  | [] => none
  | c :: rest =>
    if c = 0x22 then some ([], rest)
    else if c < 0x20 then none
    else if c = 0x5C then
      match rest with
      | 0x75 :: h₁ :: h₂ :: h₃ :: h₄ :: rest' =>
        if (hex4 [h₁, h₂, h₃, h₄]).isNone then none
        else (scanString rest').map fun out => (c :: 0x75 :: h₁ :: h₂ :: h₃ :: h₄ :: out.1, out.2)
      | e :: rest' =>
        if (simpleEscape e).isNone then none
        else (scanString rest').map fun out => (c :: e :: out.1, out.2)
      | [] => none
    else (scanString rest).map fun out => (c :: out.1, out.2)

/-- The character of a `\u` escape with code unit `u`, and the contents after it. A high surrogate
joins the low surrogate escape right behind it; any other surrogate is U+FFFD. -/
def unicodeEscape (u : ℕ) (rest : Bytes) : Char × Bytes :=
  if ¬(0xD800 ≤ u ∧ u < 0xE000) then (Char.ofNat u, rest)
  else match rest with
    | 0x5C :: 0x75 :: r =>
      match hex4 r with
      | some (v, r') =>
        if u < 0xDC00 ∧ 0xDC00 ≤ v ∧ v < 0xE000 then
          (Char.ofNat (0x10000 + (u - 0xD800) * 0x400 + (v - 0xDC00)), r')
        else (replacementChar, rest)
      | none => (replacementChar, rest)
    | _ => (replacementChar, rest)

def unquoteChar : Bytes → Option (Char × Bytes)
  | 0x5C :: 0x75 :: rest => (hex4 rest).map fun out => unicodeEscape out.1 out.2
  | 0x5C :: e :: rest => (simpleEscape e).map fun c => (c, rest)
  | bs => decodeRune bs

def unquote : ℕ → Bytes → List Char
  | 0, _ => []
  | fuel + 1, bs =>
    match unquoteChar bs with
    | none => []
    | some (c, rest) => c :: unquote fuel rest

def parseString (bs : Bytes) : Option (String × Bytes) :=
  (scanString bs).map fun out => (String.ofList (unquote out.1.length out.1), out.2)

def natOfDigits (ds : Bytes) : ℕ := ds.foldl (fun n d => n * 10 + (d.toNat - 0x30)) 0

def scanDigits (bs : Bytes) : Option (Bytes × Bytes) :=
  if (bs.takeWhile isDigit).isEmpty then none else some (bs.takeWhile isDigit, bs.dropWhile isDigit)

def scanIntPart : Bytes → Option (Bytes × Bytes)
  | 0x30 :: rest => some ([0x30], rest)
  | bs => scanDigits bs

def scanFraction : Bytes → Option (Bytes × Bytes)
  | 0x2E :: rest => scanDigits rest
  | bs => some ([], bs)

/-- The exponent, `none` inside when there is none. -/
def scanExponent : Bytes → Option (Option ℤ × Bytes)
  | e :: rest =>
    if e = 0x65 || e = 0x45 then
      match rest with
      | 0x2D :: r => (scanDigits r).map fun out => (some (-(natOfDigits out.1 : ℤ)), out.2)
      | 0x2B :: r => (scanDigits r).map fun out => (some (natOfDigits out.1 : ℤ), out.2)
      | r => (scanDigits r).map fun out => (some (natOfDigits out.1 : ℤ), out.2)
    else some (none, e :: rest)
  | [] => some (none, [])

def parseUnsigned (sign : ℤ) (bs : Bytes) : Option (Number × Bytes) := do
  let (whole, r₁) ← scanIntPart bs
  let (frac, r₂) ← scanFraction r₁
  let (exponent, r₃) ← scanExponent r₂
  if frac.isEmpty && exponent.isNone then
    some (.int (sign * natOfDigits whole), r₃)
  else
    some (.dec (sign * natOfDigits (whole ++ frac)) (exponent.getD 0 - frac.length), r₃)

def parseNumber : Bytes → Option (Number × Bytes)
  | 0x2D :: rest => (parseUnsigned (-1) rest).map fun out => (if out.1 = .int 0 then .minusZero else out.1, out.2)
  | bs => parseUnsigned 1 bs

def literal (word : Bytes) (v : Json) (bs : Bytes) : Option (Json × Bytes) :=
  if word.isPrefixOf bs then some (v, bs.drop word.length) else none

/-! ## Values -/

mutual

/-- A value at the front, with no blank before it. `fuel` bounds the values read. -/
def parseValue : ℕ → Bytes → Option (Json × Bytes)
  | 0, _ => none
  | fuel + 1, bs =>
    match bs with
    | 0x22 :: rest => (parseString rest).map fun out => (.str out.1, out.2)
    | 0x5B :: rest =>
      match skipSpace rest with
      | 0x5D :: rest' => some (.arr [], rest')
      | rest' => (parseItems fuel rest').map fun out => (.arr out.1, out.2)
    | 0x7B :: rest =>
      match skipSpace rest with
      | 0x7D :: rest' => some (.obj [], rest')
      | rest' => (parseMembers fuel rest').map fun out => (.obj out.1, out.2)
    | 0x6E :: _ => literal (bytes "null") .null bs
    | 0x74 :: _ => literal (bytes "true") (.bool true) bs
    | 0x66 :: _ => literal (bytes "false") (.bool false) bs
    | _ => (parseNumber bs).map fun out => (.num out.1, out.2)

def parseItems : ℕ → Bytes → Option (List Json × Bytes)
  | 0, _ => none
  | fuel + 1, bs =>
    match parseValue fuel bs with
    | none => none
    | some (v, rest) =>
      match skipSpace rest with
      | 0x5D :: rest' => some ([v], rest')
      | 0x2C :: rest' => (parseItems fuel (skipSpace rest')).map fun out => (v :: out.1, out.2)
      | _ => none

def parseMembers : ℕ → Bytes → Option (List (String × Json) × Bytes)
  | 0, _ => none
  | fuel + 1, bs =>
    match bs with
    | 0x22 :: rest =>
      match parseString rest with
      | none => none
      | some (name, rest₁) =>
        match skipSpace rest₁ with
        | 0x3A :: rest₂ =>
          match parseValue fuel (skipSpace rest₂) with
          | none => none
          | some (v, rest₃) =>
            match skipSpace rest₃ with
            | 0x7D :: rest' => some ([(name, v)], rest')
            | 0x2C :: rest' =>
              (parseMembers fuel (skipSpace rest')).map fun out => ((name, v) :: out.1, out.2)
            | _ => none
        | _ => none
    | _ => none

end

/-- The first value of a text and what follows it. Every value and every list of items or members
takes at least one byte, so twice the length is fuel enough. -/
def parsePrefix (text : Bytes) : Option (Json × Bytes) :=
  parseValue (2 * text.length + 1) (skipSpace text)

/-- The value of a text that holds nothing else. -/
def parse (text : Bytes) : Option Json :=
  match parsePrefix text with
  | some (v, rest) => if (skipSpace rest).isEmpty then some v else none
  | none => none

example : parse (bytes "\x7b \"a\": [1, -2.5e1, \"\\u00e9\"], \"a\": \x7b\x7d \x7d ") =
    some (.obj [("a", .arr [.num (.int 1), .num (.dec (-25) 0), .str "é"]), ("a", .obj [])]) := by
  decide +kernel

end Json

end Foundations
