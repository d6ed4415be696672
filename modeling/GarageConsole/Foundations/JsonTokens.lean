import GarageConsole.Foundations.GoJson

/-! # Reading JSON token by token

`json.Decoder.Token` reads an array or an object piece by piece, so that a text is read only as far as one
asks, and a text that breaks off can be read up to there. `arrayToken` is the next token inside an array,
before the first item or after one. On a text that parses as a whole the tokens are the items that the parser
finds (`elementToken_of_parse`).
-/

namespace Foundations.JsonTokens

open Text Json GoJson

set_option autoImplicit false

/-- What follows inside an array: its end, an item that is no array or object and what comes after it, the
start of an array or object, or something that cannot stand there. -/
inductive ArrayToken where
  | close
  | value (v : Json) (rest : Bytes)
  | nested
  | error
  deriving DecidableEq

/-- The token at the start of an item. -/
def elementToken (bs : Bytes) : ArrayToken :=
  if bs.head? = some 0x5B ∨ bs.head? = some 0x7B then .nested
  else match parseValue 1 bs with
    | some (v, rest) => if fitsAny v then .value v rest else .error
    | none => .error

/-- The token after the opening bracket, or after an item. -/
def arrayToken (first : Bool) (bs : Bytes) : ArrayToken :=
  match first, skipSpace bs with
  | _, 0x5D :: _ => .close
  | true, rest => elementToken rest
  | false, 0x2C :: rest => elementToken (skipSpace rest)
  | false, _ => .error

theorem arrayToken_close {first : Bool} {bs rest : Bytes} (h : skipSpace bs = 0x5D :: rest) :
    arrayToken first bs = .close := by
  unfold arrayToken
  rw [h]
  cases first <;> rfl

theorem arrayToken_comma {bs rest : Bytes} (h : skipSpace bs = 0x2C :: rest) :
    arrayToken false bs = elementToken (skipSpace rest) := by
  unfold arrayToken
  rw [h]
  rfl

theorem arrayToken_first {bs : Bytes} (h : (skipSpace bs).head? ≠ some 0x5D) :
    arrayToken true bs = elementToken (skipSpace bs) := by
  unfold arrayToken
  split
  · rename_i hclose
    rw [hclose] at h
    exact absurd rfl h
  · rfl
  · contradiction
  · contradiction

def nested : Json → Bool
  | .arr _ => true
  | .obj _ => true
  | _ => false

/-- The token that the parser's value is read as. -/
def tokenOf (v : Json) (rest : Bytes) : ArrayToken :=
  if nested v then .nested else if fitsAny v then .value v rest else .error

theorem parseValue_scalar {fuel : ℕ} {bs : Bytes} (h : ¬(bs.head? = some 0x5B ∨ bs.head? = some 0x7B)) :
    parseValue (fuel + 1) bs = parseValue 1 bs := by
  unfold parseValue
  split
  · rfl
  · exact absurd (.inl rfl) h
  · exact absurd (.inr rfl) h
  · rfl
  · rfl
  · rfl
  · rfl

theorem literal_eq {word bs rest : Bytes} {v w : Json} (h : literal word w bs = some (v, rest)) : v = w := by
  unfold literal at h
  split_ifs at h
  exact (Prod.mk.inj (Option.some.inj h)).1.symm

/-- A value is an array or object when it begins like one. -/
theorem nested_eq {fuel : ℕ} {bs rest : Bytes} {v : Json} (h : parseValue fuel bs = some (v, rest)) :
    nested v = decide (bs.head? = some 0x5B ∨ bs.head? = some 0x7B) := by
  cases fuel with
  | zero => cases h
  | succ fuel =>
    unfold parseValue at h
    split at h
    · obtain ⟨out, -, heq⟩ := Option.map_eq_some_iff.mp h
      cases heq
      rfl
    · refine Eq.trans (b := true) ?_ rfl
      split at h
      · cases h
        rfl
      · obtain ⟨o, -, heq⟩ := Option.map_eq_some_iff.mp h
        cases heq
        rfl
    · refine Eq.trans (b := true) ?_ rfl
      split at h
      · cases h
        rfl
      · obtain ⟨o, -, heq⟩ := Option.map_eq_some_iff.mp h
        cases heq
        rfl
    · rw [literal_eq h]
      rfl
    · rw [literal_eq h]
      rfl
    · rw [literal_eq h]
      rfl
    · rename_i harr hobj _ _ _
      have hclosed : ¬(bs.head? = some 0x5B ∨ bs.head? = some 0x7B) := by
        intro hopen
        rcases hopen with hopen | hopen
        · obtain ⟨t, ht⟩ := List.head?_eq_some_iff.mp hopen
          exact harr t ht
        · obtain ⟨t, ht⟩ := List.head?_eq_some_iff.mp hopen
          exact hobj t ht
      obtain ⟨out, -, heq⟩ := Option.map_eq_some_iff.mp h
      cases heq
      rw [decide_eq_false hclosed]
      rfl

theorem elementToken_of_parse {fuel : ℕ} {bs rest : Bytes} {v : Json} (h : parseValue fuel bs = some (v, rest)) :
    elementToken bs = tokenOf v rest := by
  have hnested := nested_eq h
  cases fuel with
  | zero => cases h
  | succ fuel =>
    rw [elementToken, tokenOf]
    by_cases hopen : bs.head? = some 0x5B ∨ bs.head? = some 0x7B
    · rw [if_pos hopen, if_pos (hnested.trans (decide_eq_true hopen))]
    · rw [parseValue_scalar hopen] at h
      rw [if_neg hopen, h, hnested, decide_eq_false hopen]
      rfl

theorem parseValue_bracket (fuel : ℕ) (inside : Bytes) : parseValue (fuel + 1) (0x5B :: inside) =
    match skipSpace inside with
    | 0x5D :: rest => some (.arr [], rest)
    | rest => (parseItems fuel rest).map fun out => (.arr out.1, out.2) := by
  unfold parseValue
  rfl

theorem parseValue_brace (fuel : ℕ) (inside : Bytes) : parseValue (fuel + 1) (0x7B :: inside) =
    match skipSpace inside with
    | 0x7D :: rest => some (.obj [], rest)
    | rest => (parseMembers fuel rest).map fun out => (.obj out.1, out.2) := by
  unfold parseValue
  rfl

/-- What the parser reads as an array is an opening bracket with its items, and nothing else begins so. -/
theorem array_of_parse {fuel : ℕ} {bs rest : Bytes} {v : Json} (h : parseValue fuel bs = some (v, rest)) :
    (∃ inside, bs = 0x5B :: inside ∧
      (skipSpace inside = 0x5D :: rest ∧ v = .arr [] ∨
        ∃ fuel' vs, fuel = fuel' + 1 ∧ (skipSpace inside).head? ≠ some 0x5D ∧
          parseItems fuel' (skipSpace inside) = some (vs, rest) ∧ v = .arr vs)) ∨
      bs.head? ≠ some 0x5B ∧ ∀ vs, v ≠ .arr vs := by
  by_cases hopen : bs.head? = some 0x5B
  · obtain ⟨inside, rfl⟩ := List.head?_eq_some_iff.mp hopen
    refine .inl ⟨inside, rfl, ?_⟩
    cases fuel with
    | zero => cases h
    | succ fuel =>
      rw [parseValue_bracket] at h
      split at h
      · rename_i hclose
        cases h
        exact .inl ⟨hclose, rfl⟩
      · rename_i hclose
        obtain ⟨⟨vs, r⟩, hitems, heq⟩ := Option.map_eq_some_iff.mp h
        cases heq
        refine .inr ⟨fuel, vs, rfl, ?_, hitems, rfl⟩
        intro hhead
        obtain ⟨t, ht⟩ := List.head?_eq_some_iff.mp hhead
        exact hclose t ht
  · refine .inr ⟨hopen, ?_⟩
    rintro vs rfl
    have hnested := (nested_eq h).symm
    obtain ⟨inside, rfl⟩ := List.head?_eq_some_iff.mp ((of_decide_eq_true hnested).resolve_left hopen)
    cases fuel with
    | zero => cases h
    | succ fuel =>
      rw [parseValue_brace] at h
      split at h
      · cases h
      · obtain ⟨out, -, heq⟩ := Option.map_eq_some_iff.mp h
        cases heq

theorem object_of_parse {fuel : ℕ} {bs rest : Bytes} {members : List (String × Json)}
    (h : parseValue fuel bs = some (.obj members, rest)) :
    ∃ inside fuel', bs = 0x7B :: inside ∧ fuel = fuel' + 1 ∧
      (skipSpace inside = 0x7D :: rest ∧ members = [] ∨
        parseMembers fuel' (skipSpace inside) = some (members, rest)) := by
  obtain ⟨inside, -, ⟨-, hv⟩ | ⟨_, _, -, -, -, hv⟩⟩ | ⟨hopen, -⟩ := array_of_parse h
  · cases hv
  · cases hv
  · obtain ⟨inside, rfl⟩ := List.head?_eq_some_iff.mp ((of_decide_eq_true (nested_eq h).symm).resolve_left hopen)
    cases fuel with
    | zero => cases h
    | succ fuel =>
      refine ⟨inside, fuel, rfl, rfl, ?_⟩
      rw [parseValue_brace] at h
      split at h
      · rename_i hclose
        cases h
        exact .inl ⟨hclose, rfl⟩
      · obtain ⟨out, hmembers, heq⟩ := Option.map_eq_some_iff.mp h
        cases heq
        exact .inr hmembers

/-- The first of the members that the parser reads, and the text around its parts. -/
theorem member_of_parse {fuel : ℕ} {bs rest : Bytes} {members : List (String × Json)}
    (h : parseMembers (fuel + 1) bs = some (members, rest)) :
    ∃ inside name afterName value v afterValue, bs = 0x22 :: inside ∧ parseString inside = some (name, afterName) ∧
      skipSpace afterName = 0x3A :: value ∧ parseValue fuel (skipSpace value) = some (v, afterValue) ∧
      (skipSpace afterValue = 0x7D :: rest ∧ members = [(name, v)] ∨
        ∃ next more, skipSpace afterValue = 0x2C :: next ∧ parseMembers fuel (skipSpace next) = some (more, rest) ∧
          members = (name, v) :: more) := by
  unfold parseMembers at h
  split at h
  · split at h
    · cases h
    · rename_i name afterName hname
      split at h
      · rename_i value hcolon
        split at h
        · cases h
        · rename_i v afterValue hvalue
          refine ⟨_, name, afterName, value, v, afterValue, rfl, hname, hcolon, hvalue, ?_⟩
          split at h
          · rename_i hclose
            cases h
            exact .inl ⟨hclose, rfl⟩
          · rename_i next hcomma
            obtain ⟨out, hmore, heq⟩ := Option.map_eq_some_iff.mp h
            cases heq
            exact .inr ⟨next, out.1, hcomma, hmore, rfl⟩
          · cases h
      · cases h
  · cases h

/-! ## Nesting -/

/-- What is read nests no deeper than the fuel. By induction on the fuel, over values, items and members at once. -/
theorem depth_le_fuel (fuel : ℕ) :
    (∀ bs v rest, parseValue fuel bs = some (v, rest) → v.depth ≤ fuel) ∧
      (∀ bs vs rest, parseItems fuel bs = some (vs, rest) → depthItems vs ≤ fuel) ∧
      (∀ bs members rest, parseMembers fuel bs = some (members, rest) → depthMembers members ≤ fuel) := by
  induction fuel with
  | zero => exact ⟨nofun, nofun, nofun⟩
  | succ fuel ih =>
    obtain ⟨hvalue, hitems, hmembers⟩ := ih
    refine ⟨fun bs v rest h => ?_, fun bs vs rest h => ?_, fun bs members rest h => ?_⟩
    · unfold parseValue at h
      split at h
      · obtain ⟨out, -, heq⟩ := Option.map_eq_some_iff.mp h
        cases heq
        exact Nat.zero_le _
      · split at h
        · cases h
          exact Nat.succ_le_succ (Nat.zero_le _)
        · obtain ⟨out, hout, heq⟩ := Option.map_eq_some_iff.mp h
          cases heq
          exact Nat.succ_le_succ (hitems _ _ _ hout)
      · split at h
        · cases h
          exact Nat.succ_le_succ (Nat.zero_le _)
        · obtain ⟨out, hout, heq⟩ := Option.map_eq_some_iff.mp h
          cases heq
          exact Nat.succ_le_succ (hmembers _ _ _ hout)
      · rw [literal_eq h]
        exact Nat.zero_le _
      · rw [literal_eq h]
        exact Nat.zero_le _
      · rw [literal_eq h]
        exact Nat.zero_le _
      · obtain ⟨out, -, heq⟩ := Option.map_eq_some_iff.mp h
        cases heq
        exact Nat.zero_le _
    · rw [parseItems] at h
      split at h
      · cases h
      · rename_i v r hv
        have hfirst := (hvalue _ _ _ hv).trans (Nat.le_succ fuel)
        split at h
        · cases h
          exact Nat.max_le.mpr ⟨hfirst, Nat.zero_le _⟩
        · obtain ⟨out, hout, heq⟩ := Option.map_eq_some_iff.mp h
          cases heq
          exact Nat.max_le.mpr ⟨hfirst, (hitems _ _ _ hout).trans (Nat.le_succ fuel)⟩
        · cases h
    · obtain ⟨_, name, _, _, v, _, -, -, -, hv, hrest⟩ := member_of_parse h
      have hfirst := (hvalue _ _ _ hv).trans (Nat.le_succ fuel)
      obtain ⟨-, rfl⟩ | ⟨_, more, -, hmore, rfl⟩ := hrest
      · exact Nat.max_le.mpr ⟨hfirst, Nat.zero_le _⟩
      · exact Nat.max_le.mpr ⟨hfirst, (hmembers _ _ _ hmore).trans (Nat.le_succ fuel)⟩

theorem parsePrefix_of_parse {text : Bytes} {v : Json} (h : parse text = some v) :
    ∃ rest, parsePrefix text = some (v, rest) := by
  rw [parse] at h
  split at h
  · rename_i w rest hparse
    split_ifs at h
    cases h
    exact ⟨rest, hparse⟩
  · cases h

theorem depth_of_parse {text : Bytes} {v : Json} (h : parse text = some v) : v.depth ≤ 2 * text.length + 1 := by
  obtain ⟨rest, hparse⟩ := parsePrefix_of_parse h
  exact (depth_le_fuel _).1 _ _ _ hparse

end Foundations.JsonTokens
