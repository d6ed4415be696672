import GarageConsole.Foundations.Numbers

/-! # Numbers read back

Whatever a number prints as reads as that number (`numberOf_text`): in each of the ways that digits are laid out they
are read as the same digits with the point in the same place (`numberOf_layOut`).
-/

namespace Foundations.Numbers

open Double Utf16

set_option autoImplicit false

/-! ## Digits -/

theorem digitValue_digit {c : Char} (h : c.isDigit = true) :
    encodeChar c = [UInt16.ofNat c.toNat] ∧ digitValue (UInt16.ofNat c.toNat) = some (c.toNat - 0x30) ∧
      c.toNat - 0x30 < 10 := by
  rw [Char.isDigit, Bool.and_eq_true, decide_eq_true_eq, decide_eq_true_eq] at h
  have hcode : 0x30 ≤ c.toNat ∧ c.toNat ≤ 0x39 := h
  refine ⟨?_, ?_, by omega⟩
  · rw [encodeChar, if_pos (by omega)]
  · rw [digitValue, toNat_ofNat (by omega), if_pos (by simpa using hcode)]

theorem isDigitOf_encode {cs : List Char} (h : ∀ c ∈ cs, c.isDigit = true) :
    ∀ u ∈ encode cs, isDigitOf 10 u = true := by
  intro u hu
  obtain ⟨c, hc, hu⟩ := mem_encode.mp hu
  obtain ⟨hencode, hvalue, hlt⟩ := digitValue_digit (h c hc)
  rw [hencode, List.mem_singleton] at hu
  rw [hu, isDigitOf, hvalue, Option.any_some, decide_eq_true_eq]
  exact hlt

theorem readDigits_encode {cs : List Char} (h : ∀ c ∈ cs, c.isDigit = true) :
    readDigits 10 (encode cs) = Nat.ofDigitChars 10 cs 0 := by
  suffices hall : ∀ acc, (encode cs).foldl (fun n u => n * 10 + (digitValue u).getD 0) acc =
      Nat.ofDigitChars 10 cs acc from hall 0
  induction cs with
  | nil => exact fun _ => rfl
  | cons c cs ih =>
    intro acc
    obtain ⟨hencode, hvalue, -⟩ := digitValue_digit (h c List.mem_cons_self)
    rw [encode, List.flatMap_cons, hencode, List.singleton_append, List.foldl_cons, hvalue, Option.getD_some,
      Nat.ofDigitChars_cons, Nat.mul_comm]
    exact ih (fun d hd => h d (List.mem_cons_of_mem c hd)) _

theorem length_encode {cs : List Char} (h : ∀ c ∈ cs, c.isDigit = true) : (encode cs).length = cs.length := by
  induction cs with
  | nil => rfl
  | cons c cs ih =>
    rw [encode, List.flatMap_cons, (digitValue_digit (h c List.mem_cons_self)).1, List.singleton_append,
      List.length_cons, List.length_cons]
    exact congrArg (· + 1) (ih fun d hd => h d (List.mem_cons_of_mem c hd))

theorem encode_append (cs ds : List Char) : encode (cs ++ ds) = encode cs ++ encode ds := List.flatMap_append

theorem encode_ne_nil {cs : List Char} (h : cs ≠ []) : encode cs ≠ [] := by
  intro hnil
  exact h (by rw [← decode_encode cs, hnil]; rfl)

theorem isDigit_toDigits (n : ℕ) : ∀ c ∈ Nat.toDigits 10 n, c.isDigit = true :=
  fun _ hc => Nat.isDigit_of_mem_toDigits (by decide) (by decide) hc

theorem isDigit_zeros (n : ℕ) : ∀ c ∈ List.replicate n '0', c.isDigit = true := by
  intro c hc
  rw [List.eq_of_mem_replicate hc]
  rfl

/-! ## Parts of a number -/

theorem takeWhile_digits {whole rest : Units} (hwhole : ∀ u ∈ whole, isDigitOf 10 u = true)
    (hrest : ∀ u ∈ rest.head?, isDigitOf 10 u = false) :
    (whole ++ rest).takeWhile (isDigitOf 10) = whole ∧ (whole ++ rest).dropWhile (isDigitOf 10) = rest := by
  rw [List.takeWhile_append_of_pos hwhole, List.dropWhile_append_of_pos hwhole]
  cases rest with
  | nil => exact ⟨List.append_nil _, rfl⟩
  | cons u rest =>
    have hu := hrest u rfl
    rw [List.takeWhile_cons_of_neg (by rw [hu]; exact Bool.false_ne_true),
      List.dropWhile_cons_of_neg (by rw [hu]; exact Bool.false_ne_true)]
    exact ⟨List.append_nil _, rfl⟩

theorem head_exponent {exponent : Units} {e : ℤ} (h : readExponent exponent = some e) :
    ∀ u ∈ exponent.head?, u = 0x65 ∨ u = 0x45 := by
  cases exponent with
  | nil => exact fun u hu => by cases hu
  | cons u rest =>
    rintro _ ⟨⟩
    rw [readExponent] at h
    dsimp only at h
    split at h
    · rename_i hletter
      simp only [Bool.and_eq_true, Bool.or_eq_true, decide_eq_true_eq] at hletter
      exact hletter.1.1
    · cases h

theorem readDecimal_whole (negative : Bool) {whole exponent : Units} {e : ℤ}
    (hwhole : ∀ u ∈ whole, isDigitOf 10 u = true) (hne : whole ≠ []) (he : readExponent exponent = some e) :
    readDecimal negative (whole ++ exponent) = decimal negative (readDigits 10 whole) e := by
  have hhead : ∀ u ∈ exponent.head?, isDigitOf 10 u = false ∧ u ≠ 0x2E := by
    intro u hu
    obtain rfl | rfl := head_exponent he u hu <;> decide
  obtain ⟨htake, hdrop⟩ := takeWhile_digits hwhole fun u hu => (hhead u hu).1
  have hpoint : ¬exponent.head? = some 0x2E := fun h => (hhead _ h).2 rfl
  rw [readDecimal, htake, hdrop]
  simp only [if_neg hpoint, List.takeWhile_nil, List.append_nil, he, if_neg hne, List.length_nil]
  exact congrArg (decimal negative _) (Int.sub_zero e)

theorem readDecimal_point (negative : Bool) {whole fraction exponent : Units} {e : ℤ}
    (hwhole : ∀ u ∈ whole, isDigitOf 10 u = true) (hfraction : ∀ u ∈ fraction, isDigitOf 10 u = true)
    (hne : whole ≠ []) (he : readExponent exponent = some e) :
    readDecimal negative (whole ++ 0x2E :: (fraction ++ exponent)) =
      decimal negative (readDigits 10 (whole ++ fraction)) (e - fraction.length) := by
  have hhead : ∀ u ∈ exponent.head?, isDigitOf 10 u = false := by
    intro u hu
    obtain rfl | rfl := head_exponent he u hu <;> decide
  have hpoint : ∀ u ∈ (0x2E :: (fraction ++ exponent)).head?, isDigitOf 10 u = false := by
    rintro _ ⟨⟩
    decide
  obtain ⟨htake, hdrop⟩ := takeWhile_digits hwhole hpoint
  obtain ⟨htake', hdrop'⟩ := takeWhile_digits hfraction hhead
  rw [readDecimal, htake, hdrop]
  simp only [List.head?_cons, if_true, List.tail_cons, htake', hdrop', he]
  rw [if_neg fun hnil => hne (List.append_eq_nil_iff.mp hnil).1]

/-! ## Digits laid out -/

/-- The end of a number with one digit before the point. -/
def exponentOf (n : ℤ) : List Char := 'e' :: (if 0 < n then '+' else '-') :: Nat.toDigits 10 (n - 1).natAbs

theorem readExponent_written (n : ℤ) : readExponent (encode (exponentOf n)) = some (n - 1) := by
  have hdigits := isDigitOf_encode (isDigit_toDigits (n - 1).natAbs)
  have hne := encode_ne_nil (Nat.toDigits_ne_nil (b := 10) (n := (n - 1).natAbs))
  have hread : readDigits 10 (encode (Nat.toDigits 10 (n - 1).natAbs)) = (n - 1).natAbs := by
    rw [readDigits_encode (isDigit_toDigits _), Nat.ofDigitChars_ten_toDigits]
  have hall : (true && decide (encode (Nat.toDigits 10 (n - 1).natAbs) ≠ []) &&
      (encode (Nat.toDigits 10 (n - 1).natAbs)).all (isDigitOf 10)) = true := by
    rw [decide_eq_true hne, Bool.true_and, Bool.true_and, List.all_eq_true]
    exact hdigits
  rw [exponentOf]
  split_ifs with hn
  · have hencode : encode ('e' :: '+' :: Nat.toDigits 10 (n - 1).natAbs) =
        0x65 :: 0x2B :: encode (Nat.toDigits 10 (n - 1).natAbs) := rfl
    have hsign : readSign (0x2B :: encode (Nat.toDigits 10 (n - 1).natAbs)) =
        (false, encode (Nat.toDigits 10 (n - 1).natAbs)) := rfl
    rw [hencode, readExponent, hsign]
    dsimp only
    rw [decide_eq_true rfl, Bool.true_or, if_pos hall, hread, if_neg Bool.false_ne_true]
    congr 1
    omega
  · have hencode : encode ('e' :: '-' :: Nat.toDigits 10 (n - 1).natAbs) =
        0x65 :: 0x2D :: encode (Nat.toDigits 10 (n - 1).natAbs) := rfl
    have hsign : readSign (0x2D :: encode (Nat.toDigits 10 (n - 1).natAbs)) =
        (true, encode (Nat.toDigits 10 (n - 1).natAbs)) := rfl
    rw [hencode, readExponent, hsign]
    dsimp only
    rw [decide_eq_true rfl, Bool.true_or, if_pos hall, hread, if_pos rfl]
    congr 1
    omega

/-- The ways in which digits are laid out. -/
theorem layOut_cases (digits : List Char) (n : ℤ) :
    (digits.length ≤ n ∧ layOut digits n = digits ++ List.replicate (n.toNat - digits.length) '0') ∨
    (0 < n ∧ n < digits.length ∧ layOut digits n = digits.take n.toNat ++ '.' :: digits.drop n.toNat) ∨
    (n ≤ 0 ∧ layOut digits n = '0' :: '.' :: (List.replicate (-n).toNat '0' ++ digits)) ∨
    (digits.length = 1 ∧ layOut digits n = digits ++ exponentOf n) ∨
    layOut digits n = digits.take 1 ++ '.' :: (digits.drop 1 ++ exponentOf n) := by
  unfold layOut
  split
  · rename_i hwhole
    rw [Bool.and_eq_true, decide_eq_true_eq, decide_eq_true_eq] at hwhole
    exact .inl ⟨hwhole.1, rfl⟩
  rename_i hwhole
  split
  · rename_i hpoint
    rw [Bool.and_eq_true, decide_eq_true_eq, decide_eq_true_eq] at hwhole hpoint
    exact .inr (.inl ⟨hpoint.1, by omega, rfl⟩)
  split
  · rename_i hzeros
    rw [Bool.and_eq_true, decide_eq_true_eq, decide_eq_true_eq] at hzeros
    exact .inr (.inr (.inl ⟨hzeros.2, rfl⟩))
  refine .inr (.inr (.inr ?_))
  dsimp only
  by_cases hone : digits.length = 1
  · obtain ⟨d, rfl⟩ := List.length_eq_one_iff.mp hone
    exact .inl ⟨rfl, rfl⟩
  · rw [if_neg hone, List.append_assoc, List.append_assoc]
    exact .inr rfl

/-! ## Reading what was laid out -/

/-- What a printed number consists of. -/
def Printed (u : UInt16) : Prop := u.toNat ≤ 0x39 ∧ isSpace u = false ∨ u = 0x65

theorem printed_digits {cs : List Char} (h : ∀ c ∈ cs, c.isDigit = true) : ∀ u ∈ encode cs, Printed u := by
  intro u hu
  obtain ⟨c, hc, hu⟩ := mem_encode.mp hu
  have hdigit := h c hc
  rw [(digitValue_digit hdigit).1, List.mem_singleton] at hu
  rw [Char.isDigit, Bool.and_eq_true, decide_eq_true_eq, decide_eq_true_eq] at hdigit
  have hcode : 0x30 ≤ c.toNat ∧ c.toNat ≤ 0x39 := hdigit
  have hvalue : u.toNat = c.toNat := by rw [hu, toNat_ofNat (by omega)]
  exact .inl ⟨by omega, isSpace_digit (by omega) (by omega)⟩

theorem printed_exponentOf (n : ℤ) : ∀ u ∈ encode (exponentOf n), Printed u := by
  have hdigits := printed_digits (isDigit_toDigits (n - 1).natAbs)
  rw [exponentOf]
  split_ifs
  · exact List.forall_mem_cons.mpr ⟨.inr rfl, List.forall_mem_cons.mpr ⟨.inl (by decide), hdigits⟩⟩
  · exact List.forall_mem_cons.mpr ⟨.inr rfl, List.forall_mem_cons.mpr ⟨.inl (by decide), hdigits⟩⟩

theorem basePrefix_printed {s : Units} (h : ∀ u ∈ s, Printed u) : basePrefix s = none := by
  unfold basePrefix
  split
  · rename_i u digits
    obtain ⟨hle, -⟩ | rfl := h u (List.mem_cons_of_mem _ List.mem_cons_self)
    · have hne {v : UInt16} (hv : 0x39 < v.toNat) : u ≠ v := by
        rintro rfl
        omega
      simp [hne (v := 0x62) (by decide), hne (v := 0x42) (by decide), hne (v := 0x6F) (by decide),
        hne (v := 0x4F) (by decide), hne (v := 0x78) (by decide), hne (v := 0x58) (by decide)]
    · rfl
  · rfl

theorem isSpace_printed {u : UInt16} (h : Printed u) : isSpace u = false := by
  obtain ⟨-, hspace⟩ | rfl := h
  · exact hspace
  · decide

/-- A printed number is read as a decimal. -/
theorem numberOf_printed {first : UInt16} {rest : Units} (hfirst : isDigitOf 10 first = true)
    (h : ∀ u ∈ first :: rest, Printed u) : numberOf (first :: rest) = readDecimal false (first :: rest) := by
  have htrim : trim (first :: rest) = first :: rest := trim_eq_self.mpr
    ⟨fun _ => isSpace_printed (h _ (List.head_mem _)), fun _ => isSpace_printed (h _ (List.getLast_mem _))⟩
  have hsign : readSign (first :: rest) = (false, first :: rest) := by
    have hplus : first ≠ 0x2B := by
      rintro rfl
      exact absurd hfirst (by decide)
    have hminus : first ≠ 0x2D := by
      rintro rfl
      exact absurd hfirst (by decide)
    rw [readSign, if_neg hplus, if_neg hminus]
  have hinfinity : first :: rest ≠ utf16 "Infinity" := by
    intro heq
    have hletter : first = 0x49 := (List.cons.inj heq).1
    rw [hletter] at hfirst
    exact absurd hfirst (by decide)
  rw [numberOf]
  dsimp only
  rw [htrim, if_neg (List.cons_ne_nil _ _), basePrefix_printed h]
  dsimp only
  rw [hsign]
  dsimp only
  rw [if_neg hinfinity]

theorem printed_layOut {digits : List Char} (h : ∀ c ∈ digits, c.isDigit = true) (n : ℤ) :
    ∀ u ∈ encode (layOut digits n), Printed u := by
  have htake (k : ℕ) : ∀ u ∈ encode (digits.take k), Printed u :=
    printed_digits fun c hc => h c (List.mem_of_mem_take hc)
  have hdrop (k : ℕ) : ∀ u ∈ encode (digits.drop k), Printed u :=
    printed_digits fun c hc => h c (List.mem_of_mem_drop hc)
  have hpoint : Printed 0x2E := .inl (by decide)
  obtain ⟨-, heq⟩ | ⟨-, -, heq⟩ | ⟨-, heq⟩ | ⟨-, heq⟩ | heq := layOut_cases digits n
  · rw [heq, encode_append]
    exact List.forall_mem_append.mpr ⟨printed_digits h, printed_digits (isDigit_zeros _)⟩
  · rw [heq, encode_append]
    exact List.forall_mem_append.mpr ⟨htake _, List.forall_mem_cons.mpr ⟨hpoint, hdrop _⟩⟩
  · have hrest : ∀ u ∈ encode (List.replicate (-n).toNat '0' ++ digits), Printed u :=
      printed_digits (List.forall_mem_append.mpr ⟨isDigit_zeros _, h⟩)
    rw [heq]
    exact List.forall_mem_cons.mpr ⟨.inl (by decide), List.forall_mem_cons.mpr ⟨hpoint, hrest⟩⟩
  · rw [heq, encode_append]
    exact List.forall_mem_append.mpr ⟨printed_digits h, printed_exponentOf n⟩
  · have hrest : ∀ u ∈ encode (digits.drop 1 ++ exponentOf n), Printed u := by
      rw [encode_append]
      exact List.forall_mem_append.mpr ⟨hdrop _, printed_exponentOf n⟩
    rw [heq, encode_append]
    exact List.forall_mem_append.mpr ⟨htake _, List.forall_mem_cons.mpr ⟨hpoint, hrest⟩⟩

theorem head_layOut {digits : List Char} (h : ∀ c ∈ digits, c.isDigit = true) (hne : digits ≠ []) (n : ℤ) :
    ∃ c rest, layOut digits n = c :: rest ∧ c.isDigit = true := by
  obtain ⟨d, ds, rfl⟩ := List.exists_cons_of_ne_nil hne
  have hd : d.isDigit = true := h d List.mem_cons_self
  obtain ⟨-, heq⟩ | ⟨hpos, -, heq⟩ | ⟨-, heq⟩ | ⟨-, heq⟩ | heq := layOut_cases (d :: ds) n
  · exact ⟨d, _, heq, hd⟩
  · obtain ⟨k, hk⟩ := Nat.exists_eq_succ_of_ne_zero (show n.toNat ≠ 0 by omega)
    rw [hk] at heq
    exact ⟨d, _, heq, hd⟩
  · exact ⟨'0', _, heq, rfl⟩
  · exact ⟨d, _, heq, hd⟩
  · exact ⟨d, _, heq, hd⟩

theorem decimal_shift (negative : Bool) (s k : ℕ) : decimal negative (10 ^ k * s) 0 = decimal negative s k := by
  rw [decimal, decimal, Int.toNat_zero, Int.toNat_natCast, Nat.mul_comm (10 ^ k) s, Nat.pow_zero, Nat.mul_one]
  simp

theorem numberOf_layOut {digits : List Char} (h : ∀ c ∈ digits, c.isDigit = true) (hne : digits ≠ []) (n : ℤ) :
    numberOf (encode (layOut digits n)) = decimal false (Nat.ofDigitChars 10 digits 0) (n - digits.length) := by
  have hdecimal : numberOf (encode (layOut digits n)) = readDecimal false (encode (layOut digits n)) := by
    have hprinted := printed_layOut h n
    obtain ⟨c, rest, hlaid, hdigit⟩ := head_layOut h hne n
    obtain ⟨hencode, hvalue, hlt⟩ := digitValue_digit hdigit
    have hfirst : isDigitOf 10 (UInt16.ofNat c.toNat) = true := by
      rw [isDigitOf, hvalue, Option.any_some, decide_eq_true_eq]
      exact hlt
    rw [hlaid, encode, List.flatMap_cons, hencode] at hprinted ⊢
    exact numberOf_printed hfirst hprinted
  rw [hdecimal]
  have htake (k : ℕ) : ∀ c ∈ digits.take k, c.isDigit = true := fun c hc => h c (List.mem_of_mem_take hc)
  have hdrop (k : ℕ) : ∀ c ∈ digits.drop k, c.isDigit = true := fun c hc => h c (List.mem_of_mem_drop hc)
  have htakeNe {k : ℕ} (hk : 0 < k) : digits.take k ≠ [] := by
    rw [Ne, List.take_eq_nil_iff, not_or]
    exact ⟨hk.ne', hne⟩
  obtain ⟨hle, heq⟩ | ⟨hpos, hlt, heq⟩ | ⟨hle, heq⟩ | ⟨hone, heq⟩ | heq := layOut_cases digits n
  · have hall : ∀ c ∈ digits ++ List.replicate (n.toNat - digits.length) '0', c.isDigit = true :=
      List.forall_mem_append.mpr ⟨h, isDigit_zeros _⟩
    have hread := readDecimal_whole false (isDigitOf_encode hall)
      (encode_ne_nil (fun hnil => hne (List.append_eq_nil_iff.mp hnil).1)) (show readExponent [] = some 0 from rfl)
    rw [List.append_nil] at hread
    rw [heq, hread, readDigits_encode hall, Nat.ofDigitChars_append, Nat.ofDigitChars_replicate_zero, decimal_shift]
    congr 1
    omega
  · have hread := readDecimal_point false (isDigitOf_encode (htake n.toNat)) (isDigitOf_encode (hdrop n.toNat))
      (encode_ne_nil (htakeNe (by omega))) (show readExponent [] = some 0 from rfl)
    rw [List.append_nil, ← encode_append, List.take_append_drop, readDigits_encode h, length_encode (hdrop _),
      List.length_drop] at hread
    rw [heq, encode_append]
    refine hread.trans (congrArg _ ?_)
    omega
  · have hall : ∀ c ∈ List.replicate (-n).toNat '0' ++ digits, c.isDigit = true :=
      List.forall_mem_append.mpr ⟨isDigit_zeros _, h⟩
    have hzero : ∀ c ∈ ['0'], c.isDigit = true := fun c hc => by rw [List.mem_singleton.mp hc]; rfl
    have hread := readDecimal_point false (isDigitOf_encode hzero) (isDigitOf_encode hall) (by decide)
      (show readExponent [] = some 0 from rfl)
    rw [List.append_nil, ← encode_append, readDigits_encode (List.forall_mem_append.mpr ⟨hzero, hall⟩),
      length_encode hall, Nat.ofDigitChars_append, Nat.ofDigitChars_append, Nat.ofDigitChars_replicate_zero,
      List.length_append, List.length_replicate] at hread
    have hvalue : Nat.ofDigitChars 10 ['0'] 0 = 0 := rfl
    rw [hvalue, Nat.mul_zero] at hread
    rw [heq]
    refine hread.trans (congrArg _ ?_)
    omega
  · have hread := readDecimal_whole false (isDigitOf_encode h) (encode_ne_nil hne) (readExponent_written n)
    rw [heq, encode_append, hread, readDigits_encode h, hone]
    rfl
  · have hread := readDecimal_point false (isDigitOf_encode (htake 1)) (isDigitOf_encode (hdrop 1))
      (encode_ne_nil (htakeNe Nat.one_pos)) (readExponent_written n)
    rw [← encode_append (digits.take 1) (digits.drop 1), List.take_append_drop, readDigits_encode h,
      length_encode (hdrop _), List.length_drop, ← encode_append] at hread
    rw [heq, encode_append]
    refine hread.trans (congrArg _ ?_)
    have hpos := List.length_pos_iff.mpr hne
    omega

/-! ## Printing and reading -/

/-- What stands in for a candidate that was not found reads as the number too. -/
theorem toNearest_fives {k : ℕ} (h : ulp k ∣ k) (e : ℕ) :
    toNearest (k * 5 ^ e * 10 ^ (-(e : ℤ)).toNat * 2 ^ e) (10 ^ (-(-(e : ℤ))).toNat) = k := by
  have hten : k * 5 ^ e * 2 ^ e = k * 10 ^ e := by rw [Nat.mul_assoc, ← Nat.mul_pow]
  rw [Int.toNat_neg_natCast, Nat.pow_zero, Nat.mul_one, hten, neg_neg, Int.toNat_natCast]
  exact toNearest_mul h (Nat.pow_pos (by decide))

theorem shortest_reads {k : ℕ} (h : ulp k ∣ k) :
    toNearest ((shortest k).1 * 10 ^ (shortest k).2.toNat * one) (10 ^ (-(shortest k).2).toNat) = k := by
  rw [shortest]
  dsimp only
  cases hfind : List.find? _ _ with
  | some candidate =>
    have hread := List.find?_some hfind
    rw [Option.getD_some]
    exact of_decide_eq_true hread
  | none =>
    rw [Option.getD_none]
    exact toNearest_fives h 1074

theorem ofRatio_of_eq (negative : Bool) {p q : ℕ} {size : Magnitude} (h : toNearest p q = size.units) :
    ofRatio negative p q = .finite negative size := by
  obtain ⟨units, exact, lt⟩ := size
  obtain rfl : toNearest p q = units := h
  exact dif_pos lt

/-- **A number reads as what it printed as.** -/
theorem numberOf_text (size : Magnitude) : numberOf (text size.units) = .finite false size := by
  rw [text]
  split_ifs with hzero
  · have hdigit : ∀ c ∈ ['0'], c.isDigit = true := fun c hc => by rw [List.mem_singleton.mp hc]; rfl
    refine (numberOf_layOut hdigit (List.cons_ne_nil _ _) 1).trans (ofRatio_of_eq false ?_)
    rw [hzero, show Nat.ofDigitChars 10 ['0'] 0 = 0 from rfl, Nat.zero_mul, Nat.zero_mul,
      ← toNearest_mul (Nat.dvd_zero (ulp 0)) Nat.one_pos, Nat.zero_mul]
    rfl
  · dsimp only
    rw [numberOf_layOut (isDigit_toDigits _) Nat.toDigits_ne_nil, Nat.ofDigitChars_ten_toDigits, add_sub_cancel_right]
    exact ofRatio_of_eq false (shortest_reads size.exact)

theorem numberOf_trim (s : Units) : numberOf (trim s) = numberOf s := by
  rw [numberOf, numberOf, trim_trim]

end Foundations.Numbers
