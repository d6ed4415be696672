import GarageConsole.Foundations.CutOff
import GarageConsole.Foundations.Utf8
import GarageConsole.Audit.Readers

/-! # The summary of a body that is cut off

Of a body beyond the limit the audit log sees the first bytes. What it then says about an array of strings is about
the strings that are there as a whole, and it says how many there are in all only if it has seen the closing bracket.
-/

namespace GarageConsole.Audit

open Foundations Foundations.Text Foundations.Json Foundations.JsonTokens Foundations.CutOff GarageConsole.Permissions

set_option autoImplicit false

/-! ## Values that are cut -/

theorem cutAt_le (s : Bytes) (n : ℕ) : cutAt s n ≤ n := by
  induction n with
  | zero => exact Nat.le_refl 0
  | succ n ih =>
    rw [cutAt]
    split
    · exact Nat.le_succ_of_le ih
    · exact Nat.le_refl _

/-- Up to `n`, the cut is at the last byte that continues nothing. -/
theorem le_cutAt {s : Bytes} {k n : ℕ} (hle : k ≤ n) (hstart : isContinuation (s.getD k 0) = false) :
    k ≤ cutAt s n := by
  induction n with
  | zero => exact hle
  | succ n ih =>
    rw [cutAt]
    split
    · rename_i hcontinues
      refine ih (Nat.le_of_lt_succ (Nat.lt_of_le_of_ne hle ?_))
      rintro rfl
      rw [hstart] at hcontinues
      cases hcontinues
    · exact hle

theorem cutAt_start {s : Bytes} {n : ℕ} (h : cutAt s n ≠ 0) : isContinuation (s.getD (cutAt s n) 0) = false := by
  induction n with
  | zero => exact absurd rfl h
  | succ n ih =>
    rw [cutAt] at h ⊢
    split
    · rename_i hcontinues
      rw [if_pos hcontinues] at h
      exact ih h
    · rename_i hstart
      exact Bool.not_eq_true _ ▸ hstart

/-- `t` is what is shown of `s`: its longest beginning that has at most `n` bytes and is a text. -/
structure Shown (n : ℕ) (s t : String) : Prop where
  beginning : bytes t <+: bytes s
  length_le : (bytes t).length ≤ n
  longest : ∀ u : String, bytes u <+: bytes s → (bytes u).length ≤ n → bytes u <+: bytes t

theorem wellFormed_take_cutAt (s : String) (n : ℕ) : WellFormed ((bytes s).take (cutAt (bytes s) n)) := by
  by_cases hzero : cutAt (bytes s) n = 0
  · rw [hzero]
    exact ⟨[], rfl⟩
  · refine @take_wellFormed s.toList _ fun b hb => ?_
    have hstart := cutAt_start hzero
    rw [List.getD_eq_getElem?_getD] at hstart
    rwa [show (bytes s)[cutAt (bytes s) n]? = some b from hb] at hstart

theorem shown_truncateUTF8 (n : ℕ) (s : String) : Shown n s (truncateUTF8 s n) := by
  rw [truncateUTF8]
  split
  · rename_i hshort
    exact ⟨List.prefix_refl _, hshort, fun u hu _ => hu⟩
  · rename_i hlong
    have hcut := bytes_toText (wellFormed_take_cutAt s n)
    refine ⟨?_, ?_, fun u hu hlength => ?_⟩
    · rw [hcut]
      exact List.take_prefix _ _
    · rw [hcut]
      exact (List.length_take_le _ _).trans (cutAt_le _ n)
    · rw [hcut, List.prefix_take_iff]
      refine ⟨hu, le_cutAt hlength ?_⟩
      -- `u` ends before a byte that continues nothing
      have hwell : WellFormed ((encode s.toList).take (bytes u).length) := by
        change WellFormed ((bytes s).take (bytes u).length)
        rw [← List.prefix_iff_eq_take.mp hu]
        exact wellFormed_bytes u
      have hlt : (bytes u).length < (bytes s).length := Nat.lt_of_le_of_lt hlength (Nat.lt_of_not_le hlong)
      rw [List.getD_eq_getElem _ _ hlt]
      exact take_wellFormed_iff.mp hwell _ (List.getElem?_eq_getElem hlt)

/-! ## The loop -/

section Loop

variable {itemsField countField : String} {complete : Bool}

/-- What the loop makes of `n` items when there is no token left. -/
def stopped (itemsField countField : String) (complete : Bool) (n : ℕ) (items : List String) : Detail :=
  if complete || n = 0 then []
  else [(countField ++ "AtLeast", countOf n), ("truncated", .bool true), (itemsField, strings items)]

theorem summaryLoop_error {fuel n : ℕ} {bs : Bytes} {items : List String} (h : arrayToken (n = 0) bs = .error) :
    summaryLoop itemsField countField complete (fuel + 1) bs n items =
      stopped itemsField countField complete n items := by
  rw [summaryLoop, h]
  rfl

/-- The loop stops after `k` of the items, before the next one ends. -/
structure Stops (after unseen : Bytes) (n : ℕ) (items : List String) (k : ℕ) (left : Bytes) : Prop where
  le : k ≤ items.length
  rest : StringItems after (n + k = 0) (left ++ unseen) (items.drop k)
  broken : arrayToken (n + k = 0) left = .error

theorem Stops.next {after unseen left : Bytes} {n k : ℕ} {items : List String}
    (h : Stops after unseen (n + 1) items k left) (s : String) : Stops after unseen n (s :: items) (k + 1) left := by
  have hn : n + (k + 1) = n + 1 + k := by omega
  refine ⟨Nat.succ_le_succ h.le, ?_, ?_⟩
  · rw [hn, List.drop_succ_cons]
    exact h.rest
  · rw [hn]
    exact h.broken

/-- The loop on the part of an array that is seen, up to its bracket or up to where it breaks off. By induction on the
items of the whole array. -/
theorem summaryLoop_cut {after bs unseen : Bytes} {first : Bool} {items : List String}
    (h : StringItems after first bs items) : ∀ {seen : Bytes} {n fuel : ℕ} {acc : List String}, bs = seen ++ unseen →
      first = decide (n = 0) → seen.length ≤ fuel →
        (unseen.length ≤ after.length ∧ summaryLoop itemsField countField complete (fuel + 1) seen n acc =
          [(countField, countOf (n + items.length)), (itemsField, strings (items.foldl addItem acc))]) ∨
        (after.length < unseen.length ∧ ∃ k left, Stops after unseen n items k left ∧
          summaryLoop itemsField countField complete (fuel + 1) seen n acc =
            stopped itemsField countField complete (n + k) ((items.take k).foldl addItem acc)) := by
  induction h with
  | close hclose =>
    intro seen n fuel acc hbs hfirst hfuel
    subst hbs
    cases hseen : skipSpace seen with
    | nil =>
      have hlength := length_lt_of_skip ((skipSpace_append_blank hseen unseen).symm.trans hclose)
      have herror : arrayToken (n = 0) seen = .error := arrayToken_blank hseen
      exact .inr ⟨hlength, 0, seen, ⟨Nat.le_refl 0, .close hclose, herror⟩, summaryLoop_error herror⟩
    | cons b inside =>
      rw [skipSpace_append hseen] at hclose
      obtain ⟨rfl, rfl⟩ := List.cons.inj hclose
      refine .inl ⟨by rw [List.length_append]; omega, ?_⟩
      rw [summaryLoop, arrayToken_close hseen]
      rfl
  | @item first bs next s items htoken hitems ih =>
    intro seen n fuel acc hbs hfirst hfuel
    subst hbs hfirst
    obtain ⟨herror, hlength⟩ | ⟨left, hleft, hnext⟩ := arrayToken_cut htoken
    · refine .inr ⟨hitems.length_lt.trans hlength, 0, seen, ⟨Nat.zero_le _, ?_, herror⟩, summaryLoop_error herror⟩
      exact .item htoken hitems
    · have hshort := length_lt_of_string hleft
      obtain ⟨fuel, rfl⟩ : ∃ k, fuel = k + 1 := ⟨fuel - 1, by omega⟩
      have hstep : summaryLoop itemsField countField complete (fuel + 1 + 1) seen n acc =
          summaryLoop itemsField countField complete (fuel + 1) left (n + 1) (addItem acc s) := by
        rw [summaryLoop, hleft]
      rw [hstep]
      obtain ⟨hclosed, hloop⟩ | ⟨hopen, k, rest, hstops, hloop⟩ :=
        @ih left (n + 1) fuel (addItem acc s) hnext rfl (Nat.le_of_lt_succ (Nat.lt_of_lt_of_le hshort hfuel))
      · refine .inl ⟨hclosed, ?_⟩
        rw [hloop, List.length_cons, List.foldl_cons, Nat.add_assoc, Nat.add_comm 1]
      · refine .inr ⟨hopen, k + 1, rest, hstops.next s, ?_⟩
        rw [hloop, List.take_succ_cons, List.foldl_cons, Nat.add_assoc, Nat.add_comm 1]

end Loop

/-! ## The summary -/

/-- The summary of the first `n` of the strings, with more to follow. -/
def atLeast (itemsField countField : String) (n : ℕ) (strs : List String) : Detail :=
  [(countField ++ "AtLeast", countOf n), ("truncated", .bool true),
   (itemsField, strings ((strs.take (min auditPreviewItems n)).map fun s => truncateUTF8 s auditMaxValueBytes))]

/-- The summary of the part of an array that is seen: of all of it if its bracket is there, else of the strings that
are there as a whole. -/
theorem stringArraySummary_cut {itemsField countField : String} {seen unseen after : Bytes} {items : List String}
    (h : parsePrefix (seen ++ unseen) = some (strings items, after)) {fuel : ℕ} (hfuel : seen.length ≤ fuel)
    (complete : Bool) :
    (unseen.length ≤ after.length ∧
      stringArraySummary itemsField countField complete fuel seen = summaryOf itemsField countField items) ∨
    (after.length < unseen.length ∧
      ((skipSpace seen = [] ∧ stringArraySummary itemsField countField complete fuel seen = []) ∨
        ∃ n left, Stops after unseen 0 items n left ∧ stringArraySummary itemsField countField complete fuel seen =
          if complete || n = 0 then [] else atLeast itemsField countField n items)) := by
  obtain ⟨inside, hopen, hitems⟩ := stringItems_of_array h
  cases hseen : skipSpace seen with
  | nil =>
    rw [skipSpace_append_blank hseen] at hopen
    refine .inr ⟨hitems.length_lt.trans (length_lt_of_skip hopen), .inl ⟨rfl, ?_⟩⟩
    rw [stringArraySummary, hseen]
  | cons b t =>
    rw [skipSpace_append hseen] at hopen
    obtain ⟨rfl, rfl⟩ := List.cons.inj hopen
    have hsummary : stringArraySummary itemsField countField complete fuel seen =
        summaryLoop itemsField countField complete fuel t 0 [] := by
      rw [stringArraySummary, hseen]
      rfl
    have hshort := length_lt_of_skip hseen
    obtain ⟨fuel, rfl⟩ : ∃ k, fuel = k + 1 := ⟨fuel - 1, by omega⟩
    rw [hsummary]
    obtain ⟨hclosed, hloop⟩ | ⟨hbroken, n, left, hstops, hloop⟩ :=
      @summaryLoop_cut itemsField countField complete _ _ _ _ _ hitems t 0 fuel [] rfl rfl (by omega)
    · refine .inl ⟨hclosed, ?_⟩
      rw [hloop, Nat.zero_add, foldl_addItem, List.nil_append]
      rfl
    · refine .inr ⟨hbroken, .inr ⟨n, left, hstops, ?_⟩⟩
      rw [hloop, stopped, Nat.zero_add, foldl_addItem, List.nil_append, List.take_take]
      rfl

/-- What the audit line says of a purge, by what of its body is within the limit. -/
theorem purge_audited {body after : Bytes} {items : List String} (h : parsePrefix body = some (strings items, after)) :
    ((body.drop maxAuditBodyBytes).length ≤ after.length ∧
      auditDetail "POST" (bytes "/api/blocks/purge") (.complete body) = some (summaryOf "hashes" "hashCount" items)) ∨
    (after.length < (body.drop maxAuditBodyBytes).length ∧
      (auditDetail "POST" (bytes "/api/blocks/purge") (.complete body) = none ∨ ∃ n, 0 < n ∧ n ≤ items.length ∧
        auditDetail "POST" (bytes "/api/blocks/purge") (.complete body) =
          some (atLeast "hashes" "hashCount" n items))) := by
  have hextract : extractorFor "POST" (bytes "/api/blocks/purge") = some extractBlockHashes := rfl
  have hdetail : auditDetail "POST" (bytes "/api/blocks/purge") (.complete body) =
      if extractBlockHashes (body.take maxAuditBodyBytes) (body.length ≤ maxAuditBodyBytes) = [] then none
      else some (extractBlockHashes (body.take maxAuditBodyBytes) (body.length ≤ maxAuditBodyBytes)) := by
    have hlimit : (body.take (maxAuditBodyBytes + 1)).length ≤ maxAuditBodyBytes ↔ body.length ≤ maxAuditBodyBytes := by
      rw [List.length_take]
      omega
    rw [auditDetail, hextract, readLimited]
    simp only [List.take_take, Nat.min_eq_left (Nat.le_succ maxAuditBodyBytes), hlimit]
  have hparse : parsePrefix (body.take maxAuditBodyBytes ++ body.drop maxAuditBodyBytes) =
      some (strings items, after) := by rw [List.take_append_drop, h]
  have hfuel : (body.take maxAuditBodyBytes).length ≤ 2 * (body.take maxAuditBodyBytes).length := by omega
  obtain ⟨hclosed, hsummary⟩ | ⟨hopen, hbroken⟩ :=
    @stringArraySummary_cut "hashes" "hashCount" _ _ _ _ hparse _ hfuel (body.length ≤ maxAuditBodyBytes)
  · refine .inl ⟨hclosed, ?_⟩
    rw [hdetail, extractBlockHashes, hsummary]
    rfl
  · refine .inr ⟨hopen, ?_⟩
    rw [hdetail, extractBlockHashes]
    obtain ⟨-, hnothing⟩ | ⟨n, left, hstops, hsummary⟩ := hbroken
    · rw [hnothing]
      exact .inl rfl
    · rw [hsummary]
      by_cases hnone : (decide (body.length ≤ maxAuditBodyBytes) || decide (n = 0)) = true
      · rw [if_pos hnone]
        exact .inl rfl
      · have hpos : n ≠ 0 := fun h => hnone (by rw [h, decide_eq_true rfl, Bool.or_true])
        rw [if_neg hnone]
        exact .inr ⟨n, Nat.pos_of_ne_zero hpos, hstops.le, rfl⟩

theorem ne_append_atLeast (s : String) : s ≠ s ++ "AtLeast" := by
  intro h
  have hlength := congrArg String.length h
  rw [String.length_append, show "AtLeast".length = 7 from rfl] at hlength
  omega

/-- What is said of the part of an array that is seen, with fuel enough for it. If its bracket is there the count is
that of the array, and it is exact in no other case. Else the strings that are there as a whole are counted, no more
and no fewer, and nothing is said if there are none. The first few of them are shown, each cut to a text within the
limit. -/
theorem cut_summary_never_overstates {itemsField countField : String} {seen unseen after : Bytes} {items : List String}
    (h : parsePrefix (seen ++ unseen) = some (strings items, after)) {fuel : ℕ} (hfuel : seen.length ≤ fuel) :
    (unseen.length ≤ after.length → ∀ complete,
      stringArraySummary itemsField countField complete fuel seen = summaryOf itemsField countField items) ∧
    (after.length < unseen.length →
      (skipSpace seen = [] ∧ stringArraySummary itemsField countField false fuel seen = []) ∨
        ∃ n left, n ≤ items.length ∧ Stops after unseen 0 items n left ∧
          stringArraySummary itemsField countField false fuel seen =
            if n = 0 then [] else atLeast itemsField countField n items) ∧
    (∀ count rest, stringArraySummary itemsField countField false fuel seen = (countField, count) :: rest →
      unseen.length ≤ after.length) ∧
    ∀ s, Shown auditMaxValueBytes s (truncateUTF8 s auditMaxValueBytes) := by
  have hcut := @stringArraySummary_cut itemsField countField _ _ _ _ h _ hfuel
  have hbroken : after.length < unseen.length →
      (skipSpace seen = [] ∧ stringArraySummary itemsField countField false fuel seen = []) ∨
        ∃ n left, n ≤ items.length ∧ Stops after unseen 0 items n left ∧
          stringArraySummary itemsField countField false fuel seen =
            if n = 0 then [] else atLeast itemsField countField n items := by
    intro hopen
    obtain ⟨hclosed, -⟩ | ⟨-, hnothing | ⟨n, left, hstops, hsummary⟩⟩ := hcut false
    · exact absurd hclosed (Nat.not_le_of_lt hopen)
    · exact .inl hnothing
    · rw [Bool.false_or] at hsummary
      simp only [decide_eq_true_eq] at hsummary
      exact .inr ⟨n, left, hstops.le, hstops, hsummary⟩
  refine ⟨fun hclosed complete => ?_, hbroken, fun count rest hcount => ?_, shown_truncateUTF8 auditMaxValueBytes⟩
  · obtain ⟨-, hsummary⟩ | ⟨hopen, -⟩ := hcut complete
    · exact hsummary
    · exact absurd hclosed (Nat.not_le_of_lt hopen)
  · by_contra hopen
    obtain ⟨-, hnothing⟩ | ⟨n, left, -, -, hsummary⟩ := hbroken (Nat.lt_of_not_le hopen)
    · cases hnothing.symm.trans hcount
    · rw [hsummary] at hcount
      split at hcount
      · cases hcount
      · exact ne_append_atLeast countField (Prod.mk.inj (List.cons.inj hcount).1).1.symm

theorem cut_summary_second : ∃ n left, n ≤ 2 ∧ Stops [] (bytes "d\"]") 0 ["ab", "cd"] n left ∧
    stringArraySummary "hashes" "hashCount" false 18 (bytes "[\"ab\", \"c") =
      if n = 0 then [] else atLeast "hashes" "hashCount" n ["ab", "cd"] := by
  have htext : parsePrefix (bytes "[\"ab\", \"c" ++ bytes "d\"]") = some (strings ["ab", "cd"], []) := by
    decide +kernel
  have hbroken := (@cut_summary_never_overstates "hashes" "hashCount" _ _ _ _ htext 18 (by decide)).2.1 (by decide)
  exact hbroken.resolve_left fun h => absurd h.1 (by decide)

end GarageConsole.Audit
