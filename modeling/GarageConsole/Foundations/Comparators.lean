import Mathlib.Algebra.Order.Ring.Int
import Mathlib.Tactic.Linarith
import GarageConsole.Foundations.StableSort

/-! # Comparison functions

The sign of a comparison function tells which of two elements comes first. A consistent one is a comparison by a key,
and sorting with it is stable. Consistent functions are compared by a key (`on`), one after another (`thenBy`) and
backwards (`backwards`). Elements that have no key can be put behind the others (`last`, `sort_last`).
-/

namespace Foundations.StableSort

set_option autoImplicit false

abbrev Comparator (α : Type) := α → α → ℤ

namespace Comparator

variable {α β : Type}

structure Consistent (c : Comparator α) : Prop where
  swap : ∀ a b, c a b ≤ 0 ↔ 0 ≤ c b a
  trans : ∀ a b d, c a b ≤ 0 → c b d ≤ 0 → c a d ≤ 0

def le (c : Comparator α) (a b : α) : Bool := c a b ≤ 0

/-- The stable sort. -/
def sort (c : Comparator α) (l : List α) : List α := l.mergeSort c.le

def on (c : Comparator β) (f : α → β) : Comparator α := fun a b => c (f a) (f b)

/-- By `c`, and by `d` where `c` does not tell. -/
def thenBy (c d : Comparator α) : Comparator α := fun a b => if c a b = 0 then d a b else c a b

def backwards (c : Comparator α) : Comparator α := fun a b => -c a b

/-- The elements of `p` behind the others. -/
def last (p : α → Bool) (c : Comparator α) : Comparator α := fun a b =>
  if p a || p b then if p a = p b then 0 else if p a then 1 else -1 else c a b

def byNumber : Comparator ℤ := fun a b => a - b

def byOrder [LinearOrder α] : Comparator α := fun a b => if a < b then -1 else if b < a then 1 else 0

@[simp] theorem le_iff {c : Comparator α} {a b : α} : c.le a b = true ↔ c a b ≤ 0 := decide_eq_true_iff

theorem thenBy_le_iff {c d : Comparator α} {a b : α} :
    c.thenBy d a b ≤ 0 ↔ c a b < 0 ∨ c a b = 0 ∧ d a b ≤ 0 := by
  unfold thenBy
  split_ifs with h
  · simp [h]
  · simp only [h, false_and, or_false]
    omega

theorem mem_sort {c : Comparator α} {l : List α} {a : α} : a ∈ c.sort l ↔ a ∈ l := List.mem_mergeSort

theorem sort_perm (c : Comparator α) (l : List α) : (c.sort l).Perm l := List.mergeSort_perm l c.le

namespace Consistent

variable {c d : Comparator α}

theorem zero_iff (h : c.Consistent) {a b : α} : c a b = 0 ↔ c a b ≤ 0 ∧ c b a ≤ 0 := by
  have hab := h.swap a b
  have hba := h.swap b a
  omega

theorem symm (h : c.Consistent) {a b : α} (hab : c a b = 0) : c b a = 0 := by
  rw [h.zero_iff] at hab ⊢
  exact hab.symm

theorem comparison (h : c.Consistent) : Comparison c.le where
  trans a b d hab hbd := le_iff.mpr (h.trans a b d (le_iff.mp hab) (le_iff.mp hbd))
  total a b := by
    rw [Bool.or_eq_true, le_iff, le_iff, h.swap b a]
    exact le_total _ _

theorem alike_iff (h : c.Consistent) {a b : α} : alike c.le a b = true ↔ c a b = 0 := by
  rw [alike, Bool.and_eq_true, le_iff, le_iff, h.zero_iff]

theorem on {c : Comparator β} (h : c.Consistent) (f : α → β) : (c.on f).Consistent where
  swap a b := h.swap (f a) (f b)
  trans a b d := h.trans (f a) (f b) (f d)

theorem backwards (h : c.Consistent) : c.backwards.Consistent where
  swap a b := by
    have hba := h.swap b a
    simp only [Comparator.backwards]
    omega
  trans a b d hab hbd := by
    simp only [Comparator.backwards, Left.neg_nonpos_iff] at hab hbd ⊢
    rw [← h.swap] at hab hbd ⊢
    exact h.trans d b a hbd hab

theorem thenBy (hc : c.Consistent) (hd : d.Consistent) : (c.thenBy d).Consistent where
  swap a b := by
    have hcab := hc.swap a b
    have hcba := hc.swap b a
    have hdab := hd.swap a b
    simp only [Comparator.thenBy]
    split_ifs <;> omega
  trans a b e hab hbe := by
    rw [thenBy_le_iff] at hab hbe ⊢
    have hcab : c a b ≤ 0 := hab.elim le_of_lt fun h => h.1.le
    have hcbe : c b e ≤ 0 := hbe.elim le_of_lt fun h => h.1.le
    refine (lt_or_eq_of_le (hc.trans a b e hcab hcbe)).imp id fun hae => ⟨hae, ?_⟩
    -- between two that compare alike there is only what compares alike with them
    have hea := hc.symm hae
    have hcba : c b a ≤ 0 := hc.trans b e a hcbe hea.le
    have hceb : c e b ≤ 0 := hc.trans e a b hea.le hcab
    have hab0 := hc.zero_iff.mpr ⟨hcab, hcba⟩
    have hbe0 := hc.zero_iff.mpr ⟨hcbe, hceb⟩
    exact hd.trans a b e (hab.resolve_left hab0.not_lt).2 (hbe.resolve_left hbe0.not_lt).2

theorem pairwise_sort (h : c.Consistent) (l : List α) : (c.sort l).Pairwise fun a b => c a b ≤ 0 :=
  (h.comparison.sorted_mergeSort l).imp le_iff.mp

/-- Elements that compare alike keep their order. -/
theorem filter_sort (h : c.Consistent) (l : List α) (a : α) :
    ((c.sort l).filter fun b => c a b = 0) = l.filter fun b => c a b = 0 := by
  have hfilter : (fun b => decide (c a b = 0)) = alike c.le a := by
    funext b
    rw [Bool.eq_iff_iff, decide_eq_true_iff, h.alike_iff]
  rw [hfilter]
  exact h.comparison.filter_mergeSort l a

/-- Where no two elements compare alike, the sorted list depends on nothing but its elements. -/
theorem sort_eq_of_perm (h : c.Consistent) {l l' : List α} (hperm : l.Perm l')
    (hdistinct : ∀ a ∈ l, ∀ b ∈ l, c a b = 0 → a = b) : c.sort l = c.sort l' := by
  refine List.Perm.eq_of_pairwise ?_ (h.pairwise_sort l) (h.pairwise_sort l')
    ((c.sort_perm l).trans (hperm.trans (c.sort_perm l').symm))
  intro a b ha hb hab hba
  exact hdistinct a (mem_sort.mp ha) b (hperm.mem_iff.mpr (mem_sort.mp hb)) (h.zero_iff.mpr ⟨hab, hba⟩)

/-- Where no two elements compare alike, sorting backwards reverses the sorted list. -/
theorem sort_backwards (h : c.Consistent) {l : List α} (hdistinct : ∀ a ∈ l, ∀ b ∈ l, c a b = 0 → a = b) :
    c.backwards.sort l = (c.sort l).reverse := by
  refine List.Perm.eq_of_pairwise ?_ (h.backwards.pairwise_sort l) ?_
    ((c.backwards.sort_perm l).trans ((c.sort_perm l).symm.trans (List.reverse_perm _).symm))
  · intro a b ha hb hab hba
    have hmem : b ∈ l := mem_sort.mp (List.mem_reverse.mp hb)
    have hzero := h.backwards.zero_iff.mpr ⟨hab, hba⟩
    exact hdistinct a (mem_sort.mp ha) b hmem (neg_eq_zero.mp hzero)
  · rw [List.pairwise_reverse]
    refine (h.pairwise_sort l).imp fun {a b} hab => ?_
    have hswap := (h.swap a b).mp hab
    simpa [Comparator.backwards] using hswap

end Consistent

theorem consistent_byNumber : byNumber.Consistent where
  swap a b := by
    simp only [byNumber]
    omega
  trans a b d hab hbd := by
    simp only [byNumber] at hab hbd ⊢
    omega

theorem byOrder_le_iff [LinearOrder α] {a b : α} : byOrder a b ≤ 0 ↔ a ≤ b := by
  unfold byOrder
  split_ifs with hab hba
  · simp [hab.le]
  · simp [hba]
  · simp [not_lt.mp hba]

theorem consistent_byOrder [LinearOrder α] : (byOrder : Comparator α).Consistent where
  swap a b := by
    unfold byOrder
    rcases lt_trichotomy a b with hab | rfl | hba
    · simp [hab, hab.not_gt]
    · simp
    · simp [hba, hba.not_gt]
  trans a b d hab hbd := by
    rw [byOrder_le_iff] at hab hbd ⊢
    exact hab.trans hbd

theorem byOrder_eq_zero [LinearOrder α] {a b : α} : byOrder a b = 0 ↔ a = b := by
  rw [consistent_byOrder.zero_iff, byOrder_le_iff, byOrder_le_iff]
  exact ⟨fun h => le_antisymm h.1 h.2, fun h => ⟨h.le, h.ge⟩⟩

/-! ## Elements behind the others -/

section Last

variable {p : α → Bool} {c : Comparator α}

theorem last_of_neg {a b : α} (ha : p a = false) (hb : p b = false) : last p c a b = c a b := by
  simp [last, ha, hb]

theorem last_of_pos_pos {a b : α} (ha : p a = true) (hb : p b = true) : last p c a b = 0 := by simp [last, ha, hb]

theorem last_of_pos_neg {a b : α} (ha : p a = true) (hb : p b = false) : last p c a b = 1 := by simp [last, ha, hb]

theorem last_of_neg_pos {a b : α} (ha : p a = false) (hb : p b = true) : last p c a b = -1 := by simp [last, ha, hb]

/-- Only the others are compared. -/
theorem last_congr {c' : Comparator α} (h : ∀ a b, p a = false → p b = false → c a b = c' a b) :
    last p c = last p c' := by
  funext a b
  cases ha : p a <;> cases hb : p b
  · rw [last_of_neg ha hb, last_of_neg ha hb, h a b ha hb]
  · rw [last_of_neg_pos ha hb, last_of_neg_pos ha hb]
  · rw [last_of_pos_neg ha hb, last_of_pos_neg ha hb]
  · rw [last_of_pos_pos ha hb, last_of_pos_pos ha hb]

theorem Consistent.last (h : c.Consistent) : (last p c).Consistent where
  swap a b := by
    cases ha : p a <;> cases hb : p b
    · rw [last_of_neg ha hb, last_of_neg hb ha, h.swap]
    · rw [last_of_neg_pos ha hb, last_of_pos_neg hb ha]
      decide
    · rw [last_of_pos_neg ha hb, last_of_neg_pos hb ha]
      decide
    · rw [last_of_pos_pos ha hb, last_of_pos_pos hb ha]
  trans a b d hab hbd := by
    cases ha : p a <;> cases hd : p d
    · cases hb : p b
      · rw [last_of_neg ha hb] at hab
        rw [last_of_neg hb hd] at hbd
        rw [last_of_neg ha hd]
        exact h.trans a b d hab hbd
      · rw [last_of_pos_neg hb hd] at hbd
        exact absurd hbd (by decide)
    · rw [last_of_neg_pos ha hd]
      decide
    · cases hb : p b
      · rw [last_of_pos_neg ha hb] at hab
        exact absurd hab (by decide)
      · rw [last_of_pos_neg hb hd] at hbd
        exact absurd hbd (by decide)
    · rw [last_of_pos_pos ha hd]

/-- The others sorted, and then the elements of `p` in their order. -/
theorem sort_last (h : c.Consistent) (l : List α) :
    (last p c).sort l = c.sort (l.filter fun a => !p a) ++ l.filter p := by
  have hsome : ∀ a ∈ c.sort (l.filter fun a => !p a), p a = false := fun a ha => by
    simpa using (List.mem_filter.mp (mem_sort.mp ha)).2
  refine h.last.comparison.mergeSort_eq_of_alike ?_ fun x => ?_
  · refine List.pairwise_append.mpr ⟨?_, ?_, fun a ha b hb => ?_⟩
    · refine (h.pairwise_sort _).imp_of_mem fun {a b} ha hb hab => ?_
      rw [le_iff, last_of_neg (hsome a ha) (hsome b hb)]
      exact hab
    · refine List.pairwise_of_forall_mem_list fun a ha b hb => ?_
      rw [le_iff, last_of_pos_pos (List.mem_filter.mp ha).2 (List.mem_filter.mp hb).2]
    · rw [le_iff, last_of_neg_pos (hsome a ha) (List.mem_filter.mp hb).2]
      decide
  · have halike (a : α) : alike (last p c).le x a = decide (last p c x a = 0) := by
      rw [Bool.eq_iff_iff, h.last.alike_iff, decide_eq_true_iff]
    rw [List.filter_congr fun a _ => halike a, List.filter_congr (l := l) fun a _ => halike a, List.filter_append]
    cases hx : p x with
    | true =>
      -- only elements of `p` compare alike with one of them
      have hnone : (c.sort (l.filter fun a => !p a)).filter (fun a => last p c x a = 0) = [] := by
        refine List.filter_eq_nil_iff.mpr fun a ha => ?_
        rw [last_of_pos_neg hx (hsome a ha)]
        decide
      have hall : ∀ a ∈ l, (decide (last p c x a = 0) && p a) = decide (last p c x a = 0) := fun a _ => by
        cases ha : p a with
        | true => rw [Bool.and_true]
        | false =>
          rw [last_of_pos_neg hx ha]
          rfl
      rw [hnone, List.nil_append, List.filter_filter, List.filter_congr hall]
    | false =>
      have hnone : (l.filter p).filter (fun a => last p c x a = 0) = [] := by
        refine List.filter_eq_nil_iff.mpr fun a ha => ?_
        rw [last_of_neg_pos hx (List.mem_filter.mp ha).2]
        decide
      have hthose : ∀ a ∈ c.sort (l.filter fun a => !p a), decide (last p c x a = 0) = decide (c x a = 0) :=
        fun a ha => by rw [last_of_neg hx (hsome a ha)]
      have hall : ∀ a ∈ l, (decide (c x a = 0) && !p a) = decide (last p c x a = 0) := fun a _ => by
        cases ha : p a with
        | true =>
          rw [last_of_neg_pos hx ha]
          simp
        | false =>
          rw [last_of_neg hx ha]
          simp
      rw [hnone, List.append_nil, List.filter_congr hthose, h.filter_sort, List.filter_filter, List.filter_congr hall]

end Last

end Comparator

end Foundations.StableSort
