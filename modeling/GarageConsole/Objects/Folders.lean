import GarageConsole.Foundations.Path
import Mathlib.Logic.Function.Iterate

/-! # Folders of an object listing

The listing of a prefix links to the folders above it: `../` leads to `parentPrefix`, and the breadcrumb to
one folder for each segment of the prefix but the last. The breadcrumb leaves out empty segments, so that it
is right for the prefixes without them (`navigation_iff`).
-/

namespace GarageConsole.Objects

open Foundations Foundations.Text Foundations.Path

set_option autoImplicit false

structure Crumb where
  label : Bytes
  path : Bytes
  isLast : Bool

/-- The segments of `PrefixBreadcrumb`, the last of which is no link. -/
def crumbs (keyPrefix : Bytes) : List Crumb :=
  let segs := (segments keyPrefix).filter fun s => !s.isEmpty
  segs.zipIdx.map fun (seg, i) =>
    { label := seg, path := joined (segs.take (i + 1)) ++ [slash], isLast := i == segs.length - 1 }

/-- The targets of the links of `PrefixBreadcrumb`. -/
def breadcrumbTargets (keyPrefix : Bytes) : List Bytes :=
  if keyPrefix.isEmpty then []
  else [] :: ((crumbs keyPrefix).filter fun c => !c.isLast).map Crumb.path

/-- `prefix.replace(/\/$/, '')`. -/
def dropTrailingSlash (keyPrefix : Bytes) : Bytes :=
  if keyPrefix.getLast? = some slash then keyPrefix.dropLast else keyPrefix

def parentPrefix (keyPrefix : Bytes) : Bytes :=
  let segs := (segments (dropTrailingSlash keyPrefix)).dropLast
  if 0 < segs.length then joined segs ++ [slash] else []

/-- All targets that the page offers at a prefix: `../` is there unless the prefix is empty. -/
def navigationTargets (keyPrefix : Bytes) : List Bytes :=
  breadcrumbTargets keyPrefix ++ if keyPrefix.isEmpty then [] else [parentPrefix keyPrefix]

/-- A folder above the prefix. -/
def Ancestor (q p : Bytes) : Prop := q <+: p ∧ q ≠ p ∧ (q = [] ∨ q.getLast? = some slash)

structure NavigatesToAncestors (p : Bytes) : Prop where
  only : ∀ q ∈ navigationTargets p, Ancestor q p
  all : ∀ q, Ancestor q p → q ∈ breadcrumbTargets p
  ends : ∃ n, parentPrefix^[n] p = []

/-! ## Folders by their segments -/

/-- The folder of the given segments. -/
def folder (ss : List Bytes) : Bytes := ss.flatMap (· ++ [slash])

theorem folder_append (ss ts : List Bytes) : folder (ss ++ ts) = folder ss ++ folder ts := List.flatMap_append

theorem joined_append_slash {ss : List Bytes} (h : ss ≠ []) : joined ss ++ [slash] = folder ss := by
  rcases List.eq_nil_or_concat ss with rfl | ⟨us, u, rfl⟩
  · exact absurd rfl h
  · rw [List.concat_eq_append, joined_concat, folder, List.flatMap_append]
    simp

theorem segments_ne_nil (p : Bytes) : segments p ≠ [] := List.splitOn_ne_nil _ _

theorem folder_segments (p : Bytes) : folder (segments p) = p ++ [slash] := by
  rw [← joined_append_slash (segments_ne_nil p), joined_segments]

theorem segments_folder {ss : List Bytes} (h : ∀ s ∈ ss, slash ∉ s) : segments (folder ss) = ss ++ [[]] := by
  by_cases hne : ss = []
  · rw [hne]
    rfl
  · rw [← joined_append_slash hne, segments_append_slash, segments_joined h hne]

theorem folder_inj {ss ts : List Bytes} (hss : ∀ s ∈ ss, slash ∉ s) (hts : ∀ s ∈ ts, slash ∉ s)
    (h : folder ss = folder ts) : ss = ts := by
  have hsegments := congrArg segments h
  rw [segments_folder hss, segments_folder hts] at hsegments
  exact List.append_cancel_right hsegments

/-- The folders that a nonempty prefix names, the innermost last. -/
def names (p : Bytes) : List Bytes := segments (dropTrailingSlash p)

theorem slash_not_mem_names {p s : Bytes} (h : s ∈ names p) : slash ∉ s := slash_not_mem_of_mem_segments h

theorem names_ne_nil (p : Bytes) : names p ≠ [] := segments_ne_nil _

theorem getLast_folder {ss : List Bytes} (h : ss ≠ []) : (folder ss).getLast? = some slash := by
  rw [← joined_append_slash h, List.getLast?_append, List.getLast?_singleton, Option.some_or]

/-- A nonempty prefix either goes on after its last slash or ends with it. -/
theorem prefix_cases {p : Bytes} (hp : p ≠ []) :
    (∃ us s, names p = us ++ [s] ∧ s ≠ [] ∧ p = folder us ++ s ∧ segments p = names p) ∨
      (p = folder (names p) ∧ segments p = names p ++ [[]]) := by
  by_cases hlast : p.getLast? = some slash
  · right
    obtain ⟨q, rfl⟩ := List.getLast?_eq_some_iff.mp hlast
    have hnames : names (q ++ [slash]) = segments q := by
      rw [names, dropTrailingSlash, if_pos hlast, List.dropLast_concat]
    rw [hnames, segments_append_slash, folder_segments]
    exact ⟨rfl, rfl⟩
  · left
    have hnames : names p = segments p := by rw [names, dropTrailingSlash, if_neg hlast]
    rcases List.eq_nil_or_concat (segments p) with h | ⟨us, s, h⟩
    · exact absurd h (segments_ne_nil p)
    · rw [List.concat_eq_append] at h
      have hp' : p = folder us ++ s := by rw [← joined_segments p, h, joined_concat, folder]
      refine ⟨us, s, hnames.trans h, ?_, hp', hnames.symm⟩
      intro hs
      rw [hs, List.append_nil] at hp'
      by_cases hus : us = []
      · exact hp (by rw [hp', hus]; rfl)
      · exact hlast (by rw [hp', getLast_folder hus])

theorem names_prefix {p : Bytes} (hp : p ≠ []) : names p <+: segments p := by
  rcases prefix_cases hp with ⟨-, -, -, -, -, h⟩ | ⟨-, h⟩
  · exact h ▸ List.prefix_refl _
  · exact h ▸ List.prefix_append _ _

theorem append_take {p : Bytes} (hp : p ≠ []) {k : ℕ} (hk : k < (names p).length) :
    ∃ r, r ≠ [] ∧ p = folder ((names p).take k) ++ r := by
  rcases prefix_cases hp with ⟨us, s, hnames, hs, hp', -⟩ | ⟨hp', -⟩
  · rw [hnames, List.length_append, List.length_singleton] at hk
    refine ⟨folder (us.drop k) ++ s, by simp [hs], ?_⟩
    rw [hnames, List.take_append_of_le_length (by omega), ← List.append_assoc, ← folder_append,
      List.take_append_drop]
    exact hp'
  · refine ⟨folder ((names p).drop k), ?_, ?_⟩
    · intro h
      have hdrop : (names p).drop k ≠ [] := by
        intro hnil
        rw [List.drop_eq_nil_iff] at hnil
        omega
      have hlast := getLast_folder hdrop
      rw [h] at hlast
      cases hlast
    · rw [← folder_append, List.take_append_drop]
      exact hp'

/-- The folders above a prefix are those of its first segments, all but the last. -/
theorem ancestor_iff {p q : Bytes} (hp : p ≠ []) :
    Ancestor q p ↔ ∃ k < (names p).length, q = folder ((names p).take k) := by
  constructor
  · rintro ⟨⟨r, hr⟩, hne, rfl | hq⟩
    · exact ⟨0, List.length_pos_iff.mpr (names_ne_nil p), rfl⟩
    · obtain ⟨q', rfl⟩ := List.getLast?_eq_some_iff.mp hq
      have hsegments : segments p = segments q' ++ segments r := by
        rw [← hr, segments, List.append_assoc, List.singleton_append, List.splitOn_append_cons_self, segments, segments]
      have hlen := congrArg List.length hsegments
      rw [List.length_append] at hlen
      have hr0 : 0 < (segments r).length := List.length_pos_iff.mpr (segments_ne_nil r)
      have hk : (segments q').length < (names p).length := by
        rcases prefix_cases hp with ⟨-, -, -, -, -, h⟩ | ⟨hp', h⟩
        · rw [h] at hlen
          omega
        · rw [h, List.length_append, List.length_singleton] at hlen
          by_contra hge
          have hone : (segments q').length = (names p).length := by omega
          have hall := (List.append_inj (h.symm.trans hsegments) hone.symm).1
          exact hne (by rw [← folder_segments, ← hall, ← hp'])
      refine ⟨(segments q').length, hk, ?_⟩
      obtain ⟨t, ht⟩ := names_prefix hp
      rw [← folder_segments, ← List.take_append_of_le_length hk.le, ht, hsegments, List.take_left]
  · intro h
    obtain ⟨k, hk, hq⟩ := h
    obtain ⟨r, hr, hp'⟩ := append_take hp hk
    refine ⟨⟨r, by rw [hq, ← hp']⟩, ?_, ?_⟩
    · intro heq
      rw [← hq, heq] at hp'
      exact hr (List.self_eq_append_right.mp hp')
    · by_cases hnil : (names p).take k = []
      · exact .inl (by rw [hq, hnil]; rfl)
      · exact .inr (by rw [hq, getLast_folder hnil])

/-! ## The parent -/

theorem parentPrefix_eq (p : Bytes) : parentPrefix p = folder (names p).dropLast := by
  rw [parentPrefix, ← names]
  split
  · rename_i h
    exact joined_append_slash (List.ne_nil_of_length_pos h)
  · rename_i h
    rw [List.eq_nil_of_length_eq_zero (by omega : (names p).dropLast.length = 0)]
    rfl

/-- The parent is a folder above, the innermost one. -/
theorem parentPrefix_ancestor {p : Bytes} (hp : p ≠ []) : Ancestor (parentPrefix p) p := by
  refine (ancestor_iff hp).mpr ⟨(names p).length - 1, ?_, ?_⟩
  · have := List.length_pos_iff.mpr (names_ne_nil p)
    omega
  · rw [parentPrefix_eq, List.dropLast_eq_take]

theorem parentPrefix_iterate (p : Bytes) : ∃ n, parentPrefix^[n] p = [] := by
  induction hlen : p.length using Nat.strong_induction_on generalizing p with
  | _ len ih =>
    by_cases hp : p = []
    · exact ⟨0, hp⟩
    · have hanc := parentPrefix_ancestor hp
      have hlt : (parentPrefix p).length < len := by
        rw [← hlen]
        refine lt_of_le_of_ne hanc.1.length_le fun heq => hanc.2.1 ?_
        exact hanc.1.eq_of_length heq
      obtain ⟨n, hn⟩ := ih _ hlt _ rfl
      exact ⟨n + 1, hn⟩

/-! ## The breadcrumb -/

/-- The segments that the breadcrumb shows. -/
def shown (p : Bytes) : List Bytes := (segments p).filter fun s => !s.isEmpty

theorem mem_breadcrumbTargets {p q : Bytes} (hp : p ≠ []) : q ∈ breadcrumbTargets p ↔
    q = [] ∨ ∃ k, 0 < k ∧ k < (shown p).length ∧ q = folder ((shown p).take k) := by
  have hempty : ¬p.isEmpty = true := by simpa using hp
  rw [breadcrumbTargets, if_neg hempty, List.mem_cons, crumbs, ← shown]
  refine or_congr_right ?_
  simp only [List.mem_map, List.mem_filter, Prod.exists, List.mem_zipIdx_iff_getElem?, Bool.not_eq_true']
  have hpath {i : ℕ} (hi : i < (shown p).length) :
      joined ((shown p).take (i + 1)) ++ [slash] = folder ((shown p).take (i + 1)) := by
    refine joined_append_slash fun hnil => ?_
    rw [List.take_eq_nil_iff] at hnil
    rcases hnil with hnil | hnil
    · omega
    · rw [hnil, List.length_nil] at hi
      omega
  constructor
  · intro ⟨c, ⟨⟨seg, i, hseg, hc⟩, hlast⟩, hq⟩
    have hi : i < (shown p).length := (List.getElem?_eq_some_iff.mp hseg).1
    rw [← hc, beq_eq_false_iff_ne] at hlast
    rw [← hc] at hq
    exact ⟨i + 1, by omega, by omega, hq.symm.trans (hpath hi)⟩
  · intro ⟨k, hpos, hk, hq⟩
    have hi : k - 1 < (shown p).length := by omega
    have hk1 : k - 1 + 1 = k := by omega
    refine ⟨_, ⟨⟨_, k - 1, List.getElem?_eq_getElem hi, rfl⟩, ?_⟩, ?_⟩
    · rw [beq_eq_false_iff_ne]
      omega
    · rw [hq]
      exact (hpath hi).trans (by rw [hk1])

theorem shown_eq {p : Bytes} (hp : p ≠ []) : shown p = (names p).filter fun s => !s.isEmpty := by
  rcases prefix_cases hp with ⟨-, -, -, -, -, h⟩ | ⟨-, h⟩
  · rw [shown, h]
  · rw [shown, h, List.filter_append]
    simp

/-- The segments before the last one are not empty, or the prefix is the slash alone. -/
def PlainFolders (p : Bytes) : Prop := p = [slash] ∨ [] ∉ (segments p).dropLast

theorem plainFolders_iff {p : Bytes} (hp : p ≠ []) : PlainFolders p ↔ names p = [[]] ∨ [] ∉ names p := by
  rcases prefix_cases hp with ⟨us, s, hnames, hs, hp', h⟩ | ⟨hp', h⟩
  · rw [PlainFolders, h, hnames, List.dropLast_concat]
    have hlast (vs : List Bytes) : us ++ [s] ≠ vs ++ [[]] := fun heq => hs (List.append_singleton_inj.mp heq).2
    have hslash : p ≠ [slash] := by
      intro heq
      refine hlast [[]] ?_
      rw [← hnames, ← h, heq]
      rfl
    have hone : us ++ [s] ≠ [[]] := hlast []
    simp [hslash, hone, Ne.symm hs]
  · rw [PlainFolders, h, List.dropLast_concat]
    refine or_congr_left ⟨fun heq => ?_, fun heq => ?_⟩
    · rw [heq]
      rfl
    · rw [hp', heq]
      rfl

theorem folder_shown_inj {p : Bytes} (hp : p ≠ []) {k j : ℕ}
    (h : folder ((names p).take k) = folder ((shown p).take j)) : (names p).take k = (shown p).take j := by
  have hplain (l : List Bytes) (hl : l ⊆ names p) : ∀ s ∈ l, slash ∉ s := fun s hs => slash_not_mem_names (hl hs)
  have hshown : shown p ⊆ names p := by
    rw [shown_eq hp]
    exact List.filter_subset_self _
  exact folder_inj (hplain _ (List.take_subset k _)) (hplain _ fun _ hs => hshown (List.take_subset j _ hs)) h

/-- A breadcrumb with a link for each folder above leaves nothing out. -/
theorem names_plain {p : Bytes} (hp : p ≠ []) (hall : ∀ q, Ancestor q p → q ∈ breadcrumbTargets p) :
    names p = [[]] ∨ [] ∉ names p := by
  have hfolder {k : ℕ} (hk : k < (names p).length) :
      ∃ j, (j = 0 ∨ j < (shown p).length) ∧ (names p).take k = (shown p).take j := by
    have hmem := (mem_breadcrumbTargets hp).mp (hall _ ((ancestor_iff hp).mpr ⟨k, hk, rfl⟩))
    rcases hmem with h | ⟨j, -, hj, h⟩
    · exact ⟨0, .inl rfl, folder_shown_inj hp (by rw [h]; rfl)⟩
    · exact ⟨j, .inr hj, folder_shown_inj hp h⟩
  obtain ⟨ns, s, hnames⟩ : ∃ ns s, names p = ns ++ [s] := by
    rcases List.eq_nil_or_concat (names p) with h | ⟨ns, s, h⟩
    · exact absurd h (names_ne_nil p)
    · exact ⟨ns, s, by rw [h, List.concat_eq_append]⟩
  obtain ⟨j, hj, htake⟩ := hfolder (k := ns.length) (by rw [hnames]; simp)
  rw [hnames, List.take_left] at htake
  have hshown_ne : ∀ t ∈ shown p, t ≠ [] := by
    intro t ht
    simpa using (List.mem_filter.mp ht).2
  have hns : [] ∉ ns := fun h => hshown_ne [] (List.take_subset j _ (htake ▸ h)) rfl
  by_cases hs : s = []
  · -- the folders that are shown are those of `ns`, and the last of them has no link
    have hfilter : shown p = ns := by
      rw [shown_eq hp, hnames, hs, List.filter_append, List.filter_eq_self.mpr]
      · simp
      · intro t ht
        have : t ≠ [] := fun heq => hns (heq ▸ ht)
        simpa using this
    rw [hfilter] at hj htake
    have hlen := congrArg List.length htake
    rw [List.length_take] at hlen
    have hnil : ns = [] := List.eq_nil_of_length_eq_zero (by omega)
    exact .inl (by rw [hnames, hs, hnil]; rfl)
  · right
    rw [hnames, List.mem_append, List.mem_singleton, not_or]
    exact ⟨hns, fun h => hs h.symm⟩

theorem breadcrumb_exact {p : Bytes} (hp : p ≠ []) (h : names p = [[]] ∨ [] ∉ names p) (q : Bytes) :
    q ∈ breadcrumbTargets p ↔ Ancestor q p := by
  rw [mem_breadcrumbTargets hp, ancestor_iff hp]
  rcases h with h | h
  · have hshown : shown p = [] := by rw [shown_eq hp, h]; rfl
    rw [hshown, h]
    constructor
    · intro hq
      rcases hq with hq | ⟨k, -, hk, -⟩
      · exact ⟨0, Nat.one_pos, hq⟩
      · exact absurd hk (Nat.not_lt_zero k)
    · intro ⟨k, hk, hq⟩
      obtain rfl : k = 0 := Nat.lt_one_iff.mp hk
      exact .inl hq
  · have hshown : shown p = names p := by
      rw [shown_eq hp, List.filter_eq_self]
      intro s hs
      have : s ≠ [] := fun heq => h (heq ▸ hs)
      simpa using this
    rw [hshown]
    constructor
    · intro hq
      rcases hq with hq | ⟨k, -, hk, hq⟩
      · exact ⟨0, List.length_pos_iff.mpr (names_ne_nil p), hq⟩
      · exact ⟨k, hk, hq⟩
    · intro ⟨k, hk, hq⟩
      rcases Nat.eq_zero_or_pos k with rfl | hpos
      · exact .inl hq
      · exact .inr ⟨k, hpos, hk, hq⟩

/-- **The folders above a prefix are the ones that the page links to, exactly where no segment before the last
is empty.** -/
theorem navigation_iff (p : Bytes) : NavigatesToAncestors p ↔ PlainFolders p := by
  by_cases hp : p = []
  · rw [hp]
    have hanc (q : Bytes) : ¬Ancestor q [] := fun h => h.2.1 (List.prefix_nil.mp h.1)
    refine ⟨fun _ => .inr (by simp [segments]), fun _ => ⟨?_, fun q hq => absurd hq (hanc q), ⟨0, rfl⟩⟩⟩
    intro q hq
    exact absurd hq List.not_mem_nil
  · rw [plainFolders_iff hp]
    constructor
    · exact fun h => names_plain hp h.all
    · intro h
      refine ⟨?_, fun q => (breadcrumb_exact hp h q).mpr, parentPrefix_iterate p⟩
      intro q hq
      have hempty : ¬p.isEmpty = true := by simpa using hp
      rw [navigationTargets, if_neg hempty, List.mem_append, List.mem_singleton] at hq
      rcases hq with hq | rfl
      · exact (breadcrumb_exact hp h q).mp hq
      · exact parentPrefix_ancestor hp

/-- From `a//b/c/` the breadcrumb leads to `a/b/`, which is another folder. -/
theorem breadcrumb_leads_elsewhere : ¬NavigatesToAncestors (bytes "a//b/c/") := by
  intro h
  have hanc := h.only (bytes "a/b/") (by decide +kernel)
  exact absurd hanc.1 (by decide +kernel)

end GarageConsole.Objects
