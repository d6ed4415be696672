import GarageConsole.Foundations.Ascii
import GarageConsole.Foundations.Fresh
import GarageConsole.Foundations.Path

/-! # The names of a ZIP archive's entries

`sanitizeZipEntryName` turns an object's key into a name that stays below the directory an archive is
unpacked in, and `unique` numbers a name that was already given away. The names that come out are made of
`SafeSegments`, also after numbering.
-/

namespace GarageConsole.Objects

open Foundations Foundations.Text Foundations.Path

set_option autoImplicit false

def backslash : UInt8 := 0x5C

/-- The characters kept in a segment: not the control characters of ASCII. -/
def keepRune (c : Char) : Bool := 0x20 ≤ c.toNat && c.toNat ≠ 0x7F

/-- A segment without control characters; what is not UTF-8 becomes U+FFFD. -/
def cleanSegment (seg : Bytes) : Bytes :=
  ((decodeRunes seg.length seg).filter keepRune).flatMap String.utf8EncodeChar

def isDriveLetter (b : UInt8) : Bool := (0x41 ≤ b && b ≤ 0x5A) || (0x61 ≤ b && b ≤ 0x7A)

def drivePrefixed : Bytes → Bool
  | a :: b :: _ => b = 0x3A && isDriveLetter a
  | _ => false

def neutralizeDrive : List Bytes → List Bytes
  | [] => []
  | first :: segs => (if drivePrefixed first then first.take 1 ++ [0x5F] ++ first.drop 2 else first) :: segs

def endsWithSlash (name : Bytes) : Bool := name.getLast? = some slash

/-- `strings.TrimSuffix(name, "/")` -/
def trimSlash (name : Bytes) : Bytes := if endsWithSlash name then name.dropLast else name

def sanitizeZipEntryName (key : Bytes) : Bytes :=
  let key := key.map fun b => if b = backslash then slash else b
  let segs := ((segments key).map cleanSegment).filter fun s => s ≠ [] ∧ s ≠ dot ∧ s ≠ dotdot
  if segs = [] then []
  else
    let name := joined (neutralizeDrive segs)
    if endsWithSlash key then name ++ [slash] else name

/-- The stem and the extension of a file name; a dotfile is all stem. -/
def stemAndExt (base : Bytes) : Bytes × Bytes :=
  let e := ext base
  let stem := base.take (base.length - e.length)
  if stem = [] then (base, []) else (stem, e)

/-- The name with ` (i)` before its extension. -/
def numbered (name : Bytes) (i : ℕ) : Bytes :=
  let p := split name
  let q := stemAndExt p.2
  p.1 ++ (q.1 ++ (bytes " (" ++ (decimal i ++ (bytes ")" ++ q.2))))

/-- The names used with the directory's, and whether it is new. -/
def claimDir (used : List Bytes) (name : Bytes) : List Bytes × Bool :=
  if name ∈ used then (used, false) else (used ++ [name], true)

/-- The name itself, or the first numbered one that is not used. -/
def unique (used : List Bytes) (name : Bytes) : Bytes :=
  if name ∉ used then name else Fresh.firstFresh (numbered name) used 1

/-! ## Fresh names -/

theorem numbered_injective (name : Bytes) : Function.Injective (numbered name) := by
  intro i j h
  have hrest := List.append_cancel_left (List.append_cancel_left (List.append_cancel_left h))
  exact decimal_injective (List.append_cancel_right hrest)

theorem unique_spec (used : List Bytes) (name : Bytes) :
    unique used name ∉ used ∧ (unique used name = name ∨ ∃ i, 1 ≤ i ∧ unique used name = numbered name i) := by
  rw [unique]
  split_ifs with hused
  · obtain ⟨i, hi, heq, hfresh, -⟩ := Fresh.firstFresh_spec (numbered_injective name) used 1
    rw [heq]
    exact ⟨hfresh, .inr ⟨i, hi, rfl⟩⟩
  · exact ⟨hused, .inl rfl⟩

/-! ## Safe segments -/

/-- A byte of no control character and no separator of Windows. -/
def Visible (b : UInt8) : Prop := 0x20 ≤ b.toNat ∧ b.toNat ≠ 0x7F ∧ b ≠ backslash

instance : DecidablePred Visible := fun b =>
  inferInstanceAs (Decidable (0x20 ≤ b.toNat ∧ b.toNat ≠ 0x7F ∧ b ≠ backslash))

theorem visible_of_all {s : Bytes} (h : (s.all fun b => decide (Visible b)) = true) : ∀ b ∈ s, Visible b := by
  intro b hb
  exact of_decide_eq_true (List.all_eq_true.mp h b hb)

structure SafeSegment (s : Bytes) : Prop where
  plain : Plain s
  visible : ∀ b ∈ s, Visible b
  slashless : slash ∉ s

/-- The segments of a name that stays where it is unpacked. -/
structure SafeSegments (ss : List Bytes) : Prop where
  nonempty : ss ≠ []
  each : ∀ s ∈ ss, SafeSegment s
  driveless : drivePrefixed (ss.headD []) = false

theorem cleanSegment_visible {seg : Bytes} (hslash : slash ∉ seg) (hback : backslash ∉ seg) :
    ∀ b ∈ cleanSegment seg, Visible b ∧ b ≠ slash := by
  intro b hb
  obtain ⟨c, hc, hbc⟩ := List.mem_flatMap.mp hb
  obtain ⟨hrune, hkeep⟩ := List.mem_filter.mp hc
  rw [keepRune, Bool.and_eq_true, decide_eq_true_eq, decide_eq_true_eq] at hkeep
  have hbyte := mem_utf8EncodeChar hbc
  -- an ASCII byte of the result is a byte of the segment
  have hold : b.toNat < 128 → b ∈ seg := by
    intro hascii
    rcases mem_decodeRunes hrune with hzero | hlarge | ⟨b', hb', heq⟩
    · omega
    · omega
    · have : b = b' := UInt8.toNat_inj.mp (by omega)
      rwa [this]
  refine ⟨⟨by omega, by omega, ?_⟩, ?_⟩
  · rintro rfl
    exact hback (hold (by decide))
  · rintro rfl
    exact hslash (hold (by decide))

theorem neutralizeDrive_safe {segs : List Bytes} (hne : segs ≠ []) (heach : ∀ s ∈ segs, SafeSegment s) :
    SafeSegments (neutralizeDrive segs) := by
  cases segs with
  | nil => exact absurd rfl hne
  | cons first segs =>
    rw [List.forall_mem_cons] at heach
    rw [neutralizeDrive]
    split_ifs with hdrive
    · match first, hdrive with
      | a :: b :: rest, hdrive =>
        change SafeSegments ((a :: 0x5F :: rest) :: segs)
        refine ⟨List.cons_ne_nil _ _, List.forall_mem_cons.mpr ⟨?_, heach.2⟩, rfl⟩
        obtain ⟨hvisible, hslash⟩ := And.intro heach.1.visible heach.1.slashless
        rw [List.forall_mem_cons, List.forall_mem_cons] at hvisible
        simp only [List.mem_cons, not_or] at hslash
        refine ⟨⟨List.cons_ne_nil _ _, ?_, ?_⟩, ?_, ?_⟩
        · intro h
          cases h
        · intro h
          cases h
        · rw [List.forall_mem_cons, List.forall_mem_cons]
          exact ⟨hvisible.1, by decide, hvisible.2.2⟩
        · simp only [List.mem_cons, not_or]
          exact ⟨hslash.1, by decide, hslash.2.2⟩
    · exact ⟨List.cons_ne_nil _ _, List.forall_mem_cons.mpr heach, Bool.eq_false_iff.mpr hdrive⟩

/-- What is left of a key: nothing, or the segments of a name, perhaps of a directory. -/
theorem sanitizeZipEntryName_spec (key : Bytes) : sanitizeZipEntryName key = [] ∨ ∃ ss, SafeSegments ss ∧
    (sanitizeZipEntryName key = joined ss ∨ sanitizeZipEntryName key = joined ss ++ [slash]) := by
  rw [sanitizeZipEntryName]
  dsimp only
  split_ifs with hempty hdir
  · exact .inl rfl
  all_goals
    right
    refine ⟨_, neutralizeDrive_safe hempty ?_, by simp⟩
    intro s hs
    obtain ⟨hs, hplain⟩ := List.mem_filter.mp hs
    rw [decide_eq_true_eq] at hplain
    obtain ⟨seg, hseg, rfl⟩ := List.mem_map.mp hs
    have hslash := slash_not_mem_of_mem_segments hseg
    have hback : backslash ∉ seg := by
      intro hmem
      obtain ⟨b, -, hb⟩ := List.mem_map.mp (mem_of_mem_segments hseg hmem)
      split_ifs at hb with hb'
      · exact absurd hb (by decide)
      · exact hb' hb
    have hclean := cleanSegment_visible hslash hback
    exact ⟨hplain, fun b hb => (hclean b hb).1, fun hmem => (hclean slash hmem).2 rfl⟩

/-! ## Numbering keeps names safe -/

theorem stemAndExt_spec {base : Bytes} (hslash : slash ∉ base) (hne : base ≠ []) :
    (stemAndExt base).1 ++ (stemAndExt base).2 = base ∧ (stemAndExt base).1 ≠ [] := by
  obtain ⟨stem, hbase⟩ := ext_suffix hslash
  have hstem : base.take (base.length - (ext base).length) = stem := by
    have hlength := congrArg List.length hbase
    rw [List.length_append] at hlength
    rw [← hlength, Nat.add_sub_cancel]
    calc base.take stem.length = (stem ++ ext base).take stem.length := by rw [hbase]
      _ = stem := List.take_left
  rw [stemAndExt, hstem]
  split_ifs with hempty
  · exact ⟨List.append_nil base, hne⟩
  · exact ⟨hbase, hempty⟩

/-- What is put between a stem and its extension. -/
def mark (i : ℕ) : Bytes := bytes " (" ++ (decimal i ++ bytes ")")

theorem numbered_joined_concat {ss : List Bytes} {base : Bytes} (hslash : slash ∉ base) (i : ℕ) :
    numbered (joined (ss ++ [base])) i = joined (ss ++ [(stemAndExt base).1 ++ (mark i ++ (stemAndExt base).2)]) := by
  rw [numbered, split_joined_concat hslash, joined_concat, mark]
  simp only [List.append_assoc]

theorem mem_mark {i : ℕ} {b : UInt8} (h : b ∈ mark i) : Visible b ∧ b ≠ slash := by
  rcases List.mem_append.mp h with h | h
  · have hopen : slash ∉ bytes " (" := by decide
    exact ⟨visible_of_all (by decide) b h, fun heq => hopen (heq ▸ h)⟩
  · rcases List.mem_append.mp h with h | h
    · have hdigit := digit_of_mem_decimal h
      refine ⟨⟨by omega, by omega, ?_⟩, ?_⟩
      · rintro rfl
        exact absurd hdigit (by decide)
      · rintro rfl
        exact absurd hdigit (by decide)
    · have hclose : slash ∉ bytes ")" := by decide
      exact ⟨visible_of_all (by decide) b h, fun heq => hclose (heq ▸ h)⟩

theorem three_le_length_mark (i : ℕ) : 3 ≤ (mark i).length := by
  have hopen : (bytes " (").length = 2 := by decide
  have hclose : (bytes ")").length = 1 := by decide
  rw [mark, List.length_append, List.length_append, hopen, hclose]
  omega

theorem safeSegment_mark {base : Bytes} (h : SafeSegment base) (i : ℕ) :
    SafeSegment ((stemAndExt base).1 ++ (mark i ++ (stemAndExt base).2)) := by
  obtain ⟨hbase, -⟩ := stemAndExt_spec h.slashless h.plain.1
  have hmem : ∀ b ∈ (stemAndExt base).1 ++ (mark i ++ (stemAndExt base).2), Visible b ∧ b ≠ slash := by
    have hold : ∀ b ∈ base, Visible b ∧ b ≠ slash := fun b hb =>
      ⟨h.visible b hb, fun heq => h.slashless (heq ▸ hb)⟩
    intro b hb
    rcases List.mem_append.mp hb with hb | hb
    · exact hold b (hbase ▸ List.mem_append_left _ hb)
    · rcases List.mem_append.mp hb with hb | hb
      · exact mem_mark hb
      · exact hold b (hbase ▸ List.mem_append_right _ hb)
  have hlength : 3 ≤ ((stemAndExt base).1 ++ (mark i ++ (stemAndExt base).2)).length := by
    have hmark := three_le_length_mark i
    rw [List.length_append, List.length_append]
    omega
  have hlong : ∀ t : Bytes, t.length < 3 → (stemAndExt base).1 ++ (mark i ++ (stemAndExt base).2) ≠ t := by
    intro t ht heq
    rw [heq] at hlength
    omega
  exact ⟨⟨hlong [] (by decide), hlong dot (by decide), hlong dotdot (by decide)⟩, fun b hb => (hmem b hb).1,
    fun hb => (hmem slash hb).2 rfl⟩

theorem drivePrefixed_mark {base : Bytes} (h : SafeSegment base) (hdrive : drivePrefixed base = false) (i : ℕ) :
    drivePrefixed ((stemAndExt base).1 ++ (mark i ++ (stemAndExt base).2)) = false := by
  obtain ⟨hbase, hne⟩ := stemAndExt_spec h.slashless h.plain.1
  match hstem : (stemAndExt base).1, hne with
  | [a], _ => rfl
  | a :: b :: rest, _ =>
    rw [hstem] at hbase
    rw [← hbase] at hdrive
    exact hdrive

theorem numbered_safe {ss : List Bytes} (h : SafeSegments ss) (i : ℕ) :
    ∃ ss', SafeSegments ss' ∧ numbered (joined ss) i = joined ss' := by
  obtain ⟨init, base, rfl⟩ := (List.eq_nil_or_concat ss).resolve_left h.nonempty
  rw [List.concat_eq_append] at h ⊢
  have hbase := h.each base (List.mem_append_right _ (List.mem_singleton_self base))
  refine ⟨_, ⟨?_, ?_, ?_⟩, numbered_joined_concat hbase.slashless i⟩
  · simp
  · rw [List.forall_mem_append, List.forall_mem_singleton]
    exact ⟨fun s hs => h.each s (List.mem_append_left _ hs), safeSegment_mark hbase i⟩
  · have hdrive := h.driveless
    cases init with
    | nil => exact drivePrefixed_mark hbase hdrive i
    | cons first init => exact hdrive

theorem unique_safe {ss : List Bytes} (h : SafeSegments ss) (used : List Bytes) :
    ∃ ss', SafeSegments ss' ∧ unique used (joined ss) = joined ss' := by
  rcases (unique_spec used (joined ss)).2 with heq | ⟨i, -, heq⟩
  · exact ⟨ss, h, heq⟩
  · rw [heq]
    exact numbered_safe h i

/-! ## Names of entries -/

/-- A name of an entry that stays below the directory it is unpacked in. The slash at the end of a directory
ends no segment. -/
structure SafeEntryName (name : Bytes) : Prop where
  relative : name.head? ≠ some slash
  segments : ∀ s ∈ segments (trimSlash name), Plain s
  visible : ∀ b ∈ name, Visible b
  driveless : drivePrefixed ((Path.segments name).headD []) = false

/-- The name an object is stored under: not that of a directory, and not empty. -/
def fileName (name : Bytes) : Bytes := if trimSlash name = [] then bytes "unnamed" else trimSlash name

section Joined

variable {ss : List Bytes}

theorem SafeSegments.slashless (h : SafeSegments ss) : ∀ s ∈ ss, slash ∉ s := fun s hs => (h.each s hs).slashless

theorem SafeSegments.joined_ne_nil (h : SafeSegments ss) : joined ss ≠ [] := by
  obtain ⟨s, ss, rfl⟩ := List.exists_cons_of_ne_nil h.nonempty
  have hs := (h.each s List.mem_cons_self).plain.1
  intro hnil
  obtain ⟨b, s, rfl⟩ := List.exists_cons_of_ne_nil hs
  have hmem := mem_joined_of_mem (List.mem_cons_self (a := b)) (List.mem_cons_self (a := b :: s) (l := ss))
  rw [hnil] at hmem
  exact List.not_mem_nil hmem

theorem SafeSegments.endsWithSlash_joined (h : SafeSegments ss) : endsWithSlash (joined ss) = false := by
  obtain ⟨init, base, rfl⟩ := (List.eq_nil_or_concat ss).resolve_left h.nonempty
  rw [List.concat_eq_append] at h ⊢
  have hbase := h.each base (List.mem_append_right _ (List.mem_singleton_self base))
  rw [endsWithSlash, joined_concat, List.getLast?_append_of_ne_nil _ hbase.plain.1, decide_eq_false_iff_not]
  intro hlast
  exact hbase.slashless (List.mem_of_getLast? hlast)

theorem endsWithSlash_append (name : Bytes) : endsWithSlash (name ++ [slash]) = true := by
  simp [endsWithSlash]

theorem trimSlash_append (name : Bytes) : trimSlash (name ++ [slash]) = name := by
  rw [trimSlash, if_pos (endsWithSlash_append name), List.dropLast_concat]

theorem SafeSegments.trimSlash_joined (h : SafeSegments ss) : trimSlash (joined ss) = joined ss := by
  rw [trimSlash, h.endsWithSlash_joined]
  rfl

theorem SafeSegments.file (h : SafeSegments ss) : SafeEntryName (joined ss) where
  relative := by
    obtain ⟨b, rest, hname⟩ := List.exists_cons_of_ne_nil h.joined_ne_nil
    have hsegments := segments_joined h.slashless h.nonempty
    rw [hname]
    intro hb
    rw [List.head?_cons, Option.some.injEq] at hb
    -- the segment before a slash at the start would be empty
    rw [hname, hb, segments_slash_cons] at hsegments
    have hempty : [] ∈ ss := hsegments ▸ List.mem_cons_self
    exact (h.each [] hempty).plain.1 rfl
  segments := by
    rw [h.trimSlash_joined, segments_joined h.slashless h.nonempty]
    exact fun s hs => (h.each s hs).plain
  visible := by
    intro b hb
    rcases mem_joined hb with rfl | ⟨s, hs, hb⟩
    · decide
    · exact (h.each s hs).visible b hb
  driveless := by
    rw [segments_joined h.slashless h.nonempty]
    exact h.driveless

theorem SafeSegments.directory (h : SafeSegments ss) : SafeEntryName (joined ss ++ [slash]) where
  relative := by
    rw [List.head?_append_of_ne_nil _ h.joined_ne_nil]
    exact h.file.relative
  segments := by
    rw [trimSlash_append, segments_joined h.slashless h.nonempty]
    exact fun s hs => (h.each s hs).plain
  visible := by
    rw [List.forall_mem_append, List.forall_mem_singleton]
    exact ⟨h.file.visible, by decide⟩
  driveless := by
    obtain ⟨s, ss, rfl⟩ := List.exists_cons_of_ne_nil h.nonempty
    rw [segments_append_slash, segments_joined h.slashless h.nonempty]
    exact h.driveless

end Joined

theorem safeSegments_singleton {s : Bytes} (h : SafeSegment s) (hdrive : drivePrefixed s = false) : SafeSegments [s] :=
  ⟨List.cons_ne_nil _ _, List.forall_mem_singleton.mpr h, hdrive⟩

theorem unnamed_safe : SafeSegments [bytes "unnamed"] :=
  safeSegments_singleton ⟨by unfold Plain; decide, visible_of_all (by decide), by decide⟩ (by decide)

theorem fileName_safe (key : Bytes) : ∃ ss, SafeSegments ss ∧ fileName (sanitizeZipEntryName key) = joined ss := by
  rcases sanitizeZipEntryName_spec key with hnone | ⟨ss, hss, hname | hname⟩
  · refine ⟨_, unnamed_safe, ?_⟩
    rw [hnone]
    rfl
  · refine ⟨ss, hss, ?_⟩
    rw [fileName, hname, hss.trimSlash_joined, if_neg hss.joined_ne_nil]
  · refine ⟨ss, hss, ?_⟩
    rw [fileName, hname, trimSlash_append, if_neg hss.joined_ne_nil]

/-- The name of a directory is that of a key ending in a slash. -/
theorem directory_safe {key : Bytes} (h : endsWithSlash (sanitizeZipEntryName key) = true) :
    SafeEntryName (sanitizeZipEntryName key) := by
  rcases sanitizeZipEntryName_spec key with hnone | ⟨ss, hss, hname | hname⟩
  · rw [hnone] at h
    cases h
  · rw [hname, hss.endsWithSlash_joined] at h
    cases h
  · rw [hname]
    exact hss.directory

end GarageConsole.Objects
