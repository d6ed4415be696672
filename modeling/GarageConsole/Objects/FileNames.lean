import Mathlib.Data.List.Flatten
import GarageConsole.Foundations.Escapes
import GarageConsole.Foundations.Utf8

/-! # The file names of downloads

`zipFilename` names the archive of a batch download after the name that the client sent or after the bucket,
and `attachmentDisposition` writes a file name into a `Content-Disposition` header: once in ASCII for old
readers, once percent-encoded in `filename*`. `NamesFile` is what a reader of the header relies on.
-/

namespace GarageConsole.Objects

open Foundations Foundations.Text Foundations.Path Foundations.Url

set_option autoImplicit false

def quote : UInt8 := 0x22

def underscore : UInt8 := 0x5F

/-- The characters of the client's name that stay in the archive's name. -/
def keepInName (r : Char) : Option Char :=
  if r = '/' ∨ r = '\\' ∨ r.toNat < 0x20 ∨ r.toNat = 0x7F then none else some r

def zipFilename (bucket name : Bytes) : Bytes :=
  let name := mapRunes keepInName name
  let name := if name.length > 128 then name.take 128 else name
  let name := if name = [] ∨ name = dot ∨ name = dotdot then bucket else name
  name ++ bytes "-files.zip"

/-- `attr-char` of RFC 8187. -/
def isAttrChar (c : UInt8) : Bool :=
  (0x61 ≤ c && c ≤ 0x7A) || (0x41 ≤ c && c ≤ 0x5A) || (0x30 ≤ c && c ≤ 0x39) ||
    c ∈ [0x21, 0x23, 0x24, 0x26, 0x2B, 0x2D, 0x2E, 0x5E, 0x5F, 0x60, 0x7C, 0x7E]

def rfc8187Escape (s : Bytes) : Bytes := percentEncode isAttrChar s

/-- One character of the ASCII fallback. -/
def asciiRune (r : Char) : Bytes :=
  if r = '"' ∨ r = '\\' then [underscore]
  else if r.toNat < 0x20 ∨ r.toNat = 0x7F then []
  else if r.toNat > 0x7E then [underscore]
  else [UInt8.ofNat r.toNat]

def dispositionHeader (fallback value : Bytes) : Bytes :=
  bytes "attachment; filename=\"" ++ (fallback ++ (quote :: bytes "; filename*=UTF-8''" ++ value))

def attachmentDisposition (name : Bytes) : Bytes :=
  let name := if name = [] ∨ name = dot ∨ name = [slash] then bytes "download" else name
  let ascii := (runes name).flatMap asciiRune
  let fallback := if ascii = [] then bytes "download" else ascii
  dispositionHeader fallback (rfc8187Escape name)

example : attachmentDisposition (bytes "a\"b.txt") =
    bytes "attachment; filename=\"a_b.txt\"; filename*=UTF-8''a%22b.txt" := by decide +kernel
example : zipFilename (bytes "611e4978") (bytes "../../evil") = bytes "....evil-files.zip" := by decide +kernel

/-! ## Headers that name a file -/

def FallbackByte (b : UInt8) : Prop := 0x20 ≤ b.toNat ∧ b.toNat ≤ 0x7E ∧ b ≠ quote ∧ b ≠ 0x5C

instance (b : UInt8) : Decidable (FallbackByte b) := inferInstanceAs (Decidable (_ ∧ _))

/-- The header names the file `fileName`, with `fallback` for readers of ASCII. -/
structure NamesFile (header fileName fallback value : Bytes) : Prop where
  header_eq : header = dispositionHeader fallback value
  fallback_ne : fallback ≠ []
  fallback_bytes : ∀ b ∈ fallback, FallbackByte b
  value_encoded : Encoded isAttrChar value
  value_decodes : unescape value = some fileName

theorem asciiRune_bytes (r : Char) : ∀ b ∈ asciiRune r, FallbackByte b := by
  intro b hb
  have hunderscore : FallbackByte underscore := by
    refine ⟨?_, ?_, ?_, ?_⟩ <;> decide
  unfold asciiRune at hb
  split_ifs at hb with hquoted hcontrol hlarge
  · exact List.mem_singleton.mp hb ▸ hunderscore
  · exact absurd hb List.not_mem_nil
  · exact List.mem_singleton.mp hb ▸ hunderscore
  · obtain rfl := List.mem_singleton.mp hb
    have hnat := toNat_ofNat_byte (n := r.toNat) (by omega)
    have hne : ∀ c : Char, c.toNat < 0x80 → UInt8.ofNat r.toNat = UInt8.ofNat c.toNat → r = c := by
      intro c hc heq
      have hsame := congrArg UInt8.toNat heq
      rw [hnat, toNat_ofNat_byte (by omega)] at hsame
      exact Char.toNat_inj.mp hsame
    refine ⟨by omega, by omega, fun heq => hquoted (.inl (hne '"' (by decide) heq)),
      fun heq => hquoted (.inr (hne '\\' (by decide) heq))⟩

theorem fallbackByte_download : ∀ b ∈ bytes "download", FallbackByte b := by
  have hall : (bytes "download").all (fun b => decide (FallbackByte b)) = true := by decide
  simpa using hall

/-- A header names at most one file. -/
theorem NamesFile.unique {header shown shown' fallback fallback' value value' : Bytes}
    (h : NamesFile header shown fallback value) (h' : NamesFile header shown' fallback' value') : shown = shown' := by
  have hnone : ∀ {l : Bytes}, (∀ b ∈ l, FallbackByte b) → quote ∉ l := fun hl hmem => (hl quote hmem).2.2.1 rfl
  have heq := List.append_cancel_left (h.header_eq.symm.trans h'.header_eq)
  -- the fallback ends at the first quote
  have hfallback := congrArg (List.takeWhile (· ≠ quote)) heq
  rw [List.cons_append, List.cons_append, takeWhile_ne_append_cons (hnone h.fallback_bytes),
    takeWhile_ne_append_cons (hnone h'.fallback_bytes)] at hfallback
  rw [hfallback] at heq
  have hvalue : value = value' := List.append_cancel_left (List.append_cancel_left heq)
  have hdecodes := h.value_decodes
  rw [hvalue, h'.value_decodes] at hdecodes
  exact (Option.some.inj hdecodes).symm

/-- The name that goes into the header: the one given, or `download` where there is none. -/
theorem attachmentDisposition_names (name : Bytes) : ∃ shown fallback value,
    NamesFile (attachmentDisposition name) shown fallback value ∧
      shown = if name = [] ∨ name = dot ∨ name = [slash] then bytes "download" else name := by
  set shown := if name = [] ∨ name = dot ∨ name = [slash] then bytes "download" else name with hshown
  set ascii := (runes shown).flatMap asciiRune with hascii
  refine ⟨shown, if ascii = [] then bytes "download" else ascii, rfc8187Escape shown, ⟨rfl, ?_, ?_, ?_, ?_⟩, rfl⟩
  · split_ifs with hempty
    · decide
    · exact hempty
  · split_ifs
    · exact fallbackByte_download
    · intro b hb
      obtain ⟨r, -, hr⟩ := List.mem_flatMap.mp hb
      exact asciiRune_bytes r b hr
  · exact encoded_percentEncode shown
  · exact unescape_percentEncode (by decide) shown

/-! ## Names of archives -/

/-- The bytes that the client cannot bring into a name. -/
def NameByte (b : UInt8) : Prop := b ≠ slash ∧ b ≠ 0x5C ∧ isControl b = false

theorem keepInName_bytes {name : Bytes} : ∀ b ∈ mapRunes keepInName name, NameByte b := by
  intro b hb
  obtain ⟨r, hr, hbr⟩ := List.mem_flatMap.mp hb
  obtain ⟨r', -, hkept⟩ := List.mem_filterMap.mp hr
  unfold keepInName at hkept
  split_ifs at hkept with hdropped
  cases hkept
  simp only [not_or, not_lt] at hdropped
  obtain ⟨hslash, hback, hlow, hdelete⟩ := hdropped
  have hne : ∀ c : Char, c.toNat < 0x80 → b.toNat = c.toNat → r = c := by
    intro c hc heq
    apply Char.toNat_inj.mp
    rcases mem_utf8EncodeChar hbr with h | ⟨h, -⟩ <;> omega
  refine ⟨fun h => hslash (hne '/' (by decide) (h ▸ rfl)), fun h => hback (hne '\\' (by decide) (h ▸ rfl)), ?_⟩
  have hcontrol : ¬b.toNat < 0x20 ∧ b.toNat ≠ 0x7F := by
    rcases mem_utf8EncodeChar hbr with h | ⟨h, -⟩ <;> omega
  rw [isControl, Bool.or_eq_false_iff, decide_eq_false_iff_not, decide_eq_false_iff_not, ← UInt8.toNat_inj]
  exact hcontrol

/-- What the client's name leaves for the archive, before the bucket stands in for it. -/
def stem (name : Bytes) : Bytes := (mapRunes keepInName name).take 128

theorem zipFilename_eq (bucket name : Bytes) : zipFilename bucket name =
    (if stem name = [] ∨ stem name = dot ∨ stem name = dotdot then bucket else stem name) ++ bytes "-files.zip" := by
  have hcap : (if (mapRunes keepInName name).length > 128 then (mapRunes keepInName name).take 128
      else mapRunes keepInName name) = stem name := by
    split_ifs with hlong
    · rfl
    · exact (List.take_of_length_le (by omega)).symm
  rw [zipFilename, hcap]

theorem stem_bytes {name : Bytes} : ∀ b ∈ stem name, NameByte b :=
  fun b hb => keepInName_bytes b (List.mem_of_mem_take hb)

/-- Characters of the name are left out and none is added. -/
theorem mapRunes_sublist {name : Bytes} (h : WellFormed name) : (mapRunes keepInName name).Sublist name := by
  obtain ⟨cs, rfl⟩ := h
  have hkept : ∀ cs : List Char, (cs.filterMap keepInName).Sublist cs := by
    intro cs
    induction cs with
    | nil => exact .slnil
    | cons r cs ih =>
      rw [List.filterMap_cons, keepInName]
      split_ifs
      · exact ih.cons r
      · exact ih.cons_cons r
  rw [mapRunes, runes_encode]
  exact (hkept cs).flatMap _

theorem stem_eq_short {name short : Bytes} (hshort : short.length < 128) (h : stem name = short) :
    mapRunes keepInName name = short := by
  have hlength := congrArg List.length h
  rw [stem, List.length_take] at hlength
  rw [← h, stem, List.take_of_length_le (by omega)]

/-- The cap leaves UTF-8 exactly when it does not cut a character. -/
theorem stem_wellFormed_iff {name : Bytes} :
    WellFormed (stem name) ↔ ∀ b, (mapRunes keepInName name)[128]? = some b → isContinuation b = false :=
  take_wellFormed_iff

theorem wellFormed_zipFilename {bucket name : Bytes} (hbucket : WellFormed bucket) (hstem : WellFormed (stem name)) :
    WellFormed (zipFilename bucket name) := by
  rw [zipFilename_eq]
  split_ifs
  · exact hbucket.append (wellFormed_bytes _)
  · exact hstem.append (wellFormed_bytes _)

/-- The archive's name is never one that `attachmentDisposition` replaces. -/
theorem zipFilename_shown (bucket name : Bytes) :
    ¬(zipFilename bucket name = [] ∨ zipFilename bucket name = dot ∨ zipFilename bucket name = [slash]) := by
  have hlong : 1 < (zipFilename bucket name).length := by
    have hsuffix : (bytes "-files.zip").length = 10 := by decide
    rw [zipFilename_eq, List.length_append, hsuffix]
    omega
  rintro (h | h | h) <;> rw [h] at hlong <;> exact absurd hlong (by decide)

/-! ## Names of single objects -/

theorem wellFormed_base {key : Bytes} (h : WellFormed key) : WellFormed (base key) := by
  have hascii : slash.toNat < 0x80 := by decide
  have hstripped : WellFormed (key.rdropWhile (· = slash)) := by
    induction key using List.reverseRecOn with
    | nil => exact h
    | append_singleton key b ih =>
      by_cases hb : b = slash
      · subst hb
        rw [List.rdropWhile_concat_pos _ _ _ (by simp)]
        exact ih (h.of_append_cons hascii).1
      · rwa [List.rdropWhile_concat_neg _ _ _ (by simpa using hb)]
  have hfile : WellFormed (afterLast slash (key.rdropWhile (· = slash))) := by
    by_cases hmem : slash ∈ key.rdropWhile (· = slash)
    · obtain ⟨dir, hdir⟩ := exists_eq_append_afterLast hmem
      rw [hdir] at hstripped
      exact (hstripped.of_append_cons hascii).2
    · rwa [afterLast_of_not_mem hmem]
  unfold base
  dsimp only
  split_ifs
  · exact wellFormed_bytes "."
  · exact wellFormed_bytes "/"
  · exact hfile

/-! ## Every download -/

/-- What the two functions promise for any name, any key and any bucket. The archive is called after the bucket only
where the client's name leaves nothing but dots. -/
theorem download_names_well_formed :
    (∀ name, ∃ shown fallback value, NamesFile (attachmentDisposition name) shown fallback value ∧
      (shown = if name = [] ∨ name = dot ∨ name = [slash] then bytes "download" else name) ∧
      (WellFormed name → WellFormed shown)) ∧
    (∀ key, WellFormed key → WellFormed (base key)) ∧
    (∀ bucket name, ∃ fallback value,
      NamesFile (attachmentDisposition (zipFilename bucket name)) (zipFilename bucket name) fallback value) ∧
    (∀ bucket name, WellFormed bucket →
      (∀ b, (mapRunes keepInName name)[128]? = some b → isContinuation b = false) →
      WellFormed (zipFilename bucket name)) ∧
    (∀ bucket name, zipFilename bucket name = bucket ++ bytes "-files.zip" ∧
        mapRunes keepInName name ∈ [[], dot, dotdot] ∨
      ∃ kept, zipFilename bucket name = kept ++ bytes "-files.zip" ∧ kept ∉ [[], dot, dotdot] ∧
        kept <+: mapRunes keepInName name ∧ kept.length = min 128 (mapRunes keepInName name).length ∧
        (WellFormed name → kept.Sublist name) ∧ ∀ b ∈ kept, NameByte b) := by
  refine ⟨?_, fun key hkey => wellFormed_base hkey, ?_, ?_, ?_⟩
  · intro name
    obtain ⟨shown, fallback, value, hnames, hshown⟩ := attachmentDisposition_names name
    refine ⟨shown, fallback, value, hnames, hshown, fun hname => ?_⟩
    rw [hshown]
    split_ifs
    · exact wellFormed_bytes "download"
    · exact hname
  · intro bucket name
    obtain ⟨shown, fallback, value, hnames, hshown⟩ := attachmentDisposition_names (zipFilename bucket name)
    rw [if_neg (zipFilename_shown bucket name)] at hshown
    subst hshown
    exact ⟨fallback, value, hnames⟩
  · exact fun bucket name hbucket hcap => wellFormed_zipFilename hbucket (stem_wellFormed_iff.mpr hcap)
  · intro bucket name
    rw [zipFilename_eq]
    split_ifs with hdots
    · refine .inl ⟨rfl, ?_⟩
      simp only [List.mem_cons, List.not_mem_nil, or_false]
      exact hdots.imp (stem_eq_short (by decide))
        (Or.imp (stem_eq_short (by decide)) (stem_eq_short (by decide)))
    · have hkept : stem name <+: mapRunes keepInName name := List.take_prefix 128 _
      have hshown : stem name ∉ [[], dot, dotdot] := by
        simpa only [List.mem_cons, List.not_mem_nil, or_false] using hdots
      exact .inr ⟨stem name, rfl, hshown, hkept, List.length_take, fun hname =>
        hkept.sublist.trans (mapRunes_sublist hname), stem_bytes⟩

/-- The name `.` is not shown: the header says `download`. -/
theorem attachmentDisposition_dot :
    WellFormed dot ∧ ¬∃ fallback value, NamesFile (attachmentDisposition dot) dot fallback value := by
  refine ⟨wellFormed_bytes ".", ?_⟩
  rintro ⟨fallback, value, hdot⟩
  obtain ⟨shown, fallback', value', hnames, hshown⟩ := attachmentDisposition_names dot
  rw [if_pos (.inr (.inl rfl))] at hshown
  have hsame := hdot.unique hnames
  rw [hshown] at hsame
  exact absurd hsame (by decide)

end GarageConsole.Objects
