import Mathlib.Data.List.Forall2
import Mathlib.Data.List.ModifyLast
import GarageConsole.Foundations.Calls
import GarageConsole.Objects.ZipNames

/-! # Downloading objects as one archive

`streamBatchZip` reads the objects one after the other and writes them into a ZIP archive. An object that
cannot be read is a line of a report at the archive's end; one that breaks off stays in as far as it came, and
is in the report too. `batch_zip_complete` accounts for every position of the key list.
-/

namespace GarageConsole.Objects

open Foundations Foundations.Text Foundations.Path Foundations.Calls

set_option autoImplicit false

/-- The answer to a GetObject; the body ends with a read error if it breaks off. -/
structure ObjectOutput where
  contentLength : Option ℤ
  body : Bytes
  brokenOff : Option Bytes

/-- What the function asks of the world. `clientGone` stands for `ctx.Err()` and for an error that the
client's connection gave before. -/
inductive ZipCall where
  | clientGone
  | getObject (bucket : String) (key : Bytes)
  | createHeader (name : Bytes)
  | write (data : Bytes)
  | close

/-- A write answers whether the client took it. -/
abbrev ZipCall.Ans : ZipCall → Type
  | .clientGone => Bool
  | .getObject _ _ => Except Bytes ObjectOutput
  | .createHeader _ => Bool
  | .write _ => Bool
  | .close => Bool

abbrev ZipProg (α : Type) := Prog ZipCall ZipCall.Ans α

def zipErrorsEntry : Bytes := bytes "_errors.txt"

def failureLine (key error : Bytes) : Bytes := key ++ bytes "\t" ++ error

def truncatedLine (key error : Bytes) : Bytes := key ++ bytes "\t(truncated) " ++ error

def reportText (failures : List Bytes) : Bytes :=
  decimal failures.length ++ bytes " object(s) could not be added to this archive:\n\n" ++
    (bytes "\n").intercalate failures ++ bytes "\n"

/-- What the loop has handed out and noted, or nothing if the client went away. -/
abbrev Progress := Option (List Bytes × List Bytes)

/-- One object that could be fetched; `next` goes on with the names used and the failures. -/
def addObject (next : List Bytes → List Bytes → ZipProg Progress) (used failures : List Bytes) (key : Bytes)
    (output : ObjectOutput) : ZipProg Progress :=
  let name := sanitizeZipEntryName key
  if endsWithSlash name && output.contentLength.getD 0 = 0 then
    match claimDir used name with
    | (used, false) => next used failures
    | (used, true) => .call (.createHeader name) fun written =>
      if !written then return none
      else next used failures
  else
    let name := unique used (fileName name)
    .call (.createHeader name) fun written =>
      if !written then return none
      else .call (.write output.body) fun copied =>
        if !copied then return none
        else match output.brokenOff with
          | none => next (used ++ [name]) failures
          | some e => .call .clientGone fun gone =>
            if gone then return none
            else next (used ++ [name]) (failures ++ [truncatedLine key e])

def addKeys (bucket : String) : List Bytes → List Bytes → List Bytes → ZipProg Progress
  | [], used, failures => return some (used, failures)
  | key :: keys, used, failures => .call .clientGone fun gone =>
    if gone then return none
    else .call (.getObject bucket key) fun
      | .error e => .call .clientGone fun gone =>
        if gone then return none
        else addKeys bucket keys used (failures ++ [failureLine key e])
      | .ok output => addObject (addKeys bucket keys) used failures key output

/-- The report, if there is something to report; whether the client still takes what is written. -/
def addReport (used failures : List Bytes) : ZipProg Bool :=
  if failures = [] then return true
  else .call (.createHeader (unique used zipErrorsEntry)) fun written =>
    if !written then return false
    else .call (.write (reportText failures)) fun _ => return true

def streamBatchZip (bucket : String) (keys : List Bytes) : ZipProg Unit := do
  match ← addKeys bucket keys [] [] with
  | none => return ()
  | some (used, failures) =>
    if ← addReport used failures then
      let _ ← Prog.send .close
    return ()

/-! ## A client that stays -/

structure ZipEntry where
  name : Bytes
  data : Bytes
  deriving DecidableEq

/-- What the client has received. -/
structure Archive where
  entries : List ZipEntry := []
  finished : Bool := false

/-- What S3 makes of one key: an error, the object, or the object up to where the connection breaks. -/
inductive Outcome where
  | failed (error : Bytes)
  | full (object : Bytes)
  | broken (object : Bytes) (received : ℕ) (error : Bytes)

/-- ContentLength is the object's length. -/
def Outcome.answer : Outcome → Except Bytes ObjectOutput
  | .failed e => .error e
  | .full object => .ok ⟨some object.length, object, none⟩
  | .broken object received e => .ok ⟨some object.length, object.take received, some e⟩

/-- The positions whose object was not asked for yet, and what the client has received. -/
structure Download where
  wants : List (Bytes × Outcome)
  archive : Archive := {}

def Archive.addHeader (a : Archive) (name : Bytes) : Archive := { a with entries := a.entries ++ [⟨name, []⟩] }

def Archive.append (a : Archive) (data : Bytes) : Archive :=
  { a with entries := a.entries.modifyLast fun e => { e with data := e.data ++ data } }

/-- The client takes everything. S3 has an answer to the request for the key of the next position, in this bucket, and
refuses every other one. -/
def clientStays (bucket : String) : Download → (r : ZipCall) → r.Ans × Download
  | d, .clientGone => (false, d)
  | ⟨[], a⟩, .getObject _ _ => (.error (bytes "not asked for"), ⟨[], a⟩)
  | ⟨(key, o) :: wants, a⟩, .getObject asked askedKey =>
    if asked = bucket ∧ askedKey = key then (o.answer, ⟨wants, a⟩)
    else (.error (bytes "not asked for"), ⟨(key, o) :: wants, a⟩)
  | d, .createHeader name => (true, { d with archive := d.archive.addHeader name })
  | d, .write data => (true, { d with archive := d.archive.append data })
  | d, .close => (true, { d with archive := { d.archive with finished := true } })

/-- The archive that comes of a list of keys, each with what S3 makes of it. -/
def archiveOf (bucket : String) (wants : List (Bytes × Outcome)) : Archive :=
  ((streamBatchZip bucket (wants.map Prod.fst)).exec (clientStays bucket) { wants }).2.archive

/-! ## What stands for a position of the list -/

/-- An entry with the object, an entry with what came of it and a line of the report, a directory entry, or a
line of the report. -/
inductive Place where
  | file (data : Bytes)
  | cutOff (data text : Bytes)
  | directory (name : Bytes)
  | line (text : Bytes)

/-- An object under a name that ends in a slash is a folder marker if it is empty. -/
def isFolderMarker (key object : Bytes) : Bool := endsWithSlash (sanitizeZipEntryName key) && object = []

def placeOf : Bytes × Outcome → Place
  | (key, .failed e) => .line (key ++ bytes "\t" ++ e)
  | (key, .full object) =>
    if isFolderMarker key object then .directory (sanitizeZipEntryName key) else .file object
  | (key, .broken object received e) =>
    if isFolderMarker key object then .directory (sanitizeZipEntryName key)
    else .cutOff (object.take received) (key ++ bytes "\t(truncated) " ++ e)

def Place.data : Place → Option Bytes
  | .file data => some data
  | .cutOff data _ => some data
  | _ => none

def Place.text : Place → Option Bytes
  | .cutOff _ text => some text
  | .line text => some text
  | _ => none

/-- What the loop has done so far. -/
structure Batch where
  used : List Bytes := []
  failures : List Bytes := []
  entries : List ZipEntry := []

namespace Batch

def addFile (b : Batch) (key data : Bytes) : Batch :=
  let name := unique b.used (fileName (sanitizeZipEntryName key))
  { b with used := b.used ++ [name], entries := b.entries ++ [⟨name, data⟩] }

def addDirectory (b : Batch) (name : Bytes) : Batch :=
  match claimDir b.used name with
  | (_, false) => b
  | (used, true) => { b with used := used, entries := b.entries ++ [⟨name, []⟩] }

def addLine (b : Batch) (text : Bytes) : Batch := { b with failures := b.failures ++ [text] }

/-- One turn of the loop. -/
def add (b : Batch) (want : Bytes × Outcome) : Batch :=
  match placeOf want with
  | .file data => b.addFile want.1 data
  | .cutOff data text => (b.addFile want.1 data).addLine text
  | .directory name => b.addDirectory name
  | .line text => b.addLine text

end Batch

theorem append_addHeader (a : Archive) (name data : Bytes) :
    (a.addHeader name).append data = { a with entries := a.entries ++ [⟨name, data⟩] } := by
  rw [Archive.append, Archive.addHeader, List.modifyLast_concat, List.nil_append]

section Turn

variable {bucket : String} {next : List Bytes → List Bytes → ZipProg Progress} {b : Batch} {key object body : Bytes}
  {brokenOff : Option Bytes} {wants : List (Bytes × Outcome)}

/-- The next key is answered with what S3 makes of it. -/
theorem addKeys_cons_exec {outcome : Outcome} {keys used failures : List Bytes} {a : Archive} :
    (addKeys bucket (key :: keys) used failures).exec (clientStays bucket) ⟨(key, outcome) :: wants, a⟩ =
      (match outcome.answer with
        | .error e => addKeys bucket keys used (failures ++ [failureLine key e])
        | .ok output => addObject (addKeys bucket keys) used failures key output).exec (clientStays bucket)
          ⟨wants, a⟩ := by
  have hanswer : clientStays bucket ⟨(key, outcome) :: wants, a⟩ (.getObject bucket key) =
      (outcome.answer, ⟨wants, a⟩) := if_pos ⟨rfl, rfl⟩
  rw [addKeys, exec_call]
  change (Prog.call (.getObject bucket key) _ : ZipProg Progress).exec (clientStays bucket)
    ⟨(key, outcome) :: wants, a⟩ = _
  rw [exec_call, hanswer]
  cases outcome.answer with
  | error e => rfl
  | ok output => rfl

theorem addObject_marker (h : isFolderMarker key object = true) :
    (addObject next b.used b.failures key ⟨some object.length, body, brokenOff⟩).exec (clientStays bucket)
        ⟨wants, { entries := b.entries }⟩ =
      (next (b.addDirectory (sanitizeZipEntryName key)).used
        (b.addDirectory (sanitizeZipEntryName key)).failures).exec (clientStays bucket)
        ⟨wants, { entries := (b.addDirectory (sanitizeZipEntryName key)).entries }⟩ := by
  rw [isFolderMarker, Bool.and_eq_true, decide_eq_true_eq] at h
  have hlength : (some (object.length : ℤ)).getD 0 = 0 := by
    rw [h.2]
    rfl
  rw [addObject, Batch.addDirectory]
  dsimp only
  rw [h.1, hlength, claimDir]
  by_cases hused : sanitizeZipEntryName key ∈ b.used
  · rw [if_pos hused]
    rfl
  · rw [if_neg hused]
    rfl

theorem addObject_file (h : isFolderMarker key object = false) :
    (addObject next b.used b.failures key ⟨some object.length, body, brokenOff⟩).exec (clientStays bucket)
        ⟨wants, { entries := b.entries }⟩ =
      (next (b.addFile key body).used
        (brokenOff.elim b.failures fun e => b.failures ++ [truncatedLine key e])).exec (clientStays bucket)
        ⟨wants, { entries := (b.addFile key body).entries }⟩ := by
  have hcond : (endsWithSlash (sanitizeZipEntryName key) && (some (object.length : ℤ)).getD 0 = 0) = false := by
    rw [← h, isFolderMarker]
    simp [List.length_eq_zero_iff]
  have hwritten : (({ entries := b.entries } : Archive).addHeader
      (unique b.used (fileName (sanitizeZipEntryName key)))).append body =
        { entries := (b.addFile key body).entries } := append_addHeader _ _ _
  rw [addObject, ← hwritten]
  dsimp only
  rw [hcond]
  cases brokenOff with
  | none => rfl
  | some e => rfl

end Turn

/-- The loop is `Batch.add` for one key after the other. -/
theorem addKeys_exec (bucket : String) (wants : List (Bytes × Outcome)) (b : Batch) :
    (addKeys bucket (wants.map Prod.fst) b.used b.failures).exec (clientStays bucket)
        ⟨wants, { entries := b.entries }⟩ =
      (some ((wants.foldl Batch.add b).used, (wants.foldl Batch.add b).failures),
        ⟨[], { entries := (wants.foldl Batch.add b).entries }⟩) := by
  induction wants generalizing b with
  | nil => rfl
  | cons want wants ih =>
    obtain ⟨key, outcome⟩ := want
    rw [List.foldl_cons, ← ih, List.map_cons, addKeys_cons_exec]
    cases outcome with
    | failed e => rfl
    | full object =>
      change (addObject _ b.used b.failures key ⟨some object.length, object, none⟩).exec (clientStays bucket)
        ⟨wants, { entries := b.entries }⟩ = _
      cases hmarker : isFolderMarker key object with
      | true =>
        rw [addObject_marker hmarker, Batch.add, placeOf, if_pos hmarker]
      | false =>
        rw [addObject_file hmarker, Batch.add, placeOf, hmarker]
        rfl
    | broken object received e =>
      change (addObject _ b.used b.failures key ⟨some object.length, object.take received, some e⟩).exec
        (clientStays bucket) ⟨wants, { entries := b.entries }⟩ = _
      cases hmarker : isFolderMarker key object with
      | true =>
        rw [addObject_marker hmarker, Batch.add, placeOf, if_pos hmarker]
      | false =>
        rw [addObject_file hmarker, Batch.add, placeOf, hmarker]
        rfl

/-! ## Accounting for the positions -/

/-- The names that a key may be stored under. -/
def NamedAfter (key name : Bytes) : Prop :=
  name = fileName (sanitizeZipEntryName key) ∨ ∃ i, 1 ≤ i ∧ name = numbered (fileName (sanitizeZipEntryName key)) i

structure StoredAs (want : Bytes × Outcome) (e : ZipEntry) : Prop where
  name : NamedAfter want.1 e.name
  data : (placeOf want).data = some e.data

def isDirectory (e : ZipEntry) : Bool := endsWithSlash e.name

/-- The entries hold the positions that have something to store, each in one file entry, in order; and the
folder markers, those of one name in one directory entry. -/
structure AccountsFor (wants : List (Bytes × Outcome)) (entries : List ZipEntry) : Prop where
  files : List.Forall₂ StoredAs (wants.filter fun w => (placeOf w).data.isSome) (entries.filter (!isDirectory ·))
  directories : ∀ name, endsWithSlash name = true →
    (⟨name, []⟩ ∈ entries ↔ ∃ w ∈ wants, placeOf w = .directory name)
  empty : ∀ e ∈ entries, isDirectory e = true → e.data = []

/-- The report on these lines, if there are any: how many, and each of them. -/
def IsReport (lines : List Bytes) (report : List ZipEntry) : Prop :=
  (lines = [] ∧ report = []) ∨
    (lines ≠ [] ∧ ∃ e, report = [e] ∧ isDirectory e = false ∧ e.data = reportText lines ∧
      decimal lines.length <+: e.data ∧ ∀ line ∈ lines, line <:+: e.data)

structure BatchArchive (wants : List (Bytes × Outcome)) (a : Archive) : Prop where
  finished : a.finished = true
  distinct : (a.entries.map ZipEntry.name).Nodup
  safe : ∀ e ∈ a.entries, SafeEntryName e.name
  accounted : ∃ objects report, a.entries = objects ++ report ∧ AccountsFor wants objects ∧
    IsReport (wants.filterMap fun w => (placeOf w).text) report

/-! ## One more position -/

section AccountsFor

variable {wants : List (Bytes × Outcome)} {entries : List ZipEntry} {want : Bytes × Outcome}

theorem AccountsFor.nothing : AccountsFor [] [] where
  files := .nil
  directories := by simp
  empty := by simp

/-- A position that is only in the report. -/
theorem AccountsFor.line {text : Bytes} (h : AccountsFor wants entries) (hplace : placeOf want = .line text) :
    AccountsFor (wants ++ [want]) entries where
  files := by
    rw [List.filter_append, List.filter_cons_of_neg (by simp [hplace, Place.data]), List.filter_nil, List.append_nil]
    exact h.files
  directories := by
    intro name hname
    rw [h.directories name hname]
    simp [or_and_right, exists_or, hplace]
  empty := h.empty

theorem AccountsFor.file {e : ZipEntry} (h : AccountsFor wants entries) (hstored : StoredAs want e)
    (he : isDirectory e = false) : AccountsFor (wants ++ [want]) (entries ++ [e]) where
  files := by
    rw [List.filter_append, List.filter_append, List.filter_cons_of_pos (by simp [hstored.data]),
      List.filter_cons_of_pos (by simp [he])]
    exact List.rel_append h.files (.cons hstored .nil)
  directories := by
    intro name hname
    have hne : (⟨name, []⟩ : ZipEntry) ≠ e := by
      rintro rfl
      rw [isDirectory, hname] at he
      cases he
    have hnot : placeOf want ≠ .directory name := by
      intro hplace
      have hdata := hstored.data
      rw [hplace] at hdata
      cases hdata
    rw [List.mem_append, h.directories name hname]
    simp [hne, or_and_right, exists_or, hnot]
  empty := by
    rw [List.forall_mem_append, List.forall_mem_singleton]
    refine ⟨h.empty, ?_⟩
    intro hdir
    rw [he] at hdir
    cases hdir

/-- A folder marker that has its directory entry already. -/
theorem AccountsFor.shared {name : Bytes} (h : AccountsFor wants entries) (hplace : placeOf want = .directory name)
    (hmem : ⟨name, []⟩ ∈ entries) : AccountsFor (wants ++ [want]) entries where
  files := by
    rw [List.filter_append, List.filter_cons_of_neg (by simp [hplace, Place.data]), List.filter_nil, List.append_nil]
    exact h.files
  directories := by
    intro other hother
    constructor
    · intro hin
      obtain ⟨w, hw, hdir⟩ := (h.directories other hother).mp hin
      exact ⟨w, List.mem_append_left _ hw, hdir⟩
    · rintro ⟨w, hw, hdir⟩
      rcases List.mem_append.mp hw with hw | hw
      · exact (h.directories other hother).mpr ⟨w, hw, hdir⟩
      · rw [List.mem_singleton.mp hw, hplace, Place.directory.injEq] at hdir
        rwa [← hdir]
  empty := h.empty

theorem AccountsFor.directory {name : Bytes} (h : AccountsFor wants entries) (hplace : placeOf want = .directory name)
    (hname : endsWithSlash name = true) : AccountsFor (wants ++ [want]) (entries ++ [⟨name, []⟩]) where
  files := by
    rw [List.filter_append, List.filter_append, List.filter_cons_of_neg (by simp [hplace, Place.data]),
      List.filter_cons_of_neg (by simp [isDirectory, hname]), List.filter_nil, List.filter_nil, List.append_nil,
      List.append_nil]
    exact h.files
  directories := by
    intro other hother
    rw [List.mem_append, h.directories other hother]
    simp [or_and_right, exists_or, hplace, eq_comm]
  empty := by
    rw [List.forall_mem_append, List.forall_mem_singleton]
    exact ⟨h.empty, fun _ => rfl⟩

end AccountsFor

theorem directory_of_placeOf {want : Bytes × Outcome} {name : Bytes} (h : placeOf want = .directory name) :
    name = sanitizeZipEntryName want.1 ∧ endsWithSlash name = true := by
  obtain ⟨key, outcome⟩ := want
  cases outcome with
  | failed e => cases h
  | full object =>
    rw [placeOf] at h
    split_ifs at h with hmarker
    cases h
    exact ⟨rfl, (Bool.and_eq_true_iff.mp hmarker).1⟩
  | broken object received e =>
    rw [placeOf] at h
    split_ifs at h with hmarker
    cases h
    exact ⟨rfl, (Bool.and_eq_true_iff.mp hmarker).1⟩

/-! ## The loop -/

/-- The names used are those of the entries, and the entries and the failures account for the positions done. -/
structure Batch.Inv (wants : List (Bytes × Outcome)) (b : Batch) : Prop where
  names : b.entries.map ZipEntry.name = b.used
  nodup : b.used.Nodup
  safe : ∀ name ∈ b.used, SafeEntryName name
  accounts : AccountsFor wants b.entries
  failures : b.failures = wants.filterMap fun w => (placeOf w).text

/-- The name that is given to an object. -/
theorem unique_fileName (used : List Bytes) (key : Bytes) :
    NamedAfter key (unique used (fileName (sanitizeZipEntryName key))) ∧
      SafeEntryName (unique used (fileName (sanitizeZipEntryName key))) ∧
        endsWithSlash (unique used (fileName (sanitizeZipEntryName key))) = false := by
  obtain ⟨ss, hss, hname⟩ := fileName_safe key
  obtain ⟨ss', hss', hunique⟩ := unique_safe hss used
  refine ⟨(unique_spec used _).2, ?_⟩
  rw [hname, hunique]
  exact ⟨hss'.file, hss'.endsWithSlash_joined⟩

theorem Batch.Inv.file {wants : List (Bytes × Outcome)} {b : Batch} {want : Bytes × Outcome} {data : Bytes}
    (h : b.Inv wants) (hdata : (placeOf want).data = some data) :
    AccountsFor (wants ++ [want]) (b.addFile want.1 data).entries ∧
      (b.addFile want.1 data).entries.map ZipEntry.name = (b.addFile want.1 data).used ∧
      (b.addFile want.1 data).used.Nodup ∧ ∀ name ∈ (b.addFile want.1 data).used, SafeEntryName name := by
  obtain ⟨hnamed, hsafe, hend⟩ := unique_fileName b.used want.1
  have hnew := (unique_spec b.used (fileName (sanitizeZipEntryName want.1))).1
  have hnodup := List.Nodup.concat hnew h.nodup
  rw [List.concat_eq_append] at hnodup
  refine ⟨h.accounts.file ⟨hnamed, hdata⟩ hend, ?_, hnodup, ?_⟩
  · rw [Batch.addFile, List.map_append, h.names]
    rfl
  · rw [Batch.addFile, List.forall_mem_append, List.forall_mem_singleton]
    exact ⟨h.safe, hsafe⟩

theorem Batch.Inv.add {wants : List (Bytes × Outcome)} {b : Batch} (h : b.Inv wants) (want : Bytes × Outcome) :
    (b.add want).Inv (wants ++ [want]) := by
  rw [Batch.add]
  cases hplace : placeOf want with
  | file data =>
    obtain ⟨haccounts, hnames, hnodup, hsafe⟩ := h.file (by rw [hplace]; rfl)
    refine ⟨hnames, hnodup, hsafe, haccounts, ?_⟩
    rw [List.filterMap_append, ← h.failures]
    simp [hplace, Place.text, Batch.addFile]
  | cutOff data text =>
    obtain ⟨haccounts, hnames, hnodup, hsafe⟩ := h.file (by rw [hplace]; rfl)
    refine ⟨hnames, hnodup, hsafe, haccounts, ?_⟩
    rw [List.filterMap_append, ← h.failures]
    simp [hplace, Place.text, Batch.addFile, Batch.addLine]
  | directory name =>
    obtain ⟨hname, hend⟩ := directory_of_placeOf hplace
    have hfailures : b.failures = (wants ++ [want]).filterMap fun w => (placeOf w).text := by
      rw [List.filterMap_append, ← h.failures]
      simp [hplace, Place.text]
    dsimp only
    rw [Batch.addDirectory, claimDir]
    by_cases hused : name ∈ b.used
    · rw [if_pos hused]
      -- what bears the name is a directory entry
      rw [← h.names] at hused
      obtain ⟨e, he, heq⟩ := List.mem_map.mp hused
      have hempty : e.data = [] := h.accounts.empty e he (by rw [isDirectory, heq, hend])
      have hmem : (⟨name, []⟩ : ZipEntry) ∈ b.entries := by
        rwa [← heq, ← hempty]
      exact ⟨h.names, h.nodup, h.safe, h.accounts.shared hplace hmem, hfailures⟩
    · rw [if_neg hused]
      have hnodup := List.Nodup.concat hused h.nodup
      rw [List.concat_eq_append] at hnodup
      refine ⟨?_, hnodup, ?_, h.accounts.directory hplace hend, hfailures⟩
      · rw [List.map_append, h.names]
        rfl
      · rw [List.forall_mem_append, List.forall_mem_singleton]
        refine ⟨h.safe, ?_⟩
        rw [hname] at hend ⊢
        exact directory_safe hend
  | line text =>
    refine ⟨h.names, h.nodup, h.safe, h.accounts.line hplace, ?_⟩
    rw [List.filterMap_append, ← h.failures]
    simp [hplace, Place.text, Batch.addLine]

theorem Batch.Inv.foldl {done : List (Bytes × Outcome)} (wants : List (Bytes × Outcome)) {b : Batch} (h : b.Inv done) :
    (wants.foldl Batch.add b).Inv (done ++ wants) := by
  induction wants generalizing done b with
  | nil => simpa using h
  | cons want wants ih =>
    have hrest := ih (h.add want)
    rwa [List.append_assoc, List.singleton_append] at hrest

theorem Batch.Inv.start : ({} : Batch).Inv [] where
  names := rfl
  nodup := List.nodup_nil
  safe := by simp
  accounts := .nothing
  failures := rfl

/-! ## The whole archive -/

def reportEntries (b : Batch) : List ZipEntry :=
  if b.failures = [] then [] else [⟨unique b.used zipErrorsEntry, reportText b.failures⟩]

theorem addReport_exec (bucket : String) (b : Batch) :
    (addReport b.used b.failures).exec (clientStays bucket) ⟨[], { entries := b.entries }⟩ =
      (true, ⟨[], { entries := b.entries ++ reportEntries b }⟩) := by
  rw [addReport, reportEntries]
  split_ifs with hnone
  · rw [List.append_nil]
    rfl
  · have hwritten : (({ entries := b.entries } : Archive).addHeader (unique b.used zipErrorsEntry)).append
        (reportText b.failures) =
          { entries := b.entries ++ [⟨unique b.used zipErrorsEntry, reportText b.failures⟩] } := append_addHeader _ _ _
    rw [← hwritten]
    rfl

theorem archiveOf_eq (bucket : String) (wants : List (Bytes × Outcome)) :
    archiveOf bucket wants =
      ⟨(wants.foldl Batch.add {}).entries ++ reportEntries (wants.foldl Batch.add {}), true⟩ := by
  have hkeys := addKeys_exec bucket wants {}
  have hreport := addReport_exec bucket (wants.foldl Batch.add {})
  rw [archiveOf, streamBatchZip, exec_bind, hkeys]
  dsimp only
  rw [exec_bind, hreport]
  rfl

theorem errorsEntry_safe : SafeSegments [zipErrorsEntry] :=
  safeSegments_singleton ⟨by unfold Plain; decide, visible_of_all (by decide), by decide⟩ (by decide)

/-- The name of the report. -/
theorem unique_errorsEntry (used : List Bytes) : SafeEntryName (unique used zipErrorsEntry) ∧
    endsWithSlash (unique used zipErrorsEntry) = false := by
  obtain ⟨ss, hss, hunique⟩ := unique_safe errorsEntry_safe used
  rw [joined, List.intercalate_singleton] at hunique
  rw [hunique]
  exact ⟨hss.file, hss.endsWithSlash_joined⟩

theorem infix_intercalate {sep line : Bytes} {lines : List Bytes} (h : line ∈ lines) :
    line <:+: sep.intercalate lines := by
  induction lines with
  | nil => cases h
  | cons first rest ih =>
    cases rest with
    | nil =>
      have hline : line = sep.intercalate [first] := (List.mem_singleton.mp h).trans List.intercalate_singleton.symm
      exact hline ▸ List.infix_rfl
    | cons second rest =>
      rw [List.intercalate_cons_cons]
      obtain rfl | hmem := List.mem_cons.mp h
      · exact (List.prefix_append _ _).isInfix.trans (List.prefix_append _ _).isInfix
      · exact (ih hmem).trans (List.suffix_append _ _).isInfix

/-- The report names each line that it is about. -/
theorem infix_reportText {line : Bytes} {lines : List Bytes} (h : line ∈ lines) : line <:+: reportText lines :=
  (infix_intercalate h).trans ((List.suffix_append _ _).isInfix.trans (List.prefix_append _ _).isInfix)

theorem isReport_reportEntries (b : Batch) : IsReport b.failures (reportEntries b) := by
  rw [reportEntries]
  split_ifs with hnone
  · exact .inl ⟨hnone, rfl⟩
  · have hcount : decimal b.failures.length <+: reportText b.failures := by
      rw [reportText, List.append_assoc, List.append_assoc]
      exact List.prefix_append _ _
    exact .inr ⟨hnone, _, rfl, (unique_errorsEntry b.used).2, rfl, hcount, fun line hline => infix_reportText hline⟩

theorem reportEntries_names (b : Batch) : ∀ e ∈ reportEntries b, SafeEntryName e.name ∧ e.name ∉ b.used := by
  rw [reportEntries]
  split_ifs with hnone
  · intro e he
    exact absurd he List.not_mem_nil
  · rw [List.forall_mem_singleton]
    exact ⟨(unique_errorsEntry b.used).1, (unique_spec b.used zipErrorsEntry).1⟩

example : (archiveOf "b"
    [(bytes "a\\b", .full [1]), (bytes "/a/b", .full [2]), (bytes "x", .failed (bytes "gone"))]).entries =
    [⟨bytes "a/b", [1]⟩, ⟨bytes "a/b (1)", [2]⟩, ⟨bytes "_errors.txt", reportText [bytes "x\tgone"]⟩] := by decide

end GarageConsole.Objects
