import GarageConsole.Foundations.OrderedSet
import GarageConsole.Foundations.Regex
import GarageConsole.Foundations.Utf16
import GarageConsole.Foundations.Utf8

/-! # Connecting nodes

The form for new peers reads one peer per line and the backend checks the list that it is sent. The form's
strings are code units and its `\s` is JavaScript's; the backend's are UTF-8 and its `\s` is Go's, which matches
less. What the form lets through the backend takes, and a list that the backend takes survives the form if its
entries are distinct and without white space (`form_agrees_with_backend`).
-/

namespace GarageConsole.Cluster

open Foundations Foundations.Text Foundations.Utf16

set_option autoImplicit false

/-! ## Classes of characters, by code point -/

def hexDigit (code : ℕ) : Bool := (0x30 ≤ code && code ≤ 0x39) || (0x61 ≤ code && code ≤ 0x66)

def digit (code : ℕ) : Bool := 0x30 ≤ code && code ≤ 0x39

/-- Go's `\s`. -/
def goSpace (code : ℕ) : Bool := code ∈ [0x09, 0x0A, 0x0C, 0x0D, 0x20]

def atSign : ℕ := 0x40

def colon : ℕ := 0x3A

/-! ## The backend -/

def maxConnectNodes : ℕ := 10

/-- `^[0-9a-f]{64}@[^\s@]+:[0-9]+$` -/
def connectPeerPattern : Regex Char :=
  .seq (.times 64 (.char fun c => hexDigit c.toNat))
    (.seq (.char fun c => c.toNat == atSign)
      (.seq (.plus (.char fun c => !goSpace c.toNat && c.toNat != atSign))
        (.seq (.char fun c => c.toNat == colon) (.plus (.char fun c => digit c.toNat)))))

/-- The message about the first entry that is no peer. -/
def firstMalformed : List Bytes → ℕ → String
  | [], _ => ""
  | n :: rest, i =>
    if !connectPeerPattern.accepts (runes n) then
      "nodes[" ++ toString i ++ "] must be <64-hex node id>@<host>:<port>"
    else firstMalformed rest (i + 1)

/-- The message about the first problem, empty if there is none. -/
def validateConnectNodes (nodes : List Bytes) : String :=
  if nodes.length = 0 then "nodes must contain at least one entry"
  else if maxConnectNodes < nodes.length then "nodes must contain at most " ++ toString maxConnectNodes ++ " entries"
  else firstMalformed nodes 0

/-! ## The form -/

namespace Form

def maxConnectNodes : ℕ := 10

/-- `^[0-9a-f]{64}@[^\s@]+:[0-9]+$` -/
def connectPeerPattern : Regex UInt16 :=
  .seq (.times 64 (.char fun u => hexDigit u.toNat))
    (.seq (.char fun u => u.toNat == atSign)
      (.seq (.plus (.char fun u => !isSpace u && u.toNat != atSign))
        (.seq (.char fun u => u.toNat == colon) (.plus (.char fun u => digit u.toNat)))))

/-- `^[0-9a-f]{64}@`, followed by anything. -/
def nodeIdPattern : Regex UInt16 :=
  .seq (.times 64 (.char fun u => hexDigit u.toNat))
    (.seq (.char fun u => u.toNat == atSign) (.star (.char fun _ => true)))

structure ConnectLineError where
  line : ℕ
  message : String
  deriving DecidableEq

structure ParsedConnectInput where
  peers : List Units
  errors : List ConnectLineError

def lineFeed : UInt16 := 0x0A

def carriageReturn : UInt16 := 0x0D

/-- `text.split(/\r?\n/)` -/
def splitLines : Units → List Units
  | [] => [[]]
  | u :: rest =>
    if u = lineFeed then [] :: splitLines rest
    else if u = carriageReturn && rest.head? = some lineFeed then splitLines rest
    else (splitLines rest).modifyHead (u :: ·)

def tooManyNodes : String := "一度に接続できるのは " ++ toString maxConnectNodes ++ " ノードまでです"

/-- What is wrong with a line that is not blank, once the peers of `seen` are taken. -/
def lineError (seen : OrderedSet Units) (value : Units) : Option String :=
  if !value.any fun u => u.toNat == atSign then some "<ノード ID>@<アドレス>:<ポート> の形式で入力してください"
  else if !nodeIdPattern.accepts value then some "ノード ID は 64 桁の 16 進数 (小文字) です"
  else if !connectPeerPattern.accepts value then some "アドレスは <ホスト>:<ポート> の形式です (空白は含められません)"
  else if seen.has value then some "同じノードが重複しています"
  else none

structure LineState where
  peers : List Units := []
  errors : List ConnectLineError := []
  seen : OrderedSet Units := .empty
  count : ℕ := 0

def parseLine (s : LineState) (raw : Units × ℕ) : LineState :=
  let value := trim raw.1
  if value = [] then s
  else
    let line := raw.2 + 1
    let count := s.count + 1
    let errors := if count = maxConnectNodes + 1 then s.errors ++ [⟨line, tooManyNodes⟩] else s.errors
    match lineError s.seen value with
    | some message => { s with errors := errors ++ [⟨line, message⟩], count := count }
    | none => { peers := s.peers ++ [value], errors := errors, seen := s.seen.insert value, count := count }

def parseConnectInput (text : Units) : ParsedConnectInput :=
  let s := (splitLines text).zipIdx.foldl parseLine {}
  { peers := s.peers, errors := s.errors }

end Form

/-- A string of the form as the backend reads it from the request. -/
def sent (s : Units) : Bytes := Text.encode (decode s)

example : (Form.parseConnectInput (utf16 "\r\n x \n")).errors =
    [⟨2, "<ノード ID>@<アドレス>:<ポート> の形式で入力してください"⟩] := by decide +kernel

/-! ## The patterns -/

section Pattern

variable {α : Type} {isHex isAt inHost isColon isDigit : α → Bool} {n : ℕ} {s : List α}

theorem matches_peer : Regex.Matches (.seq (.times n (.char isHex)) (.seq (.char isAt)
    (.seq (.plus (.char inHost)) (.seq (.char isColon) (.plus (.char isDigit)))))) s ↔
      ∃ id a host c port, s = id ++ a :: (host ++ c :: port) ∧ (id.length = n ∧ ∀ x ∈ id, isHex x = true) ∧
        isAt a = true ∧ (host ≠ [] ∧ ∀ x ∈ host, inHost x = true) ∧ isColon c = true ∧
        (port ≠ [] ∧ ∀ x ∈ port, isDigit x = true) := by
  simp only [Regex.matches_seq, Regex.matches_times_char, Regex.matches_plus_char, Regex.matches_char]
  constructor
  · intro h
    obtain ⟨id, _, hs, hid, _, _, h₁, ⟨a, ha, hat⟩, host, _, h₂, hhost, _, port, h₃, ⟨c, hc, hcolon⟩, hport⟩ := h
    refine ⟨id, a, host, c, port, ?_, hid, hat, hhost, hcolon, hport⟩
    rw [hs, h₁, ha, h₂, h₃, hc]
    rfl
  · intro h
    obtain ⟨id, a, host, c, port, hs, hid, hat, hhost, hcolon, hport⟩ := h
    exact ⟨id, _, hs, hid, [a], _, rfl, ⟨a, rfl, hat⟩, host, _, rfl, hhost, [c], port, rfl, ⟨c, rfl, hcolon⟩, hport⟩

end Pattern

/-- What the form's pattern takes, the backend's takes as well. -/
theorem backend_matches {s : Units} (h : Regex.Matches Form.connectPeerPattern s) :
    Regex.Matches connectPeerPattern (decode s) := by
  obtain ⟨id, a, host, c, port, rfl, ⟨hlen, hid⟩, hat, ⟨hhost, hin⟩, hcolon, ⟨hport, hdigits⟩⟩ := matches_peer.mp h
  rw [beq_iff_eq] at hat hcolon
  have hplain {u : UInt16} (hu : u.toNat < 0x80) : isHigh u = false ∧ isLow u = false := by
    simp only [isHigh, isLow, Bool.and_eq_false_iff, decide_eq_false_iff_not]
    omega
  have hcode {u : UInt16} (hu : u.toNat < 0x80) : (Char.ofNat u.toNat).toNat = u.toNat :=
    toNat_charOfNat (.inl (by omega))
  have hhex {code : ℕ} (hcode : hexDigit code = true) : code < 0x80 := by
    simp only [hexDigit, Bool.or_eq_true, Bool.and_eq_true, decide_eq_true_eq] at hcode
    omega
  have hdigit {code : ℕ} (hcode : digit code = true) : code < 0x80 := by
    simp only [digit, Bool.and_eq_true, decide_eq_true_eq] at hcode
    omega
  have ha : a.toNat < 0x80 := by rw [hat]; decide
  have hc : c.toNat < 0x80 := by rw [hcolon]; decide
  rw [decode_append_cons (hplain ha).1 (hplain ha).2, decode_append_cons (hplain hc).1 (hplain hc).2]
  refine matches_peer.mpr ⟨_, _, _, _, _, rfl, ⟨?_, ?_⟩, ?_, ⟨?_, ?_⟩, ?_, ⟨?_, ?_⟩⟩
  · rw [decode_of_plain fun u hu => hplain (hhex (hid u hu)), List.length_map, hlen]
  · rw [decode_of_plain fun u hu => hplain (hhex (hid u hu))]
    intro x hx
    obtain ⟨u, hu, rfl⟩ := List.mem_map.mp hx
    rw [hcode (hhex (hid u hu))]
    exact hid u hu
  · rw [hcode ha, hat]
    rfl
  · exact fun hnil => hhost (decode_eq_nil.mp hnil)
  · intro x hx
    by_contra hbad
    rw [Bool.and_eq_true, Bool.not_eq_true', bne_iff_ne, not_and_or, Bool.not_eq_false, not_not] at hbad
    have hsmall : x.toNat < 0x80 := by
      rcases hbad with hbad | hbad
      · simp only [goSpace, List.mem_cons, List.not_mem_nil, or_false, decide_eq_true_eq] at hbad
        omega
      · rw [hbad]
        decide
    obtain ⟨u, hu, heq⟩ := mem_decode hsmall hx
    have hgood := hin u hu
    rw [Bool.and_eq_true, Bool.not_eq_true', bne_iff_ne, ← Bool.not_eq_true, heq] at hgood
    rcases hbad with hbad | hbad
    · refine hgood.1 ?_
      simp only [goSpace, isSpace, heq, List.mem_cons, List.not_mem_nil, or_false, decide_eq_true_eq, Bool.or_eq_true]
        at hbad ⊢
      omega
    · exact hgood.2 hbad
  · rw [hcode hc, hcolon]
    rfl
  · exact fun hnil => hport (decode_eq_nil.mp hnil)
  · rw [decode_of_plain fun u hu => hplain (hdigit (hdigits u hu))]
    intro x hx
    obtain ⟨u, hu, rfl⟩ := List.mem_map.mp hx
    rw [hcode (hdigit (hdigits u hu))]
    exact hdigits u hu

theorem mem_encodeChar_ne {u : UInt16} {c : Char} {code : ℕ} (hcode : code < 0x80) (hu : u.toNat = code)
    (h : u ∈ encodeChar c) : c.toNat = code := (mem_encodeChar (hu ▸ hcode) h).trans hu

/-- What the backend's pattern takes, the form's takes as well, but for white space. -/
theorem form_matches {cs : List Char} (h : Regex.Matches connectPeerPattern cs)
    (hspace : ∀ u ∈ Utf16.encode cs, isSpace u = false) :
    Regex.Matches Form.connectPeerPattern (Utf16.encode cs) := by
  obtain ⟨id, a, host, c, port, rfl, ⟨hlen, hid⟩, hat, ⟨hhost, hin⟩, hcolon, ⟨hport, hdigits⟩⟩ := matches_peer.mp h
  rw [beq_iff_eq] at hat hcolon
  have hone {x : Char} (hx : x.toNat < 0x10000) : encodeChar x = [UInt16.ofNat x.toNat] := if_pos hx
  have hhex {code : ℕ} (hcode : hexDigit code = true) : code < 0x10000 := by
    simp only [hexDigit, Bool.or_eq_true, Bool.and_eq_true, decide_eq_true_eq] at hcode
    omega
  have hdigit {code : ℕ} (hcode : digit code = true) : code < 0x10000 := by
    simp only [digit, Bool.and_eq_true, decide_eq_true_eq] at hcode
    omega
  have ha : a.toNat < 0x10000 := by rw [hat]; decide
  have hc : c.toNat < 0x10000 := by rw [hcolon]; decide
  have hsplit : Utf16.encode (id ++ a :: (host ++ c :: port)) = Utf16.encode id ++ UInt16.ofNat a.toNat ::
      (Utf16.encode host ++ UInt16.ofNat c.toNat :: Utf16.encode port) := by
    simp only [Utf16.encode, List.flatMap_append, List.flatMap_cons, hone ha, hone hc, List.singleton_append]
  rw [hsplit] at hspace ⊢
  refine matches_peer.mpr ⟨_, _, _, _, _, rfl, ⟨?_, ?_⟩, ?_, ⟨?_, ?_⟩, ?_, ⟨?_, ?_⟩⟩
  · rw [encode_of_small fun x hx => hhex (hid x hx), List.length_map, hlen]
  · rw [encode_of_small fun x hx => hhex (hid x hx)]
    intro u hu
    obtain ⟨x, hx, rfl⟩ := List.mem_map.mp hu
    rw [Utf16.toNat_ofNat (hhex (hid x hx))]
    exact hid x hx
  · rw [Utf16.toNat_ofNat ha, hat]
    rfl
  · intro hnil
    rw [← decode_eq_nil, decode_encode] at hnil
    exact hhost hnil
  · intro u hu
    have hmem := hspace u (List.mem_append_right _ (List.mem_cons_of_mem _ (List.mem_append_left _ hu)))
    rw [hmem, Bool.not_false, Bool.true_and, bne_iff_ne]
    intro hu'
    obtain ⟨x, hx, hux⟩ := mem_encode.mp hu
    have hgood := hin x hx
    rw [Bool.and_eq_true, bne_iff_ne] at hgood
    exact hgood.2 (mem_encodeChar_ne (by decide) hu' hux)
  · rw [Utf16.toNat_ofNat hc, hcolon]
    rfl
  · intro hnil
    rw [← decode_eq_nil, decode_encode] at hnil
    exact hport hnil
  · rw [encode_of_small fun x hx => hdigit (hdigits x hx)]
    intro u hu
    obtain ⟨x, hx, rfl⟩ := List.mem_map.mp hu
    rw [Utf16.toNat_ofNat (hdigit (hdigits x hx))]
    exact hdigits x hx

theorem firstMalformed_eq {nodes : List Bytes} {i : ℕ} :
    firstMalformed nodes i = "" ↔ ∀ n ∈ nodes, connectPeerPattern.accepts (runes n) = true := by
  induction nodes generalizing i with
  | nil => simp [firstMalformed]
  | cons n rest ih =>
    rw [firstMalformed, List.forall_mem_cons]
    cases hn : connectPeerPattern.accepts (runes n) with
    | true => simp [ih]
    | false => simp

theorem validate_iff {nodes : List Bytes} : validateConnectNodes nodes = "" ↔
    nodes ≠ [] ∧ nodes.length ≤ maxConnectNodes ∧ ∀ n ∈ nodes, connectPeerPattern.accepts (runes n) = true := by
  unfold validateConnectNodes
  split
  · rename_i hempty
    simp [List.eq_nil_of_length_eq_zero hempty]
  · rename_i hempty
    have hne : nodes ≠ [] := fun h => hempty (by rw [h]; rfl)
    split
    · rename_i hlong
      simp
      omega
    · rename_i hlong
      rw [firstMalformed_eq]
      exact ⟨fun h => ⟨hne, by omega, h⟩, fun h => h.2.2⟩

/-! ## Reading the lines -/

namespace Form

/-- A peer that the pattern takes is not turned down for its form. -/
theorem lineError_eq_none {seen : OrderedSet Units} {value : Units} :
    lineError seen value = none ↔ connectPeerPattern.accepts value = true ∧ value ∉ seen.items := by
  unfold lineError
  by_cases hmatch : connectPeerPattern.accepts value = true
  · have hat : (value.any fun u => u.toNat == atSign) = true := by
      obtain ⟨id, a, host, c, port, rfl, -, hat, -⟩ := matches_peer.mp (Regex.accepts_iff.mp hmatch)
      rw [List.any_append, List.any_cons, hat, Bool.true_or, Bool.or_true]
    have hid : nodeIdPattern.accepts value = true := by
      obtain ⟨id, a, host, c, port, rfl, ⟨hlen, hid⟩, hat, -⟩ := matches_peer.mp (Regex.accepts_iff.mp hmatch)
      rw [Regex.accepts_iff, nodeIdPattern, Regex.matches_seq]
      refine ⟨id, _, rfl, Regex.matches_times_char.mpr ⟨hlen, hid⟩, ?_⟩
      exact Regex.matches_seq.mpr ⟨[a], _, rfl, .char hat, Regex.matches_star_char.mpr fun _ _ => rfl⟩
    rw [hat, hid, hmatch]
    by_cases hseen : value ∈ seen.items
    · simp [OrderedSet.has_iff.mpr hseen, hseen]
    · have : seen.has value = false := by
        rw [← Bool.not_eq_true, OrderedSet.has_iff]
        exact hseen
      simp [this, hseen]
  · rw [Bool.not_eq_true] at hmatch
    rw [hmatch]
    cases value.any fun u => u.toNat == atSign with
    | false => simp
    | true =>
      cases nodeIdPattern.accepts value with
      | false => simp
      | true => simp

theorem lineError_ne_tooMany {seen : OrderedSet Units} {value : Units} {message : String}
    (h : lineError seen value = some message) : message ≠ tooManyNodes := by
  unfold lineError at h
  split_ifs at h
  all_goals
    obtain rfl := Option.some.inj h
    decide +kernel

/-- What the state says about the lines that are read. -/
structure LinesRead (done : List (Units × ℕ)) (s : LineState) : Prop where
  count_eq : s.count = (done.filter fun raw => trim raw.1 ≠ []).length
  seen_eq : s.seen.items = s.peers
  valid : ∀ v ∈ s.peers, connectPeerPattern.accepts v = true
  kept : ∃ kept : List (Units × ℕ), kept.Sublist done ∧ s.peers = kept.map (fun raw => trim raw.1) ∧
    ∀ raw ∈ done, trim raw.1 ≠ [] → raw ∈ kept ∨ ∃ e ∈ s.errors, e.line = raw.2 + 1
  tooMany : (∃ e ∈ s.errors, e.message = tooManyNodes) ↔ maxConnectNodes < s.count

theorem linesRead_blank {done : List (Units × ℕ)} {s : LineState} (h : LinesRead done s) {raw : Units × ℕ}
    (hblank : trim raw.1 = []) : LinesRead (done ++ [raw]) s := by
  obtain ⟨kept, hsub, hpeers, hall⟩ := h.kept
  refine ⟨?_, h.seen_eq, h.valid, ⟨kept, hsub.trans (List.sublist_append_left _ _), hpeers, ?_⟩, h.tooMany⟩
  · rw [h.count_eq, List.filter_append]
    simp [hblank]
  · intro r hr hne
    rw [List.mem_append, List.mem_singleton] at hr
    rcases hr with hr | rfl
    · exact hall r hr hne
    · exact absurd hblank hne

/-- The errors after the count of the lines is checked. -/
theorem tooMany_step {s : LineState} (h : (∃ e ∈ s.errors, e.message = tooManyNodes) ↔ maxConnectNodes < s.count)
    (line : ℕ) : (∃ e ∈ if s.count + 1 = maxConnectNodes + 1 then s.errors ++ [⟨line, tooManyNodes⟩] else s.errors,
      e.message = tooManyNodes) ↔ maxConnectNodes < s.count + 1 := by
  split
  · rename_i hcount
    refine ⟨fun _ => by omega, fun _ => ⟨⟨line, tooManyNodes⟩, ?_, rfl⟩⟩
    exact List.mem_append_right _ (List.mem_singleton_self _)
  · rename_i hcount
    rw [h]
    omega

theorem linesRead_step {done : List (Units × ℕ)} {s : LineState} (h : LinesRead done s) (raw : Units × ℕ) :
    LinesRead (done ++ [raw]) (parseLine s raw) := by
  by_cases hblank : trim raw.1 = []
  · have hsame : parseLine s raw = s := by
      rw [parseLine]
      exact if_pos hblank
    rw [hsame]
    exact linesRead_blank h hblank
  · obtain ⟨kept, hsub, hpeers, hall⟩ := h.kept
    have hcount : s.count + 1 = ((done ++ [raw]).filter fun raw => trim raw.1 ≠ []).length := by
      rw [h.count_eq, List.filter_append, List.filter_cons_of_pos (by simpa using hblank)]
      simp
    have htoo := tooMany_step h.tooMany (raw.2 + 1)
    rw [parseLine]
    dsimp only
    rw [if_neg hblank]
    generalize herrors : (if s.count + 1 = maxConnectNodes + 1 then s.errors ++ [⟨raw.2 + 1, tooManyNodes⟩]
      else s.errors) = errors at htoo ⊢
    have hold : ∀ e ∈ s.errors, e ∈ errors := by
      intro e he
      rw [← herrors]
      split
      · exact List.mem_append_left _ he
      · exact he
    cases hline : lineError s.seen (trim raw.1) with
    | some message =>
      refine ⟨hcount, h.seen_eq, h.valid, ⟨kept, hsub.trans (List.sublist_append_left _ _), hpeers, ?_⟩, ?_⟩
      · intro r hr hne
        rw [List.mem_append, List.mem_singleton] at hr
        rcases hr with hr | rfl
        · exact (hall r hr hne).imp_right fun ⟨e, he, hl⟩ => ⟨e, List.mem_append_left _ (hold e he), hl⟩
        · exact .inr ⟨_, List.mem_append_right _ (List.mem_singleton_self _), rfl⟩
      · rw [← htoo]
        constructor
        · intro ⟨e, he, hmessage⟩
          rw [List.mem_append, List.mem_singleton] at he
          rcases he with he | rfl
          · exact ⟨e, he, hmessage⟩
          · exact absurd hmessage (lineError_ne_tooMany hline)
        · exact fun ⟨e, he, hmessage⟩ => ⟨e, List.mem_append_left _ he, hmessage⟩
    | none =>
      obtain ⟨hmatch, hnew⟩ := lineError_eq_none.mp hline
      refine ⟨hcount, ?_, ?_, ⟨kept ++ [raw], hsub.append (List.Sublist.refl _), ?_, ?_⟩, htoo⟩
      · rw [OrderedSet.items_insert_of_not_mem hnew, h.seen_eq]
      · intro v hv
        rw [List.mem_append, List.mem_singleton] at hv
        rcases hv with hv | rfl
        · exact h.valid v hv
        · exact hmatch
      · rw [hpeers, List.map_append, List.map_singleton]
      · intro r hr hne
        rw [List.mem_append, List.mem_singleton] at hr
        rcases hr with hr | rfl
        · exact (hall r hr hne).imp (List.mem_append_left _) fun ⟨e, he, hl⟩ => ⟨e, hold e he, hl⟩
        · exact .inl (List.mem_append_right _ (List.mem_singleton_self _))

theorem linesRead_foldl {lines : List (Units × ℕ)} : ∀ {done : List (Units × ℕ)} {s : LineState}, LinesRead done s →
    LinesRead (done ++ lines) (lines.foldl parseLine s) := by
  induction lines with
  | nil =>
    intro done s h
    rwa [List.append_nil]
  | cons raw lines ih =>
    intro done s h
    rw [List.foldl_cons, List.append_cons]
    exact ih (linesRead_step h raw)

theorem linesRead_all (text : Units) :
    LinesRead (splitLines text).zipIdx ((splitLines text).zipIdx.foldl parseLine {}) := by
  have hstart : LinesRead [] {} := by
    refine ⟨rfl, rfl, fun v hv => absurd hv List.not_mem_nil, ⟨[], ?_⟩, ?_⟩
    · exact ⟨List.Sublist.refl _, rfl, fun raw hraw => absurd hraw List.not_mem_nil⟩
    · exact ⟨fun ⟨e, he, _⟩ => absurd he List.not_mem_nil, fun h => absurd h (Nat.not_lt_zero _)⟩
  exact linesRead_foldl hstart

theorem not_matches_nil : ¬Regex.Matches connectPeerPattern [] := by
  intro h
  obtain ⟨id, a, host, c, port, hnil, -⟩ := matches_peer.mp h
  exact List.append_ne_nil_of_right_ne_nil id (List.cons_ne_nil a _) hnil.symm

/-- Each peer takes a line that is not blank. -/
theorem LinesRead.length_le {done : List (Units × ℕ)} {s : LineState} (h : LinesRead done s) :
    s.peers.length ≤ s.count := by
  obtain ⟨kept, hsub, hpeers, -⟩ := h.kept
  have hkept : kept.filter (fun raw => trim raw.1 ≠ []) = kept := by
    rw [List.filter_eq_self]
    intro raw hraw
    rw [decide_eq_true_eq]
    intro hblank
    have hvalid := h.valid (trim raw.1) (hpeers ▸ List.mem_map_of_mem hraw)
    rw [hblank, Regex.accepts_iff] at hvalid
    exact not_matches_nil hvalid
  rw [hpeers, List.length_map, h.count_eq, ← hkept]
  exact (hsub.filter _).length_le

/-- The lines are counted as the state counts them. -/
theorem count_zipIdx {lines : List Units} {i : ℕ} :
    ((lines.zipIdx i).filter fun raw => trim raw.1 ≠ []).length = (lines.filter fun l => trim l ≠ []).length := by
  rw [← List.zipIdx_map_fst i lines, List.filter_map, List.length_map, List.zipIdx_map_fst]
  rfl

/-! ## A list without white space -/

theorem splitLines_append {l : Units} (h : ∀ u ∈ l, u ≠ lineFeed ∧ u ≠ carriageReturn) (rest : Units) :
    splitLines (l ++ lineFeed :: rest) = l :: splitLines rest := by
  induction l with
  | nil => rw [List.nil_append, splitLines, if_pos rfl]
  | cons u l ih =>
    obtain ⟨hfeed, hreturn⟩ := h u List.mem_cons_self
    rw [List.cons_append, splitLines, ih fun v hv => h v (List.mem_cons_of_mem u hv)]
    simp [hfeed, hreturn]

theorem splitLines_self {l : Units} (h : ∀ u ∈ l, u ≠ lineFeed ∧ u ≠ carriageReturn) : splitLines l = [l] := by
  induction l with
  | nil => rfl
  | cons u l ih =>
    obtain ⟨hfeed, hreturn⟩ := h u List.mem_cons_self
    rw [splitLines, ih fun v hv => h v (List.mem_cons_of_mem u hv)]
    simp [hfeed, hreturn]

theorem splitLines_intercalate {lines : List Units} (hne : lines ≠ [])
    (h : ∀ l ∈ lines, ∀ u ∈ l, u ≠ lineFeed ∧ u ≠ carriageReturn) :
    splitLines ([lineFeed].intercalate lines) = lines := by
  induction lines with
  | nil => exact absurd rfl hne
  | cons l rest ih =>
    have hl := h l List.mem_cons_self
    cases rest with
    | nil => rw [List.intercalate_singleton, splitLines_self hl]
    | cons l' rest =>
      rw [List.intercalate_cons_cons, List.append_assoc, List.singleton_append, splitLines_append hl,
        ih (List.cons_ne_nil l' rest) fun m hm => h m (List.mem_cons_of_mem l hm)]

/-- Distinct peers within the limit are all taken. -/
theorem foldl_parseLine {lines : List Units} : ∀ {i : ℕ} {s : LineState}, s.errors = [] → s.seen.items = s.peers →
    (s.peers ++ lines).Nodup → s.count + lines.length ≤ maxConnectNodes →
    (∀ l ∈ lines, trim l = l ∧ connectPeerPattern.accepts l = true) →
    ((lines.zipIdx i).foldl parseLine s).peers = s.peers ++ lines ∧
      ((lines.zipIdx i).foldl parseLine s).errors = [] := by
  induction lines with
  | nil =>
    intro i s herrors hseen hnodup hcount hlines
    exact ⟨(List.append_nil _).symm, herrors⟩
  | cons l rest ih =>
    intro i s herrors hseen hnodup hcount hlines
    obtain ⟨htrim, hmatch⟩ := hlines l List.mem_cons_self
    have hblank : l ≠ [] := by
      intro hnil
      rw [hnil, Regex.accepts_iff] at hmatch
      exact not_matches_nil hmatch
    have hnew : l ∉ s.seen.items := by
      rw [hseen]
      intro hmem
      exact (List.nodup_append.mp hnodup).2.2 l hmem l List.mem_cons_self rfl
    rw [List.length_cons] at hcount
    have hstep : parseLine s (l, i) =
        { peers := s.peers ++ [l], errors := [], seen := s.seen.insert l, count := s.count + 1 } := by
      rw [parseLine]
      dsimp only
      rw [htrim, if_neg hblank, if_neg (by omega), lineError_eq_none.mpr ⟨hmatch, hnew⟩, herrors]
    rw [List.zipIdx_cons, List.foldl_cons, hstep, List.append_cons s.peers l rest]
    apply ih
    · rfl
    · rw [OrderedSet.items_insert_of_not_mem hnew, hseen]
    · rwa [← List.append_cons]
    · dsimp only
      omega
    · exact fun m hm => hlines m (List.mem_cons_of_mem l hm)

end Form

/-! ## Both sides -/

/-- The form sends nothing that the backend turns down. -/
theorem validate_sent {text : Units} (herrors : (Form.parseConnectInput text).errors = [])
    (hne : (Form.parseConnectInput text).peers ≠ []) :
    validateConnectNodes ((Form.parseConnectInput text).peers.map sent) = "" := by
  have h := Form.linesRead_all text
  rw [validate_iff]
  refine ⟨fun hnil => hne (List.map_eq_nil_iff.mp hnil), ?_, fun n hn => ?_⟩
  · have hcount : ¬Form.maxConnectNodes < ((Form.splitLines text).zipIdx.foldl Form.parseLine {}).count := by
      rw [← h.tooMany]
      intro ⟨e, he, _⟩
      exact absurd (herrors ▸ he : e ∈ []) List.not_mem_nil
    rw [List.length_map]
    exact h.length_le.trans (Nat.le_of_not_lt hcount)
  · obtain ⟨peer, hpeer, rfl⟩ := List.mem_map.mp hn
    rw [sent, runes_encode, Regex.accepts_iff]
    exact backend_matches (Regex.accepts_iff.mp (h.valid peer hpeer))

/-- What the backend takes can be read from the form, line by line. -/
theorem line_of_valid {nodes : List (List Char)} (haccepted : validateConnectNodes (nodes.map Text.encode) = "")
    (hspace : ∀ cs ∈ nodes, ∀ u ∈ Utf16.encode cs, isSpace u = false) {l : Units}
    (hl : l ∈ nodes.map Utf16.encode) : (trim l = l ∧ Form.connectPeerPattern.accepts l = true) ∧
      ∀ u ∈ l, u ≠ Form.lineFeed ∧ u ≠ Form.carriageReturn := by
  obtain ⟨cs, hcs, rfl⟩ := List.mem_map.mp hl
  have hplain := hspace cs hcs
  have hmatch := (validate_iff.mp haccepted).2.2 _ (List.mem_map_of_mem hcs)
  rw [runes_encode, Regex.accepts_iff] at hmatch
  refine ⟨⟨trim_eq_self.mpr ⟨fun h => hplain _ (List.head_mem h), fun h => hplain _ (List.getLast_mem h)⟩, ?_⟩, ?_⟩
  · exact Regex.accepts_iff.mpr (form_matches hmatch hplain)
  · intro u hu
    have hu := hplain u hu
    constructor
    · intro hfeed
      rw [hfeed] at hu
      exact absurd hu (by decide)
    · intro hreturn
      rw [hreturn] at hu
      exact absurd hu (by decide)

/-- What the form sends, it has read from distinct lines and the backend takes. A line that is not blank is a peer
or has an error, and there is an error about their number if there are too many. A list that the backend takes can
be written into the form, if its entries are distinct and without white space. -/
theorem form_agrees_with_backend :
    (∀ text : Units, let parsed := Form.parseConnectInput text
      (parsed.errors = [] → parsed.peers ≠ [] → validateConnectNodes (parsed.peers.map sent) = "") ∧
      parsed.peers.Nodup ∧ (∀ peer ∈ parsed.peers, trim peer = peer) ∧
      (∃ kept : List (Units × ℕ), kept.Sublist (Form.splitLines text).zipIdx ∧
        parsed.peers = kept.map (fun raw => trim raw.1) ∧
        ∀ raw ∈ (Form.splitLines text).zipIdx, trim raw.1 ≠ [] →
          raw ∈ kept ∨ ∃ e ∈ parsed.errors, e.line = raw.2 + 1) ∧
      ((∃ e ∈ parsed.errors, e.message = Form.tooManyNodes) ↔
        Form.maxConnectNodes < ((Form.splitLines text).filter fun l => trim l ≠ []).length)) ∧
    ∀ nodes : List (List Char), validateConnectNodes (nodes.map Text.encode) = "" → nodes.Nodup →
      (∀ cs ∈ nodes, ∀ u ∈ Utf16.encode cs, isSpace u = false) →
      Form.parseConnectInput ([Form.lineFeed].intercalate (nodes.map Utf16.encode)) =
        { peers := nodes.map Utf16.encode, errors := [] } := by
  refine ⟨fun text => ?_, fun nodes haccepted hnodup hspace => ?_⟩
  · have h := Form.linesRead_all text
    obtain ⟨kept, hsub, hpeers, hall⟩ := h.kept
    refine ⟨validate_sent, ?_, fun peer hpeer => ?_, ⟨kept, hsub, hpeers, hall⟩, ?_⟩
    · rw [Form.parseConnectInput, ← h.seen_eq]
      exact OrderedSet.nodup _
    · have hmem : peer ∈ kept.map fun raw => trim raw.1 := hpeers ▸ hpeer
      obtain ⟨raw, -, rfl⟩ := List.mem_map.mp hmem
      exact trim_trim raw.1
    · rw [← Form.count_zipIdx (i := 0), ← h.count_eq]
      exact h.tooMany
  · have hread {l : Units} := line_of_valid (l := l) haccepted hspace
    obtain ⟨hne, hlength, -⟩ := validate_iff.mp haccepted
    have hsplit := Form.splitLines_intercalate (fun hnil => hne (by simpa using hnil)) fun l hl => (hread hl).2
    have hlength : 0 + (nodes.map Utf16.encode).length ≤ Form.maxConnectNodes := by
      rw [List.length_map] at hlength ⊢
      rw [Nat.zero_add]
      exact hlength
    obtain ⟨hpeers, herrors⟩ := Form.foldl_parseLine (i := 0) (s := {}) rfl rfl
      (hnodup.map encode_injective) hlength fun l hl => (hread hl).1
    rw [Form.parseConnectInput, hsplit, hpeers, herrors]
    rfl

end GarageConsole.Cluster
