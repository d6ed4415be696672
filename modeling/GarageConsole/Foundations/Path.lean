import Mathlib.Data.List.DropRight
import Mathlib.Data.List.Induction
import GarageConsole.Foundations.Separated
import GarageConsole.Foundations.Text

/-! # Cleaning rooted paths

`clean` is `path.Clean` for a path that begins with a slash: the path is cut at its slashes, `resolve`
drops empty and `.` segments and lets every `..` take away the segment before it, and what is left is
joined again. A `..` at the root takes away nothing.
-/

namespace Foundations.Path

open Text

set_option autoImplicit false

def slash : UInt8 := 0x2F

def dot : Bytes := [0x2E]

def dotdot : Bytes := [0x2E, 0x2E]

/-- The kept segments, the last one first, after one more segment. -/
def keep (kept : List Bytes) (s : Bytes) : List Bytes :=
  if s = [] ∨ s = dot then kept
  else if s = dotdot then kept.tail
  else s :: kept

def resolve (segments : List Bytes) : List Bytes := (segments.foldl keep []).reverse

def segments (p : Bytes) : List Bytes := p.splitOn slash

def joined (ss : List Bytes) : Bytes := [slash].intercalate ss

def clean (p : Bytes) : Bytes := slash :: joined (resolve (segments p))

/-! ## Segments -/

theorem slash_not_mem_of_mem_segments {p s : Bytes} (h : s ∈ segments p) : slash ∉ s :=
  Separated.not_mem_of_mem_splitOn h

theorem joined_segments (p : Bytes) : joined (segments p) = p := List.intercalate_splitOn slash

theorem segments_joined {ss : List Bytes} (hss : ∀ s ∈ ss, slash ∉ s) (hne : ss ≠ []) : segments (joined ss) = ss :=
  List.splitOn_intercalate slash hss hne

@[simp] theorem segments_slash_cons (p : Bytes) : segments (slash :: p) = [] :: segments p := by
  rw [segments, List.splitOn_cons_eq_if_modifyHead, if_pos (beq_self_eq_true slash), segments]

@[simp] theorem segments_append_slash (p : Bytes) : segments (p ++ [slash]) = segments p ++ [[]] := by
  rw [segments, List.splitOn_append_cons_self, List.splitOn_nil, segments]

theorem mem_joined {b : UInt8} : ∀ {ss : List Bytes}, b ∈ joined ss → b = slash ∨ ∃ s ∈ ss, b ∈ s
  | [], h => by simp [joined] at h
  | [s], h => by
      rw [joined, List.intercalate_singleton] at h
      exact .inr ⟨s, List.mem_singleton_self s, h⟩
  | s :: t :: ss, h => by
      rw [joined, List.intercalate_cons_cons, List.append_assoc] at h
      rcases List.mem_append.mp h with h | h
      · exact .inr ⟨s, List.mem_cons_self, h⟩
      · rcases List.mem_cons.mp h with h | h
        · exact .inl h
        · rcases mem_joined (show b ∈ joined (t :: ss) from h) with h | ⟨u, hu, hb⟩
          · exact .inl h
          · exact .inr ⟨u, List.mem_cons_of_mem _ hu, hb⟩

theorem mem_joined_of_mem {b : UInt8} {s : Bytes} (hb : b ∈ s) : ∀ {ss : List Bytes}, s ∈ ss → b ∈ joined ss
  | [], hs => absurd hs List.not_mem_nil
  | [t], hs => by
      obtain rfl := List.mem_singleton.mp hs
      rwa [joined, List.intercalate_singleton]
  | t :: u :: ss, hs => by
      rw [joined, List.intercalate_cons_cons, List.append_assoc]
      rcases List.mem_cons.mp hs with rfl | hs
      · exact List.mem_append_left _ hb
      · have hrest : b ∈ joined (u :: ss) := mem_joined_of_mem hb hs
        exact List.mem_append_right _ (List.mem_cons_of_mem _ hrest)

theorem mem_of_mem_segments {b : UInt8} {p s : Bytes} (hs : s ∈ segments p) (hb : b ∈ s) : b ∈ p := by
  rw [← joined_segments p]
  exact mem_joined_of_mem hb hs

theorem takeWhile_joined {s : Bytes} {ss : List Bytes} (hs : slash ∉ s) :
    (joined (s :: ss)).takeWhile (· ≠ slash) = s := by
  cases ss with
  | nil => rw [joined, List.intercalate_singleton, takeWhile_ne hs]
  | cons t ss =>
    rw [joined, List.intercalate_cons_cons, List.append_assoc]
    exact takeWhile_ne_append_cons hs _

theorem joined_concat (ss : List Bytes) (s : Bytes) : joined (ss ++ [s]) = ss.flatMap (· ++ [slash]) ++ s := by
  induction ss with
  | nil => exact List.intercalate_singleton
  | cons t ss ih =>
    obtain ⟨u, us, hus⟩ : ∃ u us, ss ++ [s] = u :: us := List.exists_cons_of_ne_nil (by simp)
    rw [List.cons_append, hus, joined, List.intercalate_cons_cons, ← hus, List.flatMap_cons, List.append_assoc,
      List.append_assoc, ← ih, joined, List.append_assoc]

/-! ## Directory, file name and extension -/

/-- `path.Split`: up to the last slash, and what follows it. -/
def split (p : Bytes) : Bytes × Bytes :=
  let file := afterLast slash p
  (p.take (p.length - file.length), file)

/-- `path.Ext`: the file name from its last dot. -/
def ext (p : Bytes) : Bytes :=
  let file := afterLast slash p
  if 0x2E ∈ file then 0x2E :: afterLast 0x2E file else []

/-- `path.Base`: the last segment, after the slashes at the end. -/
def base (p : Bytes) : Bytes :=
  if p = [] then dot
  else
    let file := afterLast slash (p.rdropWhile (· = slash))
    if file = [] then [slash] else file

theorem split_joined_concat {ss : List Bytes} {s : Bytes} (hs : slash ∉ s) :
    split (joined (ss ++ [s])) = (ss.flatMap (· ++ [slash]), s) := by
  have hfile : afterLast slash (joined (ss ++ [s])) = s := by
    rw [joined_concat]
    cases ss using List.reverseRecOn with
    | nil => exact afterLast_of_not_mem hs
    | append_singleton ss t =>
      rw [List.flatMap_append, List.flatMap_singleton, ← List.append_assoc, List.append_assoc, List.singleton_append,
        afterLast_append_cons hs]
  rw [split, hfile, joined_concat, List.length_append, Nat.add_sub_cancel, List.take_left]

theorem ext_suffix {s : Bytes} (hs : slash ∉ s) : ext s <:+ s := by
  rw [ext, afterLast_of_not_mem hs]
  split_ifs with hdot
  · obtain ⟨a, ha⟩ := exists_eq_append_afterLast hdot
    exact ⟨a, ha.symm⟩
  · exact List.nil_suffix

/-! ## Resolving -/

def Plain (s : Bytes) : Prop := s ≠ [] ∧ s ≠ dot ∧ s ≠ dotdot

theorem foldl_keep_plain : ∀ {ss kept : List Bytes}, (∀ s ∈ kept, Plain s) → ∀ s ∈ ss.foldl keep kept, Plain s
  | [], _, hkept => hkept
  | t :: ss, kept, hkept => by
      show ∀ s ∈ ss.foldl keep (keep kept t), Plain s
      apply foldl_keep_plain
      rw [keep]
      split_ifs with hskip hup
      · exact hkept
      · exact fun s hs => hkept s (List.mem_of_mem_tail hs)
      · intro s hs
        rcases List.mem_cons.mp hs with rfl | hs
        · exact ⟨(not_or.mp hskip).1, (not_or.mp hskip).2, hup⟩
        · exact hkept s hs

theorem plain_of_mem_resolve {ss : List Bytes} {s : Bytes} (h : s ∈ resolve ss) : Plain s :=
  @foldl_keep_plain ss [] (fun _ h => absurd h List.not_mem_nil) s (List.mem_reverse.mp h)

theorem foldl_keep_sublist : ∀ (ss kept : List Bytes), (ss.foldl keep kept).reverse.Sublist (kept.reverse ++ ss)
  | [], kept => by simp
  | t :: ss, kept => by
      have hkeep : (keep kept t).reverse.Sublist (kept.reverse ++ [t]) := by
        rw [keep]
        split_ifs
        · exact List.sublist_append_left _ _
        · exact (List.reverse_sublist.mpr (List.tail_sublist kept)).trans (List.sublist_append_left _ _)
        · rw [List.reverse_cons]
      calc ((t :: ss).foldl keep kept).reverse
          List.Sublist _ ((keep kept t).reverse ++ ss) := foldl_keep_sublist ss (keep kept t)
          List.Sublist _ (kept.reverse ++ [t] ++ ss) := hkeep.append_right ss
          _ = kept.reverse ++ t :: ss := List.append_cons _ _ _ |>.symm

/-- What is left are some of the segments, in order. -/
theorem resolve_sublist (ss : List Bytes) : (resolve ss).Sublist ss := foldl_keep_sublist ss []

@[simp] theorem resolve_nil_cons (ss : List Bytes) : resolve ([] :: ss) = resolve ss := rfl

@[simp] theorem resolve_append_nil (ss : List Bytes) : resolve (ss ++ [[]]) = resolve ss := by
  rw [resolve, List.foldl_append]
  rfl

/-! ## Clean paths -/

theorem mem_clean {b : UInt8} {p : Bytes} (h : b ∈ clean p) : b = slash ∨ b ∈ p := by
  rcases List.mem_cons.mp h with rfl | h
  · exact .inl rfl
  · rcases mem_joined h with h | ⟨s, hs, hb⟩
    · exact .inl h
    · exact .inr (mem_of_mem_segments ((resolve_sublist _).subset hs) hb)

theorem clean_eq_cons (p : Bytes) : ∃ t, clean p = slash :: t ∧ t.head? ≠ some slash := by
  refine ⟨_, rfl, ?_⟩
  cases hss : resolve (segments p) with
  | nil => simp [joined]
  | cons s ss =>
    have hmem : s ∈ resolve (segments p) := hss ▸ List.mem_cons_self
    have hs := slash_not_mem_of_mem_segments ((resolve_sublist _).subset hmem)
    cases s with
    | nil => exact absurd rfl (plain_of_mem_resolve hmem).1
    | cons b s =>
      have hb : b ≠ slash := fun h => hs (h ▸ List.mem_cons_self)
      cases ss with
      | nil => simpa [joined] using hb
      | cons u ss => simpa [joined, List.intercalate_cons_cons] using hb

/-- A clean path is `/x`, or below it, exactly when `x` is its first segment. -/
theorem under_iff {x p : Bytes} (hne : x ≠ []) (hx : slash ∉ x) :
    (clean p = slash :: x ∨ slash :: x ++ [slash] <+: clean p) ↔ (resolve (segments p)).head? = some x := by
  rw [clean, List.cons_append, List.cons_prefix_cons, List.cons_inj_right]
  constructor
  · intro h
    -- either way the joined segments begin with `x` and then end or go on with a slash
    have hfirst : (joined (resolve (segments p))).takeWhile (· ≠ slash) = x := by
      rcases h with h | ⟨-, t, h⟩
      · rw [h, takeWhile_ne hx]
      · rw [← h, List.append_assoc]
        exact takeWhile_ne_append_cons hx t
    cases hss : resolve (segments p) with
    | nil =>
      rw [hss] at hfirst
      exact absurd hfirst.symm hne
    | cons s ss =>
      have hs : slash ∉ s := slash_not_mem_of_mem_segments ((resolve_sublist _).subset (hss ▸ List.mem_cons_self))
      rw [hss, takeWhile_joined hs] at hfirst
      rw [hfirst, List.head?_cons]
  · intro h
    obtain ⟨ss, hss⟩ := List.head?_eq_some_iff.mp h
    rw [hss]
    cases ss with
    | nil => exact .inl List.intercalate_singleton
    | cons t ss =>
      refine .inr ⟨rfl, joined (t :: ss), ?_⟩
      rw [joined, joined, List.intercalate_cons_cons]

example : clean (bytes "/a//b/./../c/") = bytes "/a/c" := by decide
example : clean (bytes "/../..") = bytes "/" := by decide

end Foundations.Path
