import GarageConsole.Foundations.GoJson

/-! # A cache whose entries expire

`ttlCache`: each operation takes the lock, so it is one step. Times are nanoseconds.
-/

namespace GarageConsole.Lists

open Foundations.GoJson

set_option autoImplicit false

variable {α : Type}

def listInfoCacheTTL : ℕ := 15000000000

structure TtlEntry (α : Type) where
  val : α
  expires : ℕ

structure TtlCache (α : Type) where
  entries : GoMap (TtlEntry α) := .empty
  ttl : ℕ := 0

namespace TtlCache

def get (c : TtlCache α) (now : ℕ) (key : String) : Option α :=
  match c.entries.get key with
  | some e => if e.expires < now then none else some e.val
  | none => none

def put (c : TtlCache α) (now : ℕ) (key : String) (val : α) : TtlCache α :=
  { c with entries := c.entries.set key ⟨val, now + if c.ttl = 0 then listInfoCacheTTL else c.ttl⟩ }

def purgeExpired (c : TtlCache α) (now : ℕ) : TtlCache α :=
  { c with entries := c.entries.filter fun entry => ¬entry.2.expires < now }

def clear (c : TtlCache α) : TtlCache α := { c with entries := .empty }

/-- Some entry, expired or not, has this value. -/
def Holds (c : TtlCache α) (v : α) : Prop := ∃ entry ∈ c.entries.entries, entry.2.val = v

theorem holds_of_get {c : TtlCache α} {now : ℕ} {key : String} {v : α} (h : c.get now key = some v) : c.Holds v := by
  rw [get] at h
  cases hget : c.entries.get key with
  | none =>
    rw [hget] at h
    cases h
  | some e =>
    rw [hget] at h
    dsimp only at h
    split_ifs at h
    exact ⟨(key, e), (GoMap.mem_entries_iff _).mpr hget, Option.some.inj h⟩

theorem holds_put {c : TtlCache α} {now : ℕ} {key : String} {v w : α} (h : (c.put now key v).Holds w) :
    w = v ∨ c.Holds w := by
  obtain ⟨entry, hmem, rfl⟩ := h
  rcases GoMap.mem_entries_set hmem with rfl | hmem
  · exact .inl rfl
  · exact .inr ⟨entry, hmem, rfl⟩

theorem holds_purgeExpired {c : TtlCache α} {now : ℕ} {v : α} (h : (c.purgeExpired now).Holds v) : c.Holds v := by
  obtain ⟨entry, hmem, rfl⟩ := h
  exact ⟨entry, List.mem_of_mem_filter hmem, rfl⟩

theorem not_holds_clear (c : TtlCache α) (v : α) : ¬c.clear.Holds v := by
  rintro ⟨entry, hmem, -⟩
  exact absurd hmem List.not_mem_nil

end TtlCache

end GarageConsole.Lists
