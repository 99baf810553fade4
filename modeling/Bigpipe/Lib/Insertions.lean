import Mathlib.Data.List.AList
import Mathlib.Data.List.Induction

/-!
# `Bigpipe.Lib.Insertions`: tables that are filled by insertions

A table is described by the list of the insertions that fill it. A
later insertion under a key takes the place of an earlier one.

The list is more than the table: it still has the entries that were
replaced. That is why readers of a file are described by it. What a
file says twice is in the list twice, and the table shows only the
last of them, so a statement about "every entry of the file" and one
about "every entry of the table" are different statements.

* `lastOf_concat`: the value under a key after one more insertion.
* `lastOf_of_mem`, `lastOf_perm`: where the keys are different, every
  value is found, and the order means nothing.
* `lookup_insertAll`: the list describes the table that the insertions
  fill.
-/

set_option autoImplicit false

namespace Bigpipe.Lib

variable {κ β γ : Type} [DecidableEq κ]

/-- The value that was inserted last under the key. It is the first
one from the back of the list. -/
def lastOf (key : κ) (entries : List (κ × β)) : Option β :=
  entries.reverse.lookup key

/-- The last insertion wins. -/
theorem lastOf_concat (key : κ) (entries : List (κ × β)) (entry : κ × β) :
    lastOf key (entries ++ [entry]) =
      if key = entry.1 then some entry.2 else lastOf key entries := by
  obtain ⟨k, value⟩ := entry
  rw [lastOf, List.reverse_append, List.reverse_singleton, List.singleton_append,
    List.lookup_cons]
  by_cases h : key = k
  · simp [h]
  · rw [beq_false_of_ne h, if_neg h]
    rfl

/-- A value that is found is one of the entries. -/
theorem mem_of_lastOf {key : κ} {entries : List (κ × β)} {value : β}
    (h : lastOf key entries = some value) : (key, value) ∈ entries := by
  induction entries using List.reverseRecOn with
  | nil => cases h
  | append_singleton entries entry ih =>
      rw [lastOf_concat] at h
      by_cases hkey : key = entry.1
      · rw [if_pos hkey] at h
        cases h
        simp [hkey]
      · rw [if_neg hkey] at h
        exact List.mem_append_left _ (ih h)

/-- With different keys every value is found. Without that, a value
may have been replaced by a later one. -/
theorem lastOf_of_mem {key : κ} {entries : List (κ × β)} {value : β}
    (hkeys : (entries.map Prod.fst).Nodup) (h : (key, value) ∈ entries) :
    lastOf key entries = some value := by
  induction entries using List.reverseRecOn with
  | nil => cases h
  | append_singleton entries entry ih =>
      rw [List.map_append, List.map_singleton, List.nodup_append] at hkeys
      obtain ⟨hentries, -, hnew⟩ := hkeys
      rw [lastOf_concat]
      rcases List.mem_append.mp h with hmem | hmem
      · have hne : key ≠ entry.1 := hnew key (List.mem_map_of_mem hmem) entry.1 List.mem_cons_self
        rw [if_neg hne]
        exact ih hentries hmem
      · cases List.mem_singleton.mp hmem
        rw [if_pos rfl]

/-- There is a value exactly under the keys of the entries. -/
theorem lastOf_ne_none_iff {key : κ} {entries : List (κ × β)} :
    lastOf key entries ≠ none ↔ key ∈ entries.map Prod.fst := by
  induction entries using List.reverseRecOn with
  | nil => exact iff_of_false (fun h => h rfl) List.not_mem_nil
  | append_singleton entries entry ih =>
      rw [lastOf_concat, List.map_append, List.map_singleton, List.mem_append,
        List.mem_singleton]
      by_cases hkey : key = entry.1
      · rw [if_pos hkey]
        exact iff_of_true nofun (.inr hkey)
      · rw [if_neg hkey, ih, or_iff_left hkey]

/-- Different keys may be inserted in any order, so a reader may keep
them in a hash table. -/
theorem lastOf_perm {entries entries' : List (κ × β)} (hkeys : (entries.map Prod.fst).Nodup)
    (h : entries.Perm entries') (key : κ) : lastOf key entries = lastOf key entries' := by
  have hkeys' : (entries'.map Prod.fst).Nodup := (h.map Prod.fst).nodup_iff.mp hkeys
  cases hvalue : lastOf key entries with
  | some value => exact (lastOf_of_mem hkeys' (h.mem_iff.mp (mem_of_lastOf hvalue))).symm
  | none =>
      by_contra hne
      have hmem := lastOf_ne_none_iff.mp (Ne.symm hne)
      exact lastOf_ne_none_iff.mpr ((h.map Prod.fst).mem_iff.mpr hmem) hvalue

/-- Values that are changed before they are inserted. -/
theorem lastOf_map (f : β → γ) (key : κ) (entries : List (κ × β)) :
    lastOf key (entries.map fun entry => (entry.1, f entry.2)) =
      (lastOf key entries).map f := by
  induction entries using List.reverseRecOn with
  | nil => rfl
  | append_singleton entries entry ih =>
      rw [List.map_append, List.map_singleton, lastOf_concat, lastOf_concat, ih]
      split <;> rfl

/-- The table after the insertions, in the order of the list, from the
empty table on. -/
def insertAll (entries : List (κ × β)) : AList fun _ : κ => β :=
  entries.foldl (fun table entry => table.insert entry.1 entry.2) ∅

/-- One more insertion. -/
theorem insertAll_concat (entries : List (κ × β)) (entry : κ × β) :
    insertAll (entries ++ [entry]) = (insertAll entries).insert entry.1 entry.2 := by
  rw [insertAll, List.foldl_append, List.foldl_cons, List.foldl_nil]
  rfl

/-- It has the values that were inserted last, and no others. -/
theorem lookup_insertAll (key : κ) (entries : List (κ × β)) :
    (insertAll entries).lookup key = lastOf key entries := by
  induction entries using List.reverseRecOn with
  | nil => exact AList.lookup_empty key
  | append_singleton entries entry ih =>
      rw [insertAll_concat, lastOf_concat]
      by_cases hkey : key = entry.1
      · rw [if_pos hkey, hkey]
        exact AList.lookup_insert _
      · rw [if_neg hkey, AList.lookup_insert_ne hkey]
        exact ih

end Bigpipe.Lib
