import Mathlib.Data.List.Basic

/-!
# `Bigpipe.Lib.MultiMap`: keys with several values

A map from keys to lists of values, where adding under a key that is
there appends a value. Keys are compared by what `norm` makes of them,
so one entry may serve several spellings of a key. The entry keeps the
spelling that came first.

Nothing is ever replaced: what was added first under a key stays
first, and a later addition cannot take it away. That is the
difference to a map with one value for each key.

* `MultiMap.values_add`, `MultiMap.values_addAll`: the values under a
  key after one addition and after a list of them.
-/

set_option autoImplicit false

namespace Bigpipe.Lib

/-- The keys in the order of their first additions, each with its
values. -/
abbrev MultiMap (κ β : Type) := List (κ × List β)

namespace MultiMap

variable {κ ν β : Type} [DecidableEq ν] (norm : κ → ν)

/-- Adds a value under a key. The entry of a key that is there stays
in its place and keeps its spelling, and a new key comes last. -/
def add (m : MultiMap κ β) (key : κ) (value : β) : MultiMap κ β :=
  match m with
  | [] => [(key, [value])]
  | (k, values) :: rest =>
    if norm k = norm key then (k, values ++ [value]) :: rest
    else (k, values) :: add rest key value

/-- Adds the values of a list in its order. -/
def addAll (m : MultiMap κ β) (entries : List (κ × β)) : MultiMap κ β :=
  entries.foldl (fun m entry => add norm m entry.1 entry.2) m

/-- The values under a key, in the order in which they were added. A
key that was never added has none. -/
def values (m : MultiMap κ β) (key : κ) : List β :=
  match m with
  | [] => []
  | (k, vs) :: rest => if norm k = norm key then vs else values rest key

/-- An addition appends to the values under its own key. -/
theorem values_add (m : MultiMap κ β) (k : κ) (value : β) (key : κ) :
    values norm (add norm m k value) key =
      values norm m key ++ if norm k = norm key then [value] else [] := by
  induction m with
  | nil =>
      show (if norm k = norm key then [value] else []) = _
      rw [values, List.nil_append]
  | cons entry rest ih =>
      obtain ⟨k', vs⟩ := entry
      by_cases hk : norm k' = norm k
      · -- The value joins the entry of this key.
        rw [add, if_pos hk, values, values, ← hk]
        split <;> simp
      · rw [add, if_neg hk, values, values, ih]
        by_cases hkey : norm k' = norm key
        · have hne : norm k ≠ norm key := by
            intro heq
            exact hk (hkey.trans heq.symm)
          simp [hkey, hne]
        · simp [hkey]

/-- A list of additions appends the values that it has under the key,
in the order of the list and under whatever spelling. -/
theorem values_addAll (m : MultiMap κ β) (entries : List (κ × β)) (key : κ) :
    values norm (addAll norm m entries) key =
      values norm m key ++ (entries.filter fun entry => norm entry.1 = norm key).map Prod.snd := by
  induction entries generalizing m with
  | nil => exact (List.append_nil _).symm
  | cons entry rest ih =>
      show values norm (addAll norm (add norm m entry.1 entry.2) rest) key = _
      rw [ih, values_add, List.filter_cons, List.append_assoc]
      by_cases hkey : norm entry.1 = norm key <;> simp [hkey]

end MultiMap

end Bigpipe.Lib
