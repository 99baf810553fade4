import Mathlib.Algebra.BigOperators.Group.Finset.Basic
import Mathlib.Algebra.Order.BigOperators.Group.Finset

/-!
# `Bigpipe.Lib.Parties`: what the parties of a system have together

The parties are a finite type, and each has something that can be
added up: the tasks that a worker holds, say, as a multiset, or the
steps that a thread still has ahead, as a number. A step moves one of
them, so the sum changes by what that one party gains and loses.

There is no subtraction of multisets or of naturals to rely on. The
equations therefore have the old term on the side of the new sum and
the new term on the side of the old one.

* `sum_replace`: the sum after one party has changed.
* `sum_move`: the same where a function of the party is updated.
* `le_sum` and `exists_of_sum_pos`: a party has no more than all
  together, and where they have something one of them does.
-/

set_option autoImplicit false

namespace Bigpipe.Lib

/-- Two sums that differ in one term. Each side adds the term that the
other side has in its sum. -/
theorem sum_replace {ι M : Type} [Fintype ι] [DecidableEq ι] [AddCommMonoid M] {f g : ι → M}
    (i : ι) (h : ∀ j, j ≠ i → g j = f j) : ∑ j, g j + f i = ∑ j, f j + g i := by
  have hrest : ∑ j ∈ Finset.univ.erase i, g j = ∑ j ∈ Finset.univ.erase i, f j :=
    Finset.sum_congr rfl fun j hj => h j (Finset.ne_of_mem_erase hj)
  rw [← Finset.add_sum_erase _ g (Finset.mem_univ i),
    ← Finset.add_sum_erase _ f (Finset.mem_univ i), hrest]
  exact add_right_comm _ _ _ |>.trans (by rw [add_comm (g i), add_right_comm])

/-- The sum after one party has moved. `f` is what a party has in its
state, and `x` is the state that the party `i` moves to. -/
theorem sum_move {ι S M : Type} [Fintype ι] [DecidableEq ι] [AddCommMonoid M] (f : S → M)
    (state : ι → S) (i : ι) (x : S) :
    ∑ j, f (Function.update state i x j) + f (state i) = ∑ j, f (state j) + f x := by
  have h := sum_replace (f := fun j => f (state j)) (g := fun j => f (Function.update state i x j))
    i fun j hj => by rw [Function.update_of_ne hj]
  rw [Function.update_self] at h
  exact h

/-- A party has no more than all together. -/
theorem le_sum {ι : Type} [Fintype ι] (f : ι → Nat) (i : ι) : f i ≤ ∑ j, f j :=
  Finset.single_le_sum (fun _ _ => Nat.zero_le _) (Finset.mem_univ i)

/-- Where the parties have something together, one of them has
something. -/
theorem exists_of_sum_pos {ι : Type} [Fintype ι] {f : ι → Nat} (h : 0 < ∑ i, f i) :
    ∃ i, f i ≠ 0 := by
  obtain ⟨i, -, hi⟩ := Finset.exists_ne_zero_of_sum_ne_zero (Nat.pos_iff_ne_zero.mp h)
  exact ⟨i, hi⟩

end Bigpipe.Lib
