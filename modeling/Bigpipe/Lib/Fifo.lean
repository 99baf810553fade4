import Bigpipe.Lib.Monitor

/-!
# `Bigpipe.Lib.Fifo`: monitors that hand items on in order

The data of a monitor holds a list of items. A call may bring one item
and its result may hand one out. Where each body appends what it is
given and hands out the head, the monitor is a FIFO under every
schedule.

The order is that of the lock sections, and not that in which the
threads called. Nothing is said about when a thread that called first
gets the mutex. What is said is stronger than a count: no item is
lost, doubled or overtaken on its way through the list.

* `Conserves`: what the bodies do to the items.
* `Sequential.fifo`: the items handed out by a sequential run,
  followed by the items still held, are the items brought.
* `Reachable.fifo`: the same in every reachable state, in lock order.
-/

set_option autoImplicit false

namespace Bigpipe.Lib.Monitor

variable {τ σ κ μ ρ α : Type}

/-- The items that the calls of a history brought, in lock order. -/
def brought (give : μ → Option α) (hist : List (Done τ μ ρ)) : List α :=
  hist.filterMap fun c => give c.call

/-- The items that the calls of a history handed out, in lock
order. -/
def handedOut (got : ρ → Option α) (hist : List (Done τ μ ρ)) : List α :=
  hist.filterMap fun c => got c.result

@[simp] theorem brought_snoc (give : μ → Option α) (hist : List (Done τ μ ρ)) (c : Done τ μ ρ) :
    brought give (hist ++ [c]) = brought give hist ++ (give c.call).toList := by
  unfold brought
  rw [List.filterMap_append]
  cases h : give c.call <;> simp [h]

@[simp] theorem handedOut_snoc (got : ρ → Option α) (hist : List (Done τ μ ρ))
    (c : Done τ μ ρ) :
    handedOut got (hist ++ [c]) = handedOut got hist ++ (got c.result).toList := by
  unfold handedOut
  rw [List.filterMap_append]
  cases h : got c.result <;> simp [h]

/-- A body hands out the head of the items and appends the item it is
given. A body that does neither leaves the items as they are, since
both lists are empty then. -/
structure Conserves (M : Monitor σ κ μ ρ) (items : σ → List α) (give : μ → Option α)
    (got : ρ → Option α) : Prop where
  init : items M.init = []
  body : ∀ m d d' r sig, (M.method m).ready d = true → (M.method m).body d = some (d', r, sig) →
    (got r).toList ++ items d' = items d ++ (give m).toList

variable {M : Monitor σ κ μ ρ} {items : σ → List α} {give : μ → Option α} {got : ρ → Option α}

/-- The rule for sequential runs: the items handed out, followed by
the items still held, are the items brought. -/
theorem Sequential.fifo {hist : List (Done τ μ ρ)} {d : σ} (hM : Conserves M items give got)
    (h : Sequential M hist d) : handedOut got hist ++ items d = brought give hist := by
  induction h with
  | nil => exact hM.init
  | @snoc hist d d' t m r sig _ hready hbody ih =>
      rw [handedOut_snoc, brought_snoc, List.append_assoc, hM.body m d d' r sig hready hbody,
        ← List.append_assoc, ih]

/-- In every reachable state, whatever the threads call and however
they are scheduled. The completed calls are a sequential run, so the
rule for these is all that is needed. -/
theorem Reachable.fifo [DecidableEq κ] [DecidableEq τ] [Fintype τ] {s : State τ σ μ ρ}
    (hM : Conserves M items give got) (h : (M.system τ).Reachable s) :
    handedOut got s.hist ++ items s.data = brought give s.hist :=
  Sequential.fifo hM (Reachable.sequential h)

end Bigpipe.Lib.Monitor
