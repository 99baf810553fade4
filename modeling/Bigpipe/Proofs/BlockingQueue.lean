import Bigpipe.Base.BlockingQueue
import Bigpipe.Lib.Announce

/-!
# `Bigpipe.Proofs.BlockingQueue`: order and wake-ups of the unbounded queue

The results hold for any threads that call any methods of one queue,
in every schedule.

Both `put`s notify `cond_` on every item, so each item that is put
while somebody sleeps brings a taker along, and the law of
`Bigpipe.Lib.Announce` applies as it stands. An overtaker may take the
item before the notified taker does. That taker then sleeps again,
with nothing left behind for it. Compare
`Bigpipe.Proofs.BoundedBlockingQueue`, where the notification of the
second of two items is saved.

* `conserves_queue`: each body keeps the items in order, so the queue
  is a FIFO (`Monitor.Reachable.fifo`).
* `announces_cond`: `cond_` announces the items, since both `put`s
  notify it on every item.
* `losesNothing`: the queue loses neither items nor wake-ups.
* `not_aborted`: the assertion of `take` holds.
-/

set_option autoImplicit false

namespace Bigpipe.BlockingQueue

open Bigpipe.Lib
open Bigpipe.Lib.Monitor (AsleepOn NotifiedOn Announces Conserves)

variable {τ α : Type}

/-- A `put` appends its item, a `take` removes the head, and `size`
leaves the items alone. -/
theorem conserves_queue : Conserves (queue α) id Call.putItem Ret.taken where
  init := rfl
  body m items items' r sig _ hbody := by
    cases effect_of_body hbody with
    | put x hm =>
        show items ++ [x] = items ++ m.putItem.toList
        rw [hm, Option.toList_some]
    | take x hitems =>
        show x :: items' = items ++ []
        rw [hitems, List.append_nil]
    | size => simp [Ret.taken, Call.putItem]

/-- `cond_` announces the items: a `take` uses one and a `put` makes
one. -/
theorem announces_cond : Announces (queue α) .cond List.length where
  empty m items _ hready := by
    rw [((ready_eq_false_iff m items).mp hready).2, List.length_nil]
  uses m items items' r sig hm _ hbody := by
    rw [waitsOn_eq_cond_iff] at hm
    subst hm
    cases effect_of_body hbody with
    | put x hx => cases hx
    | take x hitems =>
        refine ⟨nofun, ?_⟩
        rw [hitems, List.length_cons]
  makes m items items' r sig hm _ hbody := by
    cases effect_of_body hbody with
    | put x => exact .inr ⟨rfl, by simp⟩
    | take => exact absurd ((waitsOn_eq_cond_iff _).mpr rfl) hm
    | size => exact .inl (Nat.le_refl _)

variable [DecidableEq τ] [Fintype τ] {s : State τ α}

/-- The assertion of `take` never fails. -/
theorem not_aborted (h : ((queue α).system τ).Reachable s) : s.aborted = false :=
  Monitor.Reachable.not_aborted body_ne_none h

/-- In every reachable state, whatever the threads call and however
they are scheduled: the items taken in lock order, followed by
`queue_`, are the items put in lock order.

And if a taker sleeps un-notified on `cond_`, the queued items are at
most as many as the takers that were notified and have not taken the
mutex again. -/
theorem losesNothing (h : ((queue α).system τ).Reachable s) :
    takes s.hist ++ s.data = puts s.hist ∧
      ((∃ u, AsleepOn (queue α) s .cond u) →
        s.data.length ≤ (Finset.univ.filter (NotifiedOn (queue α) s .cond)).card) :=
  ⟨Monitor.Reachable.fifo conserves_queue h, Monitor.Reachable.announced announces_cond h⟩

/-- Two takers sleep and a `put` notifies the first. A third taker
takes the mutex before it and gets the item, so the first sleeps again
beside an empty queue, and another `put` notifies it once more. -/
def overtaken (first second barging putter : τ) : List (Monitor.Event τ (Call Nat)) :=
  [.call first .take, .acquire first none, .call second .take, .acquire second none,
   .call barging .take, .call putter (.put 7), .acquire putter (some first),
   .acquire barging none, .acquire first none, .call putter (.putMove 8),
   .acquire putter (some first)]

/-- `losesNothing` at the state that the run `overtaken` of four
threads reaches, in which an item is queued beside a sleeping
taker. -/
theorem losesNothing_overtaken :
    ∃ s : State (Fin 4) Nat,
      ((queue Nat).system (Fin 4)).run (queue Nat).initial (overtaken 0 1 2 3) = some s ∧
      (∃ u, AsleepOn (queue Nat) s .cond u) ∧ s.data = [8] ∧
      takes s.hist ++ s.data = puts s.hist ∧
      ((∃ u, AsleepOn (queue Nat) s .cond u) →
        s.data.length ≤ (Finset.univ.filter (NotifiedOn (queue Nat) s .cond)).card) := by
  have hrun : ((((queue Nat).system (Fin 4)).run (queue Nat).initial (overtaken 0 1 2 3)).map
      fun s => (decide (∃ u, AsleepOn (queue Nat) s .cond u), s.data)) = some (true, [8]) := by
    decide
  obtain ⟨s, hs, heq⟩ := Option.map_eq_some_iff.mp hrun
  obtain ⟨hsleep, hitems⟩ := Prod.mk.inj heq
  exact ⟨s, hs, of_decide_eq_true hsleep, hitems, losesNothing ((System.Reachable.init rfl).run hs)⟩

end Bigpipe.BlockingQueue
