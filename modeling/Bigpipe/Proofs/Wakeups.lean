import Bigpipe.Lib.Announce
import Bigpipe.Proofs.BoundedBlockingQueue

/-!
# `Bigpipe.Proofs.Wakeups`: putters that wait for space, and a queue with one taker

`take` notifies `notFull_` on every item, so free slots are announced
to the putters that sleep. `put` notifies `notEmpty_` only when it
finds the ring empty. With one taker that is enough, because the taker
sleeps beside an empty ring only.

The job channel is such a queue: of all the threads of the process
only `Pushing` takes. The queue of the thread pool is not, and what
becomes of its workers is in `Bigpipe.Proofs.Takers` and in the
modules on the pool.

* `freeSlots_le_notified`: while a putter sleeps, there are at most as
  many free slots as notified putters, in every schedule.
* `soleTaker_noDeadlock`: where one thread takes, it never sleeps
  beside an item, and it never sleeps together with a putter while
  nobody is notified.
-/

set_option autoImplicit false

namespace Bigpipe.BoundedBlockingQueue

open Bigpipe.Lib
open Bigpipe.Lib.Monitor (AsleepOn NotifiedOn Announces Announced)

variable {τ α : Type} {cap : Nat}

/-! ### Free slots -/

/-- The free slots of the ring. -/
def freeSlots (b : CircularBuffer α cap) : Nat :=
  cap - b.items.length

/-- `notFull_` announces the free slots: a `put` uses one and a `take`
makes one, and signals it every time. -/
theorem announces_notFull : Announces (queue α cap) .notFull freeSlots where
  empty m b hm hready := by
    obtain ⟨x, hx⟩ := (waitsOn_eq_notFull_iff m).mp hm
    rcases not_ready_cases hready with ⟨-, hfull⟩ | ⟨rfl, -⟩
    · by_contra hne
      rw [b.isFull_eq_false_iff.mpr (by unfold freeSlots at hne; omega)] at hfull
      cases hfull
    · cases hx
  uses m b b' r sig hm hready hbody := by
    obtain ⟨x, hx⟩ := (waitsOn_eq_notFull_iff m).mp hm
    cases effect_of_body hready hbody with
    | put y _ hfull hitems =>
        have hlt := b.isFull_eq_false_iff.mp hfull
        refine ⟨by split <;> nofun, ?_⟩
        simp only [freeSlots, hitems, List.length_append, List.length_singleton]
        omega
    | take => cases hx
    | observe hno =>
        rw [hx] at hno
        cases hno
  makes m b b' r sig hm hready hbody := by
    cases effect_of_body hready hbody with
    | put y hy => exact absurd ((waitsOn_eq_notFull_iff m).mpr ⟨y, hy⟩) hm
    | take y hitems =>
        refine .inr ⟨rfl, ?_⟩
        simp only [freeSlots, hitems, List.length_cons]
        omega
    | observe => exact .inl (Nat.le_refl _)

variable [DecidableEq τ] [Fintype τ] {s : State τ α cap}

/-- In every reachable state, whatever the threads call and however
they are scheduled: if a thread sleeps on `notFull_`, which it does
inside `put`, the free slots are at most as many as the putters that
were notified on `notFull_` and have not taken the mutex again. -/
theorem freeSlots_le_notified (h : ((queue α cap).system τ).Reachable s)
    (hsleep : ∃ u, AsleepOn (queue α cap) s .notFull u) :
    cap - s.data.items.length ≤
      (Finset.univ.filter (NotifiedOn (queue α cap) s .notFull)).card :=
  Monitor.Reachable.announced announces_notFull h hsleep

/-- A `put` fills a queue of capacity 1, a second one sleeps, and a
`take` notifies it while a third one is asleep too. -/
def twoPutters : List (Monitor.Event (Fin 4) (Call Nat)) :=
  [.call 0 (.put 7), .acquire 0 none, .call 1 (.put 8), .acquire 1 none, .call 2 (.putMove 9),
   .acquire 2 none, .call 3 .take, .acquire 3 (some 1)]

/-- `freeSlots_le_notified` at the state that the run `twoPutters`
reaches, in which a slot is free. -/
theorem freeSlots_le_notified_twoPutters :
    ∃ s : State (Fin 4) Nat 1,
      ((queue Nat 1).system (Fin 4)).run (queue Nat 1).initial twoPutters = some s ∧
      (∃ u, AsleepOn (queue Nat 1) s .notFull u) ∧ s.data.items = [] ∧
      1 - s.data.items.length ≤
        (Finset.univ.filter (NotifiedOn (queue Nat 1) s .notFull)).card := by
  have hrun : ((((queue Nat 1).system (Fin 4)).run (queue Nat 1).initial twoPutters).map
      fun s => (decide (∃ u, AsleepOn (queue Nat 1) s .notFull u), s.data.items)) =
        some (true, []) := by decide
  obtain ⟨s, hs, heq⟩ := Option.map_eq_some_iff.mp hrun
  obtain ⟨hsleep, hitems⟩ := Prod.mk.inj heq
  have hsleep := of_decide_eq_true hsleep
  exact ⟨s, hs, hsleep, hitems,
    freeSlots_le_notified ((System.Reachable.init rfl).run hs) hsleep⟩

/-! ### One taker -/

/-- The event is no call of `take` by another thread than `taker`. All
other events are allowed, spurious wake-ups among them. -/
def TakesOnlyBy (taker : τ) (e : Monitor.Event τ (Call α)) : Prop :=
  ∀ t, e = .call t .take → t = taker

/-- Only `taker` is in a call of `take`. It may be in another call,
and it need not be in any. -/
def SoleTaker (taker : τ) (s : State τ α cap) : Prop :=
  ∀ t, (s.pos t).within = some .take → t = taker

/-- Such events keep the other threads out of `take`. A thread is in
it only by its own call. -/
theorem soleTaker_step {taker : τ} {s s' : State τ α cap} {e : Monitor.Event τ (Call α)}
    (h : SoleTaker taker s) (he : TakesOnlyBy taker e)
    (hs : ((queue α cap).system τ).step s e = some s') : SoleTaker taker s' := by
  intro u hu
  cases e with
  | call t m =>
      rw [Monitor.call_within hs u] at hu
      split at hu
      · rename_i hut
        cases hu
        exact hut.trans (he t rfl)
      · exact h u hu
  | acquire t pick =>
      obtain ⟨⟨s₁, o⟩, hacq, rfl⟩ := Option.map_eq_some_iff.mp hs
      rw [Monitor.acquire_within hacq u] at hu
      split at hu
      · cases hu
      · exact h u hu
  | spurious t =>
      rw [Monitor.spurious_within hs u] at hu
      exact h u hu

omit [DecidableEq τ] [Fintype τ] in
/-- A sole taker that sleeps beside an item cannot also be the taker
that is notified. -/
theorem empty_of_soleTaker {taker : τ} (h : SoleTaker taker s) (hwoken : TakerWoken s) {u : τ}
    (hu : AsleepOn (queue α cap) s .notEmpty u) : s.data.items = [] := by
  by_contra hne
  obtain ⟨v, hv⟩ := hwoken ⟨u, hu⟩ hne
  rw [asleepOn_notEmpty_iff] at hu
  rw [notifiedOn_notEmpty_iff] at hv
  have hut : u = taker := h u (by rw [hu]; rfl)
  have hvt : v = taker := h v (by rw [hv]; rfl)
  rw [hvt, ← hut, hu] at hv
  cases hv

omit [DecidableEq τ] [Fintype τ] in
/-- With a sole taker no step loses a wake-up: a sleeping and a
notified taker are two. -/
theorem not_losesWakeup_of_soleTaker {taker : τ} (h : SoleTaker taker s)
    (e : Monitor.Event τ (Call α)) : ¬ LosesWakeup s e := by
  cases e with
  | call | spurious => exact id
  | acquire t pick =>
      rintro ⟨ht, -, ⟨u, hu⟩, -⟩
      rw [notifiedOn_notEmpty_iff] at ht
      rw [asleepOn_notEmpty_iff] at hu
      have htt : t = taker := h t (by rw [ht]; rfl)
      have hut : u = taker := h u (by rw [hu]; rfl)
      rw [hut, ← htt, ht] at hu
      cases hu

/-- A queue of which one thread takes, in every schedule and with any
number of threads that put: the taker never sleeps un-notified while
the ring has an item, and it never sleeps un-notified together with a
putter while no thread is notified.

The first part is `TakerWoken`, which no step can lose here. The
second follows from it and from the law on the free slots: beside an
empty ring there are free slots, and somebody is notified of them. -/
theorem soleTaker_noDeadlock (hcap : 0 < cap) (taker : τ) (es : List (Monitor.Event τ (Call α)))
    (hes : ∀ e ∈ es, TakesOnlyBy taker e)
    (hrun : ((queue α cap).system τ).run (queue α cap).initial es = some s) :
    ¬ (AsleepOn (queue α cap) s .notEmpty taker ∧ s.data.items ≠ []) ∧
      ¬ (AsleepOn (queue α cap) s .notEmpty taker ∧
        (∃ u, AsleepOn (queue α cap) s .notFull u) ∧
        ∀ v k, ¬ NotifiedOn (queue α cap) s k v) := by
  have hrest : SoleTaker taker s ∧ TakerWoken s := by
    refine System.run_induct (I := fun s => SoleTaker taker s ∧ TakerWoken s) ?_ ⟨?_, ?_⟩ hrun
    · intro s e s' he ⟨hsole, hwoken⟩ hs
      exact ⟨soleTaker_step hsole (hes e he) hs,
        (takerWoken_step hs hwoken).mpr (not_losesWakeup_of_soleTaker hsole e)⟩
    · intro t ht
      cases ht
    · exact fun _ hne => absurd rfl hne
  obtain ⟨hsole, hwoken⟩ := hrest
  constructor
  · intro ⟨hsleep, hne⟩
    exact hne (empty_of_soleTaker hsole hwoken hsleep)
  · intro ⟨hsleep, hputter, hnone⟩
    -- The ring is empty, so there is a free slot, and somebody is notified of
    -- it.
    have hempty := empty_of_soleTaker hsole hwoken hsleep
    have hreach : ((queue α cap).system τ).Reachable s := (System.Reachable.init rfl).run hrun
    have hle : freeSlots s.data ≤ (Finset.univ.filter (NotifiedOn (queue α cap) s .notFull)).card :=
      Monitor.Reachable.announced announces_notFull hreach hputter
    have hzero : (Finset.univ.filter (NotifiedOn (queue α cap) s .notFull)).card = 0 := by
      rw [Finset.card_eq_zero, Finset.filter_eq_empty_iff]
      exact fun v _ => hnone v .notFull
    rw [freeSlots, hempty, hzero, List.length_nil] at hle
    omega

/-- The taker `false` sleeps, and a `put` of `true` wakes it. -/
def putWakesTaker : List (Monitor.Event Bool (Call Nat)) :=
  [.call false .take, .acquire false none, .call true (.put 7), .acquire true (some false)]

/-- `soleTaker_noDeadlock` at the state that the run `putWakesTaker`
reaches. -/
theorem soleTaker_noDeadlock_putWakesTaker :
    ∃ s : State Bool Nat 1,
      ((queue Nat 1).system Bool).run (queue Nat 1).initial putWakesTaker = some s ∧
      ¬ (AsleepOn (queue Nat 1) s .notEmpty false ∧ s.data.items ≠ []) ∧
      ¬ (AsleepOn (queue Nat 1) s .notEmpty false ∧
        (∃ u, AsleepOn (queue Nat 1) s .notFull u) ∧
        ∀ v k, ¬ NotifiedOn (queue Nat 1) s k v) := by
  obtain ⟨s, hs⟩ := Option.isSome_iff_exists.mp
    (show (((queue Nat 1).system Bool).run (queue Nat 1).initial putWakesTaker).isSome
      by decide)
  refine ⟨s, hs, soleTaker_noDeadlock (by decide) false putWakesTaker ?_ hs⟩
  intro e he t heq
  subst heq
  simp [putWakesTaker] at he
  exact he

end Bigpipe.BoundedBlockingQueue
