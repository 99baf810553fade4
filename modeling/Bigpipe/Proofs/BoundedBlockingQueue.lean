import Bigpipe.Base.BoundedBlockingQueue
import Bigpipe.Lib.Fifo
import Mathlib.Data.Fin.Basic
import Mathlib.Data.Fintype.Basic

/-!
# `Bigpipe.Proofs.BoundedBlockingQueue`: order and wake-ups of the bounded queue

The results hold for any threads that call any methods of one queue,
in every schedule.

The order needs no argument about schedules. The lock sections of a
monitor are atomic, so the completed calls are a sequential run, and
what is left is an induction over calls. The wake-ups are another
matter. Whether a sleeping taker will come for an item depends on who
is on the way, and one step can spoil it. The lemma says which: a
notified taker takes an item and leaves another one in the ring,
nobody else is on the way, and a taker sleeps. The second item was put
into a ring that was not empty, so its `put` has notified nobody, and
now nobody is left who would see it.

* `boundedFifo`: the queue is a bounded FIFO. The completed calls in
  lock order are a sequential run (`Monitor.Reachable.sequential`),
  and a sequential run is a FIFO (`fifo_of_sequential`). No
  `push_back` overwrites and the assertion of `take` holds.
* `takerWoken_step`: the step lemma for the wake-ups of takers. `put`
  notifies only when it finds the ring empty, so one kind of step
  loses a wake-up: the only notified taker takes an item, leaves
  another one behind, and a taker sleeps (`LosesWakeup`).
* `put_section` and `take_section`: what a lock section of either does
  to the positions of the threads, for the proofs about the thread
  pool and the producer.
-/

set_option autoImplicit false

namespace Bigpipe.BoundedBlockingQueue

open Bigpipe.Lib
open Bigpipe.Lib.Monitor (AsleepOn NotifiedOn Sequential Section Conserves acquire acquire_cases
  call_cases spurious_cases)

variable {τ α : Type} {cap : Nat}

/-! ### Sequential runs are FIFOs -/

/-- A `put` appends its item, a `take` removes the head, and the
observers leave the ring alone. -/
theorem conserves_queue :
    Conserves (queue α cap) CircularBuffer.items Call.putItem Ret.taken where
  init := rfl
  body m b b' r sig hready hbody := by
    cases effect_of_body hready hbody with
    | put x hm _ hitems =>
        show b'.items = b.items ++ m.putItem.toList
        rw [hitems, hm, Option.toList_some]
    | take x hitems =>
        show x :: b'.items = b.items ++ []
        rw [hitems, List.append_nil]
    | observe hm _ hr => simp [hm, hr]

/-- The FIFO equation holds for every sequential run of the methods.
It is the rule of `Bigpipe.Lib.Fifo` for the bodies of this queue. -/
theorem fifo_of_sequential {hist : List (Monitor.Done τ (Call α) (Ret α))}
    {b : CircularBuffer α cap} (h : Sequential (queue α cap) hist b) :
    takes hist ++ b.items = puts hist :=
  Sequential.fifo conserves_queue h

/-- No `put` completes on a queue without slots. Its predicate asks
for a ring that is not full, and a ring of capacity 0 always is. -/
theorem puts_of_sequential_zero {hist : List (Monitor.Done τ (Call α) (Ret α))}
    {b : CircularBuffer α 0} (h : Sequential (queue α 0) hist b) : puts hist = [] := by
  induction h with
  | nil => rfl
  | @snoc hist d d' t m r sig hseq hready hbody ih =>
      rw [puts_snoc, ih]
      cases effect_of_body hready hbody with
      | put x _ hfull =>
          have hroom := d.isFull_eq_false_iff.mp hfull
          omega
      | take => rfl
      | observe hm =>
          rw [hm]
          rfl

/-! ### Sleeping and notified takers -/

variable {s s' : State τ α cap} {t : τ}

/-- A thread sleeps on `notEmpty_` exactly in the wait of `take`. -/
theorem asleepOn_notEmpty_iff {u : τ} :
    AsleepOn (queue α cap) s .notEmpty u ↔ s.pos u = .asleep .take := by
  unfold AsleepOn
  cases hpos : s.pos u <;> simp [Monitor.Pos.sleeping, waitsOn_eq_notEmpty_iff]

/-- A thread is notified on `notEmpty_` exactly in the wait of
`take`. -/
theorem notifiedOn_notEmpty_iff {u : τ} :
    NotifiedOn (queue α cap) s .notEmpty u ↔ s.pos u = .notified .take := by
  unfold NotifiedOn
  cases hpos : s.pos u <;> simp [Monitor.Pos.picked, waitsOn_eq_notEmpty_iff]

/-- A thread sleeps on `notFull_` exactly in the wait of a `put`. -/
theorem asleepOn_notFull_iff {u : τ} :
    AsleepOn (queue α cap) s .notFull u ↔
      ∃ m x, s.pos u = .asleep m ∧ m.putItem = some x := by
  unfold AsleepOn
  cases hpos : s.pos u <;> simp [Monitor.Pos.sleeping, waitsOn_eq_notFull_iff]

/-- Where a taker sleeps and the ring has an item, some taker is
notified and will take the mutex. It is the promise of a condition
variable: nobody sleeps beside work that nobody comes for. -/
def TakerWoken (s : State τ α cap) : Prop :=
  (∃ u, AsleepOn (queue α cap) s .notEmpty u) → s.data.items ≠ [] →
    ∃ u, NotifiedOn (queue α cap) s .notEmpty u

/-- The step that loses a wake-up, in the state before it: the lock
section of the only notified taker, which leaves an item in the ring,
while another taker sleeps. A taker that has not been notified, one
that has just called for instance, does no harm by the same
section. -/
def LosesWakeup (s : State τ α cap) : Monitor.Event τ (Call α) → Prop
  | .acquire t _ =>
      NotifiedOn (queue α cap) s .notEmpty t ∧
      (∀ u, NotifiedOn (queue α cap) s .notEmpty u → u = t) ∧
      (∃ u, AsleepOn (queue α cap) s .notEmpty u) ∧ 2 ≤ s.data.items.length
  | .call _ _ | .spurious _ => False

/-- A notified taker is at the mutex with the call `take`. -/
theorem runnable_of_notifiedOn {u : τ} (h : NotifiedOn (queue α cap) s .notEmpty u) :
    (s.pos u).runnable = some .take := by
  rw [notifiedOn_notEmpty_iff] at h
  rw [h]
  rfl

/-- A thread at the mutex with another call than `take` is not a
notified taker. -/
theorem not_notifiedOn_of_runnable {m : Call α} (hrun : (s.pos t).runnable = some m)
    (hm : m ≠ .take) : ¬ NotifiedOn (queue α cap) s .notEmpty t := by
  intro hn
  rw [runnable_of_notifiedOn hn] at hrun
  exact hm (Option.some.inj hrun).symm

/-- A step that changes neither the sleeping takers, nor the notified
ones, nor the ring keeps `TakerWoken`. A sleeper may also wake, and
items may be added to a ring that has some. -/
theorem TakerWoken.mono (h : TakerWoken s)
    (hasleep : ∀ u, AsleepOn (queue α cap) s' .notEmpty u → AsleepOn (queue α cap) s .notEmpty u)
    (hnotified : ∀ u, NotifiedOn (queue α cap) s .notEmpty u →
      NotifiedOn (queue α cap) s' .notEmpty u)
    (hitems : s'.data.items ≠ [] → s.data.items ≠ []) : TakerWoken s' := by
  rintro ⟨u, hu⟩ hne
  obtain ⟨v, hv⟩ := h ⟨u, hasleep u hu⟩ (hitems hne)
  exact ⟨v, hnotified v hv⟩

/-- A move of a thread that is not a notified taker, and that does not
become a sleeping one, keeps `TakerWoken`. -/
theorem TakerWoken.move [DecidableEq τ] {p : Monitor.Pos (Call α)} (h : TakerWoken s)
    (ht : ¬ NotifiedOn (queue α cap) s .notEmpty t)
    (hp : p.sleeping.bind (fun m => ((queue α cap).method m).waitsOn) ≠ some .notEmpty) :
    TakerWoken (s.move t p) := by
  refine h.mono (fun u => ?_) (fun u hu => ?_) id
  · rw [Monitor.asleepOn_move]
    split
    · exact fun hsleep => absurd hsleep hp
    · exact id
  · rw [Monitor.notifiedOn_move, if_neg]
    · exact hu
    · rintro rfl
      exact ht hu

/-! ### The bounded FIFO in every schedule -/

variable [DecidableEq τ] [Fintype τ]

/-- The completed lock section of a `put` finds a free slot and
appends its item, so its `push_back` overwrites nothing. The predicate
was tested under the same mutex. -/
theorem put_appends {pick : Option τ} {r : Ret α} {x : α}
    (hput : (s.pos t).runnable.bind Call.putItem = some x)
    (h : acquire (queue α cap) s t pick = some (s', .returned r)) :
    s.data.isFull = false ∧ s'.data.items = s.data.items ++ [x] := by
  obtain ⟨-, m, hrun, hsec⟩ := acquire_cases h
  rw [hrun, Option.bind_some] at hput
  cases hsec with
  | returned hready hbody hsignal =>
      rw [(Monitor.signal_frame hsignal).1, Monitor.State.complete_data]
      cases effect_of_body hready hbody with
      | put y hy hfull hitems =>
          rw [hput] at hy
          cases hy
          exact ⟨hfull, hitems⟩
      | take y _ => cases hput
      | observe hm _ _ =>
          rw [hput] at hm
          cases hm

/-- The completed lock section of a thread in a `put` finds a free
slot and appends its item. -/
theorem put_returned {pick : Option τ} {r : Ret α} {m : Call α} {x : α}
    (hput : (s.pos t).within = some m) (hm : m.putItem = some x)
    (h : acquire (queue α cap) s t pick = some (s', .returned r)) :
    s.data.isFull = false ∧ s'.data.items = s.data.items ++ [x] := by
  obtain ⟨-, m', hrun, -⟩ := acquire_cases h
  cases (Monitor.Pos.within_of_runnable hrun).symm.trans hput
  exact put_appends (by rw [hrun]; exact hm) h

/-- The completed lock section of a `take` returns an item. There is
no other way out of it. -/
theorem take_returns_item {pick : Option τ} {r : Ret α}
    (htake : (s.pos t).within = some .take)
    (h : acquire (queue α cap) s t pick = some (s', .returned r)) : ∃ x, r = .item x := by
  obtain ⟨-, m, hrun, hsec⟩ := acquire_cases h
  cases (Monitor.Pos.within_of_runnable hrun).symm.trans htake
  cases hsec with
  | returned hready hbody _ =>
      cases effect_of_body hready hbody with
      | put x hm => cases hm
      | take x _ => exact ⟨x, rfl⟩
      | observe _ hne => exact absurd rfl hne

/-- A lock section of `take` that returns no item has not returned. -/
theorem not_returned_of_take {pick : Option τ} {o : Monitor.Outcome (Ret α)}
    (htake : (s.pos t).within = some .take) (h : acquire (queue α cap) s t pick = some (s', o))
    (hret : ∀ x, o ≠ .returned (.item x)) : o.isReturned = false := by
  cases o with
  | returned r =>
      obtain ⟨x, rfl⟩ := take_returns_item htake h
      exact absurd rfl (hret x)
  | slept | aborted => rfl

/-- The lock section of a `put` by `t`: it sleeps on a full ring, it
appends and wakes nobody, or it appends to an empty ring and wakes a
taker. In the second case the ring had items, or it was empty and no
taker sleeps. -/
inductive PutSection (s : State τ α cap) (t : τ) (m : Call α) :
    State τ α cap → Monitor.Outcome (Ret α) → Prop where
  | full (hfull : s.data.isFull = true) : PutSection s t m (s.move t (.asleep m)) .slept
  | silent {d : CircularBuffer α cap} (hfull : s.data.isFull = false)
      (hnone : s.data.items = [] → ∀ u, s.pos u ≠ .asleep .take) :
      PutSection s t m (s.complete t m d .unit) (.returned .unit)
  | wakes {d : CircularBuffer α cap} {u : τ} (hfull : s.data.isFull = false)
      (hempty : s.data.items = []) (hu : s.pos u = .asleep .take) :
      PutSection s t m ((s.complete t m d .unit).move u (.notified .take)) (.returned .unit)

/-- Every lock section of a thread in a `put` is one of the three.
Proofs about programs that use the queue start here, as they look at
the positions of all threads. -/
theorem put_section {pick : Option τ} {o : Monitor.Outcome (Ret α)} {m : Call α} {x : α}
    (hput : (s.pos t).within = some m) (hm : m.putItem = some x)
    (h : acquire (queue α cap) s t pick = some (s', o)) : PutSection s t m s' o := by
  obtain ⟨-, m', hrun, hsec⟩ := acquire_cases h
  cases (Monitor.Pos.within_of_runnable hrun).symm.trans hput
  -- `t` can run, so it is not among the sleepers.
  have hself : ∀ p, s.pos t ≠ .asleep p := by
    intro p hp
    rw [hp] at hrun
    cases hrun
  cases hsec with
  | slept hready =>
      rcases not_ready_cases hready with ⟨-, hfull⟩ | ⟨rfl, -⟩
      · exact .full hfull
      · cases hm
  | aborted hready hbody => exact absurd hbody (body_ne_none m _ hready)
  | returned hready hbody hsignal =>
      cases effect_of_body hready hbody with
      | take y _ => cases hm
      | observe hno _ _ =>
          rw [hm] at hno
          cases hno
      | put y _ hfull _ =>
          obtain ⟨rfl, hnone⟩ | ⟨k, u, hk, hu, rfl⟩ := Monitor.signal_cases hsignal
          · refine .silent hfull fun hempty u hu => hnone .notEmpty (if_pos hempty) u ?_
            have hut : u ≠ t := fun heq => hself _ (heq ▸ hu)
            exact Monitor.asleepOn_complete.mpr ⟨hut, asleepOn_notEmpty_iff.mpr hu⟩
          · obtain ⟨hempty, hk'⟩ := Option.ite_none_right_eq_some.mp hk
            cases hk'
            obtain ⟨hut, hus⟩ := Monitor.asleepOn_complete.mp hu
            have hpos := asleepOn_notEmpty_iff.mp hus
            rw [Monitor.State.complete_pos, Function.update_of_ne hut, hpos]
            exact .wakes hfull hempty hpos

/-- A lock section of a `put` takes nothing, whether it returns or
goes to sleep. -/
theorem takes_put {pick : Option τ} {o : Monitor.Outcome (Ret α)} {m : Call α} {x : α}
    (hput : (s.pos t).within = some m) (hm : m.putItem = some x)
    (h : acquire (queue α cap) s t pick = some (s', o)) : takes s'.hist = takes s.hist := by
  cases o with
  | slept | aborted => rw [Monitor.acquire_hist h rfl]
  | returned r =>
      have hr : r = .unit := by
        generalize ho : Monitor.Outcome.returned r = o at h
        cases put_section hput hm h with
        | full => cases ho
        | silent => exact Monitor.Outcome.returned.inj ho
        | wakes => exact Monitor.Outcome.returned.inj ho
      rw [Monitor.acquire_hist_returned hput h, takes_snoc, hr]
      exact List.append_nil _

/-- The lock section of a `take` by `t`: it sleeps on an empty ring,
it removes the oldest item and wakes nobody, or it does so and wakes a
putter. It wakes a putter whenever one sleeps. -/
inductive TakeSection (s : State τ α cap) (t : τ) :
    State τ α cap → Monitor.Outcome (Ret α) → Prop where
  | empty (hempty : s.data.items = []) : TakeSection s t (s.move t (.asleep .take)) .slept
  | silent {d : CircularBuffer α cap} {x : α} (hitems : s.data.items = x :: d.items)
      (hnone : ∀ u, ¬ AsleepOn (queue α cap) s .notFull u) :
      TakeSection s t (s.complete t .take d (.item x)) (.returned (.item x))
  | wakes {d : CircularBuffer α cap} {x y : α} {u : τ} {m : Call α}
      (hitems : s.data.items = x :: d.items) (hu : s.pos u = .asleep m)
      (hm : m.putItem = some y) :
      TakeSection s t ((s.complete t .take d (.item x)).move u (.notified m))
        (.returned (.item x))

/-- Every lock section of a thread in `take` is one of the three:
asleep on an empty queue, or an item taken with a signal or
without. -/
theorem take_section {pick : Option τ} {o : Monitor.Outcome (Ret α)}
    (htake : (s.pos t).within = some .take)
    (h : acquire (queue α cap) s t pick = some (s', o)) : TakeSection s t s' o := by
  obtain ⟨-, m, hrun, hsec⟩ := acquire_cases h
  cases (Monitor.Pos.within_of_runnable hrun).symm.trans htake
  cases hsec with
  | slept hready =>
      rcases not_ready_cases hready with ⟨⟨x, hx⟩, -⟩ | ⟨-, hempty⟩
      · cases hx
      · exact .empty hempty
  | aborted hready hbody => exact absurd hbody (body_ne_none _ _ hready)
  | returned hready hbody hsignal =>
      cases effect_of_body hready hbody with
      | put x hm => cases hm
      | observe _ hne _ => exact absurd rfl hne
      | take x hitems =>
          obtain ⟨rfl, hnone⟩ | ⟨k, u, hk, hu, rfl⟩ := Monitor.signal_cases hsignal
          · refine .silent hitems fun u hu => hnone .notFull rfl u ?_
            refine Monitor.asleepOn_complete.mpr ⟨?_, hu⟩
            rintro rfl
            exact Monitor.not_asleepOn_of_runnable hrun hu
          · cases hk
            obtain ⟨hut, hus⟩ := Monitor.asleepOn_complete.mp hu
            -- The sleeper that the signal picks is in a `put`.
            obtain ⟨m, y, hpos, hm⟩ := asleepOn_notFull_iff.mp hus
            rw [Monitor.State.complete_pos, Function.update_of_ne hut, hpos]
            exact .wakes hitems hpos hm

/-- A thread at the mutex in a `put` returns when the ring has a free
slot, whoever is picked by its signal. -/
theorem exists_put (hab : s.aborted = false) {m : Call α} {x : α}
    (hrun : (s.pos t).runnable = some m) (hm : m.putItem = some x)
    (hroom : s.data.isFull = false) :
    ∃ pick s', acquire (queue α cap) s t pick = some (s', .returned .unit) := by
  obtain ⟨pick, ⟨s', o⟩, h⟩ := Monitor.exists_acquire (M := queue α cap) hab hrun
  have hreturned : o = .returned .unit := by
    cases put_section (Monitor.Pos.within_of_runnable hrun) hm h with
    | full hfull => exact absurd hfull (Bool.eq_false_iff.mp hroom)
    | silent => rfl
    | wakes => rfl
  exact ⟨pick, s', hreturned ▸ h⟩

/-- A thread at the mutex in `take` returns an item when the ring has
one. -/
theorem exists_take (hab : s.aborted = false) (hrun : (s.pos t).runnable = some .take)
    (hne : s.data.items ≠ []) :
    ∃ pick s' x, acquire (queue α cap) s t pick = some (s', .returned (.item x)) := by
  obtain ⟨pick, ⟨s', o⟩, h⟩ := Monitor.exists_acquire (M := queue α cap) hab hrun
  have hreturned : ∃ x, o = .returned (.item x) := by
    cases take_section (Monitor.Pos.within_of_runnable hrun) h with
    | empty hempty => exact absurd hempty hne
    | silent => exact ⟨_, rfl⟩
    | wakes => exact ⟨_, rfl⟩
  obtain ⟨x, rfl⟩ := hreturned
  exact ⟨pick, s', x, h⟩

/-- Where nobody sleeps, a `put` that finds a free slot appends its
item. -/
theorem put_of_awake (hawake : ∀ v m, s.pos v ≠ .asleep m) (hab : s.aborted = false) {m : Call α}
    {x : α} (hrun : (s.pos t).runnable = some m) (hm : m.putItem = some x)
    (hroom : s.data.isFull = false) :
    ∃ d : CircularBuffer α cap, d.items = s.data.items ++ [x] ∧
      acquire (queue α cap) s t none = some (s.complete t m d .unit, .returned .unit) := by
  have hready : ((queue α cap).method m).ready s.data = true := by
    by_contra hnot
    rcases not_ready_cases (Bool.eq_false_iff.mpr hnot) with ⟨-, hfull⟩ | ⟨rfl, -⟩
    · cases hroom.symm.trans hfull
    · cases hm
  obtain ⟨d, r, sig, hbody, hacq⟩ :=
    Monitor.acquire_of_awake hawake hab hrun hready (body_ne_none m _ hready)
  cases effect_of_body hready hbody with
  | put y hy _ hitems =>
      rw [hm] at hy
      cases hy
      exact ⟨d, hitems, hacq⟩
  | take => cases hm
  | observe hno =>
      rw [hm] at hno
      cases hno

/-- Where nobody sleeps, a `take` that finds an item removes the
oldest. -/
theorem take_of_awake (hawake : ∀ v m, s.pos v ≠ .asleep m) (hab : s.aborted = false) {x : α}
    {items : List α} (hrun : (s.pos t).runnable = some .take) (hitems : s.data.items = x :: items) :
    ∃ d : CircularBuffer α cap, d.items = items ∧
      acquire (queue α cap) s t none =
        some (s.complete t .take d (.item x), .returned (.item x)) := by
  have hready : ((queue α cap).method .take).ready s.data = true := by
    by_contra hnot
    rcases not_ready_cases (Bool.eq_false_iff.mpr hnot) with ⟨⟨y, hy⟩, -⟩ | ⟨-, hnil⟩
    · cases hy
    · cases hitems.symm.trans hnil
  obtain ⟨d, r, sig, hbody, hacq⟩ :=
    Monitor.acquire_of_awake hawake hab hrun hready (body_ne_none _ _ hready)
  cases effect_of_body hready hbody with
  | put y hy => cases hy
  | take y htaken =>
      obtain ⟨rfl, hrest⟩ := List.cons.inj (hitems.symm.trans htaken)
      exact ⟨d, hrest.symm, hacq⟩
  | observe _ hne => exact absurd rfl hne

/-- Where nobody sleeps and the ring is empty, an item goes from a
thread that puts it to a thread that is at the mutex of `take`. The
three steps leave all other threads where they are. -/
theorem exists_handover (hcap : 0 < cap) (hawake : ∀ v m, s.pos v ≠ .asleep m)
    (hab : s.aborted = false) (hempty : s.data.items = []) {u : τ} {m : Call α} {x : α}
    (hm : m.putItem = some x) (ht : s.pos t = .outside) (hu : s.pos u = .entering .take) :
    ∃ s₁ s₂ s₃ : State τ α cap, Monitor.call s t m = some s₁ ∧
      acquire (queue α cap) s₁ t none = some (s₂, .returned .unit) ∧
      acquire (queue α cap) s₂ u none = some (s₃, .returned (.item x)) ∧
      s₃.aborted = false ∧ s₃.data.items = [] ∧ s₃.pos = Function.update s.pos u .outside := by
  have hcall : Monitor.call s t m = some (s.move t (.entering m)) := by
    rw [Monitor.call, hab, ht]
  have hawake₁ : ∀ v m', (s.move t (.entering m)).pos v ≠ .asleep m' := by
    intro v m' hv
    exact hawake v m' (Monitor.call_asleep hcall hv)
  have hroom : s.data.isFull = false :=
    s.data.isFull_eq_false_iff.mpr (by rw [hempty]; exact hcap)
  obtain ⟨d, hitems, hput⟩ := put_of_awake (s := s.move t (.entering m)) (t := t) hawake₁ hab
    (by simp [Monitor.Pos.runnable]) hm hroom
  have hpos : ((s.move t (.entering m)).complete t m d .unit).pos = s.pos := by
    simp [← ht]
  have hone : d.items = [x] := by
    rw [hitems]
    show s.data.items ++ [x] = [x]
    rw [hempty, List.nil_append]
  obtain ⟨d', hnil, htake⟩ := take_of_awake (s := (s.move t (.entering m)).complete t m d .unit)
    (t := u) (by rw [hpos]; exact hawake) hab (by rw [hpos, hu]; rfl) hone
  refine ⟨_, _, _, hcall, hput, htake, hab, hnil, ?_⟩
  rw [Monitor.State.complete_pos, hpos]

/-- The lock section of a `take` that returns an item removes it from
the ring. -/
theorem take_returned {pick : Option τ} {x : α} (htake : (s.pos t).within = some .take)
    (h : acquire (queue α cap) s t pick = some (s', .returned (.item x))) :
    s.data.items = x :: s'.data.items := by
  cases take_section htake h with
  | silent hitems _ => exact hitems
  | wakes hitems _ _ => exact hitems

/-- The lock section of `full` reads the ring. -/
theorem full_returned {pick : Option τ} {o : Monitor.Outcome (Ret α)}
    (hfull : (s.pos t).within = some .full)
    (h : acquire (queue α cap) s t pick = some (s', o)) :
    o = .returned (.flag s.data.isFull) ∧ s'.data = s.data := by
  obtain ⟨-, m, hrun, hsec⟩ := acquire_cases h
  cases (Monitor.Pos.within_of_runnable hrun).symm.trans hfull
  cases hsec with
  | slept hready => cases hready
  | aborted _ hbody => cases hbody
  | returned _ hbody hsignal =>
      cases hbody
      exact ⟨rfl, (Monitor.signal_frame hsignal).1⟩

/-- The assertion of `take` never fails. -/
theorem not_aborted (h : ((queue α cap).system τ).Reachable s) : s.aborted = false :=
  Monitor.Reachable.not_aborted body_ne_none h

/-- The queue is a bounded FIFO in every reachable state, whatever the
threads call and however they are scheduled. The items returned by the
completed `take`s, followed by the ring, are the items given to the
completed `put`s, both in lock order.

The ring holds at most `cap` items, each completed `put` finds a free
slot and appends its item, so `push_back` never overwrites, and no
assertion of `take` has failed. -/
theorem boundedFifo (h : ((queue α cap).system τ).Reachable s) :
    takes s.hist ++ s.data.items = puts s.hist ∧
    s.data.items.length ≤ cap ∧
    (∀ (t : τ) (pick : Option τ) (s' : State τ α cap) (r : Ret α) (x : α),
      (s.pos t).runnable.bind Call.putItem = some x →
      acquire (queue α cap) s t pick = some (s', .returned r) →
      s.data.isFull = false ∧ s'.data.items = s.data.items ++ [x]) ∧
    s.aborted = false :=
  ⟨fifo_of_sequential (Monitor.Reachable.sequential h), s.data.size_le, fun _ _ _ _ _ hput hacq =>
    put_appends hput hacq, not_aborted h⟩

/-- Three threads on a queue of capacity 1: the second `put` sleeps
until the `take` notifies it. -/
def threeThreads : List (Monitor.Event (Fin 3) (Call Nat)) :=
  [.call 0 (.put 7), .call 1 (.putMove 8), .call 2 .take, .acquire 0 none,
   .acquire 1 none, .acquire 2 (some 1), .acquire 1 none]

/-- `boundedFifo` at the state that the run `threeThreads` reaches. -/
theorem boundedFifo_threeThreads :
    ∃ s : State (Fin 3) Nat 1,
      ((queue Nat 1).system (Fin 3)).run (queue Nat 1).initial threeThreads = some s ∧
      takes s.hist ++ s.data.items = puts s.hist ∧
      s.data.items.length ≤ 1 ∧
      (∀ (t : Fin 3) (pick : Option (Fin 3)) (s' : State (Fin 3) Nat 1) (r : Ret Nat) (x : Nat),
        (s.pos t).runnable.bind Call.putItem = some x →
        acquire (queue Nat 1) s t pick = some (s', .returned r) →
        s.data.isFull = false ∧ s'.data.items = s.data.items ++ [x]) ∧
      s.aborted = false := by
  obtain ⟨s, hs⟩ := Option.isSome_iff_exists.mp
    (show (((queue Nat 1).system (Fin 3)).run (queue Nat 1).initial threeThreads).isSome by decide)
  exact ⟨s, hs, boundedFifo ((System.Reachable.init rfl).run hs)⟩

/-! ### Wake-ups of takers -/

/-- The completed lock section of a `put` keeps `TakerWoken`: it adds
to a ring that has items, or it notifies a sleeping taker. -/
theorem TakerWoken.put {m : Call α} {d : CircularBuffer α cap} {r : Ret α} {pick : Option τ}
    {x : α} (h : TakerWoken s) (hrun : (s.pos t).runnable = some m) (hm : m.putItem = some x)
    (hsignal : Monitor.signal (queue α cap) (s.complete t m d r)
      (if s.data.items = [] then some .notEmpty else none) pick = some s') : TakerWoken s' := by
  have hmt : m ≠ .take := by
    rintro rfl
    cases hm
  split at hsignal
  · -- The ring was empty. The signal finds no sleeper or makes one a notified taker.
    obtain ⟨hnone, -⟩ | ⟨u, -, -, -, hnotified⟩ := Monitor.returned_signal hsignal
    · rintro ⟨u, hu⟩
      exact absurd hu (hnone u)
    · exact fun _ _ => ⟨u, (hnotified u).mpr (.inl rfl)⟩
  · rename_i hne
    -- The ring had items, and `put` notifies nobody: the takers are as
    -- before.
    have hframe := Monitor.returned_frame hsignal (k := .notEmpty) (by simp)
    refine h.mono (fun u hu => ((hframe u).1.mp hu).2) (fun u hu => (hframe u).2.mpr ⟨?_, hu⟩)
      fun _ => hne
    rintro rfl
    exact not_notifiedOn_of_runnable hrun hmt hu

/-- The completed lock section of a `take` keeps `TakerWoken` unless
it loses a wake-up. The taker itself is the only thread whose
notification goes, so what counts is whether another one was notified
too. -/
theorem takerWoken_take {d : CircularBuffer α cap} {r : Ret α} {pick : Option τ} {x : α}
    (h : TakerWoken s) (hrun : (s.pos t).runnable = some .take)
    (hitems : s.data.items = x :: d.items)
    (hsignal : Monitor.signal (queue α cap) (s.complete t .take d r) (some .notFull) pick
      = some s') :
    TakerWoken s' ↔ ¬ LosesWakeup s (.acquire t pick) := by
  have hframe := Monitor.returned_frame hsignal (k := .notEmpty) nofun
  have hdata : s'.data = d := (Monitor.signal_frame hsignal).1
  -- A sleeper stays a sleeper: `t` could run, so it is not one.
  have hasleep : ∀ u, AsleepOn (queue α cap) s' .notEmpty u ↔
      AsleepOn (queue α cap) s .notEmpty u := by
    refine fun u => (hframe u).1.trans (and_iff_right_of_imp ?_)
    rintro hu rfl
    exact Monitor.not_asleepOn_of_runnable hrun hu
  have hlen : 2 ≤ s.data.items.length ↔ d.items ≠ [] := by
    rw [hitems, List.length_cons, ← List.length_pos_iff]
    omega
  constructor
  · rintro hw ⟨-, honly, ⟨u, hu⟩, htwo⟩
    -- A taker that is notified afterwards was so before, and the step took
    -- the only one.
    obtain ⟨v, hv⟩ := hw ⟨u, (hasleep u).mpr hu⟩ (hdata ▸ hlen.mp htwo)
    obtain ⟨hvt, hvs⟩ := (hframe v).2.mp hv
    exact hvt (honly v hvs)
  · rintro hok ⟨u, hu⟩ hne
    have hus := (hasleep u).mp hu
    by_contra hnone
    -- Some taker was notified before, and only `t` can have lost that.
    obtain ⟨v, hv⟩ := h ⟨u, hus⟩ (by rw [hitems]; exact List.cons_ne_nil _ _)
    have honly : ∀ w, NotifiedOn (queue α cap) s .notEmpty w → w = t := by
      intro w hw
      by_contra hwt
      exact hnone ⟨w, (hframe w).2.mpr ⟨hwt, hw⟩⟩
    exact hok ⟨honly v hv ▸ hv, honly, ⟨u, hus⟩, hlen.mpr (hdata ▸ hne)⟩

/-- The step lemma: from a state with `TakerWoken`, a step keeps it
exactly when it does not lose a wake-up. With
`System.always_iff_everyStep` it gives the exact condition for whole
runs. -/
theorem takerWoken_step {e : Monitor.Event τ (Call α)}
    (hs : ((queue α cap).system τ).step s e = some s') (h : TakerWoken s) :
    TakerWoken s' ↔ ¬ LosesWakeup s e := by
  cases e with
  | call t m =>
      obtain ⟨-, hpos, rfl⟩ := call_cases hs
      refine iff_of_true (h.move ?_ nofun) (fun hf => hf)
      rw [notifiedOn_notEmpty_iff, hpos]
      nofun
  | acquire t pick =>
      obtain ⟨⟨s₁, o⟩, hacq, rfl⟩ := Option.map_eq_some_iff.mp hs
      obtain ⟨-, m, hrun, hsec⟩ := acquire_cases hacq
      cases hsec with
      | slept hready =>
          rcases not_ready_cases hready with ⟨⟨x, hm⟩, -⟩ | ⟨-, hempty⟩
          · -- A putter falls asleep, which is no business of the takers.
            have hmt : m ≠ .take := by
              rintro rfl
              cases hm
            have hnot := not_notifiedOn_of_runnable hrun hmt
            refine iff_of_true (h.move hnot ?_) (fun hl => hnot hl.1)
            exact fun hw => hmt ((waitsOn_eq_notEmpty_iff m).mp hw)
          · -- A taker falls asleep at an empty ring.
            refine iff_of_true (fun _ hne => absurd hempty hne) (fun hl => ?_)
            have htwo := hl.2.2.2
            rw [hempty, List.length_nil] at htwo
            omega
      | aborted hready hbody => exact absurd hbody (body_ne_none m _ hready)
      | returned hready hbody hsignal =>
          cases effect_of_body hready hbody with
          | put x hm _ _ =>
              have hmt : m ≠ .take := by
                rintro rfl
                cases hm
              exact iff_of_true (h.put hrun hm hsignal)
                (fun hl => not_notifiedOn_of_runnable hrun hmt hl.1)
          | take x hitems => exact takerWoken_take h hrun hitems hsignal
          | observe _ hmt _ =>
              -- An observer changes neither the ring nor the takers.
              have hnot := not_notifiedOn_of_runnable hrun hmt
              have hframe := Monitor.returned_frame hsignal (k := .notEmpty) nofun
              have hdata := (Monitor.signal_frame hsignal).1
              refine iff_of_true (h.mono (fun u hu => ((hframe u).1.mp hu).2)
                (fun u hu => (hframe u).2.mpr ⟨?_, hu⟩) (fun hne => hdata ▸ hne))
                (fun hl => hnot hl.1)
              rintro rfl
              exact hnot hu
  | spurious t =>
      obtain ⟨-, m, hpos, rfl⟩ := spurious_cases hs
      refine iff_of_true (h.move ?_ nofun) (fun hf => hf)
      rw [notifiedOn_notEmpty_iff, hpos]
      nofun

end Bigpipe.BoundedBlockingQueue
