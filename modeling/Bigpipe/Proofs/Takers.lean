import Bigpipe.Proofs.Wakeups

/-!
# `Bigpipe.Proofs.Takers`: a queue with several takers

`put` notifies `notEmpty_` only when it finds the ring empty, so with
several takers one may sleep beside an item that nobody was notified
of (`takerWoken_step`). But they do not all sleep: a taker falls
asleep beside an empty ring only, and the `put` that ends the
emptiness notifies a sleeper.

So what a lost wake-up costs is a taker, and not the queue. The item
that nobody was told of is taken by a taker that comes back for its
next one, later than it could have been. The invariant is therefore
weaker than `TakerWoken`, and every step keeps it.

* `Attended`: where the ring has an item, one of the takers does not
  sleep.
* `attended_step`: every step keeps it.
* `takers_noDeadlock`: so takers and putters never wait for one
  another.
-/

set_option autoImplicit false

namespace Bigpipe.BoundedBlockingQueue

open Bigpipe.Lib
open Bigpipe.Lib.Monitor (AsleepOn NotifiedOn Section acquire_cases call_cases spurious_cases)

variable {τ α : Type} {cap : Nat}

/-- The event is no call of `take` by a thread that is not one of the
takers. -/
def TakesOnlyIn (takers : Set τ) (e : Monitor.Event τ (Call α)) : Prop :=
  ∀ t, e = .call t .take → t ∈ takers

/-- Only takers are in a call of `take`. -/
def OnlyTakers (takers : Set τ) (s : State τ α cap) : Prop :=
  ∀ t, (s.pos t).within = some .take → t ∈ takers

/-- Where the ring has an item, one of the takers does not sleep in
`take`. It may be notified, on its way in, or outside with an item
that it took before. -/
def Attended (takers : Set τ) (s : State τ α cap) : Prop :=
  s.data.items ≠ [] → ∃ u ∈ takers, s.pos u ≠ .asleep .take

variable {takers : Set τ} {s s' : State τ α cap} {t : τ}

/-- A taker that does not sleep stays awake where nobody falls asleep
in `take`. -/
theorem Attended.mono (h : Attended takers s) (hitems : s'.data.items ≠ [] → s.data.items ≠ [])
    (hawake : ∀ u, s.pos u ≠ .asleep .take → s'.pos u ≠ .asleep .take) : Attended takers s' := by
  intro hne
  obtain ⟨u, hu, hpos⟩ := h (hitems hne)
  exact ⟨u, hu, hawake u hpos⟩

variable [DecidableEq τ]

/-- A thread that moves to another position than the wait of `take`
keeps a taker awake. -/
theorem Attended.move {p : Monitor.Pos (Call α)} (h : Attended takers s)
    (hp : p ≠ .asleep .take) : Attended takers (s.move t p) := by
  refine h.mono id fun u hu => ?_
  rw [Monitor.State.move_pos, Function.update_apply]
  split
  · exact hp
  · exact hu

/-- The lock section of a `put` keeps a taker awake. On the empty ring
it notifies a taker that sleeps, and where none sleeps all of them are
awake. -/
theorem Attended.put {m : Call α} {o : Monitor.Outcome (Ret α)} (h : Attended takers s)
    (htakers : takers.Nonempty) (honly : OnlyTakers takers s) (hm : m ≠ .take)
    (hsec : PutSection s t m s' o) : Attended takers s' := by
  cases hsec with
  | full => exact h.move fun heq => hm (Monitor.Pos.asleep.inj heq)
  | @silent d hfull hnone =>
      intro _
      have hawake : ∃ u ∈ takers, s.pos u ≠ .asleep .take := by
        by_cases hempty : s.data.items = []
        · obtain ⟨u, hu⟩ := htakers
          exact ⟨u, hu, hnone hempty u⟩
        · exact h hempty
      obtain ⟨u, hu, hpos⟩ := hawake
      refine ⟨u, hu, ?_⟩
      rw [Monitor.State.complete_pos, Function.update_apply]
      split
      · nofun
      · exact hpos
  | @wakes d u hfull hempty hu =>
      intro _
      refine ⟨u, honly u (by rw [hu]; rfl), ?_⟩
      rw [Monitor.State.move_pos, Function.update_self]
      nofun

/-- The lock section of a `take` keeps a taker awake: the ring is
empty, or its own thread has returned. It is here that the items which
nobody was notified of are looked after. -/
theorem Attended.take {o : Monitor.Outcome (Ret α)} (h : Attended takers s)
    (hsec : TakeSection s t s' o) : Attended takers s' := by
  have hreturned : ∀ {d : CircularBuffer α cap} {r : Ret α} {u : τ},
      s.pos u ≠ .asleep .take → (s.complete t .take d r).pos u ≠ .asleep .take := by
    intro d r u hu
    rw [Monitor.State.complete_pos, Function.update_apply]
    split
    · nofun
    · exact hu
  cases hsec with
  | empty hempty => exact fun hne => absurd hempty hne
  | silent hitems =>
      exact h.mono (fun _ hnil => by rw [hnil] at hitems; cases hitems) fun u hu => hreturned hu
  | @wakes d x y v m hitems hv hm =>
      refine h.mono (fun _ hnil => by rw [hnil] at hitems; cases hitems) fun u hu => ?_
      rw [Monitor.State.move_pos, Function.update_apply]
      split
      · nofun
      · exact hreturned hu

variable [Fintype τ]

/-- The lock section of an observer moves its own thread only. It
sends no signal and changes no item. -/
theorem Attended.observe {m : Call α} {o : Monitor.Outcome (Ret α)} {pick : Option τ}
    (h : Attended takers s) (hput : m.putItem = none) (htake : m ≠ .take)
    (hsec : Section (queue α cap) s t m pick s' o) : Attended takers s' := by
  cases hsec with
  | slept => exact h.move fun heq => htake (Monitor.Pos.asleep.inj heq)
  | aborted => exact h
  | returned hready hbody hsignal =>
      cases effect_of_body hready hbody with
      | put x hx =>
          rw [hput] at hx
          cases hx
      | take => exact absurd rfl htake
      | observe =>
          cases hsignal
          refine h.mono id fun u hu => ?_
          rw [Monitor.State.complete_pos, Function.update_apply]
          split
          · nofun
          · exact hu

/-- The threads of a queue stay out of `take` where they do not call
it. -/
theorem onlyTakers_step {e : Monitor.Event τ (Call α)} (h : OnlyTakers takers s)
    (he : TakesOnlyIn takers e) (hs : ((queue α cap).system τ).step s e = some s') :
    OnlyTakers takers s' := by
  intro u hu
  refine Monitor.within_step (R := fun u m => m = .take → u ∈ takers) ?_ ?_ hs hu rfl
  · rintro v m hv rfl
    exact h v hv
  · rintro v m rfl rfl
    exact he v rfl

/-- The step lemma. Only a `take` can send a taker to sleep, and it
does so beside the empty ring. -/
theorem attended_step {e : Monitor.Event τ (Call α)} (htakers : takers.Nonempty)
    (honly : OnlyTakers takers s) (h : Attended takers s)
    (hs : ((queue α cap).system τ).step s e = some s') : Attended takers s' := by
  cases e with
  | call t m =>
      obtain ⟨-, -, rfl⟩ := call_cases hs
      exact h.move nofun
  | spurious t =>
      obtain ⟨-, m, -, rfl⟩ := spurious_cases hs
      exact h.move nofun
  | acquire t pick =>
      obtain ⟨⟨s₁, o⟩, hacq, rfl⟩ := Option.map_eq_some_iff.mp hs
      obtain ⟨-, m, hrun, hsec⟩ := acquire_cases hacq
      have hwithin := Monitor.Pos.within_of_runnable hrun
      cases hput : m.putItem with
      | some x =>
          refine h.put htakers honly ?_ (put_section hwithin hput hacq)
          rintro rfl
          cases hput
      | none =>
          by_cases htake : m = .take
          · subst htake
            exact h.take (take_section hwithin hacq)
          · exact h.observe hput htake hsec

/-- Where a putter sleeps and nobody is notified of a free slot, the
ring is full. -/
theorem full_of_no_notified (h : ((queue α cap).system τ).Reachable s)
    (hputter : ∃ u, AsleepOn (queue α cap) s .notFull u)
    (hnone : ∀ v, ¬ NotifiedOn (queue α cap) s .notFull v) : s.data.isFull = true := by
  have hle : freeSlots s.data ≤ (Finset.univ.filter (NotifiedOn (queue α cap) s .notFull)).card :=
    Monitor.Reachable.announced announces_notFull h hputter
  rw [Finset.filter_false_of_mem fun v _ => hnone v, Finset.card_empty] at hle
  by_contra hfull
  have hlt := s.data.isFull_eq_false_iff.mp (Bool.eq_false_of_not_eq_true hfull)
  unfold freeSlots at hle
  omega

/-- A queue with any number of takers, in every schedule and with any
number of threads that put: where the ring has an item, the takers do
not all sleep un-notified, and they never do so together with a putter
while no thread is notified.

There has to be a taker and a slot for it. Without a taker nobody
comes for an item, and without a slot there is none. -/
theorem takers_noDeadlock (hcap : 0 < cap) (htakers : takers.Nonempty)
    (es : List (Monitor.Event τ (Call α))) (hes : ∀ e ∈ es, TakesOnlyIn takers e)
    (hrun : ((queue α cap).system τ).run (queue α cap).initial es = some s) :
    (s.data.items ≠ [] → ∃ u ∈ takers, ¬ AsleepOn (queue α cap) s .notEmpty u) ∧
      ¬ ((∀ u ∈ takers, AsleepOn (queue α cap) s .notEmpty u) ∧
        (∃ u, AsleepOn (queue α cap) s .notFull u) ∧
        ∀ v k, ¬ NotifiedOn (queue α cap) s k v) := by
  have hrest : OnlyTakers takers s ∧ Attended takers s := by
    refine System.run_induct (I := fun s => OnlyTakers takers s ∧ Attended takers s) ?_ ⟨?_, ?_⟩
      hrun
    · intro s e s' he ⟨honly, hattended⟩ hs
      exact ⟨onlyTakers_step honly (hes e he) hs, attended_step htakers honly hattended hs⟩
    · intro t ht
      cases ht
    · exact fun hne => absurd rfl hne
  have hattended : s.data.items ≠ [] →
      ∃ u ∈ takers, ¬ AsleepOn (queue α cap) s .notEmpty u := by
    intro hne
    obtain ⟨u, hu, hpos⟩ := hrest.2 hne
    exact ⟨u, hu, fun hsleep => hpos (asleepOn_notEmpty_iff.mp hsleep)⟩
  refine ⟨hattended, fun ⟨hasleep, hputter, hnone⟩ => ?_⟩
  -- All takers sleep, so the ring is empty, and somebody is notified of a
  -- free slot.
  have hempty : s.data.items = [] := by
    by_contra hne
    obtain ⟨u, hu, hawake⟩ := hattended hne
    exact hawake (hasleep u hu)
  have hreach : ((queue α cap).system τ).Reachable s := (System.Reachable.init rfl).run hrun
  have hfull := full_of_no_notified hreach hputter fun v => hnone v .notFull
  rw [s.data.isFull_eq_false_iff.mpr (by rw [hempty]; exact hcap)] at hfull
  cases hfull

/-- The takers of a queue of three threads. -/
def firstTaker : Fin 3 := ⟨0, by decide⟩

/-- The second of them. -/
def secondTaker : Fin 3 := ⟨1, by decide⟩

/-- The thread that puts. -/
def putter : Fin 3 := ⟨2, by decide⟩

/-- Two takers sleep, and of two `put`s only the first notifies one of
them. The second item is the one that nobody was told of. -/
def twoTakers : List (Monitor.Event (Fin 3) (Call Nat)) :=
  [.call firstTaker .take, .acquire firstTaker none, .call secondTaker .take,
   .acquire secondTaker none, .call putter (.put 7), .acquire putter (some firstTaker),
   .call putter (.put 8), .acquire putter none]

/-- `takers_noDeadlock` at the state that the run `twoTakers` reaches,
in which one of the takers sleeps beside two items. -/
theorem takers_noDeadlock_twoTakers :
    ∃ s : State (Fin 3) Nat 2,
      ((queue Nat 2).system (Fin 3)).run (queue Nat 2).initial twoTakers = some s ∧
      s.data.items = [7, 8] ∧ AsleepOn (queue Nat 2) s .notEmpty secondTaker ∧
      ∃ u ∈ ({firstTaker, secondTaker} : Set (Fin 3)), ¬ AsleepOn (queue Nat 2) s .notEmpty u := by
  have hrun : (((queue Nat 2).system (Fin 3)).run (queue Nat 2).initial twoTakers).map
      (fun s => (s.data.items, decide (AsleepOn (queue Nat 2) s .notEmpty secondTaker))) =
        some ([7, 8], true) := by decide
  obtain ⟨s, hs, heq⟩ := Option.map_eq_some_iff.mp hrun
  obtain ⟨hitems, hsleep⟩ := Prod.mk.inj heq
  refine ⟨s, hs, hitems, of_decide_eq_true hsleep,
    (takers_noDeadlock (by decide) ⟨firstTaker, .inl rfl⟩ twoTakers ?_ hs).1
      (by rw [hitems]; nofun)⟩
  intro e he t heq
  subst heq
  simp [twoTakers] at he
  exact he

end Bigpipe.BoundedBlockingQueue
