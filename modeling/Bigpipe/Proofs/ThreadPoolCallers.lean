import Bigpipe.Proofs.ThreadPoolProgress

/-!
# `Bigpipe.Proofs.ThreadPoolCallers`: a pool with one caller

A `PutTask` waits while the queue is full. With one caller that is no
deadlock: the workers take an item in the end, the `take` notifies the
caller, and no other thread fills the free slot before it.

Two things could go wrong, and neither does. The caller could sleep
beside a free slot that nobody told it of: `take` notifies `notFull_`
on every item, so free slots are announced (`full_of_asleep`). And it
could be told, and come too late: with a second caller that would be
so, but the only other thread that puts is `Stop`, and `Stop` is not
called. Hence a free slot stays free until the caller has filled it.

With several callers the results do not hold. One of them may come too
late for every slot, while the others put and the workers take.

* `full_of_asleep`: the caller sleeps only beside a full queue.
* `Roomy`: the caller is in its `put` beside a free slot, and
  `roomy_step` that it stays so until its own lock section returns.
* `putTask_leadsTo_returned`: in a fair execution without `Stop`,
  every `PutTask` returns.
* `returned_of_start`: from any point after the start on.
* `executesHanded`: so every task that a `PutTask` was called with is
  executed, and every `PutTask` returns.
-/

set_option autoImplicit false

namespace Bigpipe.ThreadPool

open Bigpipe.Lib
open Bigpipe.Lib.System (Execution)
open Bigpipe.BoundedBlockingQueue (queue puts)

variable {n : Nat} {C Task : Type} {cap : Nat} [DecidableEq C] [Fintype C] [Subsingleton C]
  {s s' : State n C Task cap} {e : Event n C Task} {c : C}

/-! ### The caller in its `put` -/

/-- Once `Start` has returned, the only caller sleeps beside a full
queue. Were there a free slot, the law of announcements would give a
notified putter, and there is no putter but the one that sleeps. -/
theorem full_of_asleep (h : (system n C Task cap).Reachable s) (ho : s.owner = .started)
    {m : BoundedBlockingQueue.Call (Option Task)} (hasleep : s.queue.pos (.caller c) = .asleep m) :
    s.queue.data.isFull = true := by
  have hinv := reachable_inv h
  obtain ⟨task, rfl⟩ := hinv.caller c m (by rw [hasleep]; rfl)
  have hfree := Monitor.Reachable.announced BoundedBlockingQueue.announces_notFull
    (queueSimulation.reachable h)
    ⟨.caller c, BoundedBlockingQueue.asleepOn_notFull_iff.mpr ⟨_, task, hasleep, rfl⟩⟩
  -- No other thread is in a `put`, so none is notified.
  have hnone : Finset.univ.filter
      (Monitor.NotifiedOn (queue (Option Task) cap) s.queue .notFull) = ∅ := by
    refine Finset.filter_eq_empty_iff.mpr fun t _ hnotified => ?_
    obtain ⟨m, hrun, hwaits⟩ := hnotified.runnable
    have hwithin := Monitor.Pos.within_of_runnable hrun
    cases t with
    | owner =>
        rw [hinv.owner, ho] at hwithin
        cases hwithin
    | worker i =>
        rw [hinv.worker] at hwithin
        cases hw : s.worker i <;> rw [hw] at hwithin <;> cases hwithin
        cases hwaits
    | caller c' =>
        rw [Subsingleton.elim c' c, hasleep] at hrun
        cases hrun
  rw [hnone, Finset.card_empty, BoundedBlockingQueue.freeSlots] at hfree
  by_contra hroom
  have hlt := s.queue.data.isFull_eq_false_iff.mp (Bool.eq_false_of_not_eq_true hroom)
  omega

/-- `Start` has returned, and the caller is in its `put` beside a free
slot. The workers can only add to the free slots. -/
structure Roomy (c : C) (s : State n C Task cap) : Prop where
  isOpen : Open s
  started : s.owner = .started
  inside : s.queue.pos (.caller c) ≠ .outside
  room : s.queue.data.isFull = false

omit [DecidableEq C] [Fintype C] [Subsingleton C] in
/-- The caller stays in its `put`. -/
theorem Roomy.inside_of_within (h : Roomy c s)
    (hwithin : (s'.queue.pos (.caller c)).within = (s.queue.pos (.caller c)).within) :
    s'.queue.pos (.caller c) ≠ .outside := by
  intro hout
  rw [hout] at hwithin
  exact h.inside (Monitor.Pos.within_eq_none_iff.mp hwithin.symm)

/-- The caller can run its lock section. -/
theorem Roomy.able (h : Roomy c s) (hreach : (system n C Task cap).Reachable s) :
    able s (.caller c) = true := by
  cases hwithin : (s.queue.pos (.caller c)).within with
  | none => exact absurd (Monitor.Pos.within_eq_none_iff.mp hwithin) h.inside
  | some m =>
      rcases Monitor.Pos.asleep_or_runnable hwithin with hasleep | hrun
      · exact nomatch h.room.symm.trans (full_of_asleep hreach h.started hasleep)
      · simp only [ThreadPool.able, hrun, Option.isSome_some]

omit [Subsingleton C] in
/-- A lock section of the caller beside a free slot returns. The wait
of `put` is for a free slot and for nothing else. -/
theorem Roomy.outside_of_section (h : Roomy c s) (hinv : Inv s) {q : Queue n C Task cap}
    {pick : Option (Tid n C)} {o : Monitor.Outcome (BoundedBlockingQueue.Ret (Option Task))}
    (hq : Monitor.acquire (queue (Option Task) cap) s.queue (.caller c) pick = some (q, o)) :
    q.pos (.caller c) = .outside := by
  obtain ⟨-, m, hrun, -⟩ := Monitor.acquire_cases hq
  have hwithin := Monitor.Pos.within_of_runnable hrun
  obtain ⟨task, rfl⟩ := hinv.caller c m hwithin
  have hreturned : o = .returned .unit := by
    cases BoundedBlockingQueue.put_section hwithin rfl hq with
    | full hfull => exact nomatch h.room.symm.trans hfull
    | silent | wakes => rfl
  subst hreturned
  exact Monitor.Pos.within_eq_none_iff.mp
    ((Monitor.acquire_within_returned hq (.caller c)).trans (if_pos rfl))

/-- The step lemma. Beside a free slot the caller returns or stays so,
and its own steps return. It is the shape that the rule for fair
executions asks for: the property stays, and one thread can end it. -/
theorem roomy_step (hinv : Inv s) (hroomy : Roomy c s) (h : Step s e s') (he : e ≠ .stop) :
    s'.queue.pos (.caller c) = .outside ∨ Roomy c s' ∧ actor e ≠ some (.caller c) := by
  have hopen := hroomy.isOpen.step h he
  have hstarted := started_step hroomy.started h he
  cases h with
  | start ho | spawn ho | started ho | stopPut ho | stopWait ho | stopPutDone ho | join ho =>
      cases hroomy.started.symm.trans ho
  | stop => exact absurd rfl he
  | leave hw hr => exact nomatch hr.symm.trans hroomy.isOpen.flag
  | runTask => exact .inr ⟨⟨hopen, hstarted, hroomy.inside, hroomy.room⟩, nofun⟩
  | @take i q hw hr hq =>
      refine .inr ⟨⟨hopen, hstarted, hroomy.inside_of_within ?_, ?_⟩, nofun⟩
      · exact (Monitor.call_within hq _).trans (if_neg nofun)
      · show q.data.isFull = false
        rw [(Monitor.call_runnable hq).2.1]
        exact hroomy.room
  | @takeWait i q pick o hw hq hret =>
      refine .inr ⟨⟨hopen, hstarted, hroomy.inside_of_within ?_, ?_⟩, nofun⟩
      · exact (Monitor.acquire_within hq _).trans (if_neg nofun)
      · cases BoundedBlockingQueue.take_section (hinv.worker_take hw) hq with
        | empty => exact hroomy.room
        | silent | wakes => exact absurd rfl (hret _)
  | @takeDone i q pick todo hw hq =>
      refine .inr ⟨⟨hopen, hstarted, hroomy.inside_of_within ?_, ?_⟩, nofun⟩
      · exact (Monitor.acquire_within hq _).trans (if_neg nofun)
      · -- A `take` makes one more slot free.
        have hlt := s.queue.data.isFull_eq_false_iff.mp hroomy.room
        refine (CircularBuffer.isFull_eq_false_iff _).mpr (Nat.lt_of_le_of_lt ?_ hlt)
        cases BoundedBlockingQueue.take_section (hinv.worker_take hw) hq with
        | @silent d _ hitems | @wakes d _ _ _ _ hitems =>
            show d.items.length ≤ _
            rw [hitems]
            exact Nat.le_succ _
  | @putTask c' task q hq =>
      -- The caller is in a call, so it makes no other.
      rw [Subsingleton.elim c' c] at hq
      exact absurd (Monitor.call_cases hq).2.1 hroomy.inside
  | @callerSection c' q pick o hq =>
      rw [Subsingleton.elim c' c] at hq
      exact .inl (hroomy.outside_of_section hinv hq)
  | @spurious t q hq =>
      refine .inr ⟨⟨hopen, hstarted, ?_, ?_⟩, nofun⟩
      · exact hroomy.inside_of_within (Monitor.spurious_within hq _)
      · obtain ⟨-, m, -, rfl⟩ := Monitor.spurious_cases hq
        exact hroomy.room

/-- Once `Start` has returned, nothing is put while the caller stays
in its call. -/
theorem puts_of_inside (hinv : Inv s) (ho : s.owner = .started)
    (hinside : s'.queue.pos (.caller c) ≠ .outside) (h : Step s e s') :
    puts s'.queue.hist = puts s.queue.hist := by
  cases h with
  | start | spawn | started | stop | join | leave | runTask => rfl
  | stopPut hs | stopWait hs | stopPutDone hs => cases ho.symm.trans hs
  | take _ _ hq | putTask hq =>
      obtain ⟨-, -, rfl⟩ := Monitor.call_cases hq
      rfl
  | @takeWait i q pick o hw hq hret =>
      cases BoundedBlockingQueue.take_section (hinv.worker_take hw) hq with
      | empty => rfl
      | silent | wakes => exact absurd rfl (hret _)
  | @takeDone i q pick todo hw hq =>
      show puts q.hist = _
      rw [Monitor.acquire_hist_returned (hinv.worker_take hw) hq, BoundedBlockingQueue.puts_snoc]
      exact List.append_nil _
  | @callerSection c' q pick o hq =>
      rw [Subsingleton.elim c' c] at hq
      cases o with
      | slept | aborted => exact congrArg puts (Monitor.acquire_hist hq rfl)
      | returned r =>
          have hout := (Monitor.acquire_within_returned hq (.caller c)).trans (if_pos rfl)
          exact absurd (Monitor.Pos.within_eq_none_iff.mp hout) hinside
  | spurious hq =>
      obtain ⟨-, m, -, rfl⟩ := Monitor.spurious_cases hq
      rfl

/-! ### Executions -/

variable {x : Execution (system n C Task cap)}

omit [Subsingleton C] in
/-- Without `Stop` the pool goes on after `Start`. -/
theorem started_always (hstop : ∀ i, x.event i ≠ some .stop) {i j : Nat} (hij : i ≤ j)
    (hi : Open (x.state i) ∧ (x.state i).owner = .started) :
    Open (x.state j) ∧ (x.state j).owner = .started := by
  refine Execution.always_from (x := x) (P := fun s => Open s ∧ s.owner = .started) hi
    (fun k e _ he hk => ?_) hij
  have hstep := step_cases (x.steps k e he)
  have hne : e ≠ .stop := fun heq => hstop k (heq ▸ he)
  exact ⟨hk.1.step hstep hne, started_step hk.2 hstep hne⟩

/-- Beside a free slot the `put` of the caller returns. -/
theorem roomy_leadsTo_returned (hstop : ∀ i, x.event i ≠ some .stop)
    (hfair : x.WeaklyFair fun e => actor e = some (.caller c)) :
    x.LeadsTo (Roomy c) fun s => s.queue.pos (.caller c) = .outside := by
  refine hfair.leadsTo ?_ ?_ ?_
  · intro i e he hroomy
    refine (roomy_step (reachable_inv (x.reachable i)) hroomy (step_cases (x.steps i e he))
      fun heq => hstop i (heq ▸ he)).symm.imp And.left id
  · intro i e he hactor hroomy
    refine (roomy_step (reachable_inv (x.reachable i)) hroomy (step_cases (x.steps i e he))
      fun heq => hstop i (heq ▸ he)).resolve_right fun h => h.2 hactor
  · intro i hroomy
    exact enabled_of_able (x.reachable i) (hroomy.able (x.reachable i))

/-- In a fair execution without `Stop`, every `PutTask` of the only
caller returns.

Where the ring has a free slot, `Roomy` applies. Where it is full, the
workers take an item by `started_leadsTo_taken`, while the caller can
put nothing, and then there is one. -/
theorem putTask_leadsTo_returned (hn : 0 < n) (hcap : 0 < cap)
    (hfair : ∀ t, x.WeaklyFair fun e => actor e = some t)
    (hstop : ∀ i, x.event i ≠ some .stop) (c : C) :
    x.LeadsTo (fun s => Open s ∧ s.owner = .started)
      fun s => s.queue.pos (.caller c) = .outside := by
  intro i hi
  by_contra hnever
  have hinside : ∀ j, i ≤ j → (x.state j).queue.pos (.caller c) ≠ .outside :=
    fun j hij hout => hnever ⟨j, hij, hout⟩
  have hstarted : ∀ j, i ≤ j → Open (x.state j) ∧ (x.state j).owner = .started :=
    fun j hij => started_always hstop hij hi
  have hputs : ∀ j, i ≤ j → puts (x.state j).queue.hist = puts (x.state i).queue.hist := by
    intro j hij
    induction j, hij using Nat.le_induction with
    | base => rfl
    | succ j hij ih =>
        cases he : x.event j with
        | none => rw [x.stays j he, ih]
        | some e =>
            rw [← ih]
            exact puts_of_inside (reachable_inv (x.reachable j)) (hstarted j hij).2
              (hinside (j + 1) (Nat.le_succ_of_le hij)) (step_cases (x.steps j e he))
  -- The workers take all that was put, and nothing more is put.
  obtain ⟨j, hij, htaken⟩ := started_leadsTo_taken hn hstop (fun u => hfair (.worker u)) _ i
    ⟨hi, Nat.le_refl _⟩
  have hroom : (x.state j).queue.data.isFull = false := by
    have hfifo := congrArg List.length (fifo (x.reachable j))
    rw [hputs j hij, List.length_append] at hfifo
    change _ ≤ (BoundedBlockingQueue.takes (x.state j).queue.hist).length at htaken
    exact (CircularBuffer.isFull_eq_false_iff _).mpr (by omega)
  obtain ⟨k, hjk, hout⟩ := roomy_leadsTo_returned hstop (hfair (.caller c)) j
    ⟨(hstarted j hij).1, (hstarted j hij).2, hinside j hij, hroom⟩
  exact hinside k (hij.trans hjk) hout

/-- From any point after the start on, every `PutTask` that has been
called returns. -/
theorem returned_of_start (hn : 0 < n) (hcap : 0 < cap) (hstop : ∀ i, x.event i ≠ some .stop)
    (hfair : ∀ t, x.WeaklyFair fun e => actor e = some t) {i : Nat}
    (hstart : (x.state i).owner ≠ .idle) (c : C) :
    ∃ j, i ≤ j ∧ (x.state j).queue.pos (.caller c) = .outside := by
  obtain ⟨j, hij, hstarted⟩ :=
    open_leadsTo_started hstop (hfair .owner) i (open_of_start hstop hstart)
  obtain ⟨k, hjk, hout⟩ := putTask_leadsTo_returned hn hcap hfair hstop c j hstarted
  exact ⟨k, hij.trans hjk, hout⟩

omit [Subsingleton C] in
/-- The start is not undone. -/
theorem start_always (hstop : ∀ i, x.event i ≠ some .stop) {i j : Nat} (hij : i ≤ j)
    (hstart : (x.state i).owner ≠ .idle) : (x.state j).owner ≠ .idle := by
  refine Execution.always_from (x := x) (P := fun s => s.owner ≠ .idle) hstart
    (fun k e _ he hk => ?_) hij
  have hopen := (open_of_start hstop hk).step (step_cases (x.steps k e he))
    fun heq => hstop k (heq ▸ he)
  rcases hopen.owner with ho | ⟨l, ho⟩ <;> rw [ho] <;> nofun

omit [Subsingleton C] in
/-- What was handed to `PutTask` stays put or on its way. -/
theorem handed_mono {i j : Nat} (hij : i ≤ j) :
    accepted (x.state i) + pending (x.state i) ≤ accepted (x.state j) + pending (x.state j) := by
  refine Execution.always_from (x := x)
    (P := fun s => accepted (x.state i) + pending (x.state i) ≤ accepted s + pending s) (le_refl _)
    (fun k e _ he hk => ?_) hij
  rw [handed_step (reachable_inv (x.reachable k)) (step_cases (x.steps k e he))]
  exact hk.trans (Multiset.le_add_right _ _)

/-- What was handed to `PutTask` is executed. What is on its way is
put when the call returns, and what has been put the workers
execute. -/
theorem handed_leadsTo_executed (hn : 0 < n) (hcap : 0 < cap)
    (hstop : ∀ i, x.event i ≠ some .stop)
    (hfair : ∀ t, x.WeaklyFair fun e => actor e = some t) (m : Multiset Task) :
    x.LeadsTo (fun s => s.owner ≠ .idle ∧ m ≤ accepted s + pending s) fun s => m ≤ s.executed := by
  intro i ⟨hstart, hm⟩
  have hreturned : ∃ j, i ≤ j ∧ pending (x.state j) = 0 := by
    rcases isEmpty_or_nonempty C with hempty | ⟨⟨c⟩⟩
    · exact ⟨i, Nat.le_refl _, Finset.sum_of_isEmpty _⟩
    · obtain ⟨j, hj, hout⟩ := returned_of_start hn hcap hstop hfair hstart c
      refine ⟨j, hj, Finset.sum_eq_zero fun c' _ => ?_⟩
      rw [Subsingleton.elim c' c, pendingAt, hout]
      rfl
  obtain ⟨j, hij, hpending⟩ := hreturned
  -- Now all of it has been put.
  have hhanded := hm.trans (handed_mono (x := x) hij)
  rw [hpending, add_zero] at hhanded
  obtain ⟨k, hjk, hexecuted⟩ :=
    accepted_leadsTo_executed hn hstop hfair m j ⟨start_always hstop hij hstart, hhanded⟩
  exact ⟨k, hij.trans hjk, hexecuted⟩

end Bigpipe.ThreadPool
