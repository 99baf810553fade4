import Bigpipe.Base.ThreadPool
import Bigpipe.Proofs.BoundedBlockingQueue

/-!
# `Bigpipe.Proofs.ThreadPool`: wake-ups and shutdown of the thread pool

Workers take tasks from a `BoundedBlockingQueue`, and `Stop` puts one
null task for each of them.

A pool has three kinds of threads and one queue, so a proof about it
has two sides: where the threads are in the code, and where they are
in the queue. `Inv` says that the two agree. `queueSimulation` forgets
the first side, so that what is known of every queue holds of the
queue of every pool, and nothing about rings and conditions is proved
here again.

`Step` says once what each event of a pool can do, and `step_cases`
that nothing else happens. All invariants of the pool, here and in the
modules after this one, are proved by cases on `Step` and never by
unfolding the step function.

The wake-ups are those of the queue. In a pool the takers are the
workers, so the step that loses a wake-up is the lock section of a
worker.

* `workerWoken_iff`: a run keeps a worker awake for the tasks in the
  queue exactly when no step of it loses a wake-up.
* `sleepingWorker`: a run that loses one.
-/

set_option autoImplicit false

namespace Bigpipe.ThreadPool

open Bigpipe.Lib
open Bigpipe.BoundedBlockingQueue (queue)
open Bigpipe.Lib.Monitor (acquire acquire_cases call_cases spurious_cases)

variable {n : Nat} {C Task : Type} {cap : Nat} [DecidableEq C] [Fintype C]
  {s s' : State n C Task cap} {e : Event n C Task}

/-! ### What a step can do -/

/-- The steps of a pool: one constructor for each branch of each
event, with the guard of the branch and the state after it. A lock
section has two constructors where the program goes on after a
completed one only. -/
inductive Step (s : State n C Task cap) : Event n C Task → State n C Task cap → Prop where
  | start (ho : s.owner = .idle) :
      Step s .start { s with isRunning := true, owner := .starting 0 }
  | spawn {i : Nat} (ho : s.owner = .starting i) (hi : i < n) :
      Step s .spawn { s.setWorker ⟨i, hi⟩ .loop with owner := .starting (i + 1) }
  | started {i : Nat} (ho : s.owner = .starting i) (hi : ¬ i < n) :
      Step s .spawn { s with owner := .started }
  -- `Stop`: for each worker in turn an empty function, then a join.
  | stop (ho : s.owner = .started) :
      Step s .stop { s with isRunning := false, owner := stopNext n 0 }
  | stopPut {i : Nat} {q : Queue n C Task cap}
      (ho : s.owner = .stopPut i)
      (hq : Monitor.call s.queue .owner (.putMove none) = some q) :
      Step s .stopPut { s with queue := q, owner := .stopPutting i }
  | stopWait {i : Nat} {q : Queue n C Task cap}
      {pick : Option (Tid n C)} {o : Monitor.Outcome (BoundedBlockingQueue.Ret (Option Task))}
      (ho : s.owner = .stopPutting i)
      (hq : acquire (queue (Option Task) cap) s.queue .owner pick = some (q, o))
      (hret : o.isReturned = false) :
      Step s (.stopSection pick) { s with queue := q }
  | stopPutDone {i : Nat} {q : Queue n C Task cap}
      {pick : Option (Tid n C)} {r : BoundedBlockingQueue.Ret (Option Task)}
      (ho : s.owner = .stopPutting i)
      (hq : acquire (queue (Option Task) cap) s.queue .owner pick = some (q, .returned r)) :
      Step s (.stopSection pick) { s with queue := q, owner := .stopJoin i }
  | join {i : Nat} (ho : s.owner = .stopJoin i) (hi : i < n) (hw : s.worker ⟨i, hi⟩ = .left) :
      Step s .join { s with owner := stopNext n (i + 1) }
  -- The loop of a worker: test the flag, take, run what was taken.
  | take {i : Fin n} {q : Queue n C Task cap}
      (hw : s.worker i = .loop) (hr : s.isRunning = true)
      (hq : Monitor.call s.queue (.worker i) .take = some q) :
      Step s (.test i) { s.setWorker i .taking with queue := q }
  | leave {i : Fin n} (hw : s.worker i = .loop) (hr : s.isRunning = false) :
      Step s (.test i) (s.setWorker i .left)
  -- Asleep on an empty queue, or woken to find it empty again.
  | takeWait {i : Fin n} {q : Queue n C Task cap}
      {pick : Option (Tid n C)} {o : Monitor.Outcome (BoundedBlockingQueue.Ret (Option Task))}
      (hw : s.worker i = .taking)
      (hq : acquire (queue (Option Task) cap) s.queue (.worker i) pick = some (q, o))
      (hret : ∀ x, o ≠ .returned (.item x)) :
      Step s (.workerSection i pick) { s with queue := q }
  | takeDone {i : Fin n} {q : Queue n C Task cap}
      {pick : Option (Tid n C)} {todo : Option Task} (hw : s.worker i = .taking)
      (hq : acquire (queue (Option Task) cap) s.queue (.worker i) pick
        = some (q, .returned (.item todo))) :
      Step s (.workerSection i pick) { s.setWorker i (.todo todo) with queue := q }
  | runTask {i : Fin n} {task : Option Task} (hw : s.worker i = .todo task) :
      Step s (.runTask i) { s.setWorker i .loop with executed := s.executed ++ task.toList }
  -- The callers of `PutTask`, on any threads.
  | putTask {c : C} {task : Option Task}
      {q : Queue n C Task cap}
      (hq : Monitor.call s.queue (.caller c) (.put task) = some q) :
      Step s (.putTask c task) { s with queue := q }
  | callerSection {c : C} {q : Queue n C Task cap}
      {pick : Option (Tid n C)} {o : Monitor.Outcome (BoundedBlockingQueue.Ret (Option Task))}
      (hq : acquire (queue (Option Task) cap) s.queue (.caller c) pick = some (q, o)) :
      Step s (.callerSection c pick) { s with queue := q }
  | spurious {t : Tid n C} {q : Queue n C Task cap}
      (hq : Monitor.spurious s.queue t = some q) :
      Step s (.spurious t) { s with queue := q }

/-- The loop of `Start` spawns the next worker, or is over. -/
theorem spawn_cases (h : spawn s = some s') : Step s .spawn s' := by
  unfold spawn at h
  split at h
  · rename_i i ho
    split at h
    · rename_i hi
      cases h
      exact .spawn ho hi
    · rename_i hi
      cases h
      exact .started ho hi
  · cases h

/-- A lock section of the `put` in `Stop`: the owner waits for the
queue, or goes on to the `join`. -/
theorem stopSection_cases {pick : Option (Tid n C)} (h : stopSection s pick = some s') :
    Step s (.stopSection pick) s' := by
  unfold stopSection at h
  split at h
  · rename_i i ho
    obtain ⟨⟨q, o⟩, hq, heq⟩ := Option.map_eq_some_iff.mp h
    cases o with
    | returned r =>
        cases heq
        exact .stopPutDone ho hq
    | slept | aborted =>
        cases heq
        exact .stopWait ho hq rfl
  · cases h

/-- The `join` in `Stop` returns once the worker has left its loop,
and not before. -/
theorem join_cases (h : join s = some s') : Step s .join s' := by
  unfold join at h
  split at h
  · rename_i i ho
    split at h
    · rename_i hi
      split at h
      · rename_i hw
        cases h
        exact .join ho hi hw
      · cases h
    · cases h
  · cases h

/-- The test of `IsRunning` sends a worker into `take` or out of its
loop. -/
theorem test_cases {i : Fin n} (h : test s i = some s') : Step s (.test i) s' := by
  unfold test at h
  split at h
  · rename_i hw hr
    obtain ⟨q, hq, rfl⟩ := Option.map_eq_some_iff.mp h
    exact .take hw hr hq
  · rename_i hw hr
    cases h
    exact .leave hw hr
  · cases h

/-- A lock section of `take`: the worker has an item in its hand, or
it is still in `take`. -/
theorem workerSection_cases {i : Fin n} {pick : Option (Tid n C)}
    (h : workerSection s i pick = some s') : Step s (.workerSection i pick) s' := by
  unfold workerSection at h
  split at h
  · rename_i hw
    obtain ⟨⟨q, o⟩, hq, heq⟩ := Option.map_eq_some_iff.mp h
    split at heq
    · rename_i todo ho
      cases ho
      cases heq
      exact .takeDone hw hq
    · rename_i q' o' hne ho
      cases ho
      cases heq
      exact .takeWait hw hq hne
  · cases h

/-- Every step of the system is one of the steps. The long events have
their own lemmas above, and the others are one branch each. -/
theorem step_cases (h : (system n C Task cap).step s e = some s') : Step s e s' := by
  cases e with
  | start =>
      simp only [system, start] at h
      split at h
      · rename_i ho
        cases h
        exact .start ho
      · cases h
  | stop =>
      simp only [system, stop] at h
      split at h
      · rename_i ho
        cases h
        exact .stop ho
      · cases h
  | stopPut =>
      simp only [system, stopPut] at h
      split at h
      · rename_i i ho
        obtain ⟨q, hq, rfl⟩ := Option.map_eq_some_iff.mp h
        exact .stopPut ho hq
      · cases h
  | runTask i =>
      simp only [system, runTask] at h
      split at h
      · rename_i task hw
        cases h
        exact .runTask hw
      · cases h
  | spawn => exact spawn_cases h
  -- The events with more than one branch have lemmas of their own.
  | stopSection pick => exact stopSection_cases h
  | join => exact join_cases h
  | test i => exact test_cases h
  | workerSection i pick => exact workerSection_cases h
  | putTask c task =>
      obtain ⟨q, hq, rfl⟩ := Option.map_eq_some_iff.mp h
      exact .putTask hq
  | callerSection c pick =>
      obtain ⟨⟨q, o⟩, hq, rfl⟩ := Option.map_eq_some_iff.mp h
      exact .callerSection hq
  | spurious t =>
      obtain ⟨q, hq, rfl⟩ := Option.map_eq_some_iff.mp h
      exact .spurious hq

/-! ### The queue of a pool -/

/-- The queue event of a pool event. The events without one are those
that touch program counters and `isRunning_` only. -/
def queueEvent :
    Event n C Task → Option (Monitor.Event (Tid n C) (BoundedBlockingQueue.Call (Option Task)))
  | .stopPut => some (.call .owner (.putMove none))
  | .stopSection pick => some (.acquire .owner pick)
  | .test i => some (.call (.worker i) .take)
  | .workerSection i pick => some (.acquire (.worker i) pick)
  | .putTask c task => some (.call (.caller c) (.put task))
  | .callerSection c pick => some (.acquire (.caller c) pick)
  | .spurious t => some (.spurious t)
  | .start | .spawn | .stop | .join | .runTask _ => none

/-- A step of a pool leaves its queue alone or is a step of the
queue. -/
theorem queue_step (h : Step s e s') :
    (s'.queue = s.queue ∧ ∀ t pick, queueEvent e ≠ some (.acquire t pick)) ∨
    ∃ qe, queueEvent e = some qe ∧
      ((queue (Option Task) cap).system (Tid n C)).step s.queue qe = some s'.queue := by
  cases h with
  | start | spawn | started | stop | join | leave | runTask => exact .inl ⟨rfl, nofun⟩
  | stopPut _ hq | take _ _ hq | putTask hq | spurious hq => exact .inr ⟨_, rfl, hq⟩
  | stopWait _ hq | stopPutDone _ hq | takeWait _ hq | takeDone _ hq | callerSection hq =>
      exact .inr ⟨_, rfl, by simp [Monitor.system, hq]⟩

/-- The queue of a pool is a queue that its threads share: what holds
of every reachable queue holds of it. The pool only restricts who
calls what, and when. -/
theorem queueSimulation :
    System.Simulation (system n C Task cap) ((queue (Option Task) cap).system (Tid n C))
      State.queue where
  init := by
    rintro s rfl
    rfl
  step s e s' h := (queue_step (step_cases h)).imp And.left fun ⟨qe, _, hqe⟩ => ⟨qe, hqe⟩

/-! ### The program counters and the positions in the queue -/

/-- The queue call that a worker is in. -/
def WorkerPc.call : WorkerPc Task → Option (BoundedBlockingQueue.Call (Option Task))
  | .taking => some .take
  | .unborn | .loop | .todo _ | .left => none

/-- The queue call that the owner is in. -/
def OwnerPc.call : OwnerPc → Option (BoundedBlockingQueue.Call (Option Task))
  | .stopPutting _ => some (.putMove none)
  | .idle | .starting _ | .started | .stopPut _ | .stopJoin _ | .stopped => none

/-- The index of the loop of `Stop`, while the owner is in it. -/
def OwnerPc.stopIndex : OwnerPc → Option Nat
  | .stopPut i | .stopPutting i | .stopJoin i => some i
  | .idle | .starting _ | .started | .stopped => none

/-- The threads that `Start` has spawned. `Stop` only starts after
`Start` has returned, so from then on all of them are spawned. -/
def OwnerPc.hasSpawned : OwnerPc → Nat → Prop
  | .idle, _ => False
  | .starting k, i => i < k
  | .started, _ | .stopPut _, _ | .stopPutting _, _ | .stopJoin _, _ | .stopped, _ => True

/-- Every thread is in the queue call that its program counter says.
The unborn workers are those that `Start` has not spawned, and the
loop of `Stop` stays below `maxThreads`. -/
structure Inv (s : State n C Task cap) : Prop where
  worker : ∀ i, (s.queue.pos (.worker i)).within = (s.worker i).call
  caller : ∀ c m, (s.queue.pos (.caller c)).within = some m → ∃ task, m = .put task
  owner : (s.queue.pos .owner).within = s.owner.call
  born : ∀ i : Fin n, s.worker i = .unborn ↔ ¬ s.owner.hasSpawned i
  index : ∀ i, s.owner.stopIndex = some i → i < n

theorem stopIndex_stopNext {i k : Nat} (h : (stopNext n i).stopIndex = some k) : k < n := by
  unfold stopNext at h
  split at h
  · rename_i hi
    cases h
    exact hi
  · cases h

theorem call_stopNext (i : Nat) :
    ((stopNext n i).call : Option (BoundedBlockingQueue.Call (Option Task))) = none := by
  unfold stopNext
  split <;> rfl

theorem hasSpawned_stopNext (i k : Nat) : (stopNext n i).hasSpawned k := by
  unfold stopNext
  split <;> trivial

omit [DecidableEq C] [Fintype C] in
/-- The invariant where only callers enter or leave their calls. A
caller may be in any `put`, as `PutTask` may be called by anybody. -/
theorem Inv.congr (hinv : Inv s) (hworker : s'.worker = s.worker) (howner : s'.owner = s.owner)
    (hpos : ∀ t, (∀ c, t ≠ .caller c) → (s'.queue.pos t).within = (s.queue.pos t).within)
    (hcaller : ∀ c m, (s'.queue.pos (.caller c)).within = some m →
      (s.queue.pos (.caller c)).within = some m ∨ ∃ task, m = .put task) : Inv s' where
  worker i := by
    rw [hpos (.worker i) fun _ => nofun, hworker]
    exact hinv.worker i
  caller c m hm := by
    rcases hcaller c m hm with hbefore | hput
    · exact hinv.caller c m hbefore
    · exact hput
  owner := by
    rw [hpos .owner fun _ => nofun, howner]
    exact hinv.owner
  born := by
    rw [hworker, howner]
    exact hinv.born
  index := by
    rw [howner]
    exact hinv.index

omit [DecidableEq C] [Fintype C] in
/-- The invariant where a spawned worker moves to `pc`, and into the
call or out of it. -/
theorem Inv.moveWorker (hinv : Inv s) {i : Fin n} {pc : WorkerPc Task}
    (hworker : s'.worker = (s.setWorker i pc).worker) (howner : s'.owner = s.owner)
    (hpos : ∀ t, t ≠ .worker i → (s'.queue.pos t).within = (s.queue.pos t).within)
    (hself : (s'.queue.pos (.worker i)).within = pc.call)
    (hbefore : s.worker i ≠ .unborn) (hafter : pc ≠ .unborn) : Inv s' where
  worker j := by
    rw [hworker, State.setWorker_worker]
    -- The worker that moved is inside what its new position says.
    split
    · rename_i hji
      rw [hji, hself]
    · rename_i hji
      rw [hpos (.worker j) fun h => hji (Tid.worker.inj h)]
      exact hinv.worker j
  caller c m hm := by
    rw [hpos (.caller c) nofun] at hm
    exact hinv.caller c m hm
  owner := by
    rw [hpos .owner nofun, howner]
    exact hinv.owner
  born j := by
    rw [hworker, howner, State.setWorker_worker]
    split
    · rename_i hji
      -- It was born before the step and is born after it.
      rw [← hinv.born j, hji]
      exact iff_of_false hafter hbefore
    · exact hinv.born j
  index := by
    rw [howner]
    exact hinv.index

omit [DecidableEq C] [Fintype C] in
/-- The invariant where the owner moves in the loop of `Stop`, and
into its call or out of it. -/
theorem Inv.moveOwner (hinv : Inv s) (hworker : s'.worker = s.worker)
    (hpos : ∀ t, t ≠ .owner → (s'.queue.pos t).within = (s.queue.pos t).within)
    (hself : (s'.queue.pos .owner).within = s'.owner.call)
    (hborn : ∀ i, s'.owner.hasSpawned i ↔ s.owner.hasSpawned i)
    (hindex : s'.owner.stopIndex = s.owner.stopIndex) : Inv s' where
  worker i := by
    rw [hpos (.worker i) nofun, hworker]
    exact hinv.worker i
  caller c m hm := by
    rw [hpos (.caller c) nofun] at hm
    exact hinv.caller c m hm
  owner := hself
  born i := by
    rw [hworker, hborn]
    exact hinv.born i
  index := by
    rw [hindex]
    exact hinv.index

omit [DecidableEq C] [Fintype C] in
/-- The invariant after the spawn of a worker. The worker is born at
the test of its loop, outside of the queue. -/
theorem Inv.spawn (hinv : Inv s) {k : Nat} (ho : s.owner = .starting k) (hk : k < n) :
    Inv { s.setWorker ⟨k, hk⟩ .loop with owner := .starting (k + 1) } := by
  have howner := hinv.owner
  have hborn := hinv.born
  rw [ho] at howner hborn
  -- The spawned worker was unborn, so it is outside the queue.
  have hunborn := (hborn ⟨k, hk⟩).mpr (Nat.lt_irrefl k)
  have hout := hinv.worker ⟨k, hk⟩
  rw [hunborn] at hout
  refine ⟨fun i => ?_, hinv.caller, howner, fun i => ?_, nofun⟩
  · show _ = ((s.setWorker ⟨k, hk⟩ .loop).worker i).call
    rw [State.setWorker_worker]
    split
    · rename_i hik
      rw [hik]
      exact hout
    · exact hinv.worker i
  · show (s.setWorker ⟨k, hk⟩ .loop).worker i = .unborn ↔ ¬ i.val < k + 1
    rw [State.setWorker_worker]
    split
    · rename_i hik
      rw [hik]
      exact iff_of_false nofun (not_not.mpr (Nat.lt_succ_self k))
    · rename_i hik
      have hne : i.val ≠ k := fun heq => hik (Fin.ext heq)
      refine (hborn i).trans (not_congr ?_)
      show i.val < k ↔ i.val < k + 1
      omega

/-- A step keeps the invariant. Each step moves one thread at most,
and the lemmas above say what has to be checked of it. -/
theorem inv_step (hinv : Inv s) (h : Step s e s') : Inv s' := by
  cases h with
  | start ho =>
      have hborn := hinv.born
      rw [ho] at hborn
      refine ⟨hinv.worker, hinv.caller, hinv.owner.trans (by rw [ho]; rfl), fun i => ?_, nofun⟩
      refine (hborn i).trans (not_congr (iff_of_false id ?_))
      exact Nat.not_lt_zero _
  | spawn ho hi => exact hinv.spawn ho hi
  | started ho hi =>
      have hborn := hinv.born
      rw [ho] at hborn
      refine ⟨hinv.worker, hinv.caller, hinv.owner.trans (by rw [ho]; rfl), fun i => ?_, nofun⟩
      refine (hborn i).trans (not_congr (iff_of_true ?_ trivial))
      exact Nat.lt_of_lt_of_le i.isLt (Nat.le_of_not_lt hi)
  | stop ho | join ho =>
      -- From `started` on every thread has been spawned.
      have howner := hinv.owner
      have hborn := hinv.born
      rw [ho] at howner hborn
      refine ⟨hinv.worker, hinv.caller, howner.trans (call_stopNext _).symm, fun i => ?_,
        fun i => stopIndex_stopNext⟩
      exact (hborn i).trans (not_congr (iff_of_true trivial (hasSpawned_stopNext _ i)))
  | @leave i hw | @runTask i task hw =>
      have hout := hinv.worker i
      rw [hw] at hout
      exact hinv.moveWorker rfl rfl (fun _ _ => rfl) hout (by rw [hw]; nofun) nofun
  | @take i q hw hr hq =>
      have hpos := Monitor.call_within hq
      exact hinv.moveWorker rfl rfl (fun t ht => (hpos t).trans (if_neg ht))
        ((hpos _).trans (if_pos rfl)) (by rw [hw]; nofun) nofun
  | @takeDone i q pick todo hw hq =>
      have hpos := Monitor.acquire_within_returned hq
      exact hinv.moveWorker rfl rfl (fun t ht => (hpos t).trans (if_neg ht))
        ((hpos _).trans (if_pos rfl)) (by rw [hw]; nofun) nofun
  | stopPut ho hq =>
      have hpos := Monitor.call_within hq
      refine hinv.moveOwner rfl (fun t ht => (hpos t).trans (if_neg ht))
        ((hpos _).trans (if_pos rfl)) (fun i => ?_) ?_
      · rw [ho]
        exact Iff.rfl
      · rw [ho]
        rfl
  | stopPutDone ho hq =>
      have hpos := Monitor.acquire_within_returned hq
      refine hinv.moveOwner rfl (fun t ht => (hpos t).trans (if_neg ht))
        ((hpos _).trans (if_pos rfl)) (fun i => ?_) ?_
      · rw [ho]
        exact Iff.rfl
      · rw [ho]
        rfl
  | stopWait ho hq hret =>
      have hpos := Monitor.acquire_within_waits hq hret
      exact hinv.congr rfl rfl (fun t _ => hpos t) fun c m hm => .inl ((hpos _).symm.trans hm)
  | @takeWait i q pick o hw hq hret =>
      -- Only an item ends the call of `take`.
      have htake : (s.queue.pos (.worker i)).within = some .take := by rw [hinv.worker, hw]; rfl
      have hnot := BoundedBlockingQueue.not_returned_of_take htake hq hret
      have hpos := Monitor.acquire_within_waits hq hnot
      exact hinv.congr rfl rfl (fun t _ => hpos t) fun c m hm => .inl ((hpos _).symm.trans hm)
  | spurious hq =>
      have hpos := Monitor.spurious_within hq
      exact hinv.congr rfl rfl (fun t _ => hpos t) fun c m hm => .inl ((hpos _).symm.trans hm)
  | @putTask c task q hq =>
      have hpos := Monitor.call_within hq
      refine hinv.congr rfl rfl (fun t ht => (hpos t).trans (if_neg (ht c))) fun c' m hm => ?_
      rw [show (State.queue _).pos (.caller c') = q.pos (.caller c') from rfl, hpos] at hm
      split at hm
      · exact .inr ⟨task, (Option.some.inj hm).symm⟩
      · exact .inl hm
  | @callerSection c q pick o hq =>
      have hpos := Monitor.acquire_within hq
      refine hinv.congr rfl rfl (fun t ht => (hpos t).trans (if_neg fun h => ht c h.1))
        fun c' m hm => ?_
      rw [show (State.queue _).pos (.caller c') = q.pos (.caller c') from rfl, hpos] at hm
      split at hm
      · cases hm
      · exact .inl hm

omit [DecidableEq C] [Fintype C] in
/-- The next worker that `Start` spawns. -/
theorem Inv.unborn_next (hinv : Inv s) {i : Nat} (ho : s.owner = .starting i) (hi : i < n) :
    s.worker ⟨i, hi⟩ = .unborn := by
  rw [hinv.born, ho]
  exact Nat.lt_irrefl _

omit [DecidableEq C] [Fintype C] in
theorem Inv.owner_put (hinv : Inv s) {i : Nat} (ho : s.owner = .stopPutting i) :
    (s.queue.pos .owner).within = some (.putMove none) := by
  rw [hinv.owner, ho]
  rfl

omit [DecidableEq C] [Fintype C] in
theorem Inv.worker_take (hinv : Inv s) {i : Fin n} (hw : s.worker i = .taking) :
    (s.queue.pos (.worker i)).within = some .take := by
  rw [hinv.worker, hw]
  rfl

omit [DecidableEq C] [Fintype C] in
/-- The invariant holds before `Start`. -/
theorem inv_initial : Inv (initial : State n C Task cap) where
  worker _ := rfl
  caller _ _ h := nomatch h
  owner := rfl
  born _ := iff_of_true rfl id
  index _ h := nomatch h

/-- The program counters agree with the queue in every reachable
state. -/
theorem reachable_inv (h : (system n C Task cap).Reachable s) : Inv s := by
  refine h.induct (I := Inv) ?_ fun s e s' _ hinv hstep => inv_step hinv (step_cases hstep)
  rintro s rfl
  exact inv_initial

/-- A worker that holds a task only moves to end it, and a worker that
has left does not move. Neither of them waits for the queue, so no
event of the queue is theirs. -/
theorem worker_stays (hinv : Inv s) (h : Step s e s') {i : Fin n}
    (hi : s.worker i = .left ∨ ∃ task, s.worker i = .todo task) (he : e ≠ .runTask i) :
    s'.worker i = s.worker i := by
  -- The worker that moves is none of these, so it is another one.
  have hother : ∀ j pc, (∀ task, s.worker j ≠ .todo task) → s.worker j ≠ .left →
      (s.setWorker j pc).worker i = s.worker i := by
    intro j pc htodo hleft
    rw [State.setWorker_worker, if_neg]
    intro hij
    rw [hij] at hi
    rcases hi with hl | ⟨task, ht⟩
    · exact hleft hl
    · exact htodo task ht
  cases h with
  | start | started | stop | stopPut | stopWait | stopPutDone | join | takeWait | putTask
    | callerSection | spurious => rfl
  | @spawn k ho hk =>
      have hunborn := hinv.unborn_next ho hk
      exact hother _ _ (by simp [hunborn]) (by simp [hunborn])
  | take hw | leave hw | takeDone hw => exact hother _ _ (by simp [hw]) (by simp [hw])
  | @runTask j task hw =>
      show (s.setWorker j .loop).worker i = _
      rw [State.setWorker_worker, if_neg]
      intro hij
      exact he (by rw [hij])

/-! ### Wake-ups of workers -/

/-- Where a worker sleeps in `take` and the queue has a task, some
worker was notified and will take the mutex. It is `TakerWoken` of the
queue, in the words of the pool. -/
def WorkerWoken (s : State n C Task cap) : Prop :=
  (∃ i, s.queue.pos (.worker i) = .asleep .take) → s.queue.data.items ≠ [] →
    ∃ i, s.queue.pos (.worker i) = .notified .take

/-- The step that loses a wake-up, in the state before it: the only
notified worker takes a task, leaves another one in the queue, and a
worker sleeps. From here on the sleeper and the task are together
until the next task comes. -/
def LosesWakeup (s : State n C Task cap) : Event n C Task → Prop
  | .workerSection i _ =>
      s.queue.pos (.worker i) = .notified .take ∧
      (∀ j, s.queue.pos (.worker j) = .notified .take → j = i) ∧
      (∃ j, s.queue.pos (.worker j) = .asleep .take) ∧ 2 ≤ s.queue.data.items.length
  | _ => False

omit [DecidableEq C] [Fintype C] in
/-- Only workers are in `take`. -/
theorem Inv.worker_of_take (hinv : Inv s) {t : Tid n C}
    (ht : (s.queue.pos t).within = some .take) : ∃ i, t = .worker i := by
  cases t with
  | worker i => exact ⟨i, rfl⟩
  | caller c =>
      obtain ⟨task, hm⟩ := hinv.caller c _ ht
      cases hm
  | owner =>
      rw [hinv.owner] at ht
      cases howner : s.owner <;> rw [howner] at ht <;> cases ht

omit [DecidableEq C] [Fintype C] in
/-- Some thread is at a position in `take` exactly when some worker
is. -/
theorem Inv.exists_taker_iff (hinv : Inv s)
    {p : Monitor.Pos (BoundedBlockingQueue.Call (Option Task))} (hp : p.within = some .take) :
    (∃ t, s.queue.pos t = p) ↔ ∃ i, s.queue.pos (.worker i) = p := by
  refine ⟨?_, fun ⟨i, hi⟩ => ⟨_, hi⟩⟩
  rintro ⟨t, ht⟩
  obtain ⟨i, rfl⟩ := hinv.worker_of_take (ht ▸ hp)
  exact ⟨i, ht⟩

omit [DecidableEq C] [Fintype C] in
/-- In a pool, the takers of the queue are the workers: `Stop` and the
callers only put. -/
theorem Inv.workerWoken_iff_takerWoken (hinv : Inv s) :
    WorkerWoken s ↔ BoundedBlockingQueue.TakerWoken s.queue := by
  simp only [WorkerWoken, BoundedBlockingQueue.TakerWoken,
    BoundedBlockingQueue.asleepOn_notEmpty_iff, BoundedBlockingQueue.notifiedOn_notEmpty_iff]
  rw [hinv.exists_taker_iff (p := .asleep .take) rfl,
    hinv.exists_taker_iff (p := .notified .take) rfl]

omit [DecidableEq C] [Fintype C] in
/-- In a pool, the lock sections that lose a wake-up are those of
workers. -/
theorem Inv.losesWakeup_iff (hinv : Inv s) :
    LosesWakeup s e ↔
      ∃ qe, queueEvent e = some qe ∧ BoundedBlockingQueue.LosesWakeup s.queue qe := by
  cases e with
  | workerSection i pick =>
      -- The takers are the workers, so "no other taker" and "no other worker"
      -- are the same.
      simp only [queueEvent, LosesWakeup, Option.some.injEq, exists_eq_left',
        BoundedBlockingQueue.LosesWakeup, BoundedBlockingQueue.asleepOn_notEmpty_iff,
        BoundedBlockingQueue.notifiedOn_notEmpty_iff]
      rw [hinv.exists_taker_iff (p := .asleep .take) rfl]
      refine and_congr_right fun _ => and_congr_left fun _ => ?_
      constructor
      · intro honly t ht
        obtain ⟨j, rfl⟩ := hinv.worker_of_take (by rw [ht]; rfl)
        rw [honly j ht]
      · intro honly j hj
        exact Tid.worker.inj (honly _ hj)
  | stopSection pick | callerSection c pick =>
      -- The owner and the callers are never in `take`.
      simp only [queueEvent, LosesWakeup, Option.some.injEq, exists_eq_left',
        BoundedBlockingQueue.LosesWakeup, BoundedBlockingQueue.notifiedOn_notEmpty_iff, false_iff]
      rintro ⟨hn, -⟩
      obtain ⟨i, hi⟩ := hinv.worker_of_take (by rw [hn]; rfl)
      cases hi
  | _ => simp [queueEvent, LosesWakeup, BoundedBlockingQueue.LosesWakeup]

/-- The step lemma: from a state in which no wake-up is lost, a step
keeps it so exactly when it does not lose one. -/
theorem workerWoken_step (hinv : Inv s) (hw : WorkerWoken s) (h : Step s e s') :
    WorkerWoken s' ↔ ¬ LosesWakeup s e := by
  rw [(inv_step hinv h).workerWoken_iff_takerWoken, hinv.losesWakeup_iff]
  rw [hinv.workerWoken_iff_takerWoken] at hw
  rcases queue_step h with ⟨hq, hno⟩ | ⟨qe, hqe, hq⟩
  · rw [hq]
    refine iff_of_true hw ?_
    rintro ⟨qe, hqe, hl⟩
    cases qe with
    -- A step that leaves the queue alone is no lock section, and only these
    -- lose a wake-up.
    | acquire t pick => exact hno t pick hqe
    | call => exact hl
    | spurious => exact hl
  · rw [BoundedBlockingQueue.takerWoken_step hq hw, hqe]
    simp

/-- A run of a pool has, in every state where a worker sleeps in
`take` and the queue has a task, a worker that was notified and will
run, exactly when no step of it is the lock section of the only
notified worker that leaves a task behind a sleeping worker.

The condition looks at the state before the step. So a schedule that
lets the notified worker wait for its next turn until the others are
awake is safe, and `sleepingWorker` is the shortest one that is
not. -/
theorem workerWoken_iff (es : List (Event n C Task)) :
    (system n C Task cap).Always WorkerWoken initial es ↔
      (system n C Task cap).EveryStep (fun s e => ¬ LosesWakeup s e) initial es := by
  refine System.always_iff_everyStep (I := Inv) (fun s e s' hinv h => ?_)
    (fun s e s' hinv hw h => ?_) es inv_initial ?_
  · exact inv_step hinv (step_cases h)
  · exact workerWoken_step hinv hw (step_cases h)
  · exact fun _ hne => absurd rfl hne

/-- The first worker of a pool of two. -/
def worker₀ : Fin 2 := 0

/-- The second worker of a pool of two. -/
def worker₁ : Fin 2 := 1

/-- Two workers sleep; two tasks are put, and only the first `put`
notifies; the worker it woke takes the first task. -/
def twoTasks : List (Event 2 Unit Nat) :=
  [.start, .spawn, .spawn, .spawn, .test worker₀, .workerSection worker₀ none, .test worker₁,
   .workerSection worker₁ none, .putTask () (some 10), .callerSection () (some (.worker worker₀)),
   .putTask () (some 11), .callerSection () none, .workerSection worker₀ none]

/-- After `twoTasks` a worker sleeps beside a queued task, and nobody
is due to wake. -/
theorem sleepingWorker :
    ∃ s, (system 2 Unit Nat 20).run initial twoTasks = some s ∧ ¬ WorkerWoken s := by
  refine ⟨_, rfl, ?_⟩
  unfold WorkerWoken
  decide

end Bigpipe.ThreadPool
