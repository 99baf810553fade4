import Bigpipe.Proofs.ThreadPool

/-!
# `Bigpipe.Proofs.ThreadPoolStop`: when `ThreadPool::Stop` blocks for ever

`Stop` puts one null task and joins one thread at a time. Any worker
may take the null task, and a worker that sees the cleared flag leaves
without taking anything, so `Stop` can end up waiting for a thread
that nobody wakes, or for a slot that nobody frees.

A thread that can take a step will take it some day, so the question
is when no thread can. `able` reads that from the state, and
`able_iff` checks the reading against the step function. The pool is
then wedged when `Stop` is in its loop and nobody is able.

A pool wedges in one step: before it, one thread is able, and it is
the last. What it does has to leave everybody else where they are and
itself stuck, and there are few branches of the source that do so.
`GoesWrong` lists them, and `wedged_step` shows that the list is
complete and that each of its branches does wedge.

* `able` and `able_iff`: the threads that can take a step, a spurious
  wake-up apart.
* `Wedged`: `Stop` has begun, has not returned, and no thread can take
  a step.
* `wedged_step`: a step leads to a wedged state exactly when it takes
  one of the wrong branches of `GoesWrong`.
* `never_wedged_iff`: the same for runs.
* `wedgedStop`: a run of two workers that wedges.
-/

set_option autoImplicit false

namespace Bigpipe.ThreadPool

open Bigpipe.Lib
open Bigpipe.BoundedBlockingQueue (queue PutSection TakeSection put_section take_section)
open Bigpipe.Lib.Monitor (acquire)

variable {n : Nat} {C Task : Type} {cap : Nat}

/-- The thread `i` has left `RunInLoop`. An index beyond the workers
names no thread. -/
def State.hasLeft (s : State n C Task cap) (i : Nat) : Bool :=
  if h : i < n then
    match s.worker ⟨i, h⟩ with
    | .left => true
    | _ => false
  else false

/-- The thread is inside the code of the pool and can take its next
step there. A thread that sleeps in the queue cannot, and
`thread.join()` waits for the thread to leave. -/
def able (s : State n C Task cap) : Tid n C → Bool
  | .worker i =>
    match s.worker i with
    | .loop | .todo _ => true
    | .taking => (s.queue.pos (.worker i)).runnable.isSome
    | .unborn | .left => false
  | .caller c => (s.queue.pos (.caller c)).runnable.isSome
  | .owner =>
    match s.owner with
    | .starting _ | .stopPut _ => true
    | .stopPutting _ => (s.queue.pos .owner).runnable.isSome
    | .stopJoin i => s.hasLeft i
    | .idle | .started | .stopped => false

/-- No thread but `t` can take a step. Whatever `t` does next, the
others have to be woken by it or stay as they are. -/
def Alone (s : State n C Task cap) (t : Tid n C) : Prop :=
  ∀ u, u ≠ t → able s u = false

/-- `Stop` has begun and has not returned, so the owner is in one of
its rounds. -/
def InStop (s : State n C Task cap) : Prop :=
  s.owner.stopIndex.isSome

/-- `Stop` is blocked for ever: it has not returned, and no thread can
take a step. A spurious wake-up would help a sleeper, but nothing in
the program brings one about. -/
def Wedged (s : State n C Task cap) : Prop :=
  InStop s ∧ ∀ t, able s t = false

/-- The branches that wedge `Stop`, in the state before the step. Each
is taken by a thread while no other thread can take a step:

- a worker leaves `RunInLoop` on the cleared flag, and `Stop` does not
  wait for this worker;
- a worker falls asleep in `take` on the empty queue;
- `Stop` finds the queue full and falls asleep in `put`, or puts its
  null task behind other tasks, which notifies nobody, for a thread
  that has not left;
- a caller of `PutTask` falls asleep on the full queue, or puts its
  task without waking a worker. -/
def GoesWrong (s : State n C Task cap) : Event n C Task → Prop
  | .test i =>
      s.isRunning = false ∧ InStop s ∧ s.owner ≠ .stopJoin i ∧ Alone s (.worker i)
  | .workerSection i _ =>
      s.queue.data.items = [] ∧ InStop s ∧ Alone s (.worker i)
  | .stopSection _ =>
      (s.queue.data.isFull = true ∨
        s.queue.data.items ≠ [] ∧ ∃ i, s.owner = .stopPutting i ∧ s.hasLeft i = false) ∧
      Alone s .owner
  | .callerSection c _ =>
      (s.queue.data.isFull = true ∨ s.queue.data.items ≠ [] ∨
        ∀ j, s.queue.pos (.worker j) ≠ .asleep .take) ∧
      InStop s ∧ Alone s (.caller c)
  | .start | .spawn | .stop | .stopPut | .join | .runTask _ | .putTask _ _ | .spurious _ => False

variable {s s' : State n C Task cap} {e : Event n C Task}

/-! ### The threads that can take a step -/

theorem State.hasLeft_iff {i : Nat} (hi : i < n) :
    s.hasLeft i = true ↔ s.worker ⟨i, hi⟩ = .left := by
  simp only [State.hasLeft, hi, dite_true]
  cases s.worker ⟨i, hi⟩ <;> simp

/-- A thread in a call of the queue can take a step exactly when it
can run its lock section. -/
theorem Inv.able_of_within (hinv : Inv s) {t : Tid n C}
    {m : BoundedBlockingQueue.Call (Option Task)} (h : (s.queue.pos t).within = some m) :
    able s t = (s.queue.pos t).runnable.isSome := by
  cases t with
  | worker i =>
      have hw := (hinv.worker i).symm.trans h
      simp only [able]
      split <;> simp_all [WorkerPc.call]
  | caller c => rfl
  | owner =>
      have ho := hinv.owner.symm.trans h
      simp only [able]
      split <;> simp_all [OwnerPc.call]

/-- A thread that can run a lock section can take a step. -/
theorem Inv.able_of_runnable (hinv : Inv s) {t : Tid n C}
    {m : BoundedBlockingQueue.Call (Option Task)} (h : (s.queue.pos t).runnable = some m) :
    able s t = true := by
  rw [hinv.able_of_within (Monitor.Pos.within_of_runnable h), h]
  rfl

/-- A spawned worker that cannot take a step has left or sleeps in
`take`. There is no third place in `RunInLoop` to get stuck at. -/
theorem Inv.worker_not_able (hinv : Inv s) {i : Fin n} (hborn : s.owner.hasSpawned i)
    (h : able s (.worker i) = false) :
    s.hasLeft i = true ∨ s.queue.pos (.worker i) = .asleep .take := by
  have hwithin := hinv.worker i
  cases hw : s.worker i with
  | unborn => exact absurd hborn ((hinv.born i).mp hw)
  | left => exact .inl ((State.hasLeft_iff i.isLt).mpr hw)
  | loop => simp [able, hw] at h
  | todo task => simp [able, hw] at h
  | taking =>
      rw [hw] at hwithin
      -- In `take` it is at the mutex, which would make it able, or asleep.
      rcases Monitor.Pos.asleep_or_runnable hwithin with hpos | hrun
      · exact .inr hpos
      · rw [hinv.able_of_runnable hrun] at h
        cases h

/-- Whether a worker or a caller can take a step depends on its
program counter and its position in the queue. -/
theorem able_congr {u : Tid n C} (hu : u ≠ .owner)
    (hworker : ∀ i, u = .worker i → s'.worker i = s.worker i)
    (hpos : s'.queue.pos u = s.queue.pos u) : able s' u = able s u := by
  cases u with
  | worker i => simp only [able, hworker i rfl, hpos]
  | caller c => simp only [able, hpos]
  | owner => exact absurd rfl hu

/-- Where only the queue changes, a thread whose position stays can
take a step as before. -/
theorem able_congr_queue {q : Queue n C Task cap} {u : Tid n C}
    (hpos : q.pos u = s.queue.pos u) : able { s with queue := q } u = able s u := by
  cases u with
  | owner => simp only [able, hpos, State.hasLeft]
  | _ => exact able_congr nofun (fun _ _ => rfl) hpos

/-- Where a thread can take a step, the pool is not wedged. -/
theorem not_wedged_of_able {t : Tid n C} (h : able s t = true) : ¬ Wedged s := by
  intro hw
  rw [hw.2 t] at h
  cases h

/-- Where a thread can run its lock section, the pool is not
wedged. -/
theorem Inv.not_wedged_of_runnable (hinv : Inv s) {t : Tid n C}
    {m : BoundedBlockingQueue.Call (Option Task)} (h : (s.queue.pos t).runnable = some m) :
    ¬ Wedged s :=
  not_wedged_of_able (hinv.able_of_runnable h)

/-- Where `Stop` is not in its loop, the pool is not wedged. -/
theorem not_wedged_of_stopIndex (h : s.owner.stopIndex = none) : ¬ Wedged s := by
  rintro ⟨hstop, -⟩
  rw [InStop, h] at hstop
  cases hstop

/-- At the head of its loop, `Stop` can go on or return. -/
theorem not_wedged_of_stopNext {i : Nat} (h : s.owner = stopNext n i) : ¬ Wedged s := by
  unfold stopNext at h
  split at h
  · exact not_wedged_of_able (t := .owner) (by simp only [able, h])
  · exact not_wedged_of_stopIndex (by rw [h]; rfl)

variable [DecidableEq C]

/-- Where `t` cannot take a step in the queue `q` and no other thread
changes, the pool is wedged exactly when `Stop` has begun and no other
thread can take a step. Every branch that puts a thread to sleep comes
down to this. -/
theorem wedged_queue_iff {q : Queue n C Task cap} {t : Tid n C}
    (hself : able { s with queue := q } t = false)
    (hpos : ∀ u, u ≠ t → q.pos u = s.queue.pos u) :
    Wedged { s with queue := q } ↔ InStop s ∧ Alone s t := by
  refine and_congr_right fun _ => ⟨fun h u hu => ?_, fun h u => ?_⟩
  · rw [← h u]
    exact (able_congr_queue (hpos u hu)).symm
  · by_cases hu : u = t
    · rw [hu, hself]
    · rw [← h u hu]
      exact able_congr_queue (hpos u hu)

/-- Where `t` falls asleep in its call, the pool is wedged exactly
when `Stop` has begun and no other thread can take a step. -/
theorem wedged_asleep {t : Tid n C} {m : BoundedBlockingQueue.Call (Option Task)}
    (hinv' : Inv { s with queue := s.queue.move t (.asleep m) }) :
    Wedged { s with queue := s.queue.move t (.asleep m) } ↔ InStop s ∧ Alone s t := by
  have hself : able { s with queue := s.queue.move t (.asleep m) } t = false := by
    rw [hinv'.able_of_within (m := m) (by simp [Monitor.Pos.within])]
    simp [Monitor.Pos.runnable]
  exact wedged_queue_iff hself fun u hu => Function.update_of_ne hu _ _

variable [Fintype C]

/-- The thread that takes a step inside the code of the pool. New
calls of `Start`, `Stop` and `PutTask` and spurious wake-ups come from
outside. -/
def actor : Event n C Task → Option (Tid n C)
  | .spawn | .stopPut | .stopSection _ | .join => some .owner
  | .test i | .workerSection i _ | .runTask i => some (.worker i)
  | .callerSection c _ => some (.caller c)
  | .start | .stop | .putTask _ _ | .spurious _ => none

/-- A thread that takes a step was able to. It is one half of
`able_iff`. -/
theorem able_of_step {t : Tid n C} (h : Step s e s') (ht : actor e = some t) :
    able s t = true := by
  cases h with
  | start | stop | putTask | spurious => cases ht
  | spawn ho | started ho | stopPut ho => cases ht; simp only [able, ho]
  | stopWait ho hq | stopPutDone ho hq =>
      cases ht
      obtain ⟨-, m, hrun, -⟩ := Monitor.acquire_cases hq
      simp only [able, ho, hrun, Option.isSome_some]
  | join ho hi hw => cases ht; simp only [able, ho, State.hasLeft, hi, dite_true, hw]
  | take hw | leave hw | runTask hw => cases ht; simp only [able, hw]
  | takeWait hw hq | takeDone hw hq =>
      cases ht
      obtain ⟨-, m, hrun, -⟩ := Monitor.acquire_cases hq
      simp only [able, hw, hrun, Option.isSome_some]
  | callerSection hq =>
      cases ht
      obtain ⟨-, m, hrun, -⟩ := Monitor.acquire_cases hq
      simp only [able, hrun, Option.isSome_some]

/-- A thread that is able to take a step has one, where no assertion
has failed. It is the other half of `able_iff`, and goes through the
places of the three kinds of threads. -/
theorem step_of_able (hinv : Inv s) (hab : s.queue.aborted = false) {t : Tid n C}
    (h : able s t = true) :
    ∃ e, actor e = some t ∧ ((system n C Task cap).step s e).isSome := by
  have hacquire : ∀ u : Tid n C, (s.queue.pos u).runnable.isSome →
      ∃ pick q, acquire (queue (Option Task) cap) s.queue u pick = some q := fun u hu => by
    obtain ⟨m, hm⟩ := Option.isSome_iff_exists.mp hu
    exact Monitor.exists_acquire hab hm
  cases t with
  | worker i =>
      have hwithin := hinv.worker i
      cases hw : s.worker i with
      | unborn | left => simp [able, hw] at h
      | loop =>
          rw [hw] at hwithin
          obtain ⟨q, hq⟩ := Monitor.exists_call hab hwithin .take
          cases hr : s.isRunning with
          | false => exact ⟨.test i, rfl, by simp [system, test, hw, hr]⟩
          | true => exact ⟨.test i, rfl, by simp [system, test, hw, hr, hq]⟩
      | todo task => exact ⟨.runTask i, rfl, by simp [system, runTask, hw]⟩
      | taking =>
          simp only [able, hw] at h
          obtain ⟨pick, q, hq⟩ := hacquire _ h
          exact ⟨.workerSection i pick, rfl,
            by simp [system, workerSection, hw, hq]⟩
  | caller c =>
      obtain ⟨pick, q, hq⟩ := hacquire _ h
      exact ⟨.callerSection c pick, rfl,
        by simp [system, callerSection, hq]⟩
  | owner =>
      have hwithin := hinv.owner
      cases ho : s.owner with
      | idle | started | stopped => simp [able, ho] at h
      | starting i =>
          by_cases hi : i < n
          · exact ⟨.spawn, rfl, by simp [system, spawn, ho, hi]⟩
          · exact ⟨.spawn, rfl, by simp [system, spawn, ho, hi]⟩
      | stopPut i =>
          rw [ho] at hwithin
          obtain ⟨q, hq⟩ := Monitor.exists_call hab hwithin (.putMove none)
          exact ⟨.stopPut, rfl, by simp [system, stopPut, ho, hq]⟩
      | stopPutting i =>
          simp only [able, ho] at h
          obtain ⟨pick, q, hq⟩ := hacquire _ h
          exact ⟨.stopSection pick, rfl,
            by simp [system, stopSection, ho, hq]⟩
      | stopJoin i =>
          -- The join is enabled exactly when the thread has left.
          have hi : i < n := hinv.index i (by rw [ho]; rfl)
          have hleft : s.worker ⟨i, hi⟩ = .left := by
            simp only [able, ho] at h
            exact (State.hasLeft_iff hi).mp h
          exact ⟨.join, rfl, by simp [system, join, ho, hi, hleft]⟩

/-- In a reachable state, `able` says which threads have a step. -/
theorem able_iff (h : (system n C Task cap).Reachable s) (t : Tid n C) :
    able s t = true ↔ ∃ e, actor e = some t ∧ ((system n C Task cap).step s e).isSome := by
  have hinv : Inv s := reachable_inv h
  have hab := BoundedBlockingQueue.not_aborted (queueSimulation.reachable h)
  refine ⟨step_of_able hinv hab, fun ⟨e, hactor, hsome⟩ => ?_⟩
  obtain ⟨s', hstep⟩ := Option.isSome_iff_exists.mp hsome
  exact able_of_step (step_cases hstep) hactor

/-! ### One step -/

/-- A lock section of `Stop` that falls asleep on the full queue
wedges it where nobody else is able to take a step. -/
theorem wedged_stopWait {i : Nat} {q : Queue n C Task cap} {pick : Option (Tid n C)}
    {o : Monitor.Outcome (BoundedBlockingQueue.Ret (Option Task))} (hinv : Inv s)
    (ho : s.owner = .stopPutting i)
    (hq : acquire (queue (Option Task) cap) s.queue .owner pick = some (q, o))
    (hret : o.isReturned = false) (hinv' : Inv { s with queue := q }) :
    Wedged { s with queue := q } ↔ GoesWrong s (.stopSection pick) := by
  cases put_section (hinv.owner_put ho) rfl hq with
  | full hfull =>
      refine (wedged_asleep hinv').trans ?_
      simp only [GoesWrong, hfull, true_or, true_and]
      exact and_iff_right (by rw [InStop, ho]; rfl)
  | silent => cases hret
  | wakes => cases hret

/-- A lock section of `Stop` that puts the null task. Behind other
tasks it wakes nobody, and the thread to join, if it has not left, may
sleep. On the empty queue it wakes a sleeping worker, and without one
the thread to join can go on. -/
theorem wedged_stopPutDone {i : Nat} {q : Queue n C Task cap} {pick : Option (Tid n C)}
    {r : BoundedBlockingQueue.Ret (Option Task)} (hinv : Inv s)
    (ho : s.owner = .stopPutting i)
    (hq : acquire (queue (Option Task) cap) s.queue .owner pick = some (q, .returned r))
    (hinv' : Inv { s with queue := q, owner := .stopJoin i }) :
    Wedged { s with queue := q, owner := .stopJoin i } ↔ GoesWrong s (.stopSection pick) := by
  cases put_section (hinv.owner_put ho) rfl hq with
  | @silent d hfull hnone =>
      have hframe : ∀ u, u ≠ .owner → able { s with
          queue := s.queue.complete .owner (.putMove none) d .unit, owner := .stopJoin i } u
            = able s u :=
        fun u hu => able_congr hu (fun _ _ => rfl) (Function.update_of_ne hu _ _)
      constructor
      · rintro ⟨-, hall⟩
        have halone : Alone s .owner := fun u hu => (hframe u hu).symm.trans (hall u)
        have hjoin : s.hasLeft i = false := hall .owner
        refine ⟨.inr ⟨fun hempty => ?_, i, ho, hjoin⟩, halone⟩
        -- On the empty queue the thread to join, which cannot run, would have
        -- been woken.
        have hi : i < n := hinv.index i (by rw [ho]; rfl)
        rcases hinv.worker_not_able (i := ⟨i, hi⟩) (by rw [ho]; trivial)
          (halone _ nofun) with hleft | hasleep
        · exact absurd hleft (by rw [hjoin]; nofun)
        · exact hnone hempty _ hasleep
      · rintro ⟨hcase, halone⟩
        -- The null task stays behind other tasks, and the thread to join has
        -- not left.
        obtain ⟨-, i', ho', hjoin⟩ := hcase.resolve_left (by rw [hfull]; nofun)
        cases ho.symm.trans ho'
        refine ⟨rfl, fun u => ?_⟩
        by_cases hu : u = .owner
        · rw [hu]
          exact hjoin
        · exact (hframe u hu).trans (halone u hu)
  | @wakes d u hfull hempty hu =>
      refine iff_of_false (hinv'.not_wedged_of_runnable (t := u) (m := .take) ?_) ?_
      · simp [Monitor.Pos.runnable]
      · rintro ⟨hfull' | ⟨hne, -⟩, -⟩
        · rw [hfull] at hfull'
          cases hfull'
        · exact hne hempty

/-- A lock section of a caller of `PutTask`. The caller wakes somebody
only if it finds the queue empty and a worker asleep. -/
theorem wedged_callerSection {c : C} {q : Queue n C Task cap} {pick : Option (Tid n C)}
    {o : Monitor.Outcome (BoundedBlockingQueue.Ret (Option Task))} (hinv : Inv s)
    (hq : acquire (queue (Option Task) cap) s.queue (.caller c) pick = some (q, o))
    (hinv' : Inv { s with queue := q }) :
    Wedged { s with queue := q } ↔ GoesWrong s (.callerSection c pick) := by
  obtain ⟨-, m, hrun, -⟩ := Monitor.acquire_cases hq
  have hwithin := Monitor.Pos.within_of_runnable hrun
  obtain ⟨task, rfl⟩ := hinv.caller c m hwithin
  cases put_section hwithin rfl hq with
  | full hfull =>
      refine (wedged_asleep hinv').trans ?_
      simp only [GoesWrong, hfull, true_or, true_and]
  | @silent d hfull hnone =>
      -- A `put` that wakes nobody found other tasks or no sleeping worker.
      have hcase : s.queue.data.items ≠ [] ∨ ∀ j, s.queue.pos (.worker j) ≠ .asleep .take := by
        by_cases hempty : s.queue.data.items = []
        · exact .inr fun j => hnone hempty _
        · exact .inl hempty
      have hself : able { s with queue := s.queue.complete (.caller c) (.put task) d .unit }
          (.caller c) = false := by
        simp [able, Monitor.Pos.runnable]
      simp only [GoesWrong, hcase, or_true, true_and]
      exact wedged_queue_iff hself fun u hu => Function.update_of_ne hu _ _
  | @wakes d u hfull hempty hu =>
      refine iff_of_false (hinv'.not_wedged_of_runnable (t := u) (m := .take) ?_) ?_
      · simp [Monitor.Pos.runnable]
      · obtain ⟨j, rfl⟩ := hinv.worker_of_take (t := u) (by rw [hu]; rfl)
        rintro ⟨hfull' | hne | hnone, -⟩
        · rw [hfull] at hfull'
          cases hfull'
        · exact hne hempty
        · exact hnone j hu

omit [DecidableEq C] [Fintype C] in
/-- The owner can take a step when the worker it joins leaves.
Otherwise the leaving worker makes no difference to it. -/
theorem able_owner_leave (i : Fin n) :
    able (s.setWorker i .left) .owner = (able s .owner || s.owner == .stopJoin i) := by
  cases ho : s.owner with
  | stopJoin k =>
      simp only [able, ho, State.setWorker_owner, State.hasLeft]
      by_cases hk : k < n
      · by_cases hik : k = i
        · simp [hik]
        · simp [hk, hik, Fin.ext_iff]
      · have hik : k ≠ i := fun heq => hk (heq ▸ i.isLt)
        simp [hk, hik]
  | _ => simp [able, ho]

omit [DecidableEq C] [Fintype C] in
/-- A worker that leaves `RunInLoop`. Nobody else changes, except that
`Stop` can go on if it waits for this worker. -/
theorem wedged_leave {i : Fin n} (hr : s.isRunning = false) :
    Wedged (s.setWorker i .left) ↔ GoesWrong s (.test i) := by
  have hself : able (s.setWorker i .left) (.worker i) = false := by simp [able]
  have hothers : ∀ u, u ≠ .worker i → u ≠ .owner → able (s.setWorker i .left) u = able s u := by
    refine fun u hu huo => able_congr huo (fun j hj => ?_) rfl
    rw [State.setWorker_worker, if_neg]
    rintro rfl
    exact hu hj
  have howner := able_owner_leave (s := s) i
  constructor
  · rintro ⟨hin, hall⟩
    -- The owner could not go on before, and it does not wait for this worker.
    have ho : able s .owner = false ∧ (s.owner == .stopJoin i) = false :=
      Bool.or_eq_false_iff.mp (howner.symm.trans (hall .owner))
    refine ⟨hr, hin, by simpa using ho.2, fun u hu => ?_⟩
    by_cases huo : u = .owner
    · rw [huo]
      exact ho.1
    · exact (hothers u hu huo).symm.trans (hall u)
  · rintro ⟨-, hin, hjoin, halone⟩
    refine ⟨hin, fun u => ?_⟩
    by_cases hu : u = .worker i
    · rw [hu, hself]
    · by_cases huo : u = .owner
      · rw [huo, howner, halone .owner nofun]
        simpa using hjoin
      · exact (hothers u hu huo).trans (halone u hu)

/-- The step lemma: a step leads to a wedged state exactly when it
goes wrong. Each kind of step that can be the last one has its lemma
above. The others leave a thread able, most of them the one that took
the step. -/
theorem wedged_step (hinv : Inv s) (h : Step s e s') : Wedged s' ↔ GoesWrong s e := by
  have hinv' := inv_step hinv h
  cases h with
  | start | spawn | started => exact iff_of_false (not_wedged_of_stopIndex rfl) id
  -- At the head of its loop `Stop` can go on, and outside it nothing is
  -- wedged.
  | stop | join => exact iff_of_false (not_wedged_of_stopNext rfl) id
  | stopPut ho hq =>
      obtain ⟨-, -, rfl⟩ := Monitor.call_cases hq
      refine iff_of_false (hinv'.not_wedged_of_runnable (t := .owner) (m := .putMove none) ?_) id
      simp [Monitor.Pos.runnable]
  | stopWait ho hq hret => exact wedged_stopWait hinv ho hq hret hinv'
  | stopPutDone ho hq => exact wedged_stopPutDone hinv ho hq hinv'
  | @take i q hw hr hq =>
      obtain ⟨-, -, rfl⟩ := Monitor.call_cases hq
      refine iff_of_false (hinv'.not_wedged_of_runnable (t := .worker i) (m := .take) ?_) ?_
      · simp [Monitor.Pos.runnable]
      · rintro ⟨hr', -⟩
        rw [hr] at hr'
        cases hr'
  | leave hw hr => exact wedged_leave hr
  | @takeWait i q pick o hw hq hret =>
      cases take_section (hinv.worker_take hw) hq with
      | empty hempty =>
          refine (wedged_asleep hinv').trans ?_
          simp only [GoesWrong, hempty, true_and]
      | silent => exact absurd rfl (hret _)
      | wakes => exact absurd rfl (hret _)
  | @takeDone i q pick todo hw hq =>
      refine iff_of_false (not_wedged_of_able (t := .worker i) (by simp [able])) ?_
      rintro ⟨hempty, -⟩
      -- The worker took a task, so the queue was not empty.
      generalize ho : Monitor.Outcome.returned (BoundedBlockingQueue.Ret.item todo) = o at hq
      cases take_section (hinv.worker_take hw) hq with
      | empty => cases ho
      | silent hitems => simp [hempty] at hitems
      | wakes hitems => simp [hempty] at hitems
  | @runTask i task hw =>
      exact iff_of_false (not_wedged_of_able (t := .worker i) (by simp [able])) id
  | @putTask c task q hq =>
      obtain ⟨-, -, rfl⟩ := Monitor.call_cases hq
      refine iff_of_false (hinv'.not_wedged_of_runnable (t := .caller c) (m := .put task) ?_) id
      simp [Monitor.Pos.runnable]
  | callerSection hq => exact wedged_callerSection hinv hq hinv'
  | @spurious t q hq =>
      obtain ⟨-, m, -, rfl⟩ := Monitor.spurious_cases hq
      refine iff_of_false (hinv'.not_wedged_of_runnable (t := t) (m := m) ?_) id
      simp [Monitor.Pos.runnable]

/-! ### Runs -/

/-- A run of a pool never wedges `Stop`, in any of its states, exactly
when no step of it takes one of the wrong branches. The condition
looks at the state before the step: who is able in it, what is in the
queue, and whom `Stop` waits for. -/
theorem never_wedged_iff (es : List (Event n C Task)) :
    (system n C Task cap).Always (fun s => ¬ Wedged s) initial es ↔
      (system n C Task cap).EveryStep (fun s e => ¬ GoesWrong s e) initial es := by
  refine System.always_iff_everyStep (I := Inv) (fun s e s' hinv h => ?_)
    (fun s e s' hinv _ h => ?_) es inv_initial ?_
  · exact inv_step hinv (step_cases h)
  · exact not_congr (wedged_step hinv (step_cases h))
  · exact not_wedged_of_stopIndex rfl

/-- Two workers sleep. `Stop` puts its first null task, which wakes
the second worker, and waits for the first. The second worker takes
the null task and leaves. -/
def firstNullTask : List (Event 2 Unit Nat) :=
  [.start, .spawn, .spawn, .spawn, .test worker₀, .workerSection worker₀ none, .test worker₁,
   .workerSection worker₁ none, .stop, .stopPut, .stopSection (some (.worker worker₁)),
   .workerSection worker₁ none, .runTask worker₁, .test worker₁]

/-- After `firstNullTask`, `Stop` waits for a worker that sleeps on
the empty queue. -/
theorem wedgedStop :
    ∃ s, (system 2 Unit Nat 20).run initial firstNullTask = some s ∧ Wedged s := by
  refine ⟨_, rfl, ?_⟩
  unfold Wedged InStop
  decide

end Bigpipe.ThreadPool
