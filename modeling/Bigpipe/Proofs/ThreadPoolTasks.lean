import Bigpipe.Lib.Parties
import Bigpipe.Proofs.ThreadPool
import Mathlib.Algebra.Order.Group.Multiset
import Mathlib.Data.List.ReduceOption

/-!
# `Bigpipe.Proofs.ThreadPoolTasks`: where the tasks of a pool are

A task that is handed to `PutTask` is on its way into the queue, in
the queue, held by a worker, or executed. It is in one place at a
time, and it leaves a place only for the next one.

The places are counted in multisets, so a task that is handed over
twice counts twice, and a law about sums says that nothing is lost and
nothing is doubled. Null tasks do not count: `tasks` drops them, since
they are put by `Stop` to end the workers, or handed over empty, and
the worker that takes one executes nothing.

The queue itself is left out of the count. It is first in, first out
(`fifo`), so what was taken from it is a prefix of what was put into
it, and the two halves of the way meet there.

* `handed_run`: the tasks that a run hands to `PutTask` are those of
  the completed `put`s and those on their way.
* `executed_eq_takes`: the executed tasks and the held ones are the
  tasks taken from the queue.
* `not_executed_of_todo`, `worker_unique_of_todo`: where each task was
  put once, the task that a worker holds is held by that worker alone
  and has not been executed.
-/

set_option autoImplicit false

namespace Bigpipe.ThreadPool

open Bigpipe.Lib
open Bigpipe.BoundedBlockingQueue (queue puts takes)
open Bigpipe.Lib.Monitor (acquire)

variable {n : Nat} {C Task : Type} {cap : Nat}

/-! ### Tasks -/

/-- The tasks among the items of the queue. The null tasks are no
tasks. -/
def tasks (items : List (Option Task)) : Multiset Task :=
  items.reduceOption

@[simp] theorem tasks_none : tasks [(none : Option Task)] = 0 := rfl

@[simp] theorem tasks_append (items items' : List (Option Task)) :
    tasks (items ++ items') = tasks items + tasks items' := by
  show ((items ++ items').reduceOption : Multiset Task) = _
  rw [List.reduceOption_append]
  rfl

theorem tasks_cons (item : Option Task) (items : List (Option Task)) :
    tasks (item :: items) = tasks [item] + tasks items :=
  tasks_append [item] items

/-- The executed tasks after a worker ran `task`. -/
theorem coe_append_toList (executed : List Task) (task : Option Task) :
    ((executed ++ task.toList : List Task) : Multiset Task) = executed + tasks [task] := by
  cases task <;> rfl

/-- The task that an event hands to `PutTask`. -/
def Event.handed : Event n C Task → Option Task
  | .putTask _ task => task
  | _ => none

/-- The tasks that the events hand to `PutTask`. -/
def handedBy (es : List (Event n C Task)) : Multiset Task :=
  tasks (es.map Event.handed)

theorem handedBy_append (es es' : List (Event n C Task)) :
    handedBy (es ++ es') = handedBy es + handedBy es' := by
  show tasks ((es ++ es').map Event.handed) = _
  rw [List.map_append, tasks_append]
  rfl

/-- The tasks of the completed `put`s. -/
def accepted (s : State n C Task cap) : Multiset Task :=
  tasks (puts s.queue.hist)

/-- The task on its way into the queue, of a thread in the call
`m`. -/
def putting (m : Option (BoundedBlockingQueue.Call (Option Task))) : Option Task :=
  (m.bind BoundedBlockingQueue.Call.putItem).join

/-- The task that a caller has on its way into the queue: that of its
call of `PutTask`, until the call returns. A caller that waits for a
free slot has it for as long as it waits. -/
def pendingAt (s : State n C Task cap) (c : C) : Multiset Task :=
  tasks [putting (s.queue.pos (.caller c)).within]

/-- The tasks on their way into the queue. -/
def pending [Fintype C] (s : State n C Task cap) : Multiset Task :=
  ∑ c, pendingAt s c

/-- The task that a worker has taken and not run yet. -/
def WorkerPc.held : WorkerPc Task → Option Task
  | .todo task => task
  | .unborn | .loop | .taking | .left => none

/-- The tasks that the workers hold. -/
def held (s : State n C Task cap) : Multiset Task :=
  ∑ i, tasks [(s.worker i).held]

/-- A sum over the workers after one of them moves to `pc`. -/
theorem sum_setWorker {M : Type} [AddCommMonoid M] (f : WorkerPc Task → M)
    (s : State n C Task cap) (i : Fin n) (pc : WorkerPc Task) :
    ∑ j, f ((s.setWorker i pc).worker j) + f (s.worker i) = ∑ j, f (s.worker j) + f pc :=
  sum_move f s.worker i pc

/-- A worker that moves to `pc` changes what it holds itself. -/
theorem held_setWorker (s : State n C Task cap) (i : Fin n) (pc : WorkerPc Task) :
    held (s.setWorker i pc) + tasks [(s.worker i).held] = held s + tasks [pc.held] :=
  sum_setWorker (fun pc => tasks [pc.held]) s i pc

/-- A worker that holds nothing before and after changes nothing. -/
theorem held_setWorker_none {s : State n C Task cap} {i : Fin n} {pc : WorkerPc Task}
    (hbefore : (s.worker i).held = none) (hafter : pc.held = none) :
    held (s.setWorker i pc) = held s := by
  have h := held_setWorker s i pc
  rw [hbefore, hafter, tasks_none, add_zero, add_zero] at h
  exact h

/-- What a worker holds is held. -/
theorem tasks_held_le (s : State n C Task cap) (i : Fin n) :
    tasks [(s.worker i).held] ≤ held s :=
  (Multiset.le_add_right _ _).trans_eq
    (Finset.add_sum_erase _ (fun j => tasks [(s.worker j).held]) (Finset.mem_univ i))

theorem mem_held_of_todo {s : State n C Task cap} {i : Fin n} {task : Task}
    (hw : s.worker i = .todo (some task)) : task ∈ tasks [(s.worker i).held] := by
  rw [hw]
  exact Multiset.mem_singleton_self task

/-! ### The tasks that are handed to `PutTask` -/

section

variable {s s' : State n C Task cap}

/-- What a caller has on its way depends on the call that it is in. -/
theorem pendingAt_congr {c : C}
    (h : (s'.queue.pos (.caller c)).within = (s.queue.pos (.caller c)).within) :
    pendingAt s' c = pendingAt s c := by
  show tasks [putting _] = tasks [putting _]
  rw [h]

/-- The tasks on their way are the same where no caller enters or
leaves its call. -/
theorem pending_congr [Fintype C]
    (h : ∀ c, (s'.queue.pos (.caller c)).within = (s.queue.pos (.caller c)).within) :
    pending s' = pending s :=
  Finset.sum_congr rfl fun c _ => pendingAt_congr (h c)

end

variable [DecidableEq C] [Fintype C] {s s' : State n C Task cap} {e : Event n C Task}

/-- Where one caller enters or leaves its call, only its own task
counts differently. -/
theorem pending_move {c : C} {q : Queue n C Task cap}
    {call : Option (BoundedBlockingQueue.Call (Option Task))}
    (hin : ∀ t, (q.pos t).within =
      if t = .caller c then call else (s.queue.pos t).within) :
    pending { s with queue := q } + tasks [putting (s.queue.pos (.caller c)).within]
      = pending s + tasks [putting call] := by
  have hself : pendingAt { s with queue := q } c = tasks [putting call] := by
    show tasks [putting (q.pos _).within] = _
    rw [hin, if_pos rfl]
  rw [← hself]
  refine sum_replace c fun c' hc' => pendingAt_congr ?_
  show (q.pos _).within = _
  rw [hin, if_neg fun h => hc' (Tid.caller.inj h)]

/-- A call of `PutTask` puts its task on the way. -/
theorem pending_putTask {c : C} {task : Option Task} {q : Queue n C Task cap}
    (hq : Monitor.call s.queue (.caller c) (.put task) = some q) :
    pending { s with queue := q } = pending s + tasks [task] := by
  have hmove := pending_move (Monitor.call_within hq)
  rw [(Monitor.call_cases hq).2.1, show putting Monitor.Pos.outside.within = none from rfl,
    tasks_none, add_zero] at hmove
  exact hmove

/-- A lock section of the `put` in `PutTask` keeps its task on the way
or moves it into the queue. -/
theorem handed_callerSection (hinv : Inv s) {c : C} {q : Queue n C Task cap}
    {pick : Option (Tid n C)} {o : Monitor.Outcome (BoundedBlockingQueue.Ret (Option Task))}
    (hq : acquire (queue (Option Task) cap) s.queue (.caller c) pick = some (q, o)) :
    accepted { s with queue := q } + pending { s with queue := q } = accepted s + pending s := by
  show tasks (puts q.hist) + _ = tasks (puts s.queue.hist) + _
  cases o with
  | slept | aborted =>
      have hsame : pending { s with queue := q } = pending s :=
        pending_congr fun c' => Monitor.acquire_within_waits hq rfl _
      rw [Monitor.acquire_hist hq rfl, hsame]
  | returned r =>
      obtain ⟨-, m, hrun, -⟩ := Monitor.acquire_cases hq
      have hwithin := Monitor.Pos.within_of_runnable hrun
      obtain ⟨task, rfl⟩ := hinv.caller c m hwithin
      have hmove : pending { s with queue := q } + tasks [task] = pending s := by
        have hmove := pending_move (Monitor.acquire_within_returned hq)
        rw [hwithin, show putting none = (none : Option Task) from rfl, tasks_none,
          add_zero] at hmove
        exact hmove
      -- The completed `put` counts the task that its caller has no longer on
      -- the way.
      rw [Monitor.acquire_hist_returned hwithin hq, BoundedBlockingQueue.puts_snoc, tasks_append,
        add_assoc, ← hmove]
      exact congrArg _ (add_comm _ _)

/-- Only the callers complete `put`s of tasks. What the owner puts is
null, and does not count. -/
theorem accepted_step (hinv : Inv s) (h : Step s e s')
    (he : ∀ c pick, e ≠ .callerSection c pick) : accepted s' = accepted s := by
  cases h with
  | start | spawn | started | stop | join | leave | runTask => rfl
  | stopPut _ hq | take _ _ hq | putTask hq =>
      obtain ⟨-, -, rfl⟩ := Monitor.call_cases hq
      rfl
  | stopWait ho hq hret =>
      exact congrArg (fun hist => tasks (puts hist)) (Monitor.acquire_hist hq hret)
  | @stopPutDone i q pick r ho hq =>
      -- `Stop` puts the null task.
      show tasks (puts q.hist) = _
      rw [Monitor.acquire_hist_returned (hinv.owner_put ho) hq, BoundedBlockingQueue.puts_snoc,
        tasks_append]
      exact add_zero _
  | takeWait hw hq hret =>
      have hm := hinv.worker_take hw
      exact congrArg (fun hist => tasks (puts hist))
        (Monitor.acquire_hist hq (BoundedBlockingQueue.not_returned_of_take hm hq hret))
  | @takeDone i q pick todo hw hq =>
      show tasks (puts q.hist) = _
      rw [Monitor.acquire_hist_returned (hinv.worker_take hw) hq, BoundedBlockingQueue.puts_snoc,
        tasks_append]
      exact add_zero _
  | callerSection => exact absurd rfl (he _ _)
  | spurious hq =>
      obtain ⟨-, m, -, rfl⟩ := Monitor.spurious_cases hq
      rfl

/-- Only `PutTask` moves a caller into its call or out of it. -/
theorem caller_within_step (h : Step s e s') (hput : ∀ c task, e ≠ .putTask c task)
    (hsection : ∀ c pick, e ≠ .callerSection c pick) (c : C) :
    (s'.queue.pos (.caller c)).within = (s.queue.pos (.caller c)).within := by
  cases h with
  | start | spawn | started | stop | join | leave | runTask => rfl
  | stopPut _ hq | take _ _ hq => exact (Monitor.call_within hq _).trans (if_neg nofun)
  | stopWait _ hq | stopPutDone _ hq | takeWait _ hq | takeDone _ hq =>
      exact (Monitor.acquire_within hq _).trans (if_neg nofun)
  | putTask => exact absurd rfl (hput _ _)
  | callerSection => exact absurd rfl (hsection _ _)
  | spurious hq => exact Monitor.spurious_within hq _

/-- Only the callers have tasks on their way. -/
theorem pending_step (h : Step s e s') (hput : ∀ c task, e ≠ .putTask c task)
    (hsection : ∀ c pick, e ≠ .callerSection c pick) : pending s' = pending s :=
  pending_congr (caller_within_step h hput hsection)

/-- A step hands over the task of its event, and loses none that was
handed over before. It is the first half of the law of conservation,
up to the queue. -/
theorem handed_step (hinv : Inv s) (h : Step s e s') :
    accepted s' + pending s' = accepted s + pending s + tasks [e.handed] := by
  cases e with
  | putTask c task =>
      rw [accepted_step hinv h nofun, add_assoc]
      cases h with
      | putTask hq => exact congrArg _ (pending_putTask hq)
  | callerSection c pick =>
      cases h with
      | callerSection hq => exact (handed_callerSection hinv hq).trans (add_zero _).symm
  | _ =>
      rw [accepted_step hinv h nofun, pending_step h nofun nofun]
      exact (add_zero _).symm

/-- What a run hands to `PutTask` has been put or is on its way at its
end. The induction is over the run, from any state with the invariant,
so it may start in the middle of one. -/
theorem handed_run {es : List (Event n C Task)} (hinv : Inv s)
    (hrun : (system n C Task cap).run s es = some s') :
    accepted s' + pending s' = accepted s + pending s + handedBy es := by
  induction es generalizing s with
  | nil =>
      cases hrun
      exact (add_zero _).symm
  | cons e es ih =>
      obtain ⟨s₁, hs, hrest⟩ := Option.bind_eq_some_iff.mp hrun
      have hstep := step_cases hs
      rw [ih (inv_step hinv hstep) hrest, handed_step hinv hstep, add_assoc]
      exact congrArg _ (tasks_cons e.handed (es.map Event.handed)).symm

/-! ### The tasks that are executed -/

/-- What a step does to the workers: none moves, one moves without a
task, one comes out of `take` with an item, or one runs its task. The
proofs about what is executed only ask which of the four it was. -/
inductive WorkerStep (s s' : State n C Task cap) : Prop where
  | stays (hworker : s'.worker = s.worker)
      (htakes : takes s'.queue.hist = takes s.queue.hist) (hexecuted : s'.executed = s.executed)
  | moves {i : Fin n} {pc : WorkerPc Task} (hworker : s'.worker = (s.setWorker i pc).worker)
      (hbefore : s.worker i = .unborn ∨ s.worker i = .loop)
      (hafter : pc = .loop ∨ pc = .left ∨ (pc = .taking ∧ s.isRunning = true))
      (htakes : takes s'.queue.hist = takes s.queue.hist) (hexecuted : s'.executed = s.executed)
  | takes {i : Fin n} {todo : Option Task}
      (hworker : s'.worker = (s.setWorker i (.todo todo)).worker)
      (hbefore : s.worker i = .taking)
      (htakes : takes s'.queue.hist = takes s.queue.hist ++ [todo])
      (hexecuted : s'.executed = s.executed)
  | runs {i : Fin n} {task : Option Task} (hworker : s'.worker = (s.setWorker i .loop).worker)
      (hbefore : s.worker i = .todo task) (htakes : takes s'.queue.hist = takes s.queue.hist)
      (hexecuted : s'.executed = s.executed ++ task.toList)

/-- Every step does one of these. Nobody but a worker takes an
item. -/
theorem worker_step (hinv : Inv s) (h : Step s e s') : WorkerStep s s' := by
  cases h with
  | start | started | stop | join => exact .stays rfl rfl rfl
  | spawn ho hi => exact .moves rfl (.inl (hinv.unborn_next ho hi)) (.inl rfl) rfl rfl
  | leave hw => exact .moves rfl (.inr hw) (.inr (.inl rfl)) rfl rfl
  | take hw hr hq =>
      obtain ⟨-, -, rfl⟩ := Monitor.call_cases hq
      exact .moves rfl (.inr hw) (.inr (.inr ⟨rfl, hr⟩)) rfl rfl
  | runTask hw => exact .runs rfl hw rfl rfl
  -- The history of the queue grows by this `take`, and the worker holds what
  -- it returned.
  | @takeDone i q pick todo hw hq =>
      have hhist := Monitor.acquire_hist_returned (hinv.worker_take hw) hq
      refine .takes rfl hw ?_ rfl
      show takes q.hist = _
      rw [hhist, BoundedBlockingQueue.takes_snoc]
      rfl
  | takeWait hw hq hret =>
      have hm := hinv.worker_take hw
      have hhist := Monitor.acquire_hist hq (BoundedBlockingQueue.not_returned_of_take hm hq hret)
      exact .stays rfl (congrArg takes hhist) rfl
  -- The other sections are those of `put`, and add no `take` to the history.
  | stopWait ho hq | stopPutDone ho hq =>
      exact .stays rfl (BoundedBlockingQueue.takes_put (hinv.owner_put ho) rfl hq) rfl
  | callerSection hq =>
      obtain ⟨-, m, hrun, -⟩ := Monitor.acquire_cases hq
      have hm := Monitor.Pos.within_of_runnable hrun
      obtain ⟨task, rfl⟩ := hinv.caller _ _ hm
      exact .stays rfl (BoundedBlockingQueue.takes_put hm rfl hq) rfl
  | stopPut _ hq | putTask hq =>
      obtain ⟨-, -, rfl⟩ := Monitor.call_cases hq
      exact .stays rfl rfl rfl
  | spurious hq =>
      obtain ⟨-, m, -, rfl⟩ := Monitor.spurious_cases hq
      exact .stays rfl rfl rfl

omit [DecidableEq C] [Fintype C] in
/-- A sum over the workers depends on where they are. -/
theorem sum_worker_congr {M : Type} [AddCommMonoid M] (f : WorkerPc Task → M)
    (h : s'.worker = s.worker) : ∑ i, f (s'.worker i) = ∑ i, f (s.worker i) := by
  rw [h]

/-- A step keeps the balance of the workers: what they take from the
queue they hold or have executed. It is the second half of the law of
conservation, from the queue on. -/
theorem executed_step (hinv : Inv s) (h : Step s e s')
    (ih : (s.executed : Multiset Task) + held s = tasks (takes s.queue.hist)) :
    (s'.executed : Multiset Task) + held s' = tasks (takes s'.queue.hist) := by
  have hcongr : ∀ {s₁ : State n C Task cap}, s'.worker = s₁.worker → held s' = held s₁ :=
    fun hworker => sum_worker_congr (fun pc => tasks [pc.held]) hworker
  cases worker_step hinv h with
  | stays hworker htakes hexecuted => rw [hexecuted, hcongr hworker, htakes, ih]
  | @moves i pc hworker hbefore hafter htakes hexecuted =>
      have hheld : held (s.setWorker i pc) = held s := by
        refine held_setWorker_none ?_ ?_
        · rcases hbefore with h | h <;> rw [h] <;> rfl
        · rcases hafter with rfl | rfl | ⟨rfl, -⟩ <;> rfl
      rw [hexecuted, hcongr hworker, hheld, htakes, ih]
  | @takes i todo hworker hbefore htakes hexecuted =>
      -- The item that is taken is held.
      have hheld := held_setWorker s i (.todo todo)
      rw [hbefore] at hheld
      change held (s.setWorker i (.todo todo)) + 0 = held s + tasks [todo] at hheld
      rw [add_zero] at hheld
      rw [hexecuted, hcongr hworker, hheld, htakes, tasks_append, ← ih, add_assoc]
  | @runs i task hworker hbefore htakes hexecuted =>
      -- The task that was held is executed.
      have hheld := held_setWorker s i .loop
      rw [hbefore] at hheld
      change held (s.setWorker i .loop) + tasks [task] = held s + 0 at hheld
      rw [add_zero] at hheld
      rw [hexecuted, hcongr hworker, htakes, ← ih, ← hheld, coe_append_toList, add_assoc,
        add_comm (tasks [task])]

/-- What the workers took from the queue they hold or have executed,
in every reachable state. -/
theorem executed_eq_takes (h : (system n C Task cap).Reachable s) :
    (s.executed : Multiset Task) + held s = tasks (takes s.queue.hist) := by
  refine h.induct
    (I := fun s => (s.executed : Multiset Task) + held s = tasks (takes s.queue.hist)) ?_
    fun s e s' hreach ih hs => ?_
  · intro s hs
    rw [hs]
    show 0 + held initial = 0
    rw [zero_add]
    exact Finset.sum_eq_zero fun i _ => rfl
  · exact executed_step (reachable_inv hreach) (step_cases hs) ih

/-- The queue of a pool is first in, first out. -/
theorem fifo (h : (system n C Task cap).Reachable s) :
    takes s.queue.hist ++ s.queue.data.items = puts s.queue.hist :=
  BoundedBlockingQueue.fifo_of_sequential
    (Monitor.Reachable.sequential (queueSimulation.reachable h))

/-- What is executed or held was put into the queue. -/
theorem executed_le_accepted (h : (system n C Task cap).Reachable s) :
    (s.executed : Multiset Task) + held s ≤ accepted s := by
  have hfifo := fifo h
  calc (s.executed : Multiset Task) + held s
      = tasks (takes s.queue.hist) := executed_eq_takes h
    _ ≤ tasks (takes s.queue.hist) + tasks s.queue.data.items := Multiset.le_add_right _ _
    _ = accepted s := by rw [← tasks_append, hfifo]; rfl

/-- The task of a worker was put into the queue. -/
theorem mem_accepted_of_todo (h : (system n C Task cap).Reachable s) {i : Fin n} {task : Task}
    (hw : s.worker i = .todo (some task)) : task ∈ accepted s :=
  Multiset.mem_of_le ((tasks_held_le s i).trans
    ((Multiset.le_add_left _ _).trans (executed_le_accepted h))) (mem_held_of_todo hw)

/-- Where each task was put once, the task of a worker is not
executed. The worker holds the one copy that there is. -/
theorem not_executed_of_todo (h : (system n C Task cap).Reachable s) (honce : (accepted s).Nodup)
    {i : Fin n} {task : Task} (hw : s.worker i = .todo (some task)) : task ∉ s.executed := by
  have hnodup := Multiset.nodup_of_le (executed_le_accepted h) honce
  obtain ⟨-, -, hdisjoint⟩ := Multiset.nodup_add.mp hnodup
  exact fun hmem => Multiset.disjoint_left.mp hdisjoint (Multiset.mem_coe.mpr hmem)
    (Multiset.mem_of_le (tasks_held_le s i) (mem_held_of_todo hw))

/-- Where each task was put once, no two workers hold the same. Two of
them would be two copies among the tasks that were put. -/
theorem worker_unique_of_todo (h : (system n C Task cap).Reachable s)
    (honce : (accepted s).Nodup) {i j : Fin n} {task : Task}
    (hi : s.worker i = .todo (some task)) (hj : s.worker j = .todo (some task)) : i = j := by
  by_contra hij
  have hheld : (held s).Nodup :=
    Multiset.nodup_of_le ((Multiset.le_add_left _ _).trans (executed_le_accepted h)) honce
  -- The worker `i` on the one hand, all the others on the other.
  have hsum : held s = tasks [(s.worker i).held] +
      ∑ k ∈ Finset.univ.erase i, tasks [(s.worker k).held] :=
    (Finset.add_sum_erase _ (fun k => tasks [(s.worker k).held]) (Finset.mem_univ i)).symm
  rw [hsum] at hheld
  obtain ⟨-, -, hdisjoint⟩ := Multiset.nodup_add.mp hheld
  refine Multiset.disjoint_left.mp hdisjoint (mem_held_of_todo hi) ?_
  exact Multiset.mem_sum.mpr
    ⟨j, Finset.mem_erase.mpr ⟨Ne.symm hij, Finset.mem_univ j⟩, mem_held_of_todo hj⟩

/-- What is executed stays so. -/
theorem mem_executed_step (h : Step s e s') {task : Task} (hmem : task ∈ s.executed) :
    task ∈ s'.executed := by
  cases h with
  | runTask => exact List.mem_append_left _ hmem
  | _ => exact hmem

/-- A worker that ends its turn has executed its task. -/
theorem mem_executed_of_runTask {i : Fin n} (h : Step s (.runTask i) s') {task : Task}
    (hw : s.worker i = .todo (some task)) : task ∈ s'.executed := by
  cases h with
  | runTask hw' =>
      cases hw.symm.trans hw'
      exact List.mem_append_right _ List.mem_cons_self

end Bigpipe.ThreadPool
