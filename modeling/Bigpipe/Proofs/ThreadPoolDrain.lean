import Bigpipe.Proofs.ThreadPoolTasks

/-!
# `Bigpipe.Proofs.ThreadPoolDrain`: which tasks `ThreadPool::Stop` leaves behind

`Stop` clears the flag first. From then on no worker enters `take`, so
the pool takes exactly one more item for each worker that is in `take`
at that moment, and `Stop` returns without the rest of the queue.

So how much of the queue is executed is settled at the call of `Stop`,
and no schedule after it makes a difference: the number of items that
are still to be taken is the number of workers in `take` (`taking`),
and the queue is first in, first out, so the items are its first ones.
What later callers and `Stop` itself put comes behind them. `Stopping`
is this balance as an invariant of the run after the call.

The other direction needs a run: if a task would be left behind, some
schedule must let `Stop` return. The workers are led out of their
loops one after the other, each by the shortest way from where it is
(`Leads`, `Moves`). That works whenever the null tasks find slots.
Where they do not, `Stop` does not return in any schedule, and the
property holds for want of a return.

* `Stopping`: what holds after `Stop` was called, and `Stopping.step`.
* `executed_of_stopped`: what the pool has executed when `Stop`
  returns.
* `exists_return`: `Stop` can return whenever its null tasks find
  slots.
* `runsOnce_iff`: every task handed over before `Stop` is executed
  once, in every schedule in which `Stop` returns, exactly when the
  workers in `take` suffice for the tasks in the queue.
* `droppedTask`: a run that drops one.
-/

set_option autoImplicit false

namespace Bigpipe.ThreadPool

open Bigpipe.Lib
open Bigpipe.BoundedBlockingQueue (queue puts takes)
open Bigpipe.Lib.Monitor (acquire)

variable {n : Nat} {C Task : Type} {cap : Nat}

/-! ### What `Stop` does -/

/-- The worker is in `take`. -/
def WorkerPc.isTaking : WorkerPc Task → Bool
  | .taking => true
  | .unborn | .loop | .todo _ | .left => false

/-- The number of workers in `take`. After `Stop` has cleared the flag
it is the number of items that the pool still takes. -/
def taking (s : State n C Task cap) : Nat :=
  ∑ i, (s.worker i).isTaking.toNat

/-- `Stop` has been called. -/
def OwnerPc.hasStopped : OwnerPc → Bool
  | .stopPut _ | .stopPutting _ | .stopJoin _ | .stopped => true
  | .idle | .starting _ | .started => false

/-- The null tasks that `Stop` has put, where `maxThreads = n`. It
puts one for each thread, in front of the join of that thread. -/
def OwnerPc.nulls (n : Nat) : OwnerPc → Nat
  | .stopPut i | .stopPutting i => i
  | .stopJoin i => i + 1
  | .stopped => n
  | .idle | .starting _ | .started => 0

/-- The threads that `Stop` has joined, where `maxThreads = n`. -/
def OwnerPc.joined (n : Nat) : OwnerPc → Nat
  | .stopPut i | .stopPutting i | .stopJoin i => i
  | .stopped => n
  | .idle | .starting _ | .started => 0

theorem hasStopped_stopNext (i : Nat) : (stopNext n i).hasStopped = true := by
  unfold stopNext
  split <;> rfl

theorem nulls_stopNext {i : Nat} (hi : i ≤ n) : (stopNext n i).nulls n = i := by
  unfold stopNext
  split
  · rfl
  · show n = i
    omega

theorem joined_stopNext {i : Nat} (hi : i ≤ n) : (stopNext n i).joined n = i := by
  unfold stopNext
  split
  · rfl
  · show n = i
    omega

/-- A worker that moves to `pc` counts itself differently. The
equation has a sum on both sides, since subtraction of natural numbers
would lose something. -/
theorem taking_setWorker (s : State n C Task cap) (i : Fin n) (pc : WorkerPc Task) :
    taking (s.setWorker i pc) + (s.worker i).isTaking.toNat = taking s + pc.isTaking.toNat :=
  sum_setWorker (fun pc => pc.isTaking.toNat) s i pc

variable [DecidableEq C] [Fintype C] {s s' s₀ : State n C Task cap} {e : Event n C Task}

/-- Only `Start` and `Stop` set the flag, and only `Stop` takes the
owner into its loop. -/
theorem running_step (h : Step s e s') (hstart : e ≠ .start) (hstop : e ≠ .stop) :
    s'.isRunning = s.isRunning ∧ s'.owner.hasStopped = s.owner.hasStopped := by
  cases h with
  | start => exact absurd rfl hstart
  | stop => exact absurd rfl hstop
  | join ho =>
      refine ⟨rfl, ?_⟩
      rw [ho]
      exact hasStopped_stopNext _
  | spawn ho | started ho | stopPut ho | stopPutDone ho =>
      refine ⟨rfl, ?_⟩
      rw [ho]
      rfl
  | _ => exact ⟨rfl, rfl⟩

/-- With the flag cleared, a worker takes an item only from inside
`take`, and leaves it with that. So the number of items taken and the
number of workers in `take` have the same sum before and after. -/
theorem takes_step (hinv : Inv s) (hflag : s.isRunning = false) (h : Step s e s') :
    (takes s'.queue.hist).length + taking s' = (takes s.queue.hist).length + taking s := by
  have hcongr : ∀ {s₁ : State n C Task cap}, s'.worker = s₁.worker → taking s' = taking s₁ :=
    fun hworker => sum_worker_congr (fun pc => pc.isTaking.toNat) hworker
  cases worker_step hinv h with
  | stays hworker htakes => rw [hcongr hworker, htakes]
  | @moves i pc hworker hbefore hafter htakes =>
      have htaking := taking_setWorker s i pc
      have hbefore' : (s.worker i).isTaking = false := by
        rcases hbefore with h | h <;> rw [h] <;> rfl
      have hafter' : pc.isTaking = false := by
        rcases hafter with rfl | rfl | ⟨rfl, hr⟩
        · rfl
        · rfl
        · rw [hflag] at hr
          cases hr
      rw [hbefore', hafter'] at htaking
      rw [hcongr hworker, htakes]
      exact congrArg _ htaking
  | @takes i todo hworker hbefore htakes =>
      have htaking := taking_setWorker s i (.todo todo)
      rw [hbefore] at htaking
      change taking (s.setWorker i (.todo todo)) + 1 = taking s at htaking
      rw [hcongr hworker, htakes, List.length_append, ← htaking]
      show _ + 1 + _ = _
      omega
  | @runs i task hworker hbefore htakes =>
      have htaking := taking_setWorker s i .loop
      rw [hbefore] at htaking
      rw [hcongr hworker, htakes]
      exact congrArg _ htaking

/-- A step completes `put`s, and forgets none. -/
theorem puts_step (h : Step s e s') : ∃ new, puts s'.queue.hist = puts s.queue.hist ++ new := by
  rcases queue_step h with ⟨hq, -⟩ | ⟨qe, -, hq⟩
  · rw [hq]
    exact ⟨[], (List.append_nil _).symm⟩
  · obtain ⟨new, hnew⟩ := Monitor.hist_step hq
    refine ⟨puts new, ?_⟩
    rw [hnew]
    exact List.filterMap_append

/-- What holds in a run from the call of `Stop` in `s₀` on. The items
of the new `put`s include the null tasks of `Stop`, and the items
taken grow only as the workers come out of `take`. -/
structure Stopping (s₀ s : State n C Task cap) : Prop where
  hasStopped : s.owner.hasStopped = true
  flag : s.isRunning = false
  left : ∀ i : Fin n, i < s.owner.joined n → s.worker i = .left
  puts : ∃ new, puts s.queue.hist = puts s₀.queue.hist ++ new ∧ s.owner.nulls n ≤ new.length
  takes : (takes s.queue.hist).length + taking s = (takes s₀.queue.hist).length + taking s₀

/-- What a step does to `Stop`: it stays in its loop with the flag
cleared, joins only a thread that has left, and counts only a null
task that it has put. -/
theorem stop_step (hinv : Inv s) (hstop : s.owner.hasStopped = true) (h : Step s e s') :
    s'.owner.hasStopped = true ∧ s'.isRunning = s.isRunning ∧
    (∀ i : Fin n, i < s'.owner.joined n → i < s.owner.joined n ∨ s.worker i = .left) ∧
    s'.owner.nulls n + (puts s.queue.hist).length ≤
      s.owner.nulls n + (puts s'.queue.hist).length := by
  obtain ⟨new, hnew⟩ := puts_step h
  have hgrows : (puts s.queue.hist).length ≤ (puts s'.queue.hist).length := by
    rw [hnew, List.length_append]
    omega
  cases h with
  | start ho | spawn ho | started ho | stop ho =>
      rw [ho] at hstop
      cases hstop
  | take | leave | takeDone | runTask | stopWait | takeWait | putTask | callerSection | spurious =>
      exact ⟨hstop, rfl, fun _ => Or.inl, Nat.add_le_add_left hgrows _⟩
  | stopPut ho =>
      rw [ho]
      exact ⟨rfl, rfl, fun _ => Or.inl, Nat.add_le_add_left hgrows _⟩
  | @stopPutDone i q pick r ho hq =>
      refine ⟨rfl, rfl, by rw [ho]; exact fun _ => Or.inl, ?_⟩
      show i + 1 + _ ≤ _ + (puts q.hist).length
      rw [ho, Monitor.acquire_hist_returned (hinv.owner_put ho) hq, BoundedBlockingQueue.puts_snoc,
        List.length_append]
      show _ ≤ i + (_ + 1)
      omega
  | @join i ho hi hw =>
      refine ⟨hasStopped_stopNext _, rfl, fun j hj => ?_, ?_⟩
      · rw [joined_stopNext hi] at hj
        rw [ho]
        show j.val < i ∨ _
        by_cases hji : j.val = i
        · -- The thread that is joined has left.
          right
          rw [show j = ⟨i, hi⟩ from Fin.ext hji]
          exact hw
        · left
          omega
      · show (stopNext n (i + 1)).nulls n + _ ≤ _
        rw [nulls_stopNext hi, ho]
        exact Nat.le_refl _

/-- A step keeps what holds after the call of `Stop`. -/
theorem Stopping.step (hst : Stopping s₀ s) (hinv : Inv s) (h : Step s e s') :
    Stopping s₀ s' := by
  obtain ⟨hstop, hflag, hjoined, hnulls⟩ := stop_step hinv hst.hasStopped h
  refine ⟨hstop, hflag.trans hst.flag, fun i hi => ?_, ?_, ?_⟩
  · have hleft : s.worker i = .left := by
      rcases hjoined i hi with hbefore | hnow
      · exact hst.left i hbefore
      · exact hnow
    rw [worker_stays hinv h (.inl hleft), hleft]
    rintro rfl
    cases h with
    | runTask hw =>
        rw [hleft] at hw
        cases hw
  · obtain ⟨old, hold, hcount⟩ := hst.puts
    obtain ⟨new, hnew⟩ := puts_step h
    refine ⟨old ++ new, by rw [hnew, hold, List.append_assoc], ?_⟩
    rw [hnew, List.length_append] at hnulls
    rw [List.length_append]
    omega
  · exact (takes_step hinv hst.flag h).trans hst.takes

/-- The call of `Stop`. -/
theorem Stopping.init (h : Step s .stop s₀) : Stopping s₀ s₀ := by
  cases h with
  | stop ho =>
      refine ⟨hasStopped_stopNext 0, rfl, fun i hi => ?_, ⟨[], (List.append_nil _).symm, ?_⟩, rfl⟩
      · change i.val < (stopNext n 0).joined n at hi
        rw [joined_stopNext (Nat.zero_le n)] at hi
        exact absurd hi (Nat.not_lt_zero _)
      · show (stopNext n 0).nulls n ≤ 0
        rw [nulls_stopNext (Nat.zero_le n)]

/-- A run keeps what holds after the call of `Stop`. -/
theorem Stopping.run {es : List (Event n C Task)} (hst : Stopping s₀ s) (hinv : Inv s)
    (hrun : (system n C Task cap).run s es = some s') : Stopping s₀ s' := by
  refine (System.run_induct (I := fun s => Inv s ∧ Stopping s₀ s) ?_ ⟨hinv, hst⟩ hrun).2
  intro s e s' _ ⟨hinv, hst⟩ hs
  have hstep := step_cases hs
  exact ⟨inv_step hinv hstep, hst.step hinv hstep⟩

/-! ### When `Stop` has returned -/

omit [DecidableEq C] [Fintype C] in
/-- The workers have left when `Stop` returns. -/
theorem Stopping.left_of_stopped (hst : Stopping s₀ s) (ho : s.owner = .stopped) (i : Fin n) :
    s.worker i = .left := by
  refine hst.left i ?_
  rw [ho]
  exact i.isLt

/-- When `Stop` returns, the pool has executed the tasks of the items
taken before the call of `Stop`, of one more item for each worker that
was in `take`, and no others. These items are the first ones of the
queue. -/
theorem executed_of_stopped (hst : Stopping s₀ s)
    (hreach : (system n C Task cap).Reachable s) (ho : s.owner = .stopped) :
    ∃ new, puts s.queue.hist = puts s₀.queue.hist ++ new ∧ n ≤ new.length ∧
      (s.executed : Multiset Task) = tasks ((puts s.queue.hist).take
        ((takes s₀.queue.hist).length + taking s₀)) ∧
      (takes s₀.queue.hist).length + taking s₀ + s.queue.data.items.length =
        (puts s.queue.hist).length := by
  obtain ⟨new, hnew, hcount⟩ := hst.puts
  rw [ho] at hcount
  have hleft := hst.left_of_stopped ho
  -- No worker is in `take`, and none holds a task.
  have htaking : taking s = 0 := Finset.sum_eq_zero fun i _ => by rw [hleft i]; rfl
  have hheld : held s = 0 := Finset.sum_eq_zero fun i _ => by rw [hleft i]; rfl
  have htakes := hst.takes
  rw [htaking, Nat.add_zero] at htakes
  have hexecuted := executed_eq_takes hreach
  rw [hheld, add_zero] at hexecuted
  have hfifo := fifo hreach
  refine ⟨new, hnew, hcount, ?_, ?_⟩
  · rw [hexecuted, ← htakes, ← hfifo, List.take_left]
  · rw [← htakes, ← hfifo, List.length_append]

/-! ### `Stop` can return -/

/-- A run leads from `s` to `s'` in which no call of `PutTask` takes a
step. Such a run executes and drops tasks, and accepts none. -/
def Leads (s s' : State n C Task cap) : Prop :=
  ∃ es, (∀ e ∈ es, ∀ c pick, e ≠ Event.callerSection c pick) ∧
    (system n C Task cap).run s es = some s'

namespace Leads

theorem refl (s : State n C Task cap) : Leads s s :=
  ⟨[], nofun, rfl⟩

theorem step (hs : (system n C Task cap).step s e = some s')
    (he : ∀ c pick, e ≠ .callerSection c pick) : Leads s s' :=
  ⟨[e], fun e' he' => by rw [List.mem_singleton.mp he']; exact he, System.run_singleton hs⟩

theorem trans {s₁ : State n C Task cap} (h : Leads s s₁) (h' : Leads s₁ s') : Leads s s' := by
  obtain ⟨es, hes, hrun⟩ := h
  obtain ⟨es', hes', hrun'⟩ := h'
  refine ⟨es ++ es', fun e he => ?_, (System.run_append hrun).trans hrun'⟩
  rcases List.mem_append.mp he with hfirst | hsecond
  · exact hes e hfirst
  · exact hes' e hsecond

theorem reachable (h : Leads s s') (hs : (system n C Task cap).Reachable s) :
    (system n C Task cap).Reachable s' := by
  obtain ⟨es, -, hrun⟩ := h
  exact hs.run hrun

/-- No task gets into the queue. -/
theorem accepted_eq (h : Leads s s') (hinv : Inv s) : accepted s' = accepted s := by
  obtain ⟨es, hes, hrun⟩ := h
  refine (System.run_induct (I := fun s' => Inv s' ∧ accepted s' = accepted s) ?_
    ⟨hinv, rfl⟩ hrun).2
  intro s₁ e s₂ he ⟨hinv₁, heq⟩ hs
  have hstep := step_cases hs
  exact ⟨inv_step hinv₁ hstep, (accepted_step hinv₁ hstep (hes e he)).trans heq⟩

end Leads

/-- Only the worker `i` moves on the way from `s` to `s'`. An item
that is taken on the way is taken by the worker as it comes out of
`take`, so the sum of `items` and workers in `take` goes down
together. -/
structure Moves (i : Fin n) (s s' : State n C Task cap) : Prop where
  leads : Leads s s'
  owner : s'.owner = s.owner
  flag : s'.isRunning = s.isRunning
  others : ∀ j, j ≠ i → s'.worker j = s.worker j
  items : s'.queue.data.items.length + (s.worker i).isTaking.toNat =
    s.queue.data.items.length + (s'.worker i).isTaking.toNat

namespace Moves

theorem trans {i : Fin n} {s₁ : State n C Task cap} (h : Moves i s s₁) (h' : Moves i s₁ s') :
    Moves i s s' where
  leads := h.leads.trans h'.leads
  owner := h'.owner.trans h.owner
  flag := h'.flag.trans h.flag
  others j hj := (h'.others j hj).trans (h.others j hj)
  items := by
    have h₁ := h.items
    have h₂ := h'.items
    omega

/-- The items and the workers in `take` become fewer together. -/
theorem balance {i : Fin n} (h : Moves i s s') :
    s'.queue.data.items.length + taking s = s.queue.data.items.length + taking s' := by
  have htaking : taking s' + (s.worker i).isTaking.toNat
      = taking s + (s'.worker i).isTaking.toNat :=
    sum_replace (f := fun j => (s.worker j).isTaking.toNat)
      (g := fun j => (s'.worker j).isTaking.toNat) i fun j hj => by rw [h.others j hj]
  have hitems := h.items
  omega

end Moves

/-- With the flag cleared, a worker at the head of its loop leaves. -/
theorem exists_leave_of_loop {i : Fin n} (hw : s.worker i = .loop)
    (hflag : s.isRunning = false) : ∃ s', Moves i s s' ∧ s'.worker i = .left := by
  refine ⟨s.setWorker i .left, ⟨?_, rfl, rfl, fun j hj => by simp [hj], ?_⟩, by simp⟩
  · exact .step (e := .test i) (by simp [system, test, hw, hflag]) (by simp)
  · rw [hw, State.setWorker_worker, if_pos rfl]
    rfl

/-- A worker with a task runs it, and leaves. -/
theorem exists_leave_of_todo {i : Fin n} {task : Option Task} (hw : s.worker i = .todo task)
    (hflag : s.isRunning = false) : ∃ s', Moves i s s' ∧ s'.worker i = .left := by
  have hrun : Moves i s
      { s.setWorker i .loop with executed := s.executed ++ task.toList } := by
    refine ⟨?_, rfl, rfl, fun j hj => by simp [hj], ?_⟩
    · exact .step (e := .runTask i) (by simp [system, runTask, hw]) (by simp)
    · rw [hw, State.setWorker_worker, if_pos rfl]
      rfl
  obtain ⟨s', hleave, hleft⟩ := exists_leave_of_loop (i := i)
    (s := { s.setWorker i .loop with executed := s.executed ++ task.toList }) (by simp) hflag
  exact ⟨s', hrun.trans hleave, hleft⟩

/-- A worker at the mutex in `take` takes an item, runs it and
leaves. -/
theorem exists_leave_of_runnable (hreach : (system n C Task cap).Reachable s) {i : Fin n}
    (hw : s.worker i = .taking) (hrun : (s.queue.pos (.worker i)).runnable = some .take)
    (hne : s.queue.data.items ≠ []) (hflag : s.isRunning = false) :
    ∃ s', Moves i s s' ∧ s'.worker i = .left := by
  have hab := BoundedBlockingQueue.not_aborted (queueSimulation.reachable hreach)
  obtain ⟨pick, q, todo, hq⟩ := BoundedBlockingQueue.exists_take hab hrun hne
  have hitems := BoundedBlockingQueue.take_returned ((reachable_inv hreach).worker_take hw) hq
  have htake : Moves i s { s.setWorker i (.todo todo) with queue := q } := by
    refine ⟨?_, rfl, rfl, fun j hj => by simp [hj], ?_⟩
    · exact .step (e := .workerSection i pick) (by simp [system, workerSection, hw, hq]) (by simp)
    · rw [hw, State.setWorker_worker, if_pos rfl, hitems]
      rfl
  obtain ⟨s', hleave, hleft⟩ := exists_leave_of_todo (i := i)
    (s := { s.setWorker i (.todo todo) with queue := q }) (by simp; rfl) hflag
  exact ⟨s', htake.trans hleave, hleft⟩

/-- A worker in `take` takes an item, runs it and leaves. If it
sleeps, it wakes for no reason first, which `wait` allows at any
time. -/
theorem exists_leave_of_taking (hreach : (system n C Task cap).Reachable s) {i : Fin n}
    (hw : s.worker i = .taking) (hne : s.queue.data.items ≠ []) (hflag : s.isRunning = false) :
    ∃ s', Moves i s s' ∧ s'.worker i = .left := by
  rcases Monitor.Pos.asleep_or_runnable ((reachable_inv hreach).worker_take hw) with hpos | hrun
  · have hab := BoundedBlockingQueue.not_aborted (queueSimulation.reachable hreach)
    have hwake : (system n C Task cap).step s (.spurious (.worker i))
        = some { s with queue := s.queue.move (.worker i) (.woken .take) } := by
      simp [system, spurious, Monitor.spurious, hab, hpos]
    have hmoves : Moves i s { s with queue := s.queue.move (.worker i) (.woken .take) } :=
      ⟨.step hwake (by simp), rfl, rfl, fun _ _ => rfl, rfl⟩
    obtain ⟨s', hleave, hleft⟩ := exists_leave_of_runnable (hreach.step hwake) (i := i) hw
      (by simp [Monitor.Pos.runnable]) hne hflag
    exact ⟨s', hmoves.trans hleave, hleft⟩
  · exact exists_leave_of_runnable hreach hw hrun hne hflag

/-- A spawned worker leaves, where the queue has an item for a worker
in `take`. -/
theorem exists_leave (hreach : (system n C Task cap).Reachable s) {i : Fin n}
    (hborn : s.owner.hasSpawned i) (hne : s.queue.data.items ≠ []) (hflag : s.isRunning = false) :
    ∃ s', Moves i s s' ∧ s'.worker i = .left := by
  cases hw : s.worker i with
  | unborn => exact absurd hborn (((reachable_inv hreach).born i).mp hw)
  | loop => exact exists_leave_of_loop hw hflag
  | taking => exact exists_leave_of_taking hreach hw hne hflag
  | todo task => exact exists_leave_of_todo hw hflag
  | left => exact ⟨s, ⟨.refl s, rfl, rfl, fun _ _ => rfl, rfl⟩, hw⟩

/-- `Stop` finds a slot for its next null task: where the ring is
full, a worker in `take` makes room. -/
theorem exists_room (hreach : (system n C Task cap).Reachable s) (hflag : s.isRunning = false)
    (hcap : 0 < cap) (hroom : s.queue.data.items.length < cap + taking s) :
    ∃ s', Leads s s' ∧ s'.owner = s.owner ∧ s'.isRunning = false ∧
      s'.queue.data.isFull = false ∧
      s'.queue.data.items.length + taking s = s.queue.data.items.length + taking s' := by
  cases hfull : s.queue.data.isFull with
  | false => exact ⟨s, .refl s, rfl, hflag, hfull, rfl⟩
  | true =>
      have hlength : s.queue.data.items.length = cap := eq_of_beq hfull
      have hne : s.queue.data.items ≠ [] := List.length_pos_iff.mp (by omega)
      -- The ring alone takes up the room, so some worker is in `take`.
      obtain ⟨i, hi⟩ : ∃ i, s.worker i = .taking := by
        by_contra hnone
        have hzero : taking s = 0 := Finset.sum_eq_zero fun i _ => by
          cases hw : s.worker i with
          | taking => exact absurd ⟨i, hw⟩ hnone
          | _ => rfl
        omega
      obtain ⟨s', hmoves, hleft⟩ := exists_leave_of_taking hreach hi hne hflag
      refine ⟨s', hmoves.leads, hmoves.owner, hmoves.flag.trans hflag, ?_, hmoves.balance⟩
      have hitems := hmoves.items
      rw [hi, hleft] at hitems
      change s'.queue.data.items.length + 1 = s.queue.data.items.length at hitems
      rw [Lib.CircularBuffer.isFull_eq_false_iff]
      omega

/-- `Stop` puts its null task, where it finds a slot. The run that
does it moves the owner only. -/
theorem exists_stopPut (hreach : (system n C Task cap).Reachable s) {i : Nat}
    (ho : s.owner = .stopPut i) (hfull : s.queue.data.isFull = false) :
    ∃ s', Leads s s' ∧ s'.owner = .stopJoin i ∧ s'.isRunning = s.isRunning ∧
      s'.worker = s.worker ∧ s'.queue.data.items = s.queue.data.items ++ [none] := by
  have hout : (s.queue.pos .owner).within = none := by
    rw [(reachable_inv hreach).owner, ho]
    rfl
  have hab := BoundedBlockingQueue.not_aborted (queueSimulation.reachable hreach)
  obtain ⟨q, hq⟩ := Monitor.exists_call hab hout (.putMove none)
  obtain ⟨hrun, hdata, hab'⟩ := Monitor.call_runnable hq
  obtain ⟨pick, q', hq'⟩ := BoundedBlockingQueue.exists_put hab' hrun rfl (hdata ▸ hfull)
  have hitems := (BoundedBlockingQueue.put_returned (Monitor.Pos.within_of_runnable hrun) rfl hq').2
  have hcall : Leads s { s with queue := q, owner := .stopPutting i } :=
    .step (e := .stopPut) (by simp [system, stopPut, ho, hq]) (by simp)
  have hsection : Leads { s with queue := q, owner := .stopPutting i }
      { s with queue := q', owner := .stopJoin i } :=
    .step (e := .stopSection pick) (by simp [system, stopSection, hq']) (by simp)
  exact ⟨_, hcall.trans hsection, rfl, rfl, rfl, by rw [hitems, hdata]⟩

/-- `Stop` puts its null task and joins the thread. The thread leaves
by itself, with the null task or with an item before it. -/
theorem exists_join (hreach : (system n C Task cap).Reachable s) {i : Nat} (hi : i < n)
    (ho : s.owner = .stopPut i) (hflag : s.isRunning = false)
    (hfull : s.queue.data.isFull = false) :
    ∃ s', Leads s s' ∧ s'.owner = stopNext n (i + 1) ∧ s'.isRunning = false ∧
      s'.queue.data.items.length + taking s = s.queue.data.items.length + 1 + taking s' := by
  obtain ⟨s₁, hput, ho₁, hflag₁, hworker₁, hitems₁⟩ := exists_stopPut hreach ho hfull
  have htaking₁ : taking s₁ = taking s := by
    show ∑ j, (s₁.worker j).isTaking.toNat = _
    rw [hworker₁]
    rfl
  -- The thread to join finds an item, should it be in `take`.
  obtain ⟨s₂, hmoves, hleft⟩ := exists_leave (hput.reachable hreach) (i := ⟨i, hi⟩)
    (by rw [ho₁]; trivial) (by rw [hitems₁]; simp) (hflag₁.trans hflag)
  have hjoin : Leads s₂ { s₂ with owner := stopNext n (i + 1) } :=
    .step (e := .join) (by simp [system, join, hmoves.owner, ho₁, hi, hleft]) (by simp)
  have hbalance := hmoves.balance
  rw [htaking₁, hitems₁, List.length_append] at hbalance
  refine ⟨_, (hput.trans hmoves.leads).trans hjoin, rfl, ?_, hbalance⟩
  exact hmoves.flag.trans (hflag₁.trans hflag)

/-- `Stop` can return where the ring and the workers in `take` have
room for the null tasks that it has yet to put. The induction is on
their number, one round of the loop of `Stop` for each. -/
theorem exists_return (hcap : cap = 0 → n = 0) {k i : Nat} (hk : i + k = n)
    (hreach : (system n C Task cap).Reachable s) (ho : s.owner = stopNext n i)
    (hflag : s.isRunning = false) (hroom : s.queue.data.items.length + k ≤ cap + taking s) :
    ∃ s', Leads s s' ∧ s'.owner = .stopped := by
  induction k generalizing s i with
  | zero =>
      refine ⟨s, .refl s, ho.trans ?_⟩
      exact if_neg (by omega)
  | succ k ih =>
      have hi : i < n := by omega
      obtain ⟨s₁, hleads₁, ho₁, hflag₁, hfull₁, hroom₁⟩ :=
        exists_room hreach hflag (by omega) (by omega)
      have hreach₁ := hleads₁.reachable hreach
      have hput : s₁.owner = .stopPut i := by
        rw [ho₁, ho]
        exact if_pos hi
      obtain ⟨s₂, hleads₂, ho₂, hflag₂, hroom₂⟩ := exists_join hreach₁ hi hput hflag₁ hfull₁
      obtain ⟨s', hleads', ho'⟩ := ih (by omega) (hleads₂.reachable hreach₁) ho₂ hflag₂ (by omega)
      exact ⟨s', (hleads₁.trans hleads₂).trans hleads', ho'⟩

/-! ### Every accepted task runs exactly once -/

/-- The calls of `Stop` in `s` that cannot return: the ring and the
workers in `take` have no room for `maxThreads` null tasks. It is a
count, so it holds whoever is scheduled. -/
def StopBlocks (s : State n C Task cap) : Prop :=
  cap + taking s < s.queue.data.items.length + n ∨ cap = 0 ∧ 0 < n

/-- No task is left behind by a call of `Stop` in `s`: no call of
`PutTask` is under way, and behind one item for each worker in `take`
the queue has only null tasks, or `Stop` cannot return. It is a
condition on the state in which `Stop` is called. -/
def Drains (s : State n C Task cap) : Prop :=
  (pending s = 0 ∧ tasks (s.queue.data.items.drop (taking s)) = 0) ∨ StopBlocks s

/-- The run `es₀`, the call of `Stop` and the run `es` end in `s`.
Each task that `es₀` hands to `PutTask` is executed, as often as it
was handed over, and nothing is executed that was not handed over: no
task twice, and no null task. -/
def RunsOnce (es₀ es : List (Event n C Task)) (s : State n C Task cap) : Prop :=
  handedBy es₀ ≤ s.executed ∧ s.executed ≤ handedBy (es₀ ++ es)

/-- What a run from the start hands to `PutTask` has been put or is on
its way. -/
theorem handed_eq {es : List (Event n C Task)}
    (hrun : (system n C Task cap).run initial es = some s) :
    handedBy es = accepted s + pending s := by
  have h := handed_run inv_initial hrun
  have hpending : pending (initial : State n C Task cap) = 0 :=
    Finset.sum_eq_zero fun c _ => rfl
  rw [hpending, add_zero] at h
  exact (h.trans (zero_add _)).symm

/-- Only tasks that were handed over are executed, and no task more
often than that. -/
theorem executed_le_handed {es : List (Event n C Task)}
    (hrun : (system n C Task cap).run initial es = some s) :
    (s.executed : Multiset Task) ≤ handedBy es := by
  have hreach : (system n C Task cap).Reachable s := (System.Reachable.init rfl).run hrun
  calc (s.executed : Multiset Task)
      ≤ s.executed + held s := Multiset.le_add_right _ _
    _ ≤ accepted s := executed_le_accepted hreach
    _ ≤ accepted s + pending s := Multiset.le_add_right _ _
    _ = handedBy es := (handed_eq hrun).symm

/-- Where the null tasks of `Stop` have no room, `Stop` does not
return. -/
theorem not_stopped_of_stopBlocks (hblocks : StopBlocks s₀) (hst : Stopping s₀ s)
    (hreach₀ : (system n C Task cap).Reachable s₀)
    (hreach : (system n C Task cap).Reachable s) : s.owner ≠ .stopped := by
  intro ho
  obtain ⟨new, hnew, hcount, -, hlength⟩ := executed_of_stopped hst hreach ho
  rcases hblocks with hroom | ⟨rfl, hn⟩
  · have hfifo₀ := fifo hreach₀
    have hle := s.queue.data.size_le
    rw [hnew, ← hfifo₀, List.length_append, List.length_append] at hlength
    omega
  · -- Without slots, not even the first null task was put.
    have hnil := BoundedBlockingQueue.puts_of_sequential_zero
      (Monitor.Reachable.sequential (queueSimulation.reachable hreach))
    rw [hnew, List.append_eq_nil_iff] at hnil
    rw [hnil.2, List.length_nil] at hcount
    omega

/-- When `Stop` returns, the pool has executed what it had taken
before the call of `Stop`, and one more item for each worker that was
in `take`. -/
theorem executed_eq_of_stopped (hst : Stopping s₀ s)
    (hreach₀ : (system n C Task cap).Reachable s₀)
    (hreach : (system n C Task cap).Reachable s) (ho : s.owner = .stopped) :
    ∃ new, puts s.queue.hist = puts s₀.queue.hist ++ new ∧
      (s.executed : Multiset Task) = tasks (takes s₀.queue.hist) +
        tasks (s₀.queue.data.items.take (taking s₀)) +
        tasks (new.take (taking s₀ - s₀.queue.data.items.length)) := by
  obtain ⟨new, hnew, -, hexecuted, -⟩ := executed_of_stopped hst hreach ho
  have hfifo₀ := fifo hreach₀
  refine ⟨new, hnew, ?_⟩
  rw [hexecuted, hnew, ← hfifo₀, List.append_assoc, List.take_length_add_append, List.take_append,
    tasks_append, tasks_append, add_assoc]

/-- The tasks handed over before the call of `Stop`: those taken by
then, those that the workers in `take` will take, those behind them,
and those on their way. The last two are the ones that `Drains` asks
about. -/
theorem handed_split {es : List (Event n C Task)}
    (hrun : (system n C Task cap).run initial es = some s) :
    handedBy es = tasks (takes s.queue.hist) + tasks (s.queue.data.items.take (taking s)) +
      (tasks (s.queue.data.items.drop (taking s)) + pending s) := by
  have hreach : (system n C Task cap).Reachable s := (System.Reachable.init rfl).run hrun
  have hfifo := fifo hreach
  have haccepted : accepted s = tasks (takes s.queue.hist) +
      (tasks (s.queue.data.items.take (taking s)) +
        tasks (s.queue.data.items.drop (taking s))) := by
    rw [← tasks_append, List.take_append_drop, ← tasks_append, hfifo]
    rfl
  rw [handed_eq hrun, haccepted, add_assoc, add_assoc, add_assoc]

/-- Where `Drains` holds at the call of `Stop`, no task is left
behind. -/
theorem runsOnce_of_drains {es₀ es : List (Event n C Task)}
    (hrun : (system n C Task cap).run initial es₀ = some s) (hdrains : Drains s)
    (hstop : (system n C Task cap).step s .stop = some s₀)
    (hrun' : (system n C Task cap).run s₀ es = some s') (ho : s'.owner = .stopped) :
    RunsOnce es₀ es s' := by
  have hreach₀ := ((System.Reachable.init rfl).run hrun).step hstop
  have hreach' := hreach₀.run hrun'
  have hst' := (Stopping.init (step_cases hstop)).run (reachable_inv hreach₀) hrun'
  have hhanded := handed_split hrun
  obtain ⟨new, -, hexecuted⟩ := executed_eq_of_stopped hst' hreach₀ hreach' ho
  constructor
  · rw [hexecuted]
    cases step_cases hstop with
    | stop hs =>
        rcases hdrains with ⟨hpending, hbehind⟩ | hblocks
        · rw [hpending, hbehind, add_zero, add_zero] at hhanded
          rw [hhanded]
          exact Multiset.le_add_right _ _
        · exact absurd ho (not_stopped_of_stopBlocks (by exact hblocks) hst' hreach₀ hreach')
  · have hall : (system n C Task cap).run initial (es₀ ++ .stop :: es) = some s' :=
      (System.run_append hrun).trans ((System.run_cons hstop).trans hrun')
    have hle := executed_le_handed hall
    -- The call of `Stop` hands nothing over.
    rw [handedBy_append, show handedBy (.stop :: es) = handedBy es from
      (tasks_cons _ _).trans (zero_add _)] at hle
    rw [handedBy_append]
    exact hle

/-- Where `Drains` fails at the call of `Stop`, some run leaves a task
behind: that in which no caller takes another step. -/
theorem drains_of_runsOnce {es₀ : List (Event n C Task)}
    (hrun : (system n C Task cap).run initial es₀ = some s)
    (hstop : (system n C Task cap).step s .stop = some s₀)
    (honce : ∀ es s', (system n C Task cap).run s₀ es = some s' → s'.owner = .stopped →
      RunsOnce es₀ es s') : Drains s := by
  by_cases hblocks : StopBlocks s
  · exact .inr hblocks
  · left
    have hreach₀ := ((System.Reachable.init rfl).run hrun).step hstop
    have hhanded := handed_split hrun
    cases step_cases hstop with
    | stop hs =>
        have hroom : s.queue.data.items.length + n ≤ cap + taking s :=
          Nat.le_of_not_lt fun h => hblocks (.inl h)
        have hcap : cap = 0 → n = 0 := fun h =>
          Nat.eq_zero_of_not_pos fun hn => hblocks (.inr ⟨h, hn⟩)
        obtain ⟨s', hleads, ho⟩ := exists_return hcap (Nat.zero_add n) hreach₀ rfl rfl hroom
        obtain ⟨es, -, hrun'⟩ := id hleads
        have hst' := (Stopping.init (step_cases hstop)).run (reachable_inv hreach₀) hrun'
        obtain ⟨new, hnew, hexecuted⟩ :=
          executed_eq_of_stopped hst' hreach₀ (hreach₀.run hrun') ho
        -- Only null tasks were put after the call of `Stop`.
        have hnull : tasks new = 0 := by
          have heq := hleads.accepted_eq (reachable_inv hreach₀)
          show tasks new = 0
          change tasks (puts s'.queue.hist) = _ at heq
          rw [hnew, tasks_append] at heq
          exact add_left_cancel (heq.trans (add_zero _).symm)
        have hnone : ∀ k, tasks (new.take k) = 0 := by
          intro k
          rw [← List.take_append_drop k new, tasks_append] at hnull
          exact ((add_eq_zero_iff_of_nonneg (Multiset.zero_le _) (Multiset.zero_le _)).mp hnull).1
        have hle := (honce es s' hrun' ho).1
        rw [hexecuted, hnone, add_zero, hhanded] at hle
        have hzero := Multiset.le_zero.mp ((add_le_iff_nonpos_right _).mp hle)
        exact ((add_eq_zero_iff_of_nonneg (Multiset.zero_le _) (Multiset.zero_le _)).mp hzero).symm

/-- Whatever the threads do, `Stop` leaves no task behind when it
returns, exactly when `Drains` holds where it is called. One direction
is a bound on what the workers still take, and the other a run in
which they take no more than that. -/
theorem runsOnce_iff {es₀ : List (Event n C Task)}
    (hrun : (system n C Task cap).run initial es₀ = some s)
    (hstop : (system n C Task cap).step s .stop = some s₀) :
    (∀ es s', (system n C Task cap).run s₀ es = some s' → s'.owner = .stopped →
      RunsOnce es₀ es s') ↔ Drains s :=
  ⟨drains_of_runsOnce hrun hstop, fun hdrains _ _ => runsOnce_of_drains hrun hdrains hstop⟩

/-- Two workers at the head of their loop, and one task in the
queue. -/
def oneTask : List (Event 2 Unit Nat) :=
  [.start, .spawn, .spawn, .spawn, .putTask () (some 7), .callerSection () none]

/-- Both workers see the cleared flag, and `Stop` puts its null tasks
and returns. -/
def leaveAtOnce : List (Event 2 Unit Nat) :=
  [.test worker₀, .test worker₁, .stopPut, .stopSection none, .join, .stopPut, .stopSection none,
   .join]

/-- After `oneTask`, `Stop` can return without running the task. -/
theorem droppedTask :
    ∃ s s₀ s', (system 2 Unit Nat 20).run initial oneTask = some s ∧
      (system 2 Unit Nat 20).step s .stop = some s₀ ∧
      (system 2 Unit Nat 20).run s₀ leaveAtOnce = some s' ∧ s'.owner = .stopped ∧
      ¬ RunsOnce oneTask leaveAtOnce s' := by
  refine ⟨_, _, _, rfl, rfl, rfl, rfl, ?_⟩
  intro h
  have hle : ({7} : Multiset Nat) ≤ 0 := h.1
  exact Multiset.singleton_ne_zero 7 (Multiset.le_zero.mp hle)

/-- `runsOnce_iff` at the call of `Stop` after `oneTask`. -/
theorem runsOnce_oneTask :
    ∃ s s₀, (system 2 Unit Nat 20).run initial oneTask = some s ∧
      (system 2 Unit Nat 20).step s .stop = some s₀ ∧
      ((∀ es s', (system 2 Unit Nat 20).run s₀ es = some s' → s'.owner = .stopped →
        RunsOnce oneTask es s') ↔ Drains s) :=
  ⟨_, _, rfl, rfl, runsOnce_iff rfl rfl⟩

end Bigpipe.ThreadPool
