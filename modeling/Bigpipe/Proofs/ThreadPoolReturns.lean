import Bigpipe.Lib.Fairness
import Bigpipe.Lib.Settling
import Bigpipe.Proofs.ThreadPoolDrain
import Bigpipe.Proofs.ThreadPoolStop

/-!
# `Bigpipe.Proofs.ThreadPoolReturns`: `ThreadPool::Stop` returns or waits for good

After the call of `Stop` each worker takes at most one more item, and
`Stop` puts one null task for each thread. So without new calls the
threads of the pool take finitely many steps, and where they come to
rest `Stop` has returned or is wedged.

The measure is a sum of weights: of the threads in the queue, of the
workers outside it, and of what `Stop` has still to do. A thread that
falls asleep weighs less than one at the mutex, so a notification adds
to the sum; the completed section that notifies gives back more than
that. A new call of `PutTask` or a spurious wake-up would raise the
sum, which is why the executions here have none from some point on.

No condition on the schedule separates the two ends. Which of them an
execution comes to is the subject of `Bigpipe.Proofs.ThreadPoolStop`.

* `rank_step`: each step of a thread lowers `rank`.
* `stopReturns`: every fair execution ends in one of the two.
-/

set_option autoImplicit false

namespace Bigpipe.ThreadPool

open Bigpipe.Lib
open Bigpipe.Lib.System (Execution)
open Bigpipe.BoundedBlockingQueue (queue)

variable {n : Nat} {C Task : Type} {cap : Nat}

/-! ### The rank -/

/-- The steps that a worker has left outside the queue. -/
def WorkerPc.weight : WorkerPc Task → Nat
  | .todo _ => 2
  | .loop => 1
  | .unborn | .taking | .left => 0

/-- The steps that `Stop` has left outside the queue. Its call of
`put` weighs more than what the call adds to the weight of the
queue. -/
def OwnerPc.weight (n : Nat) : OwnerPc → Nat
  | .stopPut i => 7 * (n - i)
  | .stopPutting i => 7 * (n - i) - 5
  | .stopJoin i => 7 * (n - i) - 6
  | .idle | .starting _ | .started | .stopped => 0

theorem weight_stopNext (i : Nat) : (stopNext n i).weight n = 7 * (n - i) := by
  unfold stopNext
  split
  · rfl
  · show 0 = 7 * (n - i)
    omega

variable [DecidableEq C] [Fintype C]

/-- The steps that the threads have left, after the call of `Stop`. It
is an upper bound, as a thread may come to rest before it has used
them up. -/
def rank (s : State n C Task cap) : Nat :=
  Monitor.weight s.queue + ∑ i, (s.worker i).weight + s.owner.weight n

variable {s s' : State n C Task cap} {e : Event n C Task}

/-- Where `Stop` has been called, it has been called in some state.
The run that leads here is cut at its last step that is not in
`Stop`. -/
theorem exists_stopping (h : (system n C Task cap).Reachable s)
    (hstop : s.owner.hasStopped = true) : ∃ s₀, Stopping s₀ s := by
  revert hstop
  refine h.induct (I := fun s => s.owner.hasStopped = true → ∃ s₀, Stopping s₀ s) ?_
    fun s e s' hreach ih hs hstop => ?_
  · rintro s rfl hstop
    cases hstop
  · have hstep := step_cases hs
    by_cases hstart : e = .start
    · subst hstart
      cases hstep with
      | start => cases hstop
    by_cases he : e = .stop
    · subst he
      exact ⟨s', .init hstep⟩
    obtain ⟨-, howner⟩ := running_step hstep hstart he
    obtain ⟨s₀, hst⟩ := ih (howner.symm.trans hstop)
    exact ⟨s₀, hst.step (reachable_inv hreach) hstep⟩

omit [DecidableEq C] [Fintype C] in
/-- The weight of the workers after one of them has moved. -/
theorem weight_setWorker (s : State n C Task cap) (i : Fin n) (pc : WorkerPc Task) :
    ∑ j, ((s.setWorker i pc).worker j).weight + (s.worker i).weight =
      ∑ j, (s.worker j).weight + pc.weight :=
  sum_setWorker WorkerPc.weight s i pc

/-- The step lemma: after the call of `Stop`, every step of a thread
lowers the rank. A worker at the head of its loop leaves, since the
flag is cleared, so no step of a worker leads back into `take`. -/
theorem rank_step (hinv : Inv s) (hstop : s.owner.hasStopped = true) (hflag : s.isRunning = false)
    (hab : s'.queue.aborted = false) (h : Step s e s') (he : actor e ≠ none) :
    rank s' < rank s := by
  cases h with
  -- No thread's own steps: they come from outside.
  | start | stop | putTask | spurious => exact absurd rfl he
  -- The owner is in `Stop`.
  | spawn ho | started ho =>
      rw [ho] at hstop
      cases hstop
  -- And has cleared the flag, so no worker begins another `take`.
  | take hw hr =>
      rw [hflag] at hr
      cases hr
  -- A round of `Stop` weighs 7: its `put` costs the queue 4 and the owner
  -- gives up 5.
  | @stopPut i q ho hq =>
      have hi := hinv.index i (by rw [ho]; rfl)
      have hqueue := Monitor.weight_call hq
      rw [rank, rank, ho]
      show Monitor.weight q + ∑ j, (s.worker j).weight + (7 * (n - i) - 5) < _ + 7 * (n - i)
      omega
  | @stopPutDone i q pick r ho hq =>
      have hi := hinv.index i (by rw [ho]; rfl)
      have hqueue := Monitor.weight_acquire_returned hq
      rw [rank, rank, ho]
      show Monitor.weight q + ∑ j, (s.worker j).weight + (7 * (n - i) - 6) < _ + (7 * (n - i) - 5)
      omega
  | @join i ho hi hw =>
      rw [rank, rank, ho, weight_stopNext]
      show _ < _ + (7 * (n - i) - 6)
      exact Nat.add_lt_add_left (by omega) _
  -- Inside the monitor only the queue's own weight moves.
  | stopWait _ hq | takeWait _ hq | callerSection hq =>
      have hqueue := Monitor.weight_acquire hq hab
      exact Nat.add_lt_add_right (Nat.add_lt_add_right hqueue _) _
  -- The worker is further from its end by 2, and the queue is lighter by 3.
  | @takeDone i q pick todo hw hq =>
      have hworker := weight_setWorker s i (.todo todo)
      have hqueue := Monitor.weight_acquire_returned hq
      rw [hw] at hworker
      change _ + 0 = _ + 2 at hworker
      refine Nat.add_lt_add_right ?_ _
      show Monitor.weight q + ∑ j, ((s.setWorker i (.todo todo)).worker j).weight < _
      omega
  | @leave i hw hr =>
      have hworker := weight_setWorker s i .left
      rw [hw] at hworker
      change _ + 1 = _ + 0 at hworker
      refine Nat.add_lt_add_right (Nat.add_lt_add_left ?_ _) _
      omega
  | @runTask i task hw =>
      have hworker := weight_setWorker s i .loop
      rw [hw] at hworker
      change _ + 2 = _ + 1 at hworker
      refine Nat.add_lt_add_right (Nat.add_lt_add_left ?_ _) _
      show ∑ j, ((s.setWorker i .loop).worker j).weight < _
      omega

/-! ### Executions -/

/-- A thread that is able to take a step is enabled. -/
theorem enabled_of_able (h : (system n C Task cap).Reachable s) {t : Tid n C}
    (ht : able s t = true) : (system n C Task cap).Enabled (fun e => actor e = some t) s :=
  step_of_able (reachable_inv h)
    (BoundedBlockingQueue.not_aborted (queueSimulation.reachable h)) ht

omit [DecidableEq C] [Fintype C] in
/-- `Stop` has been called: it has returned, or it is under way. -/
theorem hasStopped_iff (s : State n C Task cap) :
    s.owner.hasStopped = true ↔ s.owner = .stopped ∨ InStop s := by
  unfold InStop
  cases s.owner <;> simp [OwnerPc.hasStopped, OwnerPc.stopIndex]

/-- Once `Stop` has been called, the threads come to rest: the state
stays and none of them can take a step in it. A rank that falls with
every step cannot fall for ever, and a thread that could still take a
step would take it by fairness. -/
theorem rest_of_hasStopped {x : Execution (system n C Task cap)}
    (hfair : ∀ t, x.WeaklyFair fun e => actor e = some t) {i m : Nat}
    (hstop : (x.state i).owner.hasStopped = true)
    (hown : ∀ j e, m ≤ j → x.event j = some e → actor e ≠ none) :
    ∃ j, i ≤ j ∧ (∀ k, j ≤ k → x.state k = x.state j) ∧ (∀ t, able (x.state j) t = false) ∧
      ((x.state j).owner = .stopped ∨ Wedged (x.state j)) := by
  have hstopped : ∀ {j}, i ≤ j → (x.state j).owner.hasStopped = true := by
    intro j hij
    refine Execution.always_from (x := x) (P := fun s => s.owner.hasStopped = true) hstop
      (fun l e _ he hP => ?_) hij
    exact (stop_step (reachable_inv (x.reachable l)) hP (step_cases (x.steps l e he))).1
  have hrank : ∀ j e, max i m ≤ j → x.event j = some e →
      rank (x.state (j + 1)) < rank (x.state j) := by
    intro j e hj he
    have hreach := x.reachable j
    have hhas := hstopped ((Nat.le_max_left i m).trans hj)
    obtain ⟨s₀, hst⟩ := exists_stopping hreach hhas
    exact rank_step (reachable_inv hreach) hhas hst.flag
      (BoundedBlockingQueue.not_aborted (queueSimulation.reachable (x.reachable (j + 1))))
      (step_cases (x.steps j e he)) (hown j e ((Nat.le_max_right i m).trans hj) he)
  obtain ⟨j, hj, hquiet⟩ := Execution.quiet_of_rank rank hrank
  have hij := (Nat.le_max_left i m).trans hj
  -- None of them can take a step there.
  have hnone : ∀ t, able (x.state j) t = false := by
    intro t
    by_contra hable
    exact (hfair t).not_enabled hquiet
      (enabled_of_able (x.reachable j) (Bool.eq_true_of_not_eq_false hable))
  exact ⟨j, hij, fun k hjk => Execution.state_of_quiet hquiet hjk, hnone,
    ((hasStopped_iff _).mp (hstopped hij)).imp_right fun hin => ⟨hin, hnone⟩⟩

end Bigpipe.ThreadPool
