import Bigpipe.Proofs.Takers
import Bigpipe.Proofs.ThreadPoolReturns

/-!
# `Bigpipe.Proofs.ThreadPoolProgress`: a pool executes what it accepts

`put` notifies a worker only when it finds the queue empty, so a
worker may sleep beside a task for ever (`sleepingWorker`). The tasks
are executed all the same: one worker is always awake while the queue
has a task, and it takes one task after the other.

A lost wake-up therefore costs the pool a worker and not a task. The
invariant behind this is the one of `Bigpipe.Proofs.Takers`, with the
workers for takers. From it the liveness takes two steps: an awake
worker beside a task comes to its lock section (`serving_step`, with
the number of its steps up to there as a variant), and what a worker
holds it runs.

All of it speaks of an open pool, from `Start` to `Stop`. After `Stop`
the workers leave with tasks in the queue, see
`Bigpipe.Proofs.ThreadPoolDrain`.

* `Open`: `Start` has been called and `Stop` has not.
* `serving_step`: while one worker is awake beside a task, each of its
  steps brings the next `take` nearer.
* `owed_step`: what the workers hold they execute.
* `executesAll`: in a fair execution without `Stop`, every accepted
  task is executed.
-/

set_option autoImplicit false

namespace Bigpipe.ThreadPool

open Bigpipe.Lib
open Bigpipe.Lib.System (Execution)
open Bigpipe.BoundedBlockingQueue (queue puts takes take_section Attended)

variable {n : Nat} {C Task : Type} {cap : Nat}

/-! ### An open pool -/

/-- `Start` has been called and `Stop` has not: the flag is set and no
worker has left. -/
structure Open (s : State n C Task cap) : Prop where
  owner : s.owner = .started ∨ ∃ k, s.owner = .starting k
  flag : s.isRunning = true
  workers : ∀ i, s.worker i ≠ .left

variable {s s' : State n C Task cap}

/-- The owner of an open pool is not inside `Stop`. -/
theorem Open.owner_ne (h : Open s) {pc : OwnerPc} (ho : s.owner = pc)
    (hstarted : pc ≠ .started := by nofun) (hstarting : ∀ k, pc ≠ .starting k := by nofun) :
    False := by
  rcases h.owner with hs | ⟨k, hs⟩
  · exact hstarted (ho.symm.trans hs)
  · exact hstarting k (ho.symm.trans hs)

/-- No worker leaves where one moves inside its loop. -/
theorem Open.setWorker (h : Open s) {i : Fin n} {pc : WorkerPc Task} (hpc : pc ≠ .left)
    (j : Fin n) : (s.setWorker i pc).worker j ≠ .left := by
  rw [State.setWorker_worker]
  split
  · exact hpc
  · exact h.workers j

variable [DecidableEq C] [Fintype C] {e : Event n C Task}

/-- A pool stays open until `Stop`. -/
theorem Open.step (hopen : Open s) (h : Step s e s') (he : e ≠ .stop) : Open s' := by
  cases h with
  | start ho | stopPut ho | stopWait ho | stopPutDone ho | join ho =>
      exact (hopen.owner_ne ho).elim
  | spawn ho hi => exact ⟨.inr ⟨_, rfl⟩, hopen.flag, hopen.setWorker nofun⟩
  | started => exact ⟨.inl rfl, hopen.flag, hopen.workers⟩
  | stop => exact absurd rfl he
  | leave hw hr =>
      rw [hopen.flag] at hr
      cases hr
  | take | takeDone | runTask => exact ⟨hopen.owner, hopen.flag, hopen.setWorker nofun⟩
  | takeWait | putTask | callerSection | spurious =>
      exact ⟨hopen.owner, hopen.flag, hopen.workers⟩

/-- Before `Start` only `Start` moves the owner, and it opens the
pool. -/
theorem open_of_idle (hinv : Inv s) (hidle : s.owner = .idle) (h : Step s e s') :
    s'.owner = .idle ∨ Open s' := by
  cases h with
  | start =>
      refine .inr ⟨.inr ⟨0, rfl⟩, rfl, fun i hleft => ?_⟩
      have hunborn : s.worker i = .unborn := (hinv.born i).mpr (by rw [hidle]; exact id)
      cases hunborn.symm.trans hleft
  | spawn ho | started ho | stop ho | stopPut ho | stopWait ho | stopPutDone ho | join ho =>
      cases hidle.symm.trans ho
  | take | leave | takeWait | takeDone | runTask | putTask | callerSection | spurious =>
      exact .inl hidle

/-- One of the workers is awake where the queue has a task. It is the
invariant of the queue for its takers. -/
theorem attended (hn : 0 < n) (h : (system n C Task cap).Reachable s) :
    Attended (Set.range Tid.worker) s.queue := by
  refine h.induct (I := fun s => Attended (Set.range Tid.worker) s.queue) ?_
    fun s e s' hreach ih hs => ?_
  · rintro s rfl hne
    exact absurd rfl hne
  · rcases queue_step (step_cases hs) with ⟨hq, -⟩ | ⟨qe, -, hq⟩
    · rw [hq]
      exact ih
    · refine BoundedBlockingQueue.attended_step ⟨_, ⟨0, hn⟩, rfl⟩ (fun t ht => ?_) ih hq
      obtain ⟨i, rfl⟩ := (reachable_inv hreach).worker_of_take ht
      exact ⟨i, rfl⟩

/-! ### The next `take` -/

/-- The number of items that the workers have taken. -/
def taken (s : State n C Task cap) : Nat :=
  (takes s.queue.hist).length

omit [DecidableEq C] [Fintype C] in
theorem taken_of_hist (h : takes s'.queue.hist = takes s.queue.hist) : taken s' = taken s :=
  congrArg List.length h

/-- The workers take more and more. -/
theorem taken_step (hinv : Inv s) (h : Step s e s') : taken s ≤ taken s' := by
  cases worker_step hinv h with
  | stays _ htakes | moves _ _ _ htakes | runs _ _ htakes => exact (taken_of_hist htakes).ge
  | takes _ _ htakes =>
      show _ ≤ (takes s'.queue.hist).length
      rw [htakes, List.length_append]
      exact Nat.le_add_right _ _

/-- Where no item is taken, the queue keeps what it has. -/
theorem items_ne_nil_step (hreach : (system n C Task cap).Reachable s)
    (hs : (system n C Task cap).step s e = some s') (hne : s.queue.data.items ≠ [])
    (htaken : taken s' = taken s) : s'.queue.data.items ≠ [] := by
  have hbefore := congrArg List.length (fifo hreach)
  have hafter := congrArg List.length (fifo (hreach.step hs))
  obtain ⟨new, hnew⟩ := puts_step (step_cases hs)
  rw [hnew, List.length_append, List.length_append] at hafter
  rw [List.length_append] at hbefore
  have hpos : 0 < s.queue.data.items.length := List.length_pos_of_ne_nil hne
  intro hnil
  rw [hnil, List.length_nil] at hafter
  unfold taken at htaken
  omega

/-- The number of steps of a worker before its next lock section in
`take`. -/
def WorkerPc.toTake : WorkerPc Task → Nat
  | .todo _ => 2
  | .loop => 1
  | .unborn | .taking | .left => 0

/-- All workers run, the queue has a task, `k` items have been taken,
and the worker `u` is awake. The state stays so until the next item is
taken, by `u` or by another worker. -/
structure Serving (u : Fin n) (k : Nat) (s : State n C Task cap) : Prop where
  isOpen : Open s
  started : s.owner = .started
  nonempty : s.queue.data.items ≠ []
  taken : taken s = k
  awake : s.queue.pos (.worker u) ≠ .asleep .take

omit [DecidableEq C] [Fintype C] in
/-- An awake worker has a step. -/
theorem Serving.able {u : Fin n} {k : Nat} (h : Serving u k s) (hinv : Inv s) :
    able s (.worker u) = true := by
  by_contra hnot
  have hborn : s.owner.hasSpawned u := by
    rw [h.started]
    trivial
  rcases hinv.worker_not_able hborn (Bool.eq_false_of_not_eq_true hnot) with hleft | hasleep
  · exact h.isOpen.workers u ((State.hasLeft_iff u.isLt).mp hleft)
  · exact h.awake hasleep

/-- After `Start` the owner does nothing but call `Stop`. -/
theorem started_step (ho : s.owner = .started) (h : Step s e s') (he : e ≠ .stop) :
    s'.owner = .started := by
  cases h with
  | start hs | spawn hs | started hs | stopPut hs | stopWait hs | stopPutDone hs | join hs =>
      cases ho.symm.trans hs
  | stop => exact absurd rfl he
  | take | leave | takeWait | takeDone | runTask | putTask | callerSection | spurious => exact ho

omit [DecidableEq C] [Fintype C] in
/-- A worker that comes nearer to its next lock section. The others
are as near as before. -/
theorem toTake_setWorker {u i : Fin n} {pc : WorkerPc Task}
    (hlt : pc.toTake < (s.worker i).toTake) :
    ((s.setWorker i pc).worker u).toTake ≤ (s.worker u).toTake ∧
      (some (Tid.worker i : Tid n C) = some (.worker u) →
        ((s.setWorker i pc).worker u).toTake < (s.worker u).toTake) := by
  rw [State.setWorker_worker]
  split
  · rename_i hui
    rw [hui]
    exact ⟨hlt.le, fun _ => hlt⟩
  · rename_i hui
    refine ⟨Nat.le_refl _, fun hactor => ?_⟩
    cases hactor
    exact absurd rfl hui

/-- The step lemma. While an awake worker is beside a task, an item is
taken or it stays so, and the steps of the worker bring it to its lock
section. The steps of the others do not send it away: only its own
section could put it to sleep, and that one finds an item. -/
theorem serving_step {u : Fin n} {k : Nat} (hreach : (system n C Task cap).Reachable s)
    (hserving : Serving u k s) (hs : (system n C Task cap).step s e = some s') (he : e ≠ .stop) :
    k < taken s' ∨ Serving u k s' ∧ (s'.worker u).toTake ≤ (s.worker u).toTake ∧
      (actor e = some (.worker u) → (s'.worker u).toTake < (s.worker u).toTake) := by
  have hinv := reachable_inv hreach
  have h := step_cases hs
  by_cases hk : k < taken s'
  · exact .inl hk
  right
  have htaken : taken s' = k := by
    have hle := taken_step hinv h
    rw [hserving.taken] at hle
    omega
  have hnonempty := items_ne_nil_step hreach hs hserving.nonempty
    (htaken.trans hserving.taken.symm)
  have hstays (hawake : s'.queue.pos (.worker u) ≠ .asleep .take) : Serving u k s' :=
    ⟨hserving.isOpen.step h he, started_step hserving.started h he, hnonempty, htaken, hawake⟩
  cases h with
  | start ho | spawn ho | started ho | stopPut ho | stopWait ho | stopPutDone ho | join ho =>
      cases hserving.started.symm.trans ho
  | stop => exact absurd rfl he
  | leave hw hr =>
      rw [hserving.isOpen.flag] at hr
      cases hr
  | @take i q hw hr hq =>
      refine ⟨hstays fun hasleep => hserving.awake (Monitor.call_asleep hq hasleep), ?_⟩
      exact toTake_setWorker (by rw [hw]; exact Nat.zero_lt_one)
  | @runTask i task hw =>
      exact ⟨hstays hserving.awake, toTake_setWorker (by rw [hw]; exact Nat.one_lt_two)⟩
  | @takeWait i q pick o hw hq hret =>
      -- Beside a task no `take` waits.
      cases take_section (hinv.worker_take hw) hq with
      | empty hempty => exact absurd hempty hserving.nonempty
      | silent | wakes => exact absurd rfl (hret _)
  | @takeDone i q pick todo hw hq =>
      -- The `take` that returns counts.
      refine absurd htaken ?_
      have hhist := Monitor.acquire_hist_returned (hinv.worker_take hw) hq
      have htakes : takes q.hist = takes s.queue.hist ++ [todo] := by
        rw [hhist, BoundedBlockingQueue.takes_snoc]
        rfl
      show (takes q.hist).length ≠ k
      rw [htakes, List.length_append, ← hserving.taken]
      exact Nat.succ_ne_self _
  | putTask hq =>
      exact ⟨hstays fun hasleep => hserving.awake (Monitor.call_asleep hq hasleep),
        Nat.le_refl _, nofun⟩
  | callerSection hq =>
      refine ⟨hstays fun hasleep => hserving.awake ?_, Nat.le_refl _, nofun⟩
      exact Monitor.acquire_asleep hq (u := .worker u) nofun hasleep
  | spurious hq =>
      exact ⟨hstays fun hasleep => hserving.awake (Monitor.spurious_asleep hq hasleep),
        Nat.le_refl _, nofun⟩

/-! ### What the workers hold -/

/-- What is executed, and what the workers in `us` hold. The set
shrinks by one worker in each round of the induction in
`owed_leadsTo_executed`. -/
def owed (us : Finset (Fin n)) (s : State n C Task cap) : Multiset Task :=
  s.executed + ∑ i ∈ us, tasks [(s.worker i).held]

omit [DecidableEq C] [Fintype C] in
/-- What some workers hold, where one worker that holds `task`
moves. -/
theorem sum_held_le (us : Finset (Fin n)) {i : Fin n} {pc : WorkerPc Task}
    (hworker : s'.worker = (s.setWorker i pc).worker) :
    ∑ j ∈ us, tasks [(s.worker j).held] ≤
      tasks [(s.worker i).held] + ∑ j ∈ us, tasks [(s'.worker j).held] := by
  have hothers : ∀ j, j ≠ i → s'.worker j = s.worker j := fun j hji => by
    rw [hworker, State.setWorker_worker, if_neg hji]
  by_cases hi : i ∈ us
  · rw [← Finset.add_sum_erase us (fun j => tasks [(s.worker j).held]) hi]
    refine add_le_add_right ?_ _
    calc ∑ j ∈ us.erase i, tasks [(s.worker j).held]
        = ∑ j ∈ us.erase i, tasks [(s'.worker j).held] :=
          Finset.sum_congr rfl fun j hj => by rw [hothers j (Finset.ne_of_mem_erase hj)]
      _ ≤ ∑ j ∈ us, tasks [(s'.worker j).held] :=
          Finset.sum_le_sum_of_subset (Finset.erase_subset i us)
  · have hsame : ∑ j ∈ us, tasks [(s.worker j).held] = ∑ j ∈ us, tasks [(s'.worker j).held] :=
      Finset.sum_congr rfl fun j hj => by rw [hothers j fun hji => hi (hji ▸ hj)]
    rw [hsame]
    exact Multiset.le_add_left _ _

/-- The step lemma: what is held stays held until it is executed. -/
theorem owed_step (hinv : Inv s) (h : Step s e s') (us : Finset (Fin n)) :
    owed us s ≤ owed us s' := by
  -- A worker that holds nothing before its move owes as much afterwards.
  have hfree : ∀ {i pc}, s'.worker = (s.setWorker i pc).worker → (s.worker i).held = none →
      s'.executed = s.executed → owed us s ≤ owed us s' := by
    intro i pc hworker hheld hexecuted
    have hle := sum_held_le us hworker
    rw [hheld, tasks_none, zero_add] at hle
    show _ ≤ (s'.executed : Multiset Task) + _
    rw [hexecuted]
    exact add_le_add_right hle _
  cases worker_step hinv h with
  | stays hworker _ hexecuted =>
      unfold owed
      rw [hworker, hexecuted]
  | moves hworker hbefore _ _ hexecuted =>
      refine hfree hworker ?_ hexecuted
      rcases hbefore with hb | hb <;> rw [hb] <;> rfl
  | takes hworker hbefore _ hexecuted =>
      exact hfree hworker (by rw [hbefore]; rfl) hexecuted
  | @runs i task hworker hbefore _ hexecuted =>
      have hle := sum_held_le us hworker
      rw [hbefore] at hle
      calc owed us s
          ≤ s.executed + (tasks [task] + ∑ j ∈ us, tasks [(s'.worker j).held]) :=
            add_le_add_right hle _
        _ = owed us s' := by
            rw [← add_assoc, ← coe_append_toList, ← hexecuted]
            rfl

/-- A worker that runs its task owes nothing afterwards, so the tasks
owed by it and the others are now executed or owed by the others. -/
theorem owed_runTask {us : Finset (Fin n)} {i : Fin n} (hi : i ∉ us) (h : Step s (.runTask i) s') :
    owed (insert i us) s ≤ owed us s' := by
  cases h with
  | @runTask _ task hw =>
      have hsum : ∑ j ∈ us, tasks [((s.setWorker i .loop).worker j).held] =
          ∑ j ∈ us, tasks [(s.worker j).held] := by
        refine Finset.sum_congr rfl fun j hj => ?_
        rw [State.setWorker_worker, if_neg]
        rintro rfl
        exact hi hj
      show (s.executed : Multiset Task) + _ ≤
        ((s.executed ++ task.toList : List Task) : Multiset Task) +
          ∑ j ∈ us, tasks [((s.setWorker i .loop).worker j).held]
      rw [Finset.sum_insert hi, hw, coe_append_toList, hsum, add_assoc]
      exact le_refl _

/-- A worker that holds a task takes no other step than to run it. -/
theorem runTask_of_actor {i : Fin n} {task : Option Task} (hw : s.worker i = .todo task)
    (h : Step s e s') (hactor : actor e = some (.worker i)) : e = .runTask i := by
  cases h with
  | take hw' | leave hw' | takeWait hw' | takeDone hw' =>
      cases hactor
      cases hw.symm.trans hw'
  | runTask =>
      cases hactor
      rfl
  | _ => cases hactor

/-! ### Executions -/

/-- The number of steps of the owner until `Start` returns. -/
def OwnerPc.toStart (n : Nat) : OwnerPc → Nat
  | .starting i => n + 1 - i
  | _ => 0

/-- Each step of the owner of an open pool brings the return of
`Start` nearer. -/
theorem toStart_step (hopen : Open s) (h : Step s e s') (he : e ≠ .stop) :
    s'.owner = .started ∨ s'.owner.toStart n ≤ s.owner.toStart n ∧
      (actor e = some .owner → s'.owner.toStart n < s.owner.toStart n) := by
  cases h with
  | start ho | stopPut ho | stopWait ho | stopPutDone ho | join ho =>
      exact (hopen.owner_ne ho).elim
  | stop => exact absurd rfl he
  | started => exact .inl rfl
  | @spawn i ho hi =>
      have hlt : (OwnerPc.starting (i + 1)).toStart n < (OwnerPc.starting i).toStart n := by
        show n + 1 - (i + 1) < n + 1 - i
        omega
      refine .inr ⟨?_, fun _ => ?_⟩
      · rw [ho]
        exact hlt.le
      · rw [ho]
        exact hlt
  | take | leave | takeWait | takeDone | runTask | putTask | callerSection | spurious =>
      exact .inr ⟨Nat.le_refl _, nofun⟩

section

variable {x : Execution (system n C Task cap)}

/-- Without `Stop` the pool is open from `Start` on. -/
theorem open_of_start (hstop : ∀ i, x.event i ≠ some .stop) {i : Nat}
    (hstart : (x.state i).owner ≠ .idle) : Open (x.state i) := by
  have halways : (x.state i).owner = .idle ∨ Open (x.state i) := by
    refine Execution.always_from (x := x) (P := fun s => s.owner = .idle ∨ Open s) ?_
      (fun j e _ he hP => ?_) (Nat.zero_le i)
    · exact .inl (by rw [show x.state 0 = initial from x.init]; rfl)
    · have hstep := step_cases (x.steps j e he)
      rcases hP with hidle | hopen
      · exact open_of_idle (reachable_inv (x.reachable j)) hidle hstep
      · exact .inr (hopen.step hstep fun heq => hstop j (heq ▸ he))
  exact halways.resolve_left hstart

/-- `Start` returns. Its loop has a round for each worker, and no
round waits for anybody. -/
theorem open_leadsTo_started (hstop : ∀ i, x.event i ≠ some .stop)
    (hfair : x.WeaklyFair fun e => actor e = some .owner) :
    x.LeadsTo Open fun s => Open s ∧ s.owner = .started := by
  have hloop : x.LeadsTo (fun s => Open s ∧ s.owner ≠ .started)
      fun s => Open s ∧ s.owner = .started := by
    refine hfair.leadsTo_of_rank (fun s => s.owner.toStart n) ?_ ?_
    · intro i e he ⟨hopen, _⟩
      have hne : e ≠ .stop := fun heq => hstop i (heq ▸ he)
      have hstep := step_cases (x.steps i e he)
      have hopen' := hopen.step hstep hne
      by_cases ho : (x.state (i + 1)).owner = .started
      · exact .inl ⟨hopen', ho⟩
      · exact .inr ⟨⟨hopen', ho⟩, (toStart_step hopen hstep hne).resolve_left ho⟩
    · intro i ⟨hopen, hne⟩
      obtain ⟨k, ho⟩ := hopen.owner.resolve_left hne
      exact enabled_of_able (x.reachable i) (t := .owner) (by simp only [able, ho])
  intro i hopen
  by_cases ho : (x.state i).owner = .started
  · exact ⟨i, Nat.le_refl i, hopen, ho⟩
  · exact hloop i ⟨hopen, ho⟩

/-- A worker that is awake beside a task takes one, or another worker
does. -/
theorem serving_leadsTo_taken (hstop : ∀ i, x.event i ≠ some .stop) {u : Fin n}
    (hfair : x.WeaklyFair fun e => actor e = some (.worker u)) (k : Nat) :
    x.LeadsTo (Serving u k) fun s => k < taken s := by
  refine hfair.leadsTo_of_rank (fun s => (s.worker u).toTake) ?_ ?_
  · intro i e he hserving
    exact serving_step (x.reachable i) hserving (x.steps i e he) fun heq => hstop i (heq ▸ he)
  · intro i hserving
    exact enabled_of_able (x.reachable i) (hserving.able (reachable_inv (x.reachable i)))

/-- From the return of `Start` on, the workers take every item that is
put. The induction is on the number of items that are still to be
taken, and each round finds one worker awake. -/
theorem started_leadsTo_taken (hn : 0 < n) (hstop : ∀ i, x.event i ≠ some .stop)
    (hfair : ∀ u, x.WeaklyFair fun e => actor e = some (.worker u)) (m : Nat) :
    x.LeadsTo (fun s => (Open s ∧ s.owner = .started) ∧ m ≤ (puts s.queue.hist).length)
      fun s => m ≤ taken s := by
  have hstays : ∀ {i j}, i ≤ j →
      (Open (x.state i) ∧ (x.state i).owner = .started) ∧
        m ≤ (puts (x.state i).queue.hist).length →
      (Open (x.state j) ∧ (x.state j).owner = .started) ∧
        m ≤ (puts (x.state j).queue.hist).length := by
    intro i j hij h
    refine Execution.always_from (x := x)
      (P := fun s => (Open s ∧ s.owner = .started) ∧ m ≤ (puts s.queue.hist).length) h
      (fun l e _ he hP => ?_) hij
    have hne : e ≠ .stop := fun heq => hstop l (heq ▸ he)
    have hstep := step_cases (x.steps l e he)
    obtain ⟨new, hnew⟩ := puts_step hstep
    refine ⟨⟨hP.1.1.step hstep hne, started_step hP.1.2 hstep hne⟩, ?_⟩
    rw [hnew, List.length_append]
    exact Nat.le_add_right_of_le hP.2
  refine Execution.leadsTo_of_rank (fun s => m - taken s) fun k => ?_
  intro i ⟨hP, hk⟩
  by_cases hm : m ≤ taken (x.state i)
  · exact ⟨i, Nat.le_refl i, .inl hm⟩
  -- An item is left in the queue, and one of the workers is awake beside it.
  have hne : (x.state i).queue.data.items ≠ [] := by
    intro hnil
    have hfifo := congrArg List.length (fifo (x.reachable i))
    rw [hnil, List.append_nil] at hfifo
    exact hm (hP.2.trans_eq hfifo.symm)
  obtain ⟨_, ⟨u, rfl⟩, hawake⟩ := attended hn (x.reachable i) hne
  obtain ⟨j, hij, hlt⟩ := serving_leadsTo_taken hstop (hfair u) _ i
    ⟨hP.1.1, hP.1.2, hne, rfl, hawake⟩
  refine ⟨j, hij, .inr ⟨hstays hij hP, ?_⟩⟩
  omega

/-- What is executed or held is executed in the end. The induction is
on the workers: the task of one of them is run by a step of that
worker, and meanwhile the others keep or run theirs. -/
theorem owed_leadsTo_executed (hfair : ∀ u, x.WeaklyFair fun e => actor e = some (.worker u))
    (m : Multiset Task) (us : Finset (Fin n)) :
    x.LeadsTo (fun s => m ≤ owed us s) fun s => m ≤ s.executed := by
  induction us using Finset.induction_on with
  | empty =>
      refine Execution.LeadsTo.of_imp fun i h => ?_
      rwa [owed, Finset.sum_empty, add_zero] at h
  | insert w us hw ih =>
      intro i h
      cases hpc : (x.state i).worker w with
      | todo task =>
          -- The worker runs its task, and while it does not, nothing is lost.
          have hruns : x.LeadsTo (fun s => s.worker w = .todo task ∧ m ≤ owed (insert w us) s)
              fun s => m ≤ owed us s := by
            refine (hfair w).leadsTo ?_ ?_ ?_
            · intro j e he ⟨hj, hm⟩
              have hinv := reachable_inv (x.reachable j)
              have hstep := step_cases (x.steps j e he)
              by_cases heq : e = .runTask w
              · subst heq
                exact .inr (hm.trans (owed_runTask hw hstep))
              · exact .inl ⟨(worker_stays hinv hstep (.inr ⟨task, hj⟩) heq).trans hj,
                  hm.trans (owed_step hinv hstep _)⟩
            · intro j e he hactor ⟨hj, hm⟩
              have hstep := step_cases (x.steps j e he)
              obtain rfl := runTask_of_actor hj hstep hactor
              exact hm.trans (owed_runTask hw hstep)
            · intro j ⟨hj, _⟩
              exact enabled_of_able (x.reachable j) (by simp only [able, hj])
          exact (hruns.trans ih) i ⟨hpc, h⟩
      | _ =>
          refine ih i ?_
          rwa [owed, Finset.sum_insert hw, hpc, WorkerPc.held, tasks_none, zero_add] at h

/-- What has been put is executed. What is in front of it in the queue
is taken first, and each taken task is run. -/
theorem accepted_leadsTo_executed (hn : 0 < n) (hstop : ∀ i, x.event i ≠ some .stop)
    (hfair : ∀ t, x.WeaklyFair fun e => actor e = some t) (m : Multiset Task) :
    x.LeadsTo (fun s => s.owner ≠ .idle ∧ m ≤ accepted s) fun s => m ≤ s.executed := by
  intro i ⟨hstart, hm⟩
  obtain ⟨j₁, h₁, hstarted⟩ :=
    open_leadsTo_started hstop (hfair .owner) i (open_of_start hstop hstart)
  have hgrows : ∀ {j}, i ≤ j → puts (x.state i).queue.hist <+: puts (x.state j).queue.hist := by
    intro j hij
    refine Execution.always_from (x := x)
      (P := fun s => puts (x.state i).queue.hist <+: puts s.queue.hist) List.prefix_rfl
      (fun l e _ he hP => ?_) hij
    obtain ⟨new, hnew⟩ := puts_step (step_cases (x.steps l e he))
    rw [hnew]
    exact hP.trans (List.prefix_append _ _)
  obtain ⟨j₂, h₂, htaken⟩ := started_leadsTo_taken hn hstop (fun u => hfair (.worker u)) _ j₁
    ⟨hstarted, (hgrows h₁).length_le⟩
  -- What was put has been taken, so it is executed or held.
  have htakes : puts (x.state i).queue.hist <+: takes (x.state j₂).queue.hist :=
    List.prefix_of_prefix_length_le (hgrows (h₁.trans h₂))
      (fifo (x.reachable j₂) ▸ List.prefix_append _ _) htaken
  have howed : accepted (x.state i) ≤ owed Finset.univ (x.state j₂) := by
    obtain ⟨rest, hrest⟩ := htakes
    calc accepted (x.state i) ≤ tasks (puts (x.state i).queue.hist) + tasks rest :=
          Multiset.le_add_right _ _
      _ = tasks (takes (x.state j₂).queue.hist) := by rw [← tasks_append, hrest]
      _ = owed Finset.univ (x.state j₂) := (executed_eq_takes (x.reachable j₂)).symm
  obtain ⟨j₃, h₃, hexecuted⟩ :=
    owed_leadsTo_executed (fun u => hfair (.worker u)) _ Finset.univ j₂ howed
  exact ⟨j₃, h₁.trans (h₂.trans h₃), hm.trans hexecuted⟩

end

end Bigpipe.ThreadPool
