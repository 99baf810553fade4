import Bigpipe.Proofs.ConsumeLoop
import Bigpipe.Proofs.ThreadPoolCallers

/-!
# `Bigpipe.Proofs.Calls`: every queued message is called

`ConsumeLoop` is the only caller of the thread pool of the client, so
the pool executes every task that it hands over
(`ThreadPool.executesHanded`). A task is executed once its `Call` has
returned.

The result on the pool asks for an execution of the pool that is fair
to its threads. `pool` makes one out of an execution of the consumer,
by leaving out the steps that the pool does not see. It is fair only
under a condition: a worker of the pool that has taken a task is
expected to run it, and in the consumer it runs it by a `Call`, with
any number of steps. So fairness to the workers of the pool needs that
every `Call` returns, which is a hypothesis here and the subject of
`Bigpipe.Proofs.Answers`.

No message is called twice, and this needs no fairness. Each number is
handed over once, so it is held by one worker and not yet executed,
and that worker calls it once in its turn.

* `Offered`: the numbers that `AsyncCall` was called with are those
  that the pool was handed, each once.
* `pool`: the execution of the pool that an execution of the consumer
  runs through.
* `worker_fair` / `caller_fair` / `owner_fair`: it is fair where the
  threads of the consumer are and every `Call` returns.
* `callsAt_unique`: the `Call` of a message begins at one point of an
  execution at most.
* `callsAll`: without `Stop`, every message that `AsyncCall` was
  called with is called, and its `Call` returns, or the process ends.
  No message is called twice.
-/

set_option autoImplicit false

namespace Bigpipe.ThreadPool

variable {n : Nat} {C Task : Type} {cap : Nat} [DecidableEq C] [Fintype C]
  {s s' : State n C Task cap} {e : Event n C Task}

/-- The owner does not come back to the point before `Start`. -/
theorem idle_of_step (h : Step s e s') (hidle : s'.owner = .idle) : s.owner = .idle := by
  cases h with
  | start | spawn | started | stopPut | stopPutDone => cases hidle
  | stop ho | join ho =>
      change stopNext n _ = .idle at hidle
      unfold stopNext at hidle
      split at hidle <;> cases hidle
  | stopWait | take | leave | takeWait | takeDone | runTask | putTask | callerSection
    | spurious => exact hidle

/-- A spawned worker moves only in its own steps. The others reach it
through the queue alone. -/
theorem worker_of_other (hinv : Inv s) (h : Step s e s') {u : Fin n}
    (hactor : actor e ≠ some (.worker u)) (hborn : s.worker u ≠ .unborn) :
    s'.worker u = s.worker u := by
  have hother : ∀ i pc, i ≠ u → (s.setWorker i pc).worker u = s.worker u := fun i pc hi => by
    rw [State.setWorker_worker, if_neg (Ne.symm hi)]
  cases h with
  | @spawn k ho hk =>
      refine hother _ _ ?_
      rintro rfl
      exact hborn (hinv.unborn_next ho hk)
  | take | leave | takeDone | runTask =>
      refine hother _ _ ?_
      rintro rfl
      exact hactor rfl
  | start | started | stop | stopPut | stopWait | stopPutDone | join | takeWait | putTask
    | callerSection | spurious => rfl

end Bigpipe.ThreadPool

namespace Bigpipe.KafkaConsumer

open Bigpipe.Lib
open Bigpipe.Lib.System (Execution)
open Bigpipe.AsyncClient (CallPc Gate Outcome)

variable {n : Nat} {folly : Folly} {conf : AsyncClient.Conf} {s s' : State n} {e : Event n}

/-! ### What the pool was handed -/

/-- The pool was handed the numbers that `AsyncCall` was called with,
each once. Nothing was called before `ConsumeLoop` was spawned, and
the pool is started by `Start`. -/
structure Offered (s : State n) : Prop where
  handed : ∀ reqmsg, s.called reqmsg ≠ none →
    reqmsg ∈ ThreadPool.accepted s.workers + ThreadPool.pending s.workers
  once : (ThreadPool.accepted s.workers + ThreadPool.pending s.workers).Nodup
  next : ∀ reqmsg, s.loop = .calling reqmsg → s.called reqmsg = none
  unborn : s.loop = .unborn → s.created = 0
  idle : s.workers.owner = .idle → s.main = .idle

/-- Where nothing is handed over and no message is created. -/
theorem Offered.congr (hoff : Offered s)
    (hhanded : ThreadPool.accepted s'.workers + ThreadPool.pending s'.workers =
      ThreadPool.accepted s.workers + ThreadPool.pending s.workers)
    (hcalled : s'.called = s.called ∧ s'.created = s.created)
    (hloop : s'.loop = s.loop ∨ (∀ reqmsg, s'.loop ≠ .calling reqmsg) ∧ s'.loop ≠ .unborn)
    (hidle : s'.workers.owner = .idle → s'.main = .idle) : Offered s' := by
  obtain ⟨hcalled, hcreated⟩ := hcalled
  refine ⟨?_, ?_, ?_, ?_, hidle⟩
  · rw [hhanded, hcalled]
    exact hoff.handed
  · rw [hhanded]
    exact hoff.once
  · rw [hcalled]
    rcases hloop with hsame | ⟨hcalling, -⟩
    · rw [hsame]
      exact hoff.next
    · exact fun reqmsg hl => absurd hl (hcalling reqmsg)
  · rw [hcreated]
    rcases hloop with hsame | ⟨-, hborn⟩
    · rw [hsame]
      exact hoff.unborn
    · exact fun hl => absurd hl hborn

/-- A step of the pool that hands over no task. -/
theorem Offered.pool_step (hinv : Inv s) (hoff : Offered s) {e : ThreadPool.Event n Unit Nat}
    (hw : (ThreadPool.system n Unit Nat 20).step s.workers e = some s'.workers)
    (he : e.handed = none) (hcalled : s'.called = s.called ∧ s'.created = s.created)
    (hloop : s'.loop = s.loop ∨ (∀ reqmsg, s'.loop ≠ .calling reqmsg) ∧ s'.loop ≠ .unborn)
    (hmain : s.main = .idle → s'.main = .idle) : Offered s' := by
  have hstep := ThreadPool.step_cases hw
  refine hoff.congr ?_ hcalled hloop fun hidle => hmain (hoff.idle (ThreadPool.idle_of_step hstep
    hidle))
  have hhanded := ThreadPool.handed_step (ThreadPool.reachable_inv hinv.workers) hstep
  rw [he] at hhanded
  exact hhanded.trans (add_zero _)

/-- A step keeps it. A number is handed over in `AsyncCall` only, and
it is the number of the iteration, which was in no `AsyncCall`
before. -/
theorem offered_step (hinv : Inv s) (hoff : Offered s) (h : Step folly conf s e s') :
    Offered s' := by
  cases h with
  | @start workers hm hw =>
      have hstep : (ThreadPool.system n Unit Nat 20).step s.workers .start = some workers := hw
      refine hoff.congr ?_ ⟨rfl, rfl⟩ (.inl rfl) fun hidle => ?_
      · exact (ThreadPool.handed_step (ThreadPool.reachable_inv hinv.workers)
          (ThreadPool.step_cases hstep)).trans (add_zero _)
      · change workers.owner = .idle at hidle
        cases ThreadPool.step_cases hstep
        cases hidle
  | spawn hm ho =>
      refine hoff.congr rfl ⟨rfl, rfl⟩ (.inr ⟨nofun, nofun⟩) fun hidle => ?_
      cases ho.symm.trans hidle
  | stop hm =>
      refine hoff.congr rfl ⟨rfl, rfl⟩ (.inl rfl) fun hidle => ?_
      cases hm.symm.trans (hoff.idle hidle)
  | @join workers hm hl hw =>
      refine hoff.pool_step (e := .stop) hinv hw rfl ⟨rfl, rfl⟩ (.inl rfl) fun hidle => ?_
      cases hm.symm.trans hidle
  | test hl =>
      refine hoff.congr rfl ⟨rfl, rfl⟩ (.inr ?_) hoff.idle
      show (∀ reqmsg, (if s.isRunning then LoopPc.consuming else .left) ≠ _) ∧ _ ≠ _
      split <;> exact ⟨nofun, nofun⟩
  | eof | endIteration => exact hoff.congr rfl ⟨rfl, rfl⟩ (.inr ⟨nofun, nofun⟩) hoff.idle
  | message hl hread =>
      refine ⟨hoff.handed, hoff.once, fun reqmsg heq => ?_, nofun, hoff.idle⟩
      cases heq
      exact hinv.fresh s.created (Nat.le_refl _)
  | malformed hl hread => cases RequestMessage.eq_true_of_fromJSON hread
  | @asyncCall reqmsg workers hl hr hw =>
      have hstep : (ThreadPool.system n Unit Nat 20).step s.workers (.putTask () (some reqmsg))
          = some workers := hw
      have hhanded : ThreadPool.accepted workers + ThreadPool.pending workers =
          ThreadPool.accepted s.workers + ThreadPool.pending s.workers + {reqmsg} :=
        ThreadPool.handed_step (ThreadPool.reachable_inv hinv.workers) (ThreadPool.step_cases hstep)
      refine ⟨fun k hk => ?_, ?_, nofun, nofun, fun hidle => ?_⟩
      · show k ∈ ThreadPool.accepted workers + ThreadPool.pending workers
        rw [hhanded, Multiset.mem_add, Multiset.mem_singleton]
        by_cases hkr : k = reqmsg
        · exact .inr hkr
        · change Function.update s.called reqmsg (s.cells reqmsg) k ≠ none at hk
          rw [Function.update_of_ne hkr] at hk
          exact .inl (hoff.handed k hk)
      · show (ThreadPool.accepted workers + ThreadPool.pending workers).Nodup
        rw [hhanded, add_comm, Multiset.singleton_add, Multiset.nodup_cons]
        refine ⟨fun hmem => ?_, hoff.once⟩
        -- What was handed over was called, and this message was not.
        obtain ⟨msg, hmsg⟩ := hinv.handed reqmsg hmem
        cases hmsg.symm.trans (hoff.next reqmsg hl)
      · exact hoff.idle (ThreadPool.idle_of_step (ThreadPool.step_cases hstep) hidle)
  | @putWait reqmsg workers pick hl hw hpos =>
      exact hoff.pool_step (e := .callerSection () pick) hinv hw rfl ⟨rfl, rfl⟩ (.inl rfl) id
  | @putDone reqmsg workers pick hl hw hpos =>
      exact hoff.pool_step (e := .callerSection () pick) hinv hw rfl ⟨rfl, rfl⟩
        (.inr ⟨nofun, nofun⟩) id
  | @pool e workers he hw =>
      refine hoff.pool_step hinv hw ?_ ⟨rfl, rfl⟩ (.inl rfl) id
      cases e with
      | putTask => cases he
      | _ => rfl
  | @runTask i workers hret hw =>
      exact hoff.pool_step (e := .runTask i) hinv hw rfl ⟨rfl, rfl⟩ (.inl rfl) id
  | throws | notStarted | call | gate | read | readEnded | attempt =>
      exact hoff.congr rfl ⟨rfl, rfl⟩ (.inl rfl) hoff.idle

/-- The invariants in every reachable state. -/
theorem reachable_offered (h : (system folly conf n).Reachable s) :
    Inv s ∧ Lifecycle s ∧ Offered s := by
  refine h.induct (I := fun s => Inv s ∧ Lifecycle s ∧ Offered s) ?_ fun s e s' _ hI hs => ?_
  · rintro s ⟨isRunning, rfl⟩
    refine ⟨inv_initial isRunning, lifecycle_initial isRunning, fun _ h => absurd rfl h, ?_, nofun,
      fun _ => rfl, fun _ => rfl⟩
    exact Multiset.nodup_zero
  · obtain ⟨hinv, hlife, hoff⟩ := hI
    have hstep := (step_cases hs).2
    exact ⟨inv_step hinv hstep, lifecycle_step hlife hstep, offered_step hinv hoff hstep⟩

/-- No message is called twice. -/
theorem executed_nodup (h : (system folly conf n).Reachable s) : s.workers.executed.Nodup := by
  obtain ⟨hinv, -, hoff⟩ := reachable_offered h
  rw [← Multiset.coe_nodup]
  refine Multiset.nodup_of_le ?_ hoff.once
  exact (Multiset.le_add_right _ _).trans
    ((ThreadPool.executed_le_accepted hinv.workers).trans (Multiset.le_add_right _ _))

/-! ### The threads -/

/-- The thread that takes the step. `consume` is up to Kafka, and what
a `Call` waits for is up to the rest of the world, so fairness to the
threads promises neither. -/
def actor : Event n → Option (ThreadPool.Tid n Unit)
  | .spawn | .join => some .owner
  | .test | .asyncCall | .putSection _ | .endIteration => some (.caller ())
  | .pool e => ThreadPool.actor e
  | .runTask i | .call i | .read i => some (.worker i)
  | .start | .stop | .consume _ _ | .gate _ _ | .attempt _ _ => none

/-- The event of the pool that an event of the consumer is, where it
is one. `Start`, `Stop` and `PutTask` of the pool are called from the
consumer's own code; a call of `PutTask` on a pool that does not run
fails its assertion, and the pool sees nothing of it. -/
def poolEvent (s : State n) : Event n → Option (ThreadPool.Event n Unit Nat)
  | .start => some .start
  | .join => some .stop
  | .asyncCall =>
    match s.loop with
    | .calling reqmsg => if s.workers.isRunning then some (.putTask () (some reqmsg)) else none
    | _ => none
  | .putSection pick => some (.callerSection () pick)
  | .pool e => some e
  | .runTask i => some (.runTask i)
  | .spawn | .stop | .test | .consume _ _ | .endIteration | .call _ | .gate _ _ | .read _
    | .attempt _ _ => none

/-- A step of the consumer takes that event in the pool. -/
theorem pool_run (h : Step folly conf s e s') :
    (ThreadPool.system n Unit Nat 20).run s.workers (poolEvent s e).toList = some s'.workers := by
  cases h with
  | start _ hw | join _ _ hw | putWait _ hw | putDone _ hw | pool _ hw | runTask _ hw =>
      exact System.run_singleton hw
  | asyncCall hl hr hw =>
      simp only [poolEvent, hl, hr, if_true]
      exact System.run_singleton hw
  | notStarted hl hr =>
      simp only [poolEvent, hl, hr, Bool.false_eq_true, if_false]
      rfl
  | spawn | stop | test | eof | message | malformed | throws | endIteration | call | gate | read
    | readEnded | attempt => rfl

/-- The execution of the pool that an execution of the consumer runs
through. -/
def pool (x : Execution (system folly conf n)) : Execution (ThreadPool.system n Unit Nat 20) :=
  x.project State.workers poolEvent (by rintro s ⟨isRunning, rfl⟩; rfl)
    fun _ _ _ hs => pool_run (step_cases hs).2

/-! ### No message is called twice -/

/-- A step leaves the pool alone or takes one step there. -/
theorem workers_step (h : Step folly conf s e s') :
    s'.workers = s.workers ∨ ∃ e', poolEvent s e = some e' ∧
      (ThreadPool.system n Unit Nat 20).step s.workers e' = some s'.workers := by
  have hrun := pool_run h
  cases hevent : poolEvent s e with
  | none =>
      rw [hevent] at hrun
      exact .inl (Option.some.inj hrun).symm
  | some e' =>
      rw [hevent] at hrun
      obtain ⟨workers, hstep, hnil⟩ := Option.bind_eq_some_iff.mp hrun
      cases hnil
      exact .inr ⟨e', rfl, hstep⟩

/-- Only the end of its turn ends the turn of a worker. -/
theorem runTask_of_poolEvent (h : Step folly conf s e s') {u : Fin n}
    (hevent : poolEvent s e = some (.runTask u)) : e = .runTask u := by
  cases h with
  | runTask =>
      cases hevent
      rfl
  | pool he =>
      cases hevent
      cases he
  | asyncCall hl hr | notStarted hl hr => simp [poolEvent, hl, hr] at hevent
  | _ => cases hevent

/-- A worker stays in its `Call` until the end of its turn. A call
that has returned counts here, since `RunInLoop` has not gone on
yet. -/
theorem call_ne_none_step (h : Step folly conf s e s') {u : Fin n} (hc : s.call u ≠ none)
    (he : e ≠ .runTask u) : s'.call u ≠ none := by
  have hgoOn : ∀ i pc, Function.update s.call i (some pc) u ≠ none := fun i pc => by
    rw [Function.update_apply]
    split
    · exact Option.some_ne_none pc
    · exact hc
  cases h with
  | @runTask i =>
      show Function.update s.call i none u ≠ none
      rw [Function.update_of_ne fun heq => he (by rw [heq])]
      exact hc
  | call | gate | attempt => exact hgoOn _ _
  | start | spawn | stop | join | test | eof | message | malformed | throws | asyncCall | notStarted
    | putWait | putDone | endIteration | pool | read | readEnded => exact hc

/-- The `Call` of a message has begun: a worker is inside of it, or is
done with its task. -/
def Begun (reqmsg : Nat) (s : State n) : Prop :=
  reqmsg ∈ s.workers.executed ∨
    ∃ u, s.workers.worker u = .todo (some reqmsg) ∧ s.call u ≠ none

/-- A worker leaves its task only at the end of its turn. -/
theorem todo_step (hinv : Inv s) (h : Step folly conf s e s') {u : Fin n} {reqmsg : Nat}
    (hw : s.workers.worker u = .todo (some reqmsg)) (he : e ≠ .runTask u) :
    s'.workers.worker u = .todo (some reqmsg) := by
  rcases workers_step h with hsame | ⟨e', hevent, hstep⟩
  · rw [hsame, hw]
  · refine (ThreadPool.worker_stays (ThreadPool.reachable_inv hinv.workers)
      (ThreadPool.step_cases hstep) (.inr ⟨_, hw⟩) ?_).trans hw
    rintro rfl
    exact he (runTask_of_poolEvent h hevent)

/-- What has begun has begun for good. The worker stays with its task
until its turn ends, and then the task is executed. -/
theorem begun_step (hinv : Inv s) {reqmsg : Nat} (hbegun : Begun reqmsg s)
    (h : Step folly conf s e s') : Begun reqmsg s' := by
  rcases hbegun with hexecuted | ⟨u, htodo, hcall⟩
  · rcases workers_step h with hsame | ⟨e', -, hstep⟩
    · exact .inl (hsame ▸ hexecuted)
    · exact .inl (ThreadPool.mem_executed_step (ThreadPool.step_cases hstep) hexecuted)
  · by_cases he : e = .runTask u
    · -- The turn of the worker ends, and its task is executed.
      subst he
      cases h with
      | @runTask _ workers _ hw =>
          have hstep : (ThreadPool.system n Unit Nat 20).step s.workers (.runTask u)
              = some workers := hw
          exact .inl (ThreadPool.mem_executed_of_runTask (ThreadPool.step_cases hstep) htodo)
    · exact .inr ⟨u, todo_step hinv h htodo he, call_ne_none_step h hcall he⟩

/-- A worker that is about to call a message is the first to do so:
each message is handed over once, so no other worker holds it, and it
is not executed. -/
theorem not_begun_of_call (h : (system folly conf n).Reachable s) {u : Fin n} {reqmsg : Nat}
    (hw : s.workers.worker u = .todo (some reqmsg)) (hc : s.call u = none) :
    ¬ Begun reqmsg s := by
  obtain ⟨hinv, -, hoff⟩ := reachable_offered h
  have honce : (ThreadPool.accepted s.workers).Nodup :=
    Multiset.nodup_of_le (Multiset.le_add_right _ _) hoff.once
  rintro (hexecuted | ⟨v, htodo, hcall⟩)
  · exact ThreadPool.not_executed_of_todo hinv.workers honce hw hexecuted
  · rw [ThreadPool.worker_unique_of_todo hinv.workers honce htodo hw] at hcall
    exact hcall hc

/-- A worker is in no `Call` before it calls one. -/
theorem call_begins {u : Fin n} (h : Step folly conf s (.call u) s') :
    s.call u = none ∧ s'.call u ≠ none := by
  cases h with
  | call _ hc =>
      refine ⟨hc, ?_⟩
      show Function.update s.call u _ u ≠ none
      rw [Function.update_self]
      exact Option.some_ne_none _

/-- At its position `k` the execution calls `Call` with the message.
The call has then begun, whether it returns or not. -/
def CallsAt (x : Execution (system folly conf n)) (reqmsg k : Nat) : Prop :=
  ∃ u, x.event k = some (.call u) ∧ (x.state k).workers.worker u = .todo (some reqmsg)

/-- A message that was called is not called later. Once a call has
begun it stays begun, and a worker begins a call only where it is
not. -/
theorem not_callsAt_of_lt {x : Execution (system folly conf n)} {reqmsg k l : Nat}
    (hk : CallsAt x reqmsg k) (hkl : k < l) : ¬ CallsAt x reqmsg l := by
  obtain ⟨u, hevent, hw⟩ := hk
  rintro ⟨v, hevent', hw'⟩
  have hafter : Begun reqmsg (x.state (k + 1)) := by
    have hstep := (step_cases (x.steps k _ hevent)).2
    exact .inr ⟨u, todo_step (reachable_offered (x.reachable k)).1 hstep hw nofun,
      (call_begins hstep).2⟩
  have hbegun : Begun reqmsg (x.state l) :=
    Execution.always_from (x := x) (P := Begun reqmsg) hafter
      (fun j e _ he hj => begun_step (reachable_offered (x.reachable j)).1 hj
        (step_cases (x.steps j e he)).2) hkl
  exact not_begun_of_call (x.reachable l) hw'
    (call_begins (step_cases (x.steps l _ hevent')).2).1 hbegun

/-- No message is called twice. After its `Call` has begun, no worker
is in the position to call it. -/
theorem callsAt_unique (x : Execution (system folly conf n)) {reqmsg k l : Nat}
    (hk : CallsAt x reqmsg k) (hl : CallsAt x reqmsg l) : k = l := by
  rcases Nat.lt_trichotomy k l with hlt | heq | hlt
  · exact absurd hl (not_callsAt_of_lt hk hlt)
  · exact heq
  · exact absurd hk (not_callsAt_of_lt hl hlt)

/-! ### The pool is scheduled fairly -/

section

variable {x : Execution (system folly conf n)}

/-- Before the end, what the step function allows is enabled. -/
theorem enabled_of_step {A : Event n → Prop} (hended : s.ended = none) (hA : A e)
    (hs : (step folly conf s e).isSome) : (system folly conf n).Enabled A s :=
  ⟨e, hA, by simpa [system, hended] using hs⟩

/-- A step of a thread of the pool in the loops of the pool is one of
the consumer. -/
theorem enabled_pool {e : ThreadPool.Event n Unit Nat} {t : ThreadPool.Tid n Unit}
    (hended : s.ended = none) (he : inPool e = true) (hactor : ThreadPool.actor e = some t)
    (hs : ((ThreadPool.system n Unit Nat 20).step s.workers e).isSome) :
    (system folly conf n).Enabled (fun e => actor e = some t) s :=
  enabled_of_step (e := .pool e) hended hactor (by simpa [step, poolStep, he] using hs)

/-- A `Call` that has returned stays so until its task is done. No
gate and no attempt is left for it. -/
theorem returned_stays (h : Step folly conf s e s') {u : Fin n} (hc : s.call u = some .returned)
    (he : e ≠ .runTask u) : s'.call u = some .returned := by
  have hother : ∀ i pc, i ≠ u → Function.update s.call i pc u = some .returned := fun i pc hi => by
    rw [Function.update_of_ne (Ne.symm hi), hc]
  cases h with
  | runTask => exact hother _ _ fun heq => he (by rw [heq])
  | call _ hc' =>
      refine hother _ _ ?_
      rintro rfl
      cases hc.symm.trans hc'
  | @gate i pc pc' g hc' hg =>
      refine hother _ _ ?_
      rintro rfl
      cases hc.symm.trans hc'
      cases g <;> cases hg
  | attempt hc' =>
      refine hother _ _ ?_
      rintro rfl
      cases hc.symm.trans hc'
  | start | spawn | stop | join | test | eof | message | malformed | throws | asyncCall | notStarted
    | putWait | putDone | endIteration | pool | read | readEnded => exact hc

/-- A worker with a task whose `Call` has returned, or with none, can
end its turn. -/
theorem step_runTask {u : Fin n} {task : Option Nat} (hw : s.workers.worker u = .todo task)
    (hret : hasReturned s u = true) : (step folly conf s (.runTask u)).isSome := by
  simp [step, runTask, hret, ThreadPool.runTask, hw]

/-- A worker inside of its task: it calls the task, or an attempt
reads the message. -/
def InTask (s s' : State n) (u : Fin n) : Prop :=
  ∃ reqmsg, s.workers.worker u = .todo (some reqmsg) ∧
    (s.call u = none ∧ s'.call u ≠ none ∨ ∃ k, s.call u = some (.attempt k))

/-- A step of a worker is one of its steps in the pool, or inside of
its task. -/
theorem inTask_of_actor {u : Fin n} (h : Step folly conf s e s')
    (hactor : actor e = some (.worker u)) :
    (∃ e', poolEvent s e = some e' ∧ ThreadPool.actor e' = some (.worker u)) ∨ InTask s s' u := by
  have hstep := h
  cases h with
  | pool | runTask => exact .inl ⟨_, rfl, hactor⟩
  | call hw hc =>
      cases hactor
      exact .inr ⟨_, hw, .inl (call_begins hstep)⟩
  | read hw hc | readEnded hw hc =>
      cases hactor
      exact .inr ⟨_, hw, .inr ⟨_, hc⟩⟩
  | _ => cases hactor

/-- Where a worker does nothing in the pool but its turn is due for
ever, it is inside of its task. -/
theorem worker_fires {u : Fin n} {k : Nat}
    (hfair : x.WeaklyFair fun e => actor e = some (.worker u))
    (hnone : ∀ j e, k ≤ j → (pool x).event j = some e → ThreadPool.actor e ≠ some (.worker u))
    (henabled : ∀ j, k ≤ j →
      (system folly conf n).Enabled (fun e => actor e = some (.worker u)) (x.state j)) :
    ∃ j, k ≤ j ∧ InTask (x.state j) (x.state (j + 1)) u := by
  obtain ⟨j, e, hkj, hactor, he⟩ := hfair k henabled
  refine ⟨j, hkj, (inTask_of_actor (step_cases (x.steps j e he)).2 hactor).resolve_left ?_⟩
  rintro ⟨e', he', hactor'⟩
  exact hnone j e' hkj ((Execution.project_event he).trans he') hactor'

/-- The pool is fair to a worker, where every `Call` returns and the
process does not end. The worker may be enabled in the pool and have
other things to do in the consumer, inside of its task. These come to
an end, and then its next step is one of the pool. -/
theorem worker_fair (hgoes : ∀ i, (x.state i).ended = none) {u : Fin n}
    (hfair : x.WeaklyFair fun e => actor e = some (.worker u))
    (hcall : x.LeadsTo (fun s => s.call u ≠ none)
      fun s => s.call u = some .returned ∨ s.ended ≠ none) :
    (pool x).WeaklyFair fun e => ThreadPool.actor e = some (.worker u) := by
  intro i henabled
  by_contra hnever
  have hnone : ∀ j e, i ≤ j → (pool x).event j = some e →
      ThreadPool.actor e ≠ some (.worker u) :=
    fun j e hij he hactor => hnever ⟨j, e, hij, hactor, he⟩
  have hable : ∀ j, i ≤ j → ThreadPool.able (x.state j).workers (.worker u) = true :=
    fun j hij => (ThreadPool.able_iff ((pool x).reachable j) _).mpr (henabled j hij)
  -- The worker stays where it is.
  have hstays : ∀ j, i ≤ j → (x.state j).workers.worker u = (x.state i).workers.worker u := by
    intro j hij
    refine Execution.always_from (x := pool x)
      (P := fun s => s.worker u = (x.state i).workers.worker u) rfl (fun k e hik he hk => ?_) hij
    refine (ThreadPool.worker_of_other (ThreadPool.reachable_inv ((pool x).reachable k))
      (ThreadPool.step_cases ((pool x).steps k e he)) (hnone k e hik he) fun hunborn => ?_).trans hk
    have hk' := hable k hik
    change (x.state k).workers.worker u = .unborn at hunborn
    simp [ThreadPool.able, hunborn] at hk'
  by_cases htodo : ∃ reqmsg, (x.state i).workers.worker u = .todo (some reqmsg)
  · obtain ⟨reqmsg, hreqmsg⟩ := htodo
    have hw : ∀ j, i ≤ j → (x.state j).workers.worker u = .todo (some reqmsg) :=
      fun j hij => (hstays j hij).trans hreqmsg
    -- It calls its task.
    have hcalls : ∃ j, i ≤ j ∧ (x.state j).call u ≠ none := by
      by_contra hidle
      push Not at hidle
      obtain ⟨j, hij, -, -, ⟨-, hnext⟩ | ⟨k, hattempt⟩⟩ := worker_fires hfair hnone fun j hij =>
        enabled_of_step (e := .call u) (hgoes j) rfl (by
          simp [step, call, hw j hij, hidle j hij])
      · exact hnext (hidle (j + 1) (Nat.le_succ_of_le hij))
      · cases hattempt.symm.trans (hidle j hij)
    -- The `Call` returns, and the worker can end its turn from there on.
    obtain ⟨j, hij, hj⟩ := hcalls
    obtain ⟨k, hjk, hk⟩ := hcall j hj
    have hreturned : ∀ l, k ≤ l → (x.state l).call u = some .returned := by
      intro l hkl
      refine Execution.always_from (x := x) (P := fun s => s.call u = some .returned)
        (hk.resolve_right fun hended => hended (hgoes k)) (fun l e hkl he hl => ?_) hkl
      refine returned_stays (step_cases (x.steps l e he)).2 hl ?_
      rintro rfl
      exact hnone l _ (hij.trans (hjk.trans hkl)) (Execution.project_event he) rfl
    obtain ⟨l, hkl, -, -, ⟨hcall, -⟩ | ⟨m, hattempt⟩⟩ := worker_fires hfair
      (fun l e hkl => hnone l e (hij.trans (hjk.trans hkl))) fun l hkl =>
        enabled_of_step (e := .runTask u) (hgoes l) rfl (step_runTask
          (hw l (hij.trans (hjk.trans hkl))) (by
            simp [hasReturned, hw l (hij.trans (hjk.trans hkl)), hreturned l hkl]))
    · cases hcall.symm.trans (hreturned l hkl)
    · cases hattempt.symm.trans (hreturned l hkl)
  · have hother : ∀ j, i ≤ j → ∀ reqmsg, (x.state j).workers.worker u ≠ .todo (some reqmsg) :=
      fun j hij reqmsg hw => htodo ⟨reqmsg, (hstays j hij).symm.trans hw⟩
    -- Its steps in the pool are steps of the consumer.
    obtain ⟨j, hij, reqmsg, hw, -⟩ := worker_fires hfair hnone fun j hij => by
      obtain ⟨e, hactor, hsome⟩ := henabled j hij
      cases e with
      | test v | workerSection v pick =>
          exact enabled_pool (hgoes j) rfl hactor hsome
      | runTask v =>
          cases hactor
          obtain ⟨s', hs'⟩ := Option.isSome_iff_exists.mp hsome
          cases ThreadPool.step_cases hs' with
          | @runTask _ task hw =>
              refine enabled_of_step (e := .runTask u) (hgoes j) rfl (step_runTask hw ?_)
              cases task with
              | none => simp only [hasReturned, show (x.state j).workers.worker u = _ from hw]
              | some reqmsg => exact absurd hw (hother j hij reqmsg)
      | _ => cases hactor
    exact hother j hij reqmsg hw

/-- A step of `ConsumeLoop` inside of its `PutTask` is one of the
pool. -/
theorem poolEvent_of_putting {reqmsg : Nat} (hl : s.loop = .putting reqmsg)
    (h : Step folly conf s e s') (hactor : actor e = some (.caller ())) :
    ∃ e', poolEvent s e = some e' ∧ ThreadPool.actor e' = some (.caller ()) := by
  cases h with
  | test hl' | asyncCall hl' | notStarted hl' | endIteration hl' => cases hl.symm.trans hl'
  | putWait | putDone | pool => exact ⟨_, rfl, hactor⟩
  | _ => cases hactor

/-- A step of `main` where the pool is not between its `Start` and its
`Stop` is one of the pool. -/
theorem poolEvent_of_owner (ho : s.workers.owner ≠ .started) (h : Step folly conf s e s')
    (hactor : actor e = some .owner) :
    ∃ e', poolEvent s e = some e' ∧ ThreadPool.actor e' = some .owner := by
  cases h with
  | spawn _ hs => exact absurd hs ho
  | @join workers _ _ hw =>
      have hstep : (ThreadPool.system n Unit Nat 20).step s.workers .stop = some workers := hw
      cases ThreadPool.step_cases hstep with
      | stop hs => exact absurd hs ho
  | pool => exact ⟨_, rfl, hactor⟩
  | _ => cases hactor

/-- It is fair to `ConsumeLoop` in its `PutTask`. In its call it has
no other steps than those of the pool. -/
theorem caller_fair (hgoes : ∀ i, (x.state i).ended = none)
    (hfair : x.WeaklyFair fun e => actor e = some (.caller ())) :
    (pool x).WeaklyFair fun e => ThreadPool.actor e = some (.caller ()) := by
  intro i henabled
  by_contra hnever
  -- A lock section of `PutTask` is due for ever, so `ConsumeLoop` is in
  -- there.
  have hdue : ∀ j, i ≤ j → ∃ reqmsg, (x.state j).loop = .putting reqmsg := by
    intro j hij
    have hlife := (reachable_offered (x.reachable j)).2.1
    have hable := (ThreadPool.able_iff ((pool x).reachable j) _).mpr (henabled j hij)
    obtain ⟨m, hrun⟩ := Option.isSome_iff_exists.mp hable
    have hwithin := (hlife.put).symm.trans (Monitor.Pos.within_of_runnable hrun)
    cases hl : (x.state j).loop with
    | putting reqmsg => exact ⟨reqmsg, rfl⟩
    | _ => rw [hl] at hwithin; cases hwithin
  obtain ⟨j, e, hij, hactor, he⟩ := hfair i fun j hij => by
    obtain ⟨e, hactor, hsome⟩ := henabled j hij
    obtain ⟨reqmsg, hl⟩ := hdue j hij
    cases e with
    | callerSection c pick =>
        refine enabled_of_step (e := .putSection pick) (hgoes j) rfl ?_
        change (ThreadPool.callerSection (x.state j).workers () pick).isSome at hsome
        simpa [step, putSection, hl] using hsome
    | _ => cases hactor
  obtain ⟨reqmsg, hl⟩ := hdue j hij
  obtain ⟨e', he', hactor'⟩ := poolEvent_of_putting hl (step_cases (x.steps j e he)).2 hactor
  exact hnever ⟨j, e', hij, hactor', (Execution.project_event he).trans he'⟩

/-- It is fair to `main` in `Start` of the pool. The owner of the pool
is `main`, which has no other step while it is in there. -/
theorem owner_fair (hgoes : ∀ i, (x.state i).ended = none)
    (hfair : x.WeaklyFair fun e => actor e = some .owner) :
    (pool x).WeaklyFair fun e => ThreadPool.actor e = some .owner := by
  intro i henabled
  by_contra hnever
  have hstarted : ∀ j, i ≤ j → (x.state j).workers.owner ≠ .started := by
    intro j hij ho
    have hable := (ThreadPool.able_iff ((pool x).reachable j) _).mpr (henabled j hij)
    change ThreadPool.able (x.state j).workers .owner = true at hable
    simp [ThreadPool.able, ho] at hable
  obtain ⟨j, e, hij, hactor, he⟩ := hfair i fun j hij => by
    obtain ⟨e, hactor, hsome⟩ := henabled j hij
    cases e with
    | spawn | stopPut | stopSection | join => exact enabled_pool (hgoes j) rfl hactor hsome
    | _ => cases hactor
  obtain ⟨e', he', hactor'⟩ :=
    poolEvent_of_owner (hstarted j hij) (step_cases (x.steps j e he)).2 hactor
  exact hnever ⟨j, e', hij, hactor', (Execution.project_event he).trans he'⟩

/-- It is fair to every thread. -/
theorem pool_fair (hgoes : ∀ i, (x.state i).ended = none)
    (hfair : ∀ t, x.WeaklyFair fun e => actor e = some t)
    (hcall : ∀ u, x.LeadsTo (fun s => s.call u ≠ none)
      fun s => s.call u = some .returned ∨ s.ended ≠ none) (t : ThreadPool.Tid n Unit) :
    (pool x).WeaklyFair fun e => ThreadPool.actor e = some t := by
  cases t with
  | owner => exact owner_fair hgoes (hfair .owner)
  | worker u => exact worker_fair hgoes (hfair (.worker u)) (hcall u)
  | caller c => exact caller_fair hgoes (hfair (.caller ()))

/-! ### Every message is called -/

/-- Only `Stop` brings `main` into it. -/
theorem hasStopped_step (h : Step folly conf s e s') (he : e ≠ .stop) :
    s'.main.hasStopped = s.main.hasStopped := by
  cases h with
  | stop => exact absurd rfl he
  | start hm | spawn hm | join hm =>
      rw [hm]
      rfl
  | _ => rfl

/-- The pool is stopped in `join`. -/
theorem join_of_poolEvent (h : Step folly conf s e s') (hevent : poolEvent s e = some .stop) :
    e = .join ∧ s.main = .joining ∧ s.loop = .left ∧ s'.main = .stopping := by
  cases h with
  | join hm hl => exact ⟨rfl, hm, hl, rfl⟩
  | pool he =>
      cases hevent
      cases he
  | asyncCall hl hr | notStarted hl hr => simp [poolEvent, hl, hr] at hevent
  | _ => cases hevent

/-- Without `Stop`, `main` is not in it. -/
theorem main_of_execution (hstop : ∀ i, x.event i ≠ some .stop) (i : Nat) :
    (x.state i).main.hasStopped = false := by
  refine Execution.always_from (x := x) (P := fun s => s.main.hasStopped = false) ?_
    (fun j e _ he hj => ?_) (Nat.zero_le i)
  · obtain ⟨isRunning, hinit⟩ := x.init
    rw [hinit]
    rfl
  · rw [hasStopped_step (step_cases (x.steps j e he)).2 fun heq => hstop j (heq ▸ he), hj]

/-- The end of the process is the end. -/
theorem ended_always {i j : Nat} (hij : i ≤ j) (hended : (x.state i).ended ≠ none) :
    (x.state j).ended ≠ none := by
  refine Execution.always_from (x := x) (P := fun s => s.ended ≠ none) hended
    (fun k e _ he hk => ?_) hij
  exact absurd (step_cases (x.steps k e he)).1 hk

/-- Where the process goes on without `Stop`, every message is
called. -/
theorem called_leadsTo_executed (hn : 0 < n) (hgoes : ∀ i, (x.state i).ended = none)
    (hfair : ∀ t, x.WeaklyFair fun e => actor e = some t)
    (hcall : ∀ u, x.LeadsTo (fun s => s.call u ≠ none)
      fun s => s.call u = some .returned ∨ s.ended ≠ none)
    (hstop : ∀ i, x.event i ≠ some .stop) (i : Nat) :
    ∃ j, i ≤ j ∧ ∀ reqmsg, (x.state i).called reqmsg ≠ none →
      reqmsg ∈ (x.state j).workers.executed := by
  obtain ⟨hinv, hlife, hoff⟩ := reachable_offered (x.reachable i)
  by_cases hidle : (x.state i).workers.owner = .idle
  · -- Before `Start` there is no message.
    refine ⟨i, Nat.le_refl i, fun reqmsg hcalled => ?_⟩
    have hcreated := hoff.unborn (hinv.unborn (.inl (hoff.idle hidle)))
    exact absurd (hinv.fresh reqmsg (by rw [hcreated]; exact Nat.zero_le _)) hcalled
  have hstop' : ∀ j, (pool x).event j ≠ some .stop := by
    intro j hj
    obtain ⟨e, he, hevent⟩ := Option.bind_eq_some_iff.mp hj
    obtain ⟨-, hm, -⟩ := join_of_poolEvent (step_cases (x.steps j e he)).2 hevent
    have hmain := main_of_execution hstop j
    rw [hm] at hmain
    cases hmain
  obtain ⟨j, hij, hexecuted⟩ := ThreadPool.handed_leadsTo_executed (x := pool x) hn (by decide)
    hstop' (pool_fair hgoes hfair hcall) _ i ⟨hidle, le_refl _⟩
  exact ⟨j, hij, fun reqmsg hcalled =>
    Multiset.mem_coe.mp (Multiset.mem_of_le hexecuted (hoff.handed reqmsg hcalled))⟩

end

/-- In every execution of a consumer with workers in which every
thread that stays able to run runs in the end, every `Call` returns
and `Stop` is not called, every message that `AsyncCall` was called
with is called and its `Call` returns, or the process ends.

And no message is called twice: not one whose `Call` has returned, and
not one whose `Call` is still under way. The positions of an execution
at which `Call` is called with a message are at most one. -/
theorem callsAll (hn : 0 < n) (x : Execution (system folly conf n))
    (hfair : ∀ t, x.WeaklyFair fun e => actor e = some t)
    (hcall : ∀ u, x.LeadsTo (fun s => s.call u ≠ none)
      fun s => s.call u = some .returned ∨ s.ended ≠ none)
    (hstop : ∀ i, x.event i ≠ some .stop) (i : Nat) :
    (∃ j, i ≤ j ∧ (x.state j).workers.executed.Nodup ∧ ((x.state j).ended ≠ none ∨
      ∀ reqmsg, (x.state i).called reqmsg ≠ none → reqmsg ∈ (x.state j).workers.executed)) ∧
    ∀ reqmsg k l, CallsAt x reqmsg k → CallsAt x reqmsg l → k = l := by
  refine ⟨?_, fun reqmsg k l => callsAt_unique x⟩
  by_cases hends : ∃ j, (x.state j).ended ≠ none
  · obtain ⟨j, hj⟩ := hends
    exact ⟨max i j, Nat.le_max_left i j, executed_nodup (x.reachable _),
      .inl (ended_always (Nat.le_max_right i j) hj)⟩
  have hgoes : ∀ j, (x.state j).ended = none := fun j => by
    by_contra hended
    exact hends ⟨j, hended⟩
  obtain ⟨j, hij, hexecuted⟩ := called_leadsTo_executed hn hgoes hfair hcall hstop i
  exact ⟨j, hij, executed_nodup (x.reachable j), .inr hexecuted⟩

/-! ### One message -/

/-- Where `ConsumeLoop` waits for a message or has left, and the pool
is at rest, no thread can take a step. -/
theorem not_enabled_of_rest (hmain : s.main = .started ∨ s.main = .stopping)
    (hloop : s.loop = .consuming ∨ s.loop = .left) (hcall : ∀ u, s.call u = none)
    (hpool : ∀ t, ThreadPool.able s.workers t = false) (t : ThreadPool.Tid n Unit) :
    ¬ (system folly conf n).Enabled (fun e => actor e = some t) s := by
  rintro ⟨e, hactor, hsome⟩
  obtain ⟨s', hs'⟩ := Option.isSome_iff_exists.mp hsome
  cases (step_cases hs').2 with
  | spawn hm | join hm =>
      rw [hm] at hmain
      rcases hmain with hmain | hmain <;> cases hmain
  | test hl | asyncCall hl | notStarted hl | putWait hl | putDone hl | endIteration hl =>
      rw [hl] at hloop
      rcases hloop with hloop | hloop <;> cases hloop
  | pool he hw =>
      cases (ThreadPool.able_of_step (ThreadPool.step_cases hw) hactor).symm.trans (hpool t)
  | @runTask i workers hret hw =>
      have hstep : (ThreadPool.system n Unit Nat 20).step s.workers (.runTask i)
          = some workers := hw
      cases (ThreadPool.able_of_step (ThreadPool.step_cases hstep) hactor).symm.trans (hpool t)
  | @call i reqmsg hw =>
      have hi := hpool (.worker i)
      simp [ThreadPool.able, hw] at hi
  | read _ hc | readEnded _ hc => cases hc.symm.trans (hcall _)
  | _ => cases hactor

/-- A worker comes into a `Call` only by calling it. The other steps
leave its call as it is, move a call that is there, or end one. -/
theorem call_eq_none_step (h : Step folly conf s e s') {u : Fin n} (hc : s.call u = none)
    (he : e ≠ .call u) : s'.call u = none := by
  -- The call of another worker is another entry of `call`.
  have hother : ∀ i pc, i ≠ u → Function.update s.call i pc u = none := fun i pc hi => by
    rw [Function.update_of_ne (Ne.symm hi), hc]
  cases h with
  | @runTask i =>
      show Function.update s.call i none u = none
      rw [Function.update_apply]
      split
      · rfl
      · exact hc
  -- The one step that begins a call of `u` is the excluded one.
  | call => exact hother _ _ fun heq => he (by rw [heq])
  -- Only a worker that is in a call passes a gate or ends an attempt.
  | gate hc' | attempt hc' =>
      refine hother _ _ ?_
      rintro rfl
      cases hc.symm.trans hc'
  | start | spawn | stop | join | test | eof | message | malformed | throws | asyncCall | notStarted
    | putWait | putDone | endIteration | pool | read | readEnded => exact hc

/-- A worker whose `Call` is over is in no other before it calls
one. -/
theorem over_step (h : Step folly conf s e s') {u : Fin n}
    (hc : s.call u = some .returned ∨ s.call u = none) (he : e ≠ .call u) :
    s'.call u = some .returned ∨ s'.call u = none := by
  rcases hc with hreturned | hnone
  · by_cases hrun : e = .runTask u
    · subst hrun
      cases h with
      | runTask => exact .inr (Function.update_self _ _ _)
    · exact .inl (returned_stays h hreturned hrun)
  · exact .inr (call_eq_none_step h hnone he)

/-- A worker calls the message while `ConsumeLoop` is in its
iteration, and the `Call` returns. -/
def answered : List (Event 2) :=
  [.asyncCall, .putSection none, .pool (.test ThreadPool.worker₀),
   .pool (.workerSection ThreadPool.worker₀ none), .call ThreadPool.worker₀,
   .gate ThreadPool.worker₀ .getToken, .read ThreadPool.worker₀, .read ThreadPool.worker₀,
   .read ThreadPool.worker₀, .attempt ThreadPool.worker₀ (.status 200)]

/-- The workers fall asleep, and `ConsumeLoop` waits for the next
message. -/
def resting : List (Event 2) :=
  [.runTask ThreadPool.worker₀, .pool (.test ThreadPool.worker₀),
   .pool (.workerSection ThreadPool.worker₀ none), .pool (.test ThreadPool.worker₁),
   .pool (.workerSection ThreadPool.worker₁ none), .endIteration, .test]

/-- A message that `FromJSON` reads is called, and the consumer comes
to rest. -/
theorem answered_run {fs : FileSystem} {payload : String} {msg : RequestMessage}
    (hread : RequestMessage.fromJSON folly fs payload {} = (.ok true, msg)) :
    ∃ s s₁ s₂ : State 2, (system folly oneAttempt 2).run (initial false) spawned = some s ∧
      s.main = .started ∧ s.ended = none ∧
      (system folly oneAttempt 2).run s (.consume (some payload) fs :: answered) = some s₁ ∧
      s₁.call ThreadPool.worker₀ = some .returned ∧ s₁.call ThreadPool.worker₁ = none ∧
      s₁.called 0 ≠ none ∧ (system folly oneAttempt 2).run s₁ resting = some s₂ ∧
      s₂.main = .started ∧ s₂.loop = .consuming ∧ (∀ u, s₂.call u = none) ∧
      ∀ t, ThreadPool.able s₂.workers t = false := by
  obtain ⟨s, hspawned, hmain, hended, hloop, s₁, hrun, hcall₀, hcall₁, hcalled, s₂, hrest, hmain₂,
      hloop₂, hcall₂, hable⟩ : ∃ s : State 2,
      (system folly oneAttempt 2).run (initial false) spawned = some s ∧ s.main = .started ∧
      s.ended = none ∧ s.loop = .consuming ∧
      ∃ s₁, (system folly oneAttempt 2).run (s.create msg (.calling s.created))
          answered = some s₁ ∧
        s₁.call ThreadPool.worker₀ = some .returned ∧ s₁.call ThreadPool.worker₁ = none ∧
        (s₁.called 0).isSome = true ∧
        ∃ s₂, (system folly oneAttempt 2).run s₁ resting = some s₂ ∧
          s₂.main = .started ∧ s₂.loop = .consuming ∧
          (∀ u, (s₂.call u).isNone = true) ∧ ∀ t, ThreadPool.able s₂.workers t = false :=
    ⟨_, rfl, rfl, rfl, rfl, _, rfl, rfl, rfl, rfl, _, rfl, rfl, rfl, of_decide_eq_true rfl,
      of_decide_eq_true rfl⟩
  refine ⟨s, s₁, s₂, hspawned, hmain, hended,
    (System.run_cons (step_message hended hloop hread)).trans hrun, hcall₀, hcall₁, ?_, hrest,
    hmain₂, hloop₂, fun u => Option.isNone_iff_eq_none.mp (hcall₂ u), hable⟩
  intro hnone
  rw [hnone] at hcalled
  cases hcalled

/-- The whole run. -/
def calledOnce : List (Event 2) :=
  (spawned ++ .consume (some "orders") payFile :: answered) ++ resting

/-- `callsAll` in the execution that takes the steps of `calledOnce`
and then stays, at the point where the `Call` has returned. -/
theorem callsAll_calledOnce :
    ∃ x : Execution (system compactFolly oneAttempt 2), (x.state 17).called 0 ≠ none ∧
      (∃ j, 17 ≤ j ∧ (x.state j).workers.executed.Nodup ∧ ((x.state j).ended ≠ none ∨
        ∀ reqmsg, (x.state 17).called reqmsg ≠ none → reqmsg ∈ (x.state j).workers.executed)) ∧
      ∀ reqmsg k l, CallsAt x reqmsg k → CallsAt x reqmsg l → k = l := by
  obtain ⟨s, s₁, s₂, hspawned, -, -, hanswered, hcall₀, hcall₁, hcalled, hrun₂, hmain, hloop, hcall,
    hable⟩ := answered_run (fromJSON_payFile "orders")
  have hrun₁ := (System.run_append hspawned).trans hanswered
  have hrun : (system compactFolly oneAttempt 2).run (initial false) calledOnce = some s₂ :=
    (System.run_append hrun₁).trans hrun₂
  have hsome : ((system compactFolly oneAttempt 2).run (initial false) calledOnce).isSome := by
    rw [hrun]
    rfl
  let x : Execution (system compactFolly oneAttempt 2) :=
    Execution.ofRun (initial false) ⟨false, rfl⟩ calledOnce hsome
  have hstate : x.state 17 = s₁ := Execution.ofRun_state hsome hrun₁
  have hover : ∀ u, x.LeadsTo (fun s => s.call u ≠ none)
      fun s => s.call u = some .returned ∨ s.ended ≠ none := by
    intro u i hi
    by_cases hu : u = ThreadPool.worker₀
    · subst hu
      rcases Nat.le_total i 17 with hle | hle
      · exact ⟨17, hle, .inl (by rw [hstate, hcall₀])⟩
      · refine ⟨i, Nat.le_refl i, .inl (Or.resolve_right ?_ hi)⟩
        refine Execution.always_from (x := x)
          (P := fun s => s.call ThreadPool.worker₀ = some .returned ∨
            s.call ThreadPool.worker₀ = none) (.inl (by rw [hstate, hcall₀]))
          (fun k e hk he hP => over_step (step_cases (x.steps k e he)).2 hP ?_) hle
        rintro rfl
        have hmem : Event.call ThreadPool.worker₀ ∈ resting := Execution.ofRun_event hsome hk he
        simp [resting] at hmem
    · -- The other worker never calls.
      refine absurd (Execution.always_from (x := x) (P := fun s => s.call u = none) rfl
        (fun k e hk he hP => call_eq_none_step (step_cases (x.steps k e he)).2 hP ?_)
        (Nat.zero_le i)) hi
      rintro rfl
      have hmem : Event.call u ∈ calledOnce := Execution.ofRun_event hsome hk he
      simp [calledOnce, spawned, answered, resting, hu] at hmem
  have hcalls := callsAll Nat.zero_lt_two x
    (fun t => Execution.weaklyFair_ofRun hsome hrun
      (not_enabled_of_rest (.inl hmain) (.inl hloop) hcall hable t))
    hover (fun i heq => absurd (List.mem_of_getElem? heq) (by
      simp [calledOnce, spawned, answered, resting])) 17
  exact ⟨x, by rwa [hstate], hcalls⟩

end Bigpipe.KafkaConsumer
