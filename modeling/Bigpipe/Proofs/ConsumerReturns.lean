import Bigpipe.Proofs.Calls

/-!
# `Bigpipe.Proofs.ConsumerReturns`: `KafkaConsumer::Stop` returns or waits for good

`Stop` clears the flag and joins `ConsumeLoop`, which leaves at its
next test of the flag. A `PutTask` that it is in returns, since the
pool still runs. Then `Stop` stops the pool, and nobody puts tasks any
more.

Each of the waits is ended by something else. In `consume` the loop
waits for Kafka, so that this wait comes to an end is a hypothesis. In
`PutTask` it waits for a slot, which the workers make, for as long as
the pool runs. In `join` of the pool `main` waits for the workers, and
a worker leaves when its `Call` has returned, which is the other
hypothesis. The rest is the work of
`Bigpipe.Proofs.ThreadPoolReturns`, for the execution of the pool that
`Bigpipe.Proofs.Calls` makes.

* `Spawned`: what the places of `main`, `ConsumeLoop` and the pool
  have to do with each other.
* `joining_leadsTo_left`: `ConsumeLoop` leaves.
  `left_leadsTo_stopping`: `Stop` goes on to the pool.
* `comesToRest`: every fair execution in which `Stop` is called ends,
  or comes to rest.
-/

set_option autoImplicit false

namespace Bigpipe.ThreadPool

open Bigpipe.Lib.System (Execution)

variable {n : Nat} {C Task : Type} {cap : Nat} [DecidableEq C] [Fintype C]
  {s s' : State n C Task cap} {e : Event n C Task}

/-- `Stop` of the pool has returned for good. -/
theorem stopped_step (ho : s.owner = .stopped) (h : Step s e s') : s'.owner = .stopped := by
  cases h with
  | start hs | spawn hs | started hs | stop hs | stopPut hs | stopWait hs | stopPutDone hs
  | join hs => cases ho.symm.trans hs
  | take | leave | takeWait | takeDone | runTask | putTask | callerSection | spurious => exact ho

theorem stopped_always {x : Execution (system n C Task cap)} {i j : Nat} (hij : i ≤ j)
    (ho : (x.state i).owner = .stopped) : (x.state j).owner = .stopped :=
  Execution.always_from (x := x) (P := fun s => s.owner = .stopped) ho
    (fun k e _ he hk => stopped_step hk (step_cases (x.steps k e he))) hij

end Bigpipe.ThreadPool

namespace Bigpipe.KafkaConsumer

open Bigpipe.Lib
open Bigpipe.Lib.System (Execution)

variable {n : Nat} {folly : Folly} {conf : AsyncClient.Conf} {s s' : State n} {e : Event n}

/-! ### After the spawn of `ConsumeLoop` -/

/-- `Start` of the pool returns before `ConsumeLoop` is spawned, its
`Stop` is called when `ConsumeLoop` has been joined, and the flag is
false from `Stop` on. -/
structure Spawned (s : State n) : Prop where
  started : s.main = .started ∨ s.main = .joining → s.workers.owner = .started
  stopped : s.main = .stopping → s.workers.owner.hasStopped = true
  born : s.loop = .unborn → s.main = .idle ∨ s.main = .starting
  flag : s.main.hasStopped = true → s.isRunning = false

/-- Where `main` stays, and the pool with it. -/
theorem Spawned.congr (hsp : Spawned s) (hmain : s'.main = s.main)
    (hflag : s'.isRunning = s.isRunning) (hloop : s'.loop = s.loop ∨ s'.loop ≠ .unborn)
    (hpool : (s.workers.owner = .started → s'.workers.owner = .started) ∧
      (s.workers.owner.hasStopped = true → s'.workers.owner.hasStopped = true)) : Spawned s' := by
  refine ⟨?_, ?_, fun hl => ?_, ?_⟩
  · rw [hmain]
    exact fun hm => hpool.1 (hsp.started hm)
  · rw [hmain]
    exact fun hm => hpool.2 (hsp.stopped hm)
  · rw [hmain]
    exact hsp.born ((hloop.resolve_right fun hne => hne hl).symm.trans hl)
  · rw [hmain, hflag]
    exact hsp.flag

/-- A step of the pool other than its `Stop`. -/
theorem Spawned.pool_step (hinv : Inv s) (hsp : Spawned s) {e : ThreadPool.Event n Unit Nat}
    (hw : (ThreadPool.system n Unit Nat 20).step s.workers e = some s'.workers) (he : e ≠ .stop)
    (hmain : s'.main = s.main) (hflag : s'.isRunning = s.isRunning)
    (hloop : s'.loop = s.loop ∨ s'.loop ≠ .unborn) : Spawned s' :=
  hsp.congr hmain hflag hloop
    ⟨fun ho => ThreadPool.started_step ho (ThreadPool.step_cases hw) he, fun ho =>
      (ThreadPool.stop_step (ThreadPool.reachable_inv hinv.workers) ho
        (ThreadPool.step_cases hw)).1⟩

/-- A step keeps it. What has to be looked at are the steps in which
`main` moves, and those of the pool, whose owner is `main`. -/
theorem spawned_step (hinv : Inv s) (hsp : Spawned s) (h : Step folly conf s e s') :
    Spawned s' := by
  cases h with
  | start hm =>
      exact ⟨by simp, nofun, fun _ => .inr rfl, nofun⟩
  -- `Start` of the pool has returned when the loop is spawned.
  | spawn hm ho => exact ⟨fun _ => ho, nofun, nofun, nofun⟩
  | stop hm =>
      refine ⟨fun _ => hsp.started (.inl hm), nofun, fun hl => ?_, fun _ => rfl⟩
      -- An unborn loop is one in front of the spawn, and main is past it.
      have hmain := hsp.born hl
      rw [hm] at hmain
      rcases hmain with hmain | hmain <;> cases hmain
  | @join workers hm hl hw =>
      have hstep : (ThreadPool.system n Unit Nat 20).step s.workers .stop = some workers := hw
      refine ⟨by simp, fun _ => ?_, fun hl' => ?_, fun _ => hsp.flag (by rw [hm]; rfl)⟩
      · cases ThreadPool.step_cases hstep with
        | stop => exact ThreadPool.hasStopped_stopNext 0
      · cases hl.symm.trans hl'
  -- The loop is born, and stays so.
  | test hl =>
      refine hsp.congr rfl rfl (.inr ?_) ⟨id, id⟩
      show (if s.isRunning then LoopPc.consuming else .left) ≠ _
      split <;> nofun
  | eof | message | malformed | endIteration => exact hsp.congr rfl rfl (.inr nofun) ⟨id, id⟩
  | @asyncCall reqmsg workers hl hr hw =>
      exact hsp.pool_step (e := .putTask () (some reqmsg)) hinv hw nofun rfl rfl (.inr nofun)
  | @putWait reqmsg workers pick hl hw =>
      exact hsp.pool_step (e := .callerSection () pick) hinv hw nofun rfl rfl (.inl rfl)
  | @putDone reqmsg workers pick hl hw =>
      exact hsp.pool_step (e := .callerSection () pick) hinv hw nofun rfl rfl (.inr nofun)
  | @pool e workers he hw =>
      refine hsp.pool_step hinv hw ?_ rfl rfl (.inl rfl)
      rintro rfl
      cases he
  | @runTask i workers hret hw =>
      exact hsp.pool_step (e := .runTask i) hinv hw nofun rfl rfl (.inl rfl)
  | throws | notStarted | call | gate | read | readEnded | attempt =>
      exact hsp.congr rfl rfl (.inl rfl) ⟨id, id⟩

/-- The places are in this order in every reachable state. -/
theorem reachable_spawned (h : (system folly conf n).Reachable s) : Spawned s := by
  refine h.induct (I := Spawned) ?_ fun s e s' hreach hsp hs =>
    spawned_step (reachable_offered hreach).1 hsp (step_cases hs).2
  rintro s ⟨isRunning, rfl⟩
  exact ⟨by simp [initial], nofun, fun _ => .inl rfl, nofun⟩

/-! ### `ConsumeLoop` leaves -/

/-- The steps that `ConsumeLoop` has left once the flag is cleared.
The loop tests the flag once an iteration, so the iteration that it is
in is its last. -/
def LoopPc.toLeave : LoopPc → Nat
  | .consuming => 5
  | .calling _ => 4
  | .putting _ => 3
  | .ending _ => 2
  | .loop => 1
  | .unborn | .left => 0

/-- After `Stop`, `ConsumeLoop` only comes nearer to its end. The test
at the head of the loop finds the flag cleared, so the loop is not
entered again. -/
theorem toLeave_step (hsp : Spawned s) (hstop : s.main.hasStopped = true)
    (h : Step folly conf s e s') :
    s'.loop = s.loop ∨ s'.loop.toLeave < s.loop.toLeave := by
  cases h with
  | spawn hm =>
      rw [hm] at hstop
      cases hstop
  | test hl =>
      refine .inr ?_
      show (if s.isRunning then LoopPc.consuming else .left).toLeave < _
      rw [hsp.flag hstop, hl]
      decide
  | eof hl | message hl | malformed hl | asyncCall hl | putDone hl | endIteration hl =>
      exact .inr (by simp [hl, LoopPc.toLeave, State.create])
  | _ => exact .inl rfl

/-- Where `ConsumeLoop` waits for nobody, it can take a step: at the
test of the flag, in front of `AsyncCall` and at the end of an
iteration. -/
theorem enabled_loop (hreach : (system folly conf n).Reachable s) (hended : s.ended = none)
    (hl : s.loop = .loop ∨ (∃ reqmsg, s.loop = .calling reqmsg) ∨
      ∃ reqmsg, s.loop = .ending reqmsg) :
    (system folly conf n).Enabled (fun e => actor e = some (.caller ())) s := by
  rcases hl with hl | ⟨reqmsg, hl⟩ | ⟨reqmsg, hl⟩
  · exact enabled_of_step (e := .test) hended rfl (by simp [step, test, hl])
  · obtain ⟨hinv, hlife, -⟩ := reachable_offered hreach
    have hput := hlife.put
    rw [hl] at hput
    obtain ⟨q, hq⟩ := Monitor.exists_call
      (BoundedBlockingQueue.not_aborted (ThreadPool.queueSimulation.reachable hinv.workers)) hput
      (.put (some reqmsg))
    refine enabled_of_step (e := .asyncCall) hended rfl ?_
    cases hr : s.workers.isRunning with
    | true => simp [step, asyncCall, hl, hr, ThreadPool.putTask, hq]
    | false => simp [step, asyncCall, hl, hr]
  · exact enabled_of_step (e := .endIteration) hended rfl (by simp [step, endIteration, hl])

/-- A step of `ConsumeLoop` outside of `PutTask` moves it, or ends the
process. -/
theorem loop_of_actor (h : Step folly conf s e s') (hactor : actor e = some (.caller ()))
    (hput : ∀ reqmsg, s.loop ≠ .putting reqmsg) : s'.loop ≠ s.loop ∨ s'.ended ≠ none := by
  cases h with
  | test hl =>
      refine .inl ?_
      show (if s.isRunning then LoopPc.consuming else .left) ≠ _
      rw [hl]
      split <;> nofun
  | asyncCall hl | endIteration hl =>
      refine .inl ?_
      rw [hl]
      nofun
  | notStarted => exact .inr nofun
  | putWait hl | putDone hl => exact absurd hl (hput _)
  | @pool e workers he =>
      cases e with
      | callerSection => cases he
      | _ => cases hactor
  | _ => cases hactor

/-- `main` waits in `join()` until `ConsumeLoop` has left. -/
theorem joining_step (hm : s.main = .joining) (h : Step folly conf s e s') :
    s'.main = .joining ∨ s.loop = .left ∧ s'.main = .stopping := by
  cases h with
  | start hm' | spawn hm' | stop hm' => cases hm.symm.trans hm'
  | join _ hl => exact .inr ⟨hl, rfl⟩
  | _ => exact .inl hm

/-- `main` stays in the `Stop` of the pool. -/
theorem stopping_step (hm : s.main = .stopping) (h : Step folly conf s e s') :
    s'.main = .stopping := by
  cases h with
  | start hm' | spawn hm' | stop hm' | join hm' => cases hm.symm.trans hm'
  | _ => exact hm

/-- While the pool runs, `main` takes no step in it. -/
theorem stopping_of_owner (hm : s.main = .joining) (ho : s.workers.owner = .started)
    (h : Step folly conf s e s') (hactor : actor e = some .owner) : s'.main = .stopping := by
  cases h with
  | spawn hm' => cases hm.symm.trans hm'
  | join => rfl
  | pool _ hw =>
      have hable := ThreadPool.able_of_step (ThreadPool.step_cases hw) hactor
      simp [ThreadPool.able, ho] at hable
  | _ => cases hactor

/-- In the `Stop` of the pool, the steps of the pool are those of its
threads, or wake-ups that nobody caused. -/
theorem actor_of_poolEvent (hm : s.main = .stopping) (hl : s.loop = .left)
    (h : Step folly conf s e s') (hspurious : ∀ t, e ≠ .pool (.spurious t))
    {e' : ThreadPool.Event n Unit Nat} (hevent : poolEvent s e = some e') :
    ThreadPool.actor e' ≠ none := by
  cases h with
  | start hm' | join hm' => cases hm.symm.trans hm'
  | asyncCall hl' | notStarted hl' | putWait hl' | putDone hl' => cases hl.symm.trans hl'
  | pool he =>
      cases hevent
      cases e' with
      | start | stop | putTask => cases he
      | spurious t => exact absurd rfl (hspurious t)
      | _ => nofun
  | runTask =>
      cases hevent
      nofun
  | _ => cases hevent

section

variable {x : Execution (system folly conf n)}

theorem stopping_always {i j : Nat} (hij : i ≤ j) (hm : (x.state i).main = .stopping) :
    (x.state j).main = .stopping :=
  Execution.always_from (x := x) (P := fun s => s.main = .stopping) hm
    (fun k e _ he hk => stopping_step hk (step_cases (x.steps k e he)).2) hij

/-- `ConsumeLoop` leaves. The induction is on the steps that it has
left: each of its places is passed by its own steps, but for the wait
for a message and the wait for a slot, which end by themselves. -/
theorem joining_leadsTo_left (hn : 0 < n) (hgoes : ∀ i, (x.state i).ended = none)
    (hfair : x.WeaklyFair fun e => actor e = some (.caller ()))
    (hpoolFair : ∀ t, (pool x).WeaklyFair fun e => ThreadPool.actor e = some t)
    (hconsume : x.LeadsTo (fun s => s.loop = .consuming)
      fun s => s.loop ≠ .consuming ∨ s.ended ≠ none) :
    x.LeadsTo (fun s => s.main = .joining) fun s => s.loop = .left := by
  intro i hi
  by_contra hnever
  have hnot : ∀ j, i ≤ j → (x.state j).loop ≠ .left := fun j hij hl => hnever ⟨j, hij, hl⟩
  have hmain : ∀ j, i ≤ j → (x.state j).main = .joining := by
    intro j hij
    refine Execution.always_from (x := x) (P := fun s => s.main = .joining) hi
      (fun k e hik he hk => ?_) hij
    exact (joining_step hk (step_cases (x.steps k e he)).2).resolve_right fun h => hnot k hik h.1
  -- So the pool is not stopped.
  have hopen : ∀ j, (pool x).event j ≠ some .stop := by
    intro j hj
    obtain ⟨e, he, hevent⟩ := Option.bind_eq_some_iff.mp hj
    obtain ⟨-, -, hl, hm⟩ := join_of_poolEvent (step_cases (x.steps j e he)).2 hevent
    rcases Nat.lt_or_ge j i with hlt | hge
    · cases (stopping_always hlt hm).symm.trans hi
    · exact hnot j hge hl
  -- `ConsumeLoop` stays at one place in the end.
  obtain ⟨j, hij, hsame⟩ := Execution.stable_of_rank (x := x) State.loop LoopPc.toLeave
    (i := i) fun j e hij he => toLeave_step (reachable_spawned (x.reachable j))
      (by rw [hmain j hij]; rfl) (step_cases (x.steps j e he)).2
  -- There it waits for Kafka or for the pool, or it can go on.
  have hwaits : ¬ ((x.state j).loop = .loop ∨ (∃ reqmsg, (x.state j).loop = .calling reqmsg) ∨
      ∃ reqmsg, (x.state j).loop = .ending reqmsg) := by
    intro hgo
    obtain ⟨k, e, hjk, hactor, he⟩ := hfair j fun k hjk => enabled_loop (x.reachable k) (hgoes k)
      (by rwa [hsame k hjk])
    rcases loop_of_actor (step_cases (x.steps k e he)).2 hactor (by
      intro reqmsg hput
      rw [← hsame k hjk, hput] at hgo
      simp at hgo) with hmoves | hended
    · exact hmoves ((hsame (k + 1) (Nat.le_succ_of_le hjk)).trans (hsame k hjk).symm)
    · exact hended (hgoes (k + 1))
  have hsp := reachable_spawned (x.reachable j)
  cases hl : (x.state j).loop with
  | left => exact hnot j hij hl
  | loop | calling | ending => exact hwaits (by simp [hl])
  | unborn =>
      have hm := hsp.born hl
      rw [hmain j hij] at hm
      rcases hm with hm | hm <;> cases hm
  | consuming =>
      obtain ⟨k, hjk, hk | hended⟩ := hconsume j hl
      · exact hk ((hsame k hjk).trans hl)
      · exact hended (hgoes k)
  | putting reqmsg =>
      have hstarted := hsp.started (.inr (hmain j hij))
      have hstart : ((pool x).state j).owner ≠ .idle := fun hidle => by
        cases hstarted.symm.trans hidle
      obtain ⟨k, hjk, hout⟩ := ThreadPool.putTask_leadsTo_returned hn (by decide) hpoolFair hopen
        () j ⟨ThreadPool.open_of_start hopen hstart, hstarted⟩
      have hput := (reachable_offered (x.reachable k)).2.1.put
      rw [hsame k hjk, hl] at hput
      change (x.state k).workers.queue.pos (.caller ()) = .outside at hout
      rw [hout] at hput
      cases hput

/-- `Stop` goes on to the pool. The thread that it joins has left, so
the join stays there to return. -/
theorem left_leadsTo_stopping (hgoes : ∀ i, (x.state i).ended = none)
    (hfair : x.WeaklyFair fun e => actor e = some .owner) :
    x.LeadsTo (fun s => s.main = .joining ∧ s.loop = .left) fun s => s.main = .stopping := by
  refine hfair.leadsTo ?_ ?_ ?_
  · intro i e he ⟨hm, hl⟩
    have hstep := (step_cases (x.steps i e he)).2
    refine (joining_step hm hstep).imp (fun hm' => ⟨hm', ?_⟩) And.right
    rcases toLeave_step (reachable_spawned (x.reachable i)) (by rw [hm]; rfl) hstep with hsame | hlt
    · exact hsame.trans hl
    · rw [hl] at hlt
      exact absurd hlt (Nat.not_lt_zero _)
  · intro i e he hactor ⟨hm, hl⟩
    exact stopping_of_owner hm ((reachable_spawned (x.reachable i)).started (.inr hm))
      (step_cases (x.steps i e he)).2 hactor
  · intro i ⟨hm, hl⟩
    have hstarted := (reachable_spawned (x.reachable i)).started (.inr hm)
    exact enabled_of_step (e := .join) (hgoes i) rfl
      (by simp [step, join, hm, hl, ThreadPool.stop, hstarted])

/-- From its call on, `Stop` comes to the pool. `ConsumeLoop` leaves
after its iteration, whose `put` finds a place because the workers
take. -/
theorem hasStopped_leadsTo_stopping (hn : 0 < n) (hgoes : ∀ i, (x.state i).ended = none)
    (hfair : ∀ t, x.WeaklyFair fun e => actor e = some t)
    (hpoolFair : ∀ t, (pool x).WeaklyFair fun e => ThreadPool.actor e = some t)
    (hconsume : x.LeadsTo (fun s => s.loop = .consuming)
      fun s => s.loop ≠ .consuming ∨ s.ended ≠ none) :
    x.LeadsTo (fun s => s.main.hasStopped = true) fun s => s.main = .stopping := by
  intro i hstop
  cases hm : (x.state i).main with
  | stopping => exact ⟨i, Nat.le_refl i, hm⟩
  | joining =>
      obtain ⟨j, hij, hl⟩ := joining_leadsTo_left hn hgoes (hfair (.caller ())) hpoolFair hconsume
        i hm
      have hmain : (x.state j).main = .joining ∨ (x.state j).main = .stopping := by
        refine Execution.always_from (x := x)
          (P := fun s => s.main = .joining ∨ s.main = .stopping) (.inl hm)
          (fun k e _ he hk => ?_) hij
        have hstep := (step_cases (x.steps k e he)).2
        rcases hk with hk | hk
        · exact (joining_step hk hstep).imp id And.right
        · exact .inr (stopping_step hk hstep)
      rcases hmain with hjoining | hstopping
      · obtain ⟨k, hjk, hk⟩ := left_leadsTo_stopping hgoes (hfair .owner) j ⟨hjoining, hl⟩
        exact ⟨k, hij.trans hjk, hk⟩
      · exact ⟨j, hij, hstopping⟩
  | idle | starting | started =>
      rw [hm] at hstop
      cases hstop

end

/-! ### The end of `Stop` -/

/-- `ConsumeLoop` has left, and `Stop` has returned or is wedged in
the pool. -/
structure Settled (s : State n) : Prop where
  main : s.main = .stopping
  loop : s.loop = .left
  pool : s.workers.owner = .stopped ∨ ThreadPool.Wedged s.workers

/-- Where the process goes on, the consumer comes to rest. The loop
leaves, `Stop` comes to the pool, and the pool comes to rest. -/
theorem settled_of_hasStopped (hn : 0 < n) {x : Execution (system folly conf n)}
    (hgoes : ∀ i, (x.state i).ended = none)
    (hfair : ∀ t, x.WeaklyFair fun e => actor e = some t)
    (hcall : ∀ u, x.LeadsTo (fun s => s.call u ≠ none)
      fun s => s.call u = some .returned ∨ s.ended ≠ none)
    (hconsume : x.LeadsTo (fun s => s.loop = .consuming)
      fun s => s.loop ≠ .consuming ∨ s.ended ≠ none)
    {i m : Nat} (hstop : (x.state i).main.hasStopped = true)
    (hown : ∀ j t, m ≤ j → x.event j ≠ some (.pool (.spurious t))) :
    ∃ j, i ≤ j ∧ ∀ k, j ≤ k → Settled (x.state k) := by
  have hpoolFair := pool_fair hgoes hfair hcall
  obtain ⟨j₁, h₁, hm⟩ := hasStopped_leadsTo_stopping hn hgoes hfair hpoolFair hconsume i hstop
  have hmain : ∀ j, j₁ ≤ j → (x.state j).main = .stopping := fun j hj => stopping_always hj hm
  have hloop : ∀ j, j₁ ≤ j → (x.state j).loop = .left := fun j hj =>
    (reachable_offered (x.reachable j)).2.1.left (hmain j hj)
  -- From there on nobody calls the pool.
  have hpoolOwn : ∀ j e, max j₁ m ≤ j → (pool x).event j = some e → ThreadPool.actor e ≠ none := by
    intro j e hj hevent
    obtain ⟨e', he', hevent⟩ := Option.bind_eq_some_iff.mp hevent
    have hj₁ := (Nat.le_max_left j₁ m).trans hj
    refine actor_of_poolEvent (hmain j hj₁) (hloop j hj₁) (step_cases (x.steps j e' he')).2
      (fun t heq => ?_) hevent
    exact hown j t ((Nat.le_max_right j₁ m).trans hj) (heq ▸ he')
  obtain ⟨j, hj, hrests, -, hends⟩ := ThreadPool.rest_of_hasStopped hpoolFair
    ((reachable_spawned (x.reachable j₁)).stopped hm) hpoolOwn
  refine ⟨j, h₁.trans hj, fun k hk => ⟨hmain k (hj.trans hk), hloop k (hj.trans hk), ?_⟩⟩
  have hsame : (x.state k).workers = (x.state j).workers := hrests k hk
  rw [hsame]
  exact hends

/-- In every execution of a consumer with workers in which every
thread that stays able to run runs in the end, every `Call` and every
wait for a message comes to an end, and from some point on there are
no spurious wake-ups, the process, once `Stop` has been called, ends
or comes to rest: `Stop` has returned, or it is wedged in the pool.

The last case is the one of `Bigpipe.Proofs.ThreadPoolStop`, and it
can happen with a single caller as well. -/
theorem comesToRest (hn : 0 < n) (x : Execution (system folly conf n))
    (hfair : ∀ t, x.WeaklyFair fun e => actor e = some t)
    (hcall : ∀ u, x.LeadsTo (fun s => s.call u ≠ none)
      fun s => s.call u = some .returned ∨ s.ended ≠ none)
    (hconsume : x.LeadsTo (fun s => s.loop = .consuming)
      fun s => s.loop ≠ .consuming ∨ s.ended ≠ none)
    {i m : Nat} (hstop : (x.state i).main.hasStopped = true)
    (hown : ∀ j t, m ≤ j → x.event j ≠ some (.pool (.spurious t))) :
    ∃ j, i ≤ j ∧ ∀ k, j ≤ k → (x.state k).ended ≠ none ∨ Settled (x.state k) := by
  by_cases hends : ∃ j, (x.state j).ended ≠ none
  · obtain ⟨j, hj⟩ := hends
    exact ⟨max i j, Nat.le_max_left i j, fun k hk =>
      .inl (ended_always ((Nat.le_max_right i j).trans hk) hj)⟩
  have hgoes : ∀ j, (x.state j).ended = none := fun j => by
    by_contra hended
    exact hends ⟨j, hended⟩
  obtain ⟨j, hij, hsettled⟩ := settled_of_hasStopped hn hgoes hfair hcall hconsume hstop hown
  exact ⟨j, hij, fun k hk => .inr (hsettled k hk)⟩

/-- `Stop` is called while `ConsumeLoop` waits for a message, which is
the end of the partition. The workers leave on the cleared flag. -/
def stopWaiting : List (Event 2) :=
  spawned ++
  [.stop, .consume none fun _ => none, .join, .pool .stopPut, .pool (.stopSection none),
   .pool (.test ThreadPool.worker₀), .pool .join, .pool .stopPut, .pool (.stopSection none),
   .pool (.test ThreadPool.worker₁), .pool .join]

/-- `comesToRest` in the execution that takes the steps of
`stopWaiting` and then stays. -/
theorem comesToRest_stopWaiting :
    ∃ (x : Execution (system compactFolly oneAttempt 2)) (j : Nat),
      (x.state 7).main.hasStopped = true ∧ 7 ≤ j ∧
        ∀ k, j ≤ k → (x.state k).ended ≠ none ∨ Settled (x.state k) := by
  obtain ⟨s₁, s, hrun₁, hstop, hrun, hmain, hloop, hcall, hable⟩ : ∃ s₁ s : State 2,
      (system compactFolly oneAttempt 2).run (initial false) (stopWaiting.take 7) = some s₁ ∧
      s₁.main.hasStopped = true ∧
      (system compactFolly oneAttempt 2).run (initial false) stopWaiting = some s ∧
      s.main = .stopping ∧ s.loop = .left ∧ (∀ u, (s.call u).isNone = true) ∧
      ∀ t, ThreadPool.able s.workers t = false :=
    ⟨_, _, rfl, rfl, rfl, rfl, rfl, by decide, by decide⟩
  have hsome := Option.isSome_of_eq_some hrun
  let x : Execution (system compactFolly oneAttempt 2) :=
    Execution.ofRun (initial false) ⟨false, rfl⟩ stopWaiting hsome
  have hnone : ∀ u i, (x.state i).call u = none := fun u i =>
    Option.isNone_iff_eq_none.mp (of_decide_eq_true (Execution.ofRun_all hsome
      (p := fun s => decide (∀ u, (s.call u).isNone = true)) (by decide) i) u)
  -- `ConsumeLoop` has left in the last state, so the hypothesis on it
  -- holds.
  have hconsume : x.LeadsTo (fun s => s.loop = .consuming)
      fun s => s.loop ≠ .consuming ∨ s.ended ≠ none := by
    intro i _
    have hlast : x.state (max i stopWaiting.length) = s :=
      Execution.ofRun_last hsome hrun (Nat.le_max_right _ _)
    refine ⟨max i stopWaiting.length, Nat.le_max_left _ _, .inl ?_⟩
    rw [hlast, hloop]
    nofun
  have hstate : x.state 7 = s₁ := Execution.ofRun_state hsome hrun₁
  have hstop' : (x.state 7).main.hasStopped = true := by rw [hstate, hstop]
  obtain ⟨j, hj, hends⟩ := comesToRest Nat.zero_lt_two x
    (fun t => Execution.weaklyFair_ofRun hsome hrun (not_enabled_of_rest (.inr hmain) (.inr hloop)
      (fun u => Option.isNone_iff_eq_none.mp (hcall u)) hable t))
    (fun u i hi => absurd (hnone u i) hi) hconsume hstop' (m := 0)
    fun i t _ heq => absurd (List.mem_of_getElem? heq) (by simp [stopWaiting, spawned])
  exact ⟨x, j, hstop', hj, hends⟩

end Bigpipe.KafkaConsumer
