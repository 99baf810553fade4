import Bigpipe.Lib.Fairness
import Bigpipe.Lib.Settling
import Bigpipe.Proofs.ProducerLifecycle
import Bigpipe.Proofs.Takers

/-!
# `Bigpipe.Proofs.ProducerReturns`: how the process comes to rest

After `acceptor.Stop()` no new request comes in, and after the call of
`producer.Stop()` the thread in `Pushing` takes at most one more
message. So the threads take finitely many steps, but for one loop: at
the end of `producer.Stop()`, `main` asks the Kafka client for the
length of its out queue again and again, as long as it is positive.
When that queue empties is up to the client and its brokers, and
nothing is assumed of it: that it never does is an outcome of its own.

A handler whose `put` found the channel full sleeps for good once
`Pushing` has left. It does not keep the process from coming to rest.
It only never answers.

The rank is the one of `Bigpipe.Proofs.ThreadPoolReturns`, with
handlers for the callers and `Pushing` for the workers. A round of the
loop over the out queue is the one step of a thread that does not
lower it, and it changes nothing at all. So where the rank has stopped
falling the state stays, and the only thread that may still move is
`main` in that loop.

* `rank_step`: each step of a thread lowers `rank`, but for a round of
  that loop, which changes nothing.
* `settled_of_quiet`: what a state is like in which no thread can take
  a step.
* `flushes_of_stable`: where the state stays while `main` is in the
  loop, each of its tests finds the out queue filled.
* `settles`: every fair execution ends in one of the two ways, or by a
  crash.
-/

set_option autoImplicit false

namespace Bigpipe.Main

open Bigpipe.Lib
open Bigpipe.Lib.System (Execution)
open Bigpipe.Acceptor (HandlerPc requestFile topicAcl)
open Bigpipe.BoundedBlockingQueue (queue)
open Bigpipe.KafkaProducer (PushingPc)

variable {lib : Libraries} {topics : Topics} {H : Type} {cap : Nat}

/-- The thread that takes a step. New requests and spurious wake-ups
come from outside. -/
def actor : Event H → Option (Tid H)
  | .test | .takeSection _ | .push _ _ => some .pushing
  | .fullSection h _ | .put h | .putSection h _ => some (.handler h)
  | .start | .setRunning | .serve | .close | .stop | .stopPut | .stopSection _ | .join
  | .flush _ => some .main
  | .request _ _ _ _ | .spurious _ => none

/-! ### The rank -/

/-- The steps that `Pushing` has left outside the channel once the
flag is cleared. -/
def pushingWeight : PushingPc → Nat
  | .taken _ => 2
  | .loop => 1
  | .unborn | .taking | .left => 0

/-- The steps that a handler has left outside the channel. Its call of
`put` weighs more than what the call adds to the weight of the
channel. -/
def handlerWeight : HandlerPc → Nat
  | .checking _ _ => 3
  | .free _ _ => 5
  | .idle | .putting _ _ => 0

/-- The steps that `main` has left outside the channel, with room for
the weight that the call of `put` adds to the channel. The flush loop
has weight 1 however often it is gone through. -/
def MainPc.weight : MainPc → Nat
  | .stopPut => 8
  | .stopPutting => 3
  | .stopJoin => 2
  | .flushing => 1
  | .idle | .spawned | .started | .serving | .closed | .stopped => 0

variable [DecidableEq H] [Fintype H]

/-- The steps that the threads have left after the call of
`producer.Stop()`. The last summand makes a crash lower it as well. -/
def rank (s : State H cap) : Nat :=
  Monitor.weight s.taskchan + ∑ h, handlerWeight (s.handler h) + pushingWeight s.pushing +
    s.main.weight + (!s.crashed).toNat

variable {s s' : State H cap} {e : Event H}

/-- A handler that moves takes from the weight of the channel, or
gives to it, less than what its own steps weigh. -/
theorem rank_handler {h : H} {pc : HandlerPc} {q : Channel H cap}
    (hlt : Monitor.weight q + handlerWeight pc <
      Monitor.weight s.taskchan + handlerWeight (s.handler h)) :
    rank { s.setHandler h pc with taskchan := q } < rank s := by
  have hhandler : ∑ k, handlerWeight ((s.setHandler h pc).handler k) + handlerWeight (s.handler h) =
      ∑ k, handlerWeight (s.handler k) + handlerWeight pc := sum_move handlerWeight s.handler h pc
  show Monitor.weight q + ∑ k, handlerWeight ((s.setHandler h pc).handler k) + _ + _ + _ <
    Monitor.weight s.taskchan + ∑ k, handlerWeight (s.handler k) + _ + _ + _
  refine Nat.add_lt_add_right (Nat.add_lt_add_right (Nat.add_lt_add_right ?_ _) _) _
  omega

/-- The step lemma: after the call of `producer.Stop()`, every step of
a thread lowers the rank, or `main` finds the out queue filled and
nothing changes. -/
theorem rank_step (hinv : Inv topics s) (hcrashed : s.crashed = false)
    (hstop : s.main.beforeStop = false) (hab : s'.taskchan.aborted = false)
    (h : Step lib s e s') (he : actor e ≠ none) :
    rank s' < rank s ∨ s' = s ∧ s.main = .flushing ∧ ∃ length, 0 < length ∧ e = .flush length := by
  cases h with
  -- The flush that finds a queue with messages is the one step that changes
  -- nothing.
  | flushWait hm hl => exact .inr ⟨rfl, hm, _, hl, rfl⟩
  -- Neither is a step of the process's own threads.
  | request | spurious => exact absurd rfl he
  -- Main is past its call of `Stop`, so these guards fail.
  | start hm | setRunning hm | serve hm | close hm | stop hm =>
      rw [hm] at hstop
      cases hstop
  -- Once the flag is clear, Pushing takes no further message.
  | take hp hr => exact absurd hr (not_running hinv hstop)
  | stopPut hm hq =>
      have hchan := Monitor.weight_call hq
      left
      simp only [rank, hm, MainPc.weight]
      omega
  | stopPutDone hm hq =>
      have hchan := Monitor.weight_acquire_returned hq
      left
      simp only [rank, hm, MainPc.weight]
      omega
  | join hm | flushed hm =>
      left
      simp only [rank, hm, MainPc.weight]
      omega
  -- Pushing goes round at most once more: each position weighs less than the
  -- last.
  | leave hp | skip hp | produce hp =>
      left
      simp only [rank, hp, pushingWeight]
      omega
  | crash =>
      left
      simp only [rank, hcrashed, Bool.not_true, Bool.not_false, Bool.toNat_true, Bool.toNat_false]
      omega
  | takeDone hp hq =>
      have hchan := Monitor.weight_acquire_returned hq
      left
      simp only [rank, hp, pushingWeight]
      omega
  -- A section makes the channel lighter, also one that ends asleep.
  | stopWait _ hq | takeWait _ hq | fullWait _ hq | putWait _ hq =>
      have hchan := Monitor.weight_acquire hq hab
      left
      simp only [rank]
      omega
  -- A handler that leaves its section is nearer to its answer, and the
  -- channel is no heavier.
  | @full h q pick reqmsg resp hh hq | @putDone h q pick reqmsg resp _ hh hq =>
      have hchan := Monitor.weight_acquire_returned hq
      left
      show rank { s.setHandler h .idle with taskchan := q } < rank s
      refine rank_handler ?_
      rw [hh, handlerWeight, handlerWeight]
      omega
  | free hh hq =>
      have hchan := Monitor.weight_acquire_returned hq
      refine .inl (rank_handler ?_)
      rw [hh, handlerWeight, handlerWeight]
      omega
  | put hh hq =>
      have hchan := Monitor.weight_call hq
      refine .inl (rank_handler ?_)
      rw [hh, handlerWeight, handlerWeight]
      omega

/-! ### The states in which no thread can take a step -/

/-- No thread but `main` can go on: `Pushing` has left, and every
handler has answered its request or sleeps in its `put` beside the
full channel. -/
structure Rested (s : State H cap) : Prop where
  pushing : s.pushing = .left
  handler : ∀ h, s.handler h = .idle ∨ ∃ reqmsg resp, s.handler h = .putting reqmsg resp ∧
    s.taskchan.pos (.handler h) = .asleep (.put reqmsg) ∧ s.taskchan.data.isFull = true

/-- `main` cannot go on either: `Stop` has returned or sleeps in its
`put`. -/
structure Settled (s : State H cap) : Prop extends Rested s where
  main : s.main = .stopped ∨ Abandoned s

/-- `main` waits for good for the out queue of the Kafka client: it
tests its length again and again, and the length is never 0. The
length is the parameter of the event, so it is whatever the client
says. -/
def Flushes (x : Execution (system lib topics H cap)) (i : Nat) : Prop :=
  (∀ j, i ≤ j → (x.state j).main = .flushing) ∧
    ∀ j, i ≤ j → ∃ k length, j ≤ k ∧ 0 < length ∧ x.event k = some (.flush length)

/-- A thread that can run its lock section is enabled. What the
section ends in is not asked here, only that it can be entered. -/
theorem enabled_of_runnable (hreach : (system lib topics H cap).Reachable s)
    (hcrashed : s.crashed = false) {t : Tid H} {m : BoundedBlockingQueue.Call RequestMessage}
    (hrun : (s.taskchan.pos t).runnable = some m) :
    (system lib topics H cap).Enabled (fun e => actor e = some t) s := by
  have hinv := reachable_inv hreach
  have hab := BoundedBlockingQueue.not_aborted (channelSimulation.reachable hreach)
  have hwithin := Monitor.Pos.within_of_runnable hrun
  obtain ⟨pick, ⟨q, o⟩, hq⟩ := Monitor.exists_acquire (M := queue RequestMessage cap) hab hrun
  -- The position in the monitor names the call, and the call names the
  -- section the thread is in.
  cases t with
  | pushing =>
      rw [hinv.pushing] at hwithin
      cases hp : s.pushing with
      | taking => exact ⟨.takeSection pick, rfl, by simp [system, hcrashed, takeSection, hp, hq]⟩
      | _ => rw [hp] at hwithin; cases hwithin
  | handler h =>
      rw [hinv.handler] at hwithin
      cases hh : s.handler h with
      | checking =>
          exact ⟨.fullSection h pick, rfl, by simp [system, hcrashed, fullSection, hh, hq]⟩
      | putting =>
          exact ⟨.putSection h pick, rfl, by simp [system, hcrashed, putSection, hh, hq]⟩
      | _ => rw [hh] at hwithin; cases hwithin
  | main =>
      rw [hinv.main] at hwithin
      cases hm : s.main with
      | stopPutting =>
          exact ⟨.stopSection pick, rfl, by simp [system, hcrashed, stopSection, hm, hq]⟩
      | _ => rw [hm] at hwithin; cases hwithin

/-- Where nobody is at the mutex and no handler can take a step, the
handlers are idle or sleep beside the full channel. A free slot would
be announced to one of those that sleep. -/
theorem handler_of_quiet (hreach : (system lib topics H cap).Reachable s)
    (hcrashed : s.crashed = false) (hrest : ∀ t m, (s.taskchan.pos t).runnable ≠ some m)
    (hquiet : ∀ h, ¬ (system lib topics H cap).Enabled (fun e => actor e = some (.handler h)) s)
    (h : H) : s.handler h = .idle ∨ ∃ reqmsg resp, s.handler h = .putting reqmsg resp ∧
      s.taskchan.pos (.handler h) = .asleep (.put reqmsg) ∧ s.taskchan.data.isFull = true := by
  have hinv := reachable_inv hreach
  have hchan := channelSimulation.reachable hreach
  have hwithin := hinv.handler h
  cases hh : s.handler h with
  | idle => exact .inl rfl
  | checking reqmsg resp =>
      rw [hh] at hwithin
      -- `full()` has no wait, so the handler would be at the mutex.
      rcases Monitor.Pos.asleep_or_runnable hwithin with hasleep | hrun
      · exact absurd rfl (Monitor.Reachable.waitsOn_of_asleep hchan hasleep)
      · exact absurd hrun (hrest _ _)
  | free reqmsg resp =>
      rw [hh] at hwithin
      obtain ⟨q, hq⟩ :=
        Monitor.exists_call (BoundedBlockingQueue.not_aborted hchan) hwithin (.put reqmsg)
      exact absurd ⟨.put h, rfl, by simp [system, hcrashed, put, hh, hq]⟩ (hquiet h)
  | putting reqmsg resp =>
      rw [hh] at hwithin
      have hasleep := (Monitor.Pos.asleep_or_runnable hwithin).resolve_right (hrest _ _)
      refine .inr ⟨reqmsg, resp, rfl, hasleep, ?_⟩
      refine BoundedBlockingQueue.full_of_no_notified hchan
        ⟨_, BoundedBlockingQueue.asleepOn_notFull_iff.mpr ⟨_, _, hasleep, rfl⟩⟩ fun v hv => ?_
      obtain ⟨m, hrun, -⟩ := hv.runnable
      exact hrest v m hrun

/-- Where no thread can take a step, the process has settled, if
`producer.Stop()` has been called. `Pushing` has left then, for the
channel holds what it has not taken (`Untaken`). -/
theorem settled_of_quiet (hreach : (system lib topics H cap).Reachable s)
    (hcrashed : s.crashed = false)
    (hquiet : ∀ t, ¬ (system lib topics H cap).Enabled (fun e => actor e = some t) s)
    (hcap : 0 < cap) (hstop : s.main.beforeStop = false) : Settled s := by
  have hinv := reachable_inv hreach
  have hstep : ∀ e, actor e ≠ none → (system lib topics H cap).step s e = none := by
    intro e he
    obtain ⟨t, ht⟩ := Option.ne_none_iff_exists'.mp he
    by_contra hne
    exact hquiet t ⟨e, ht, Option.isSome_iff_ne_none.mpr hne⟩
  have hends : s.pushing = .left ∧ (s.main = .stopped ∨ Abandoned s) := by
    cases hm : s.main with
    | stopped => exact ⟨hinv.left (by rw [hm]; rfl), .inl rfl⟩
    | flushing =>
        -- `main` can always ask for the length once more.
        have hnone := hstep (.flush 0) nofun
        simp [system, hcrashed, flush, hm] at hnone
    | idle | spawned | started | serving | closed =>
        rw [hm] at hstop
        cases hstop
    | stopPut | stopPutting | stopJoin =>
        have hwedged : Wedged lib topics s := by
          refine ⟨hcrashed, by rw [hm]; rfl, fun e he => hstep e ?_⟩
          cases e <;> simp [actor, Event.ofStop, Event.ofPushing] at he ⊢
        have habandoned := (wedged_iff hcap hreach).mp hwedged
        exact ⟨habandoned.pushing, .inr habandoned⟩
  refine ⟨⟨hends.1, handler_of_quiet hreach hcrashed (fun t m hrun => ?_) fun h => hquiet _⟩,
    hends.2⟩
  exact hquiet t (enabled_of_runnable hreach hcrashed hrun)

/-- Where no other thread can take a step while `main` is in the loop,
they have come to rest. -/
theorem rested_of_flushing (hreach : (system lib topics H cap).Reachable s)
    (hcrashed : s.crashed = false) (hm : s.main = .flushing)
    (hquiet : ∀ t, t ≠ .main →
      ¬ (system lib topics H cap).Enabled (fun e => actor e = some t) s) : Rested s := by
  have hinv := reachable_inv hreach
  refine ⟨hinv.left (by rw [hm]; rfl), handler_of_quiet hreach hcrashed (fun t m hrun => ?_)
    fun h => hquiet _ nofun⟩
  by_cases ht : t = .main
  · -- `main` is in no call of the channel.
    have hwithin := Monitor.Pos.within_of_runnable hrun
    rw [ht, hinv.main, hm] at hwithin
    cases hwithin
  · exact hquiet t ht (enabled_of_runnable hreach hcrashed hrun)

/-! ### Executions -/

/-- After `acceptor.Stop()`, `main` calls `producer.Stop()`. -/
theorem closed_step (hm : s.main = .closed) (h : Step lib s e s') :
    s'.main = .closed ∧ actor e ≠ some .main ∨ s'.main.beforeStop = false := by
  cases h with
  | stop => exact .inr rfl
  | start hm' | setRunning hm' | serve hm' | close hm' | stopPut hm' | stopWait hm'
  | stopPutDone hm' | join hm' | flushWait hm' | flushed hm' => cases hm.symm.trans hm'
  | _ => exact .inl ⟨hm, nofun⟩

theorem closed_leadsTo {x : Execution (system lib topics H cap)}
    (hfair : x.WeaklyFair fun e => actor e = some .main) :
    x.LeadsTo (fun s => s.main = .closed)
      fun s => s.crashed = true ∨ s.main.beforeStop = false := by
  have hcalls : x.LeadsTo (fun s => s.crashed = false ∧ s.main = .closed)
      fun s => s.crashed = true ∨ s.main.beforeStop = false := by
    -- Nothing but main leaves `closed`, its own step is the call of `Stop`,
    -- and that call is always there to take.
    refine hfair.leadsTo ?_ ?_ ?_
    · intro i e he ⟨_, hm⟩
      rcases closed_step hm (step_cases (x.steps i e he)).2 with ⟨hm', -⟩ | hstop
      · by_cases hcrashed : (x.state (i + 1)).crashed = true
        · exact .inr (.inl hcrashed)
        · exact .inl ⟨Bool.eq_false_of_not_eq_true hcrashed, hm'⟩
      · exact .inr (.inr hstop)
    · intro i e he hactor ⟨_, hm⟩
      rcases closed_step hm (step_cases (x.steps i e he)).2 with ⟨-, hne⟩ | hstop
      · exact absurd hactor hne
      · exact .inr hstop
    · intro i ⟨hcrashed, hm⟩
      exact ⟨.stop, rfl, by simp [system, hcrashed, stop, hm]⟩
  intro i hm
  cases hcrashed : (x.state i).crashed with
  | true => exact ⟨i, Nat.le_refl i, .inl hcrashed⟩
  | false => exact hcalls i ⟨hcrashed, hm⟩

/-- A state in which the process has ended stays. -/
theorem state_of_crashed {x : Execution (system lib topics H cap)} {i j : Nat}
    (hcrashed : (x.state i).crashed = true) (hij : i ≤ j) : (x.state j).crashed = true := by
  refine Execution.always_from (x := x) (P := fun s => s.crashed = true) hcrashed
    (fun l e _ he hP => ?_) hij
  rw [(step_cases (x.steps l e he)).1] at hP
  cases hP

/-- Where the state stays while `main` is in the loop, each of its
tests finds the out queue filled, and the other threads have come to
rest. -/
theorem flushes_of_stable {x : Execution (system lib topics H cap)}
    (hfair : ∀ t, x.WeaklyFair fun e => actor e = some t) {i : Nat}
    (hcrashed : (x.state i).crashed = false) (hm : (x.state i).main = .flushing)
    (hstays : ∀ j, i ≤ j → x.state j = x.state i)
    (hflush : ∀ j e, i ≤ j → x.event j = some e → ∃ length, 0 < length ∧ e = .flush length) :
    Flushes x i ∧ Rested (x.state i) := by
  have henabled : (system lib topics H cap).Enabled (fun e => actor e = some .main) (x.state i) :=
    ⟨.flush 0, rfl, by simp [system, hcrashed, flush, hm]⟩
  refine ⟨⟨fun j hj => by rw [hstays j hj, hm], fun j hj => ?_⟩, ?_⟩
  · -- `main` stays able to test, so it tests again.
    obtain ⟨k, e, hk, -, he⟩ := hfair .main j fun k hk => by rwa [hstays k (hj.trans hk)]
    obtain ⟨length, hl, rfl⟩ := hflush k e (hj.trans hk) he
    exact ⟨k, length, hk, hl, he⟩
  · refine rested_of_flushing (x.reachable i) hcrashed hm fun t ht henabled => ?_
    obtain ⟨k, e, hk, hactor, he⟩ := hfair t i fun k hk => by rwa [hstays k hk]
    obtain ⟨length, -, rfl⟩ := hflush k e hk he
    exact ht (Option.some.inj hactor).symm

/-- Once `producer.Stop()` has been called, the state stays in the
end. Then the process has crashed or settled, or `main` waits for good
for the out queue. The three are told apart by the last test of
`main`, if there is one. -/
theorem rest_of_stop (hcap : 0 < cap) {x : Execution (system lib topics H cap)}
    (hfair : ∀ t, x.WeaklyFair fun e => actor e = some t) {i m : Nat}
    (hstop : (x.state i).main.beforeStop = false)
    (hown : ∀ j e, m ≤ j → x.event j = some e → actor e ≠ none) :
    ∃ j, i ≤ j ∧ (∀ k, j ≤ k → x.state k = x.state j) ∧
      ((x.state j).crashed = true ∨ Settled (x.state j) ∨ Flushes x j ∧ Rested (x.state j)) := by
  have hstop' : ∀ {j}, i ≤ j → (x.state j).main.beforeStop = false := by
    intro j hj
    refine Execution.always_from (x := x) (P := fun s => s.main.beforeStop = false) hstop
      (fun l e _ he hP => ?_) hj
    by_contra hne
    rw [beforeStop_of_step (step_cases (x.steps l e he)).2 (Bool.eq_true_of_not_eq_false hne)] at hP
    cases hP
  have hrank : ∀ j e, max i m ≤ j → x.event j = some e →
      rank (x.state (j + 1)) < rank (x.state j) ∨ x.state (j + 1) = x.state j ∧
        (x.state j).main = .flushing ∧ ∃ length, 0 < length ∧ e = .flush length := by
    intro j e hj he
    obtain ⟨hcrashed, hstep⟩ := step_cases (x.steps j e he)
    exact rank_step (reachable_inv (x.reachable j)) hcrashed
      (hstop' ((Nat.le_max_left i m).trans hj))
      (BoundedBlockingQueue.not_aborted (channelSimulation.reachable (x.reachable (j + 1))))
      hstep (hown j e ((Nat.le_max_right i m).trans hj) he)
  -- The state changes only where the rank goes down, so it stays in the end.
  obtain ⟨j, hj, hstays⟩ := Execution.stable_of_rank (x := x) id rank fun j e hj he =>
    (hrank j e hj he).symm.imp_left And.left
  have hij := (Nat.le_max_left i m).trans hj
  refine ⟨j, hij, hstays, ?_⟩
  -- From there on `main` does nothing but test the length.
  have hflush : ∀ k e, j ≤ k → x.event k = some e →
      (x.state j).main = .flushing ∧ ∃ length, 0 < length ∧ e = .flush length := by
    intro k e hk he
    have hsame : x.state k = x.state j := hstays k hk
    have hsame' : x.state (k + 1) = x.state j := hstays (k + 1) (Nat.le_succ_of_le hk)
    rcases hrank k e (hj.trans hk) he with hlt | ⟨-, hm, hl⟩
    · rw [hsame, hsame'] at hlt
      exact absurd hlt (Nat.lt_irrefl _)
    · exact ⟨hsame ▸ hm, hl⟩
  cases hcrashed : (x.state j).crashed with
  | true => exact .inl rfl
  | false =>
      right
      by_cases hm : (x.state j).main = .flushing
      · exact .inr (flushes_of_stable hfair hcrashed hm hstays
          fun k e hk he => (hflush k e hk he).2)
      · have hquiet : ∀ k, j ≤ k → x.event k = none := by
          intro k hk
          by_contra hne
          obtain ⟨e, he⟩ := Option.ne_none_iff_exists'.mp hne
          exact hm (hflush k e hk he).1
        exact .inl (settled_of_quiet (x.reachable j) hcrashed
          (fun t => (hfair t).not_enabled hquiet) hcap (hstop' hij))

/-- In every execution in which the threads that stay able to run run
in the end, and in which there are no spurious wake-ups from some
point on, the process, once `acceptor.Stop()` has returned, comes to
rest: each request that came in is answered, or its handler sleeps for
good beside the full channel, and `producer.Stop()` has returned,
sleeps for good in its `put`, or waits for good for an out queue of
the Kafka client that is never empty when it looks. Or the process
ends by a crash.

Fairness to `main` is asked for as to the other threads. It makes
`main` test the length again and again, and says nothing about what
the tests find. -/
theorem settles (hcap : 0 < cap) (x : Execution (system lib topics H cap))
    (hfair : ∀ t, x.WeaklyFair fun e => actor e = some t) {i m : Nat}
    (hclosed : (x.state i).main = .closed)
    (hown : ∀ j e, m ≤ j → x.event j = some e → actor e ≠ none) :
    ∃ j, i ≤ j ∧ ((∀ k, j ≤ k → (x.state k).crashed = true ∨ Settled (x.state k)) ∨
      Flushes x j ∧ ∀ k, j ≤ k → Rested (x.state k)) := by
  obtain ⟨j₁, h₁, hcrashed | hstop₁⟩ := closed_leadsTo (hfair .main) i hclosed
  · exact ⟨j₁, h₁, .inl fun k hk => .inl (state_of_crashed hcrashed hk)⟩
  obtain ⟨j, hj, hstays, hends⟩ := rest_of_stop hcap hfair hstop₁ hown
  refine ⟨j, h₁.trans hj, ?_⟩
  rcases hends with hcrashed | hsettled | ⟨hflushes, hrested⟩
  · exact .inl fun k hk => .inl (hstays k hk ▸ hcrashed)
  · exact .inl fun k hk => .inr (hstays k hk ▸ hsettled)
  · exact .inr ⟨hflushes, fun k hk => hstays k hk ▸ hrested⟩

/-- After the return of `producer.Stop()`, with idle handlers, no
thread can take a step. -/
theorem not_enabled_of_stopped (hm : s.main = .stopped) (hp : s.pushing = .left)
    (hidle : ∀ h, s.handler h = .idle) (t : Tid H) :
    ¬ (system lib topics H cap).Enabled (fun e => actor e = some t) s := by
  rintro ⟨e, hactor, hsome⟩
  obtain ⟨s', hs⟩ := Option.isSome_iff_exists.mp hsome
  cases (step_cases hs).2 with
  | request | spurious => cases hactor
  | start hm' | setRunning hm' | serve hm' | close hm' | stop hm' | stopPut hm' | stopWait hm'
  | stopPutDone hm' | join hm' | flushWait hm' | flushed hm' => cases hm.symm.trans hm'
  | take hp' | leave hp' | takeWait hp' | takeDone hp' | skip hp' | crash hp' | produce hp' =>
      cases hp.symm.trans hp'
  | fullWait hh | full hh | free hh | put hh | putWait hh | putDone hh =>
      cases (hidle _).symm.trans hh

/-- A request is acknowledged, `Stop` is called, `Pushing` leaves the
message in the channel, and `Stop` returns. -/
theorem oneRequest_stopped (lib : Libraries) (topics : Topics) (fs : FileSystem)
    (headers : UnorderedMap String) (body : String) :
    ∃ es s s', (system lib topics Unit 20).run (initial topics false) es = some s' ∧
      (system lib topics Unit 20).run (initial topics false) (es.take 8) = some s ∧
      s.main = .closed ∧ es.drop 8 = .stop :: leaveBehind ∧
      s'.main = .stopped ∧ s'.pushing = .left ∧ s'.handler () = .idle :=
  ⟨oneRequest fs headers body ++ [.close] ++ .stop :: leaveBehind, _, _, rfl, rfl, rfl, rfl, rfl,
    rfl, rfl⟩

/-- `settles` in the execution that takes these steps and then
stays. -/
theorem settles_oneRequest :
    ∃ (x : Execution (system compactLibraries oneTopic Unit 20)) (i j : Nat),
      (x.state i).main = .closed ∧ i ≤ j ∧
        ((∀ k, j ≤ k → (x.state k).crashed = true ∨ Settled (x.state k)) ∨
          Flushes x j ∧ ∀ k, j ≤ k → Rested (x.state k)) := by
  have hinit : (system compactLibraries oneTopic Unit 20).init (initial oneTopic false) :=
    ⟨false, rfl⟩
  obtain ⟨es, s, s', hrun', hrun, hm, hdrop, hm', hp', hidle⟩ :=
    oneRequest_stopped compactLibraries oneTopic (requestFile topicAcl) ∅ "request.json"
  have hsome := Option.isSome_of_eq_some hrun'
  have hclosed : ((Execution.ofRun _ hinit _ hsome).state 8).main = .closed := by
    rw [Execution.ofRun_state hsome hrun, hm]
  have hown : ∀ j e, 8 ≤ j → (Execution.ofRun _ hinit _ hsome).event j = some e →
      actor e ≠ none := by
    intro j e hj he
    have hmem := Execution.ofRun_event hsome hj he
    rw [hdrop] at hmem
    simp only [leaveBehind, List.mem_cons, List.not_mem_nil, or_false] at hmem
    rcases hmem with rfl | rfl | rfl | rfl | rfl | rfl <;> nofun
  obtain ⟨j, hj, hends⟩ := settles (by decide) (Execution.ofRun _ hinit _ hsome)
    (fun t => Execution.weaklyFair_ofRun hsome hrun'
      (not_enabled_of_stopped hm' hp' (fun _ => hidle) t)) hclosed hown
  exact ⟨_, 8, j, hclosed, hj, hends⟩

end Bigpipe.Main
