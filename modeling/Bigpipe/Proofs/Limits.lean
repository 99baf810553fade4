import Bigpipe.Proofs.Config
import Bigpipe.Proofs.Consumer

/-!
# `Bigpipe.Proofs.Limits`: the limits that the workers find

`Init` makes the client of the workers from three numbers of the
configuration. Neither it nor anybody else calls `SetTokenBucket` and
`SetCircuitBreaker`.

So the client has no token bucket, whatever the configuration says,
and the assertion in front of `GetToken` fails for the first message.
The limits are found by the workers only in runs in which no worker
gets to look for them.

* `inForce_of_setters`: the two setters put the limits of a
  configuration in force.
* `findsLimits_iff`: the limits are those of the configuration where a
  worker is in `Call`, exactly when no worker comes to `Call`.
* `assertionFails`: one that does.
* `stopsAtAssertion`: no worker gets through the assertion of `Call`.
-/

set_option autoImplicit false

namespace Bigpipe.KafkaConsumer

open Bigpipe.Lib
open Bigpipe.AsyncClient (CallPc)
open Bigpipe.Client (CircuitBreaker CircuitBreakerConf)

variable {n : Nat} {folly : Folly} {config : Config} {s s' : State n} {e : Event n}

/-- The parameters of a circuit breaker, read back out of its fields.
They are what its constructor was given, since no method changes
them. -/
def parameters (breaker : CircuitBreaker) : CircuitBreakerConf where
  breakPeriod := breaker.breakPeriod
  recoverPeriod := breaker.recoverPeriod
  winSize := breaker.healthStats.maxBuckets
  minStats := breaker.healthStats.bucketThresh
  healthRate := breaker.healthStats.healthThresh

/-- The client has a token bucket of the configured rate, and a
circuit breaker exactly where the configuration has one, with its
parameters. -/
structure InForce (consumer : ConsumerConf) (client : AsyncClient) : Prop where
  rateLimit : ∃ bucket, client.rateLimit = some bucket ∧ bucket.capacity = consumer.rateLimit ∧
    bucket.tokenPerMicroSecond = consumer.rateLimit / 1000000
  circuitBreaker : client.circuitBreaker.map parameters = consumer.circuitBreakerConf

/-- The setters put the limits in force: the one of the bucket, and
that of the breaker where the configuration has one. Two calls in
`Init` would have done it. -/
theorem inForce_of_setters (config : Config) (now now' : Int) :
    let limited := (init config).setTokenBucket config.kafkaConsumer.rateLimit now
    InForce config.kafkaConsumer
      (match config.kafkaConsumer.circuitBreakerConf with
      | some conf => limited.setCircuitBreaker conf now'
      | none => limited) := by
  intro limited
  cases hconf : config.kafkaConsumer.circuitBreakerConf with
  | some conf =>
      refine ⟨⟨_, rfl, rfl, rfl⟩, ?_⟩
      rw [hconf]
      rfl
  | none =>
      refine ⟨⟨_, rfl, rfl, rfl⟩, ?_⟩
      rw [hconf]
      rfl

/-- `Init` does not. -/
theorem not_inForce_init (config : Config) : ¬ InForce config.kafkaConsumer (init config) := by
  intro h
  obtain ⟨bucket, hbucket, -⟩ := h.rateLimit
  cases hbucket

/-- Every worker in `Call` finds the limits of the configuration, and
the assertion holds: the bucket has the configured rate, and the
breaker the configured parameters, where there are any. -/
def FindsLimits (config : Config) (s : State n) : Prop :=
  ∀ i, s.call i ≠ none →
    InForce config.kafkaConsumer (init config) ∧ s.call i ≠ some .aborted

/-- So none is in `Call`. -/
theorem findsLimits_iff_outside : FindsLimits config s ↔ ∀ i, s.call i = none := by
  constructor
  · intro h i
    by_contra hcall
    exact not_inForce_init config (h i hcall).1
  · intro h i hcall
    exact absurd (h i) hcall

/-- No worker comes to `Call` in the step. A task may be put and taken
none the less. -/
def NoCall (e : Event n) : Prop :=
  ∀ i, e ≠ .call i

/-- A step from where no worker is in `Call` leads to such a state
exactly where none comes to it. -/
theorem findsLimits_step {conf : AsyncClient.Conf} (h : FindsLimits config s)
    (hs : Step folly conf s e s') : FindsLimits config s' ↔ NoCall e := by
  have houtside := findsLimits_iff_outside.mp h
  rw [findsLimits_iff_outside]
  cases hs with
  | @call i reqmsg hw hc =>
      refine iff_of_false (fun h' => ?_) fun hno => hno i rfl
      have hcall := h' i
      change Function.update s.call i _ i = none at hcall
      rw [Function.update_self] at hcall
      cases hcall
  | @gate i pc pc' g hc => exact nomatch hc.symm.trans (houtside i)
  | @attempt i k outcome hc => exact nomatch hc.symm.trans (houtside i)
  | @runTask i workers hret hw =>
      refine iff_of_true (fun j => ?_) nofun
      show Function.update s.call i none j = none
      rw [Function.update_apply]
      split
      · rfl
      · exact houtside j
  | start | spawn | stop | join | test | eof | message | malformed | throws | asyncCall
    | notStarted | putWait | putDone | endIteration | pool | read | readEnded =>
      exact iff_of_true houtside nofun

/-- In a run of a consumer after `Init`, whatever the configuration,
the workers in `Call` find its limits exactly when no worker comes to
`Call`. The condition does not mention the configuration, as no
configuration helps. -/
theorem findsLimits_iff (folly : Folly) (config : Config) (isRunning : Bool)
    (es : List (Event n)) :
    (system folly (init config).conf n).Always (FindsLimits config) (initial isRunning) es ↔
      (system folly (init config).conf n).EveryStep (fun _ e => NoCall e) (initial isRunning)
        es := by
  refine System.always_iff_everyStep (I := fun _ => True) (fun _ _ _ _ _ => trivial) ?_ es trivial
    ?_
  · intro s e s' _ h hs
    exact findsLimits_step h (step_cases hs).2
  · exact findsLimits_iff_outside.mpr fun i => rfl

/-- Every worker in `Call` is in front of the assertion, or it has
failed. -/
def AtAssertion (s : State n) : Prop :=
  ∀ i pc, s.call i = some pc → pc = .token ∨ pc = .aborted

/-- Where a worker that is there goes on. -/
theorem AtAssertion.goOn (h : AtAssertion s) {i : Fin n} {pc : CallPc}
    (hpc : pc = .token ∨ pc = .aborted) : AtAssertion (s.goOn i pc) := by
  intro j pc' hj
  change Function.update s.call i (some pc) j = some pc' at hj
  rw [Function.update_apply] at hj
  split at hj
  · cases hj
    exact hpc
  · exact h j pc' hj

/-- No step takes a worker through the assertion. The pointer of the
rate limit is null from the constructor on, and no step assigns it. -/
theorem atAssertion_step (h : AtAssertion s) (hs : Step folly (init config).conf s e s') :
    AtAssertion s' := by
  cases hs with
  | call => exact h.goOn (.inl rfl)
  | @gate i pc pc' g hc hg =>
      refine h.goOn (.inr ?_)
      rcases h i pc hc with rfl | rfl
      · cases g with
        | isBreak b => cases hg
        | getToken =>
            -- There is no token bucket, so the assertion fails.
            cases hg
            rfl
      · cases hg
  | @attempt i k outcome hc =>
      rcases h i _ hc with htoken | haborted
      · cases htoken
      · cases haborted
  | @runTask i workers hret hw =>
      intro j pc hj
      change Function.update s.call i none j = some pc at hj
      rw [Function.update_apply] at hj
      split at hj
      · cases hj
      · exact h j pc hj
  | start | spawn | stop | join | test | eof | message | malformed | throws | asyncCall
    | notStarted | putWait | putDone | endIteration | pool | read | readEnded => exact h

/-- In every run after `Init` no worker gets through the assertion of
`Call`. No request of a message is ever sent. -/
theorem stopsAtAssertion (folly : Folly) (config : Config) (isRunning : Bool)
    (es : List (Event n)) :
    (system folly (init config).conf n).Always AtAssertion (initial isRunning) es :=
  System.always_of_invariant (fun _ _ _ h hs => atAssertion_step h (step_cases hs).2)
    (fun _ h => h) es fun _ _ hpc => nomatch hpc

/-! ### A message that is dispatched -/

/-- The five workers of the file and the thread in `ConsumeLoop` are
spawned. -/
def spawnedFive : List (Event 5) :=
  [.start, .pool .spawn, .pool .spawn, .pool .spawn, .pool .spawn, .pool .spawn, .pool .spawn,
   .spawn, .test]

/-- A message is queued, and a worker takes it. -/
def dispatched : List (Event 5) :=
  [.asyncCall, .putSection none, .pool (.test 0), .pool (.workerSection 0 none), .call 0]

/-- The file is accepted, and its first message ends the process in
the assertion. -/
theorem assertionFails :
    Config.parseConfig compactFolly compactConversions Config.ordersFile "bigpipe.json"
        = .ok (some Config.ordersConfig) ∧
      (init Config.ordersConfig).nWorkers = 5 ∧
      ∃ s s', (system compactFolly (init Config.ordersConfig).conf 5).run (initial false)
          (spawnedFive ++ .consume (some "orders") payFile :: dispatched) = some s ∧
        ¬ FindsLimits Config.ordersConfig s ∧
        (system compactFolly (init Config.ordersConfig).conf 5).step s (.gate 0 .getToken)
          = some s' ∧ s'.ended = some .aborted := by
  have hspawned : (system compactFolly (init Config.ordersConfig).conf 5).run (initial false)
      spawnedFive = some _ := rfl
  refine ⟨Config.parseConfig_ordersFile, rfl, _, _, (System.run_append hspawned).trans
    ((System.run_cons (step_payFile rfl rfl)).trans rfl), fun h => ?_, rfl, rfl⟩
  exact not_inForce_init Config.ordersConfig (h 0 nofun).1

end Bigpipe.KafkaConsumer
