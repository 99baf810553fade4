import Bigpipe.Client.LimitedClient
import Bigpipe.Proofs.HealthStats
import Bigpipe.Proofs.RateLimit
import Bigpipe.Proofs.Workers

/-!
# `Bigpipe.Proofs.LimitedClient`: what the two limits do to the workers

The workers of a client share one token bucket and one circuit
breaker. `GetToken` of the bucket holds its lock while it sleeps, so
one worker that has to wait keeps the others waiting. `IsBreak` and
the reports of the attempts change the breaker.

Two views of the same workers are compared. In `limited` the bucket
and the breaker are there, with their states and the readings of the
clock. In `workers` they are not, and what they answer is up to the
event. The second is what the consumer is modelled with, and
`workers_of_limited` is the reason why it may be: whatever a run of
the first does, the second can do.

The other direction needs the bucket to let everybody through. With a
rate of at least one token a second it does, by the error in
`tryFillBucket`, and then nothing is left of the limits.

* `LimitedStep`: what a step can do, and `limited_cases` that nothing
  else happens.
* `workers_of_limited`: the workers run as `workers`, whatever their
  bucket and their breaker say.
* `neverLimits`: with a rate of at least one, no worker ever waits for
  the bucket or for the breaker, and a breaker ends what is defined in
  the first answer of the server.
* `limitsNothing`: without a breaker, the bucket takes no behaviour
  from the workers.
-/

set_option autoImplicit false

namespace Bigpipe.AsyncClient

open Bigpipe.Lib
open Bigpipe.Client (CircuitBreaker TokenBucket HealthStats)

variable {n : Nat} {client : AsyncClient} {s s' : Limited n} {e : LimitedEvent n}

/-! ### What a step can do -/

/-- The steps: one constructor for each branch of each event, with the
guard of the branch and the state after it. -/
inductive LimitedStep (s : Limited n) : LimitedEvent n → Limited n → Prop where
  | call {i : Fin n} (hc : s.call i = none) :
      LimitedStep s (.call i) (s.move i (some (call s.client.conf)))
  | isBreak {i : Fin n} {now healthNow : Int} {rand : Nat} {breaker : CircuitBreaker}
      (hc : s.call i = some .breaker) (hb : s.client.circuitBreaker = some breaker) :
      LimitedStep s (.isBreak i now healthNow rand)
        { s.move i (some (if (breaker.isBreak now healthNow rand).2 then .breaker else .token)) with
          client := { s.client with
            circuitBreaker := some (breaker.isBreak now healthNow rand).1 } }
  -- `GetToken`: no bucket, a sleep that is no `int`, a token at once, or
  -- a sleep inside it with the lock in hand.
  | aborts {i : Fin n} {now : Int} (hc : s.call i = some .token)
      (hr : s.client.rateLimit = none) :
      LimitedStep s (.getToken i now) (s.move i (some .aborted))
  | overflows {i : Fin n} {now : Int} {bucket : TokenBucket} (hs : s.sleeper = none)
      (hc : s.call i = some .token) (hr : s.client.rateLimit = some bucket)
      (ht : bucket.getToken now 1 = none) :
      LimitedStep s (.getToken i now) { s with undefined := true }
  | token {i : Fin n} {now : Int} {bucket bucket' : TokenBucket} (hs : s.sleeper = none)
      (hc : s.call i = some .token) (hr : s.client.rateLimit = some bucket)
      (ht : bucket.getToken now 1 = some (bucket', now)) :
      LimitedStep s (.getToken i now)
        { s.move i (some (retry s.client.retries 0)) with
          client := { s.client with rateLimit := some bucket' } }
  | sleeps {i : Fin n} {now time : Int} {bucket bucket' : TokenBucket} (hs : s.sleeper = none)
      (hc : s.call i = some .token) (hr : s.client.rateLimit = some bucket)
      (ht : bucket.getToken now 1 = some (bucket', time)) (hne : time ≠ now) :
      LimitedStep s (.getToken i now)
        { s with client := { s.client with rateLimit := some bucket' }, sleeper := some i }
  | slept {i : Fin n} (hs : s.sleeper = some i) :
      LimitedStep s (.slept i)
        { s.move i (some (retry s.client.retries 0)) with sleeper := none }
  -- An attempt. Its notification is not sent, is undefined behaviour, or
  -- returns.
  | silent {i : Fin n} {k now : Int} {msg : RequestMessage} {outcome : Outcome}
      (hc : s.call i = some (.attempt k))
      (hn : (attempt s.client.retries k msg outcome).notified = none) :
      LimitedStep s (.attempt i msg outcome now)
        (s.move i (some (attempt s.client.retries k msg outcome).next))
  | unrecorded {i : Fin n} {k now : Int} {msg : RequestMessage} {outcome : Outcome}
      {success : Bool} (hc : s.call i = some (.attempt k))
      (hn : (attempt s.client.retries k msg outcome).notified = some success)
      (hb : s.client.notifyCircuitBreaker success now = none) :
      LimitedStep s (.attempt i msg outcome now) { s with undefined := true }
  | recorded {i : Fin n} {k now : Int} {msg : RequestMessage} {outcome : Outcome}
      {success : Bool} {client : AsyncClient} (hc : s.call i = some (.attempt k))
      (hn : (attempt s.client.retries k msg outcome).notified = some success)
      (hb : s.client.notifyCircuitBreaker success now = some client) :
      LimitedStep s (.attempt i msg outcome now)
        { s.move i (some (attempt s.client.retries k msg outcome).next) with client }
  | next {i : Fin n} (hc : s.call i = some .returned) : LimitedStep s (.next i) (s.move i none)

/-- The token of a call: the assertion fails, the sleep does not fit
an `int`, the token is there, or the worker sleeps for it with the
lock of the bucket. -/
theorem getToken_cases {i : Fin n} {now : Int} (h : s.getToken i now = some s') :
    LimitedStep s (.getToken i now) s' := by
  unfold Limited.getToken at h
  split at h
  · rename_i hc hr
    cases h
    exact .aborts hc hr
  · rename_i bucket hc hr
    split at h
    · cases h
    -- The lock of the bucket is free: nobody sleeps inside `GetToken`.
    · rename_i hsleeper
      have hs : s.sleeper = none := by simpa using hsleeper
      split at h
      · rename_i ht
        cases h
        exact .overflows hs hc hr ht
      · rename_i bucket' time ht
        -- The deficit decides whether it sleeps with the lock in hand.
        dsimp only at h
        split at h
        · rename_i htime
          cases h
          rw [htime] at ht
          exact .token hs hc hr ht
        · rename_i hne
          cases h
          exact .sleeps hs hc hr ht hne
  · cases h

/-- An attempt and its notification. The notification is part of the
step, since the thread makes it before it looks at anything else. -/
theorem attempt_cases {i : Fin n} {msg : RequestMessage} {outcome : Outcome} {now : Int}
    (h : s.attempt i msg outcome now = some s') :
    LimitedStep s (.attempt i msg outcome now) s' := by
  unfold Limited.attempt at h
  split at h
  · rename_i k hc
    dsimp only at h
    split at h
    · rename_i hn
      cases h
      exact .silent hc hn
    · rename_i success hn
      split at h
      · rename_i hb
        cases h
        exact .unrecorded hc hn hb
      · rename_i client hb
        cases h
        exact .recorded hc hn hb
  · cases h

/-- Every step is one of the steps, taken where nothing has ended the
process and nothing is undefined. -/
theorem limited_cases (h : (limited client n).step s e = some s') :
    ¬ hasEnded s.call ∧ s.undefined = false ∧ LimitedStep s e s' := by
  simp only [limited] at h
  split at h
  · cases h
  · rename_i hend
    obtain ⟨hended, hundefined⟩ := not_or.mp hend
    refine ⟨hended, Bool.eq_false_iff.mpr hundefined, ?_⟩
    -- `getToken` and `attempt` branch on the bucket and on the breaker, and
    -- have lemmas of their own.
    cases e with
    | call i =>
        simp only [Limited.enter] at h
        split at h
        · rename_i hc
          cases h
          exact .call hc
        · cases h
    | isBreak i now healthNow rand =>
        simp only [Limited.isBreak] at h
        split at h
        · rename_i breaker hc hb
          cases h
          exact .isBreak hc hb
        · cases h
    | getToken i now => exact getToken_cases h
    | slept i =>
        obtain ⟨hs, heq⟩ := Option.ite_none_right_eq_some.mp h
        cases heq
        exact .slept hs
    | attempt i msg outcome now => exact attempt_cases h
    | next i =>
        simp only [Limited.next] at h
        split at h
        · rename_i hc
          cases h
          exact .next hc
        · cases h

/-- The call of `GetToken` where nobody sleeps in it. -/
theorem step_getToken (hlive : ¬ (hasEnded s.call ∨ s.undefined = true)) {i : Fin n}
    {now time : Int} {bucket bucket' : TokenBucket} (hs : s.sleeper = none)
    (hc : s.call i = some .token) (hr : s.client.rateLimit = some bucket)
    (ht : bucket.getToken now 1 = some (bucket', time)) :
    (limited client n).step s (.getToken i now) = some
      (if time = now then
        { s.move i (some (retry s.client.retries 0)) with
          client := { s.client with rateLimit := some bucket' } }
      else
        { s with client := { s.client with rateLimit := some bucket' }, sleeper := some i }) := by
  simp only [limited, if_neg hlive, Limited.getToken, hc, hr, hs, ht, Option.isSome_none,
    Bool.false_eq_true, if_false]
  split <;> rfl

/-! ### The workers -/

/-- What the workers do in a step. A worker that sleeps in `GetToken`
does nothing yet, and where a call is not defined nothing more is
done. -/
def limitedEvents (s : Limited n) : LimitedEvent n → List (WorkerEvent n)
  | .call i => [.call i]
  | .isBreak i now healthNow rand =>
    match s.client.circuitBreaker with
    | some breaker => [.gate i (.isBreak (breaker.isBreak now healthNow rand).2)]
    | none => []
  | .getToken i now =>
    match s.client.rateLimit with
    | none => [.gate i .getToken]
    | some bucket =>
      match bucket.getToken now 1 with
      | some (_, time) => if time = now then [.gate i .getToken] else []
      | none => []
  | .slept i => [.gate i .getToken]
  | .attempt i msg outcome now =>
    match (attempt s.client.retries 0 msg outcome).notified with
    | none => [.attempt i msg outcome]
    | some success =>
      match s.client.notifyCircuitBreaker success now with
      | some _ => [.attempt i msg outcome]
      | none => []
  | .next i => [.next i]

/-- What an attempt reports does not depend on its number. -/
theorem notified_attempt (retries k : Int) (msg : RequestMessage) (outcome : Outcome) :
    (attempt retries k msg outcome).notified = (attempt retries 0 msg outcome).notified := by
  cases outcome with
  | refused | thrown => rfl
  | status code =>
      by_cases hcode : code = 200 <;> simp [attempt, hcode]

/-- A notification changes nothing that a call looks at. -/
theorem conf_notify {success : Bool} {now : Int} {client client' : AsyncClient}
    (h : client.notifyCircuitBreaker success now = some client') : client'.conf = client.conf := by
  unfold notifyCircuitBreaker at h
  split at h
  · cases h
    rfl
  · rename_i breaker hb
    obtain ⟨breaker', -, rfl⟩ := Option.map_eq_some_iff.mp h
    simp [conf, hb]

/-- A worker that sleeps in `GetToken` is in front of its return. The
calls look at the same fields as at the start. -/
structure Sleeping (client : AsyncClient) (s : Limited n) : Prop where
  sleeper : ∀ i, s.sleeper = some i → s.call i = some .token
  conf : s.client.conf = client.conf
  bucket : s.sleeper.isSome = true → client.conf.rateLimit = true

/-- What a step does, the workers do, in one event or in none. A token
that is slept for is the workers' token when the sleep ends. -/
theorem workers_of_limitedStep (hsleep : Sleeping client s) (hended : ¬ hasEnded s.call)
    (h : LimitedStep s e s') :
    (workers client.conf n).run s.call (limitedEvents s e) = some s'.call := by
  have hconf := hsleep.conf
  have hretries : s.client.retries = client.conf.retries := congrArg Conf.retries hconf
  cases h with
  | @call i hc =>
      refine workers_one (e := .call i) hended ?_
      simp [workerStep, WorkerEvent.worker, hc, hconf]
  | @isBreak i now healthNow rand breaker hc hb =>
      simp only [limitedEvents, hb]
      refine workers_one (e := .gate i _) hended ?_
      simp [workerStep, WorkerEvent.worker, hc, gate]
  | @aborts i now hc hr =>
      simp only [limitedEvents, hr]
      refine workers_one (e := .gate i .getToken) hended ?_
      have hlimit : client.conf.rateLimit = false := by rw [← hconf]; simp [conf, hr]
      simp [workerStep, WorkerEvent.worker, hc, gate, hlimit]
  -- Undefined behaviour in `GetToken`: the step has no event of the workers.
  | @overflows i now bucket hs hc hr ht =>
      simp only [limitedEvents, hr, ht]
      rfl
  | @token i now bucket bucket' hs hc hr ht =>
      simp only [limitedEvents, hr, ht, if_true]
      refine workers_one (e := .gate i .getToken) hended ?_
      have hlimit : client.conf.rateLimit = true := by rw [← hconf]; simp [conf, hr]
      simp [workerStep, WorkerEvent.worker, hc, gate, hlimit, hretries]
  -- It goes to sleep with the token; the workers' event is the end of the
  -- sleep.
  | @sleeps i now time bucket bucket' hs hc hr ht hne =>
      simp only [limitedEvents, hr, ht, hne, if_false]
      rfl
  | @slept i hs =>
      refine workers_one (e := .gate i .getToken) hended ?_
      have hlimit := hsleep.bucket (by rw [hs]; rfl)
      simp [workerStep, WorkerEvent.worker, hsleep.sleeper i hs, gate, hlimit, hretries]
  | @silent i k now msg outcome hc hn =>
      rw [notified_attempt] at hn
      simp only [limitedEvents, hn]
      refine workers_one (e := .attempt i msg outcome) hended ?_
      simp [workerStep, WorkerEvent.worker, hc, hretries]
  -- The notification of the breaker is undefined, so the attempt never ends.
  | @unrecorded i k now msg outcome success hc hn hb =>
      rw [notified_attempt] at hn
      simp only [limitedEvents, hn, hb]
      rfl
  | @recorded i k now msg outcome success client' hc hn hb =>
      rw [notified_attempt] at hn
      simp only [limitedEvents, hn, hb]
      refine workers_one (e := .attempt i msg outcome) hended ?_
      simp [workerStep, WorkerEvent.worker, hc, hretries]
  | @next i hc =>
      refine workers_one (e := .next i) hended ?_
      simp [workerStep, WorkerEvent.worker, hc]

/-- A worker that is not the sleeping one moves. -/
theorem Sleeping.move (h : Sleeping client s) {i : Fin n} (hi : s.sleeper ≠ some i)
    (pc : Option CallPc) {client' : AsyncClient} (hconf : client'.conf = s.client.conf) :
    Sleeping client { s.move i pc with client := client' } where
  sleeper j hj := by
    have hne : j ≠ i := fun heq => hi (heq ▸ hj)
    show Function.update s.call i pc j = some .token
    rw [Function.update_of_ne hne]
    exact h.sleeper j hj
  conf := hconf.trans h.conf
  bucket := h.bucket

/-- A worker that sleeps is not elsewhere in its call. -/
theorem Sleeping.ne (h : Sleeping client s) {i : Fin n} (hi : s.call i ≠ some .token) :
    s.sleeper ≠ some i :=
  fun heq => hi (h.sleeper i heq)

/-- A step keeps this. Only `getToken` puts a worker to sleep, and
nobody else comes into it meanwhile. -/
theorem sleeping_step (hsleep : Sleeping client s) (h : LimitedStep s e s') :
    Sleeping client s' := by
  cases h with
  | call hc => exact hsleep.move (hsleep.ne (by simp [hc])) _ rfl
  | @isBreak i now healthNow rand breaker hc hb =>
      exact hsleep.move (hsleep.ne (by simp [hc])) _ (by simp [conf, hb])
  | @aborts i now hc hr =>
      -- Nobody sleeps in a bucket that is not there.
      have hnone : s.sleeper = none := by
        cases hs : s.sleeper with
        | none => rfl
        | some j =>
            have hlimit := hsleep.bucket (by rw [hs]; rfl)
            rw [← hsleep.conf] at hlimit
            simp [conf, hr] at hlimit
      exact hsleep.move (by simp [hnone]) _ rfl
  | overflows | unrecorded => exact ⟨hsleep.sleeper, hsleep.conf, hsleep.bucket⟩
  | @token i now bucket bucket' hs hc hr ht =>
      exact hsleep.move (by simp [hs]) _ (by simp [conf, hr])
  | @sleeps i now time bucket bucket' hs hc hr ht hne =>
      have hlimit : s.client.conf.rateLimit = true := by simp [conf, hr]
      refine ⟨fun j hj => ?_, ?_, fun _ => by rw [← hsleep.conf]; exact hlimit⟩
      · cases hj
        exact hc
      · rw [← hsleep.conf]
        simp [conf, hr]
  | slept hs => exact ⟨nofun, hsleep.conf, nofun⟩
  | silent hc => exact hsleep.move (hsleep.ne (by simp [hc])) _ rfl
  | recorded hc _ hb => exact hsleep.move (hsleep.ne (by simp [hc])) _ (conf_notify hb)
  | next hc => exact hsleep.move (hsleep.ne (by simp [hc])) _ rfl

/-- In every run with a bucket and a breaker, whatever they answer,
the workers run as `workers`: what they do there, they do here.

The logged events are a run of `workers` that ends where the workers
are. So what holds of every run of `workers` holds of the workers with
their limits. -/
theorem workers_of_limited {es : List (LimitedEvent n)} {events : List (WorkerEvent n)}
    (h : ((limited client n).logged limitedEvents).run (.initial client, []) es
      = some (s, events)) :
    (workers client.conf n).run (fun _ => none) events = some s.call := by
  refine (System.run_induct (I := fun p : Limited n × List (WorkerEvent n) =>
    Sleeping client p.1 ∧ (workers client.conf n).run (fun _ => none) p.2 = some p.1.call)
    ?_ ?_ h).2
  · intro p e p' _ hp hs
    obtain ⟨hsleep, hrun⟩ := hp
    obtain ⟨hstep, hlog⟩ := System.logged_step_iff.mp hs
    obtain ⟨hended, -, hcases⟩ := limited_cases hstep
    refine ⟨sleeping_step hsleep hcases, ?_⟩
    rw [hlog, System.run_append hrun]
    exact workers_of_limitedStep hsleep hended hcases
  · exact ⟨⟨nofun, rfl, nofun⟩, rfl⟩

/-- A client of one worker without retries, whose bucket gets a token
in two seconds. -/
def slowClient : AsyncClient :=
  (AsyncClient.new 1 0 100).setTokenBucket (1 / 2) 0

/-- Its bucket lets a call for one token sleep for 999999
milliseconds. -/
theorem getToken_slow :
    ∃ bucket, (TokenBucket.new (1 / 2) 0).getToken 0 1 = some (bucket, 999999000000) := by
  have hfill : ((TokenBucket.new (1 / 2) 0).tryFillBucket 0).tokenCount = 1 / 2 := by
    norm_num [TokenBucket.new, TokenBucket.tryFillBucket]
  have hwaittime : ((TokenBucket.new (1 / 2) 0).tryFillBucket 0).waittime 1 = some 999999 := by
    have hms : |((1 : Int) : ℚ) - 1 / 2 / (1 / 2 / 1000000)| = (999999 : Int) := by norm_num
    have htoken : ((TokenBucket.new (1 / 2) 0).tryFillBucket 0).tokenPerMicroSecond
        = 1 / 2 / 1000000 := rfl
    rw [TokenBucket.waittime, hfill, htoken, hms, Int.floor_intCast]
    rfl
  have hlt : ((TokenBucket.new (1 / 2) 0).tryFillBucket 0).tokenCount < (1 : Int) := by
    rw [hfill]
    norm_num
  have hget := Client.getToken_of_lt hlt
  rw [hwaittime] at hget
  exact ⟨_, hget⟩

/-- `workers_of_limited` for a worker that sleeps for its token. -/
theorem workers_of_limited_sleep :
    ∃ (s : Limited 1) (events : List (WorkerEvent 1)),
      ((limited slowClient 1).logged limitedEvents).run (.initial slowClient, [])
        [.call 0, .getToken 0 0, .slept 0] = some (s, events) ∧
      s.call 0 = some (.attempt 0) ∧
      (workers slowClient.conf 1).run (fun _ => none) events = some s.call := by
  obtain ⟨bucket, hget⟩ := getToken_slow
  obtain ⟨s, hrun, hattempt⟩ : ∃ s : Limited 1, (limited slowClient 1).run (.initial slowClient)
      [.call 0, .getToken 0 0, .slept 0] = some s ∧ s.call 0 = some (.attempt 0) := by
    have hcalled : (limited slowClient 1).run (.initial slowClient) [.call 0]
        = some ((Limited.initial slowClient).move 0 (some .token)) := rfl
    refine ⟨_, (System.run_append hcalled).trans ((System.run_cons
      (step_getToken ?_ rfl rfl rfl hget)).trans rfl), rfl⟩
    decide
  obtain ⟨events, hlogged⟩ := System.exists_logged_run limitedEvents hrun []
  exact ⟨s, events, hlogged, hattempt, workers_of_limited hlogged⟩

/-! ### A positive rate -/

/-- A client as its setters leave it: the rate is at least one token a
second, and the breaker is new where there is one. -/
structure Configured (client : AsyncClient) : Prop where
  bucket : ∃ rate start, client.rateLimit = some (TokenBucket.new rate start) ∧ 1 ≤ rate
  breaker : ∀ breaker, client.circuitBreaker = some breaker →
    ∃ conf now, breaker = CircuitBreaker.new conf now

/-- The bucket is large enough for one token, nobody sleeps in it, and
the breaker has not counted an outcome. A client that was just
configured is idle, and stays so. -/
structure Limited.Idle (client : AsyncClient) (s : Limited n) : Prop where
  awake : s.sleeper = none
  bucket : ∃ bucket, s.client.rateLimit = some bucket ∧ 1 ≤ bucket.capacity
  breaker : ∀ breaker, s.client.circuitBreaker = some breaker →
    breaker.status = .circuitNormal ∧ breaker.healthStats.buckets = []
  isSome : s.client.circuitBreaker.isSome = client.circuitBreaker.isSome

/-- At the start. -/
theorem Configured.idle (h : Configured client) :
    Limited.Idle client (.initial client : Limited n) := by
  obtain ⟨rate, start, hbucket, hrate⟩ := h.bucket
  refine ⟨rfl, ⟨_, hbucket, hrate⟩, fun breaker hb => ?_, rfl⟩
  obtain ⟨conf, now, rfl⟩ := h.breaker breaker hb
  exact ⟨rfl, rfl⟩

/-- A breaker that has counted nothing answers no, and counts
nothing. -/
theorem isBreak_empty {breaker : CircuitBreaker} (hnormal : breaker.status = .circuitNormal)
    (hempty : breaker.healthStats.buckets = []) (now healthNow : Int) (rand : Nat) :
    (breaker.isBreak now healthNow rand).2 = false ∧
      (breaker.isBreak now healthNow rand).1.status = .circuitNormal ∧
      (breaker.isBreak now healthNow rand).1.healthStats.buckets = [] := by
  have hbuckets := Client.updateBuckets_empty hempty healthNow
  have hhealth : (breaker.healthStats.isHealthy healthNow).2.1 = true := by
    simp [HealthStats.isHealthy, HealthStats.health, HealthStats.totalSuccess,
      HealthStats.totalFail, HealthStats.total, hbuckets]
  simp only [CircuitBreaker.isBreak, Client.Circuit.switchStatus, hnormal, hhealth]
  exact ⟨rfl, hnormal, hbuckets⟩

/-- It cannot count an outcome, where there is a breaker: the deque is
empty, and `back()` of an empty deque is undefined. -/
theorem notify_empty {success : Bool} {now : Int} (h : s.Idle client) :
    s.client.notifyCircuitBreaker success now = none ↔ client.circuitBreaker.isSome = true := by
  rw [← h.isSome]
  unfold notifyCircuitBreaker
  split
  · rename_i hnone
    simp [hnone]
  · rename_i breaker hb
    obtain ⟨-, hempty⟩ := h.breaker breaker hb
    have hbuckets := Client.updateBuckets_empty hempty now
    refine iff_of_true (Option.map_eq_none_iff.mpr ?_) (by simp [hb])
    cases success with
    | true | false =>
        exact Option.map_eq_none_iff.mpr (HealthStats.record_eq_none hbuckets)

/-- The server answers. -/
def LimitedEvent.answered : LimitedEvent n → Bool
  | .attempt _ _ (.status _) _ => true
  | _ => false

/-- An attempt is reported exactly where the server answers. -/
theorem isSome_notified (retries k now : Int) (i : Fin n) (msg : RequestMessage)
    (outcome : Outcome) :
    (attempt retries k msg outcome).notified.isSome
      = (LimitedEvent.attempt i msg outcome now).answered := by
  cases outcome with
  | refused | thrown => rfl
  | status code =>
      by_cases hcode : code = 200 <;> simp [attempt, hcode, LimitedEvent.answered]

/-- `Idle` looks at three fields only. -/
theorem Limited.Idle.move (h : s.Idle client) (i : Fin n) (pc : Option CallPc) :
    (s.move i pc).Idle client :=
  ⟨h.awake, h.bucket, h.breaker, h.isSome⟩

/-- What the events of a run do to an idle bucket and an idle breaker:
no answer of `IsBreak` is yes, and the run is not defined exactly
where there is a breaker and the server has answered. -/
structure Unlimited (client : AsyncClient) (es : List (LimitedEvent n))
    (p : Limited n × List (WorkerEvent n)) : Prop where
  idle : p.1.Idle client
  passes : ∀ i, .gate i (.isBreak true) ∉ p.2
  undefined : p.1.undefined = true ↔
    client.circuitBreaker.isSome = true ∧ ∃ e ∈ es, e.answered = true

/-- A step of an idle client leaves it idle. The bucket fills up to
its capacity or beyond at every call, and the breaker cannot count
anything: it has no bucket to count in. -/
theorem idle_step (h : s.Idle client) (hdef : s.undefined = false) (hs : LimitedStep s e s') :
    s'.Idle client ∧ (∀ i, .gate i (.isBreak true) ∉ limitedEvents s e) ∧
      (s'.undefined = true ↔ client.circuitBreaker.isSome = true ∧ e.answered = true) := by
  obtain ⟨bucket₀, hbucket, hcapacity⟩ := h.bucket
  -- `GetToken` returns at once.
  have htoken (now : Int) := Client.getToken_of_le_capacity now
    (show ((1 : Int) : ℚ) ≤ bucket₀.capacity by exact_mod_cast hcapacity)
  cases hs with
  | call hc =>
      exact ⟨h.move _ _, by simp [limitedEvents],
        by simp [Limited.move, hdef, LimitedEvent.answered]⟩
  | @isBreak i now healthNow rand breaker hc hb =>
      obtain ⟨hnormal, hempty⟩ := h.breaker breaker hb
      obtain ⟨hno, hnormal', hempty'⟩ := isBreak_empty hnormal hempty now healthNow rand
      refine ⟨⟨h.awake, h.bucket, ?_, ?_⟩, ?_, by simp [Limited.move, hdef, LimitedEvent.answered]⟩
      · rintro breaker' hb'
        cases hb'
        exact ⟨hnormal', hempty'⟩
      · rw [← h.isSome, hb]
        rfl
      · simp [limitedEvents, hb, hno]
  | aborts hc hr => exact nomatch hr.symm.trans hbucket
  | @overflows i now bucket hs hc hr ht =>
      obtain ⟨bucket', ht', -⟩ := htoken now
      cases hr.symm.trans hbucket
      exact nomatch ht.symm.trans ht'
  | @token i now bucket bucket' hs hc hr ht =>
      obtain ⟨bucket₁, ht', hcapacity'⟩ := htoken now
      cases hr.symm.trans hbucket
      cases ht.symm.trans ht'
      refine ⟨⟨h.awake, ⟨_, rfl, hcapacity'.symm ▸ hcapacity⟩, h.breaker, h.isSome⟩, ?_,
        by simp [Limited.move, hdef, LimitedEvent.answered]⟩
      simp [limitedEvents, hr, ht]
  | @sleeps i now time bucket bucket' hs hc hr ht hne =>
      obtain ⟨bucket₁, ht', -⟩ := htoken now
      cases hr.symm.trans hbucket
      cases ht.symm.trans ht'
      exact absurd rfl hne
  | slept hs => exact nomatch h.awake.symm.trans hs
  | @silent i k now msg outcome hc hn =>
      have hanswered := isSome_notified s.client.retries k now i msg outcome
      rw [hn] at hanswered
      rw [notified_attempt] at hn
      exact ⟨h.move _ _, by simp [limitedEvents, hn], by simp [Limited.move, hdef, ← hanswered]⟩
  | @unrecorded i k now msg outcome success hc hn hb =>
      have hanswered := isSome_notified s.client.retries k now i msg outcome
      rw [hn] at hanswered
      rw [notified_attempt] at hn
      have hsome := (notify_empty h).mp hb
      exact ⟨⟨h.awake, h.bucket, h.breaker, h.isSome⟩, by simp [limitedEvents, hn, hb],
        by simp [hsome, ← hanswered]⟩
  | @recorded i k now msg outcome success client' hc hn hb =>
      -- A report that succeeds has no breaker to go to.
      have hnone : client.circuitBreaker.isSome = false := by
        rw [Bool.eq_false_iff]
        intro hsome
        exact nomatch hb.symm.trans ((notify_empty h).mpr hsome)
      have hclient : client' = s.client := by
        have hb' := h.isSome.trans hnone
        rw [notifyCircuitBreaker, Option.isSome_eq_false_iff.mp hb' |> Option.isNone_iff_eq_none.mp]
          at hb
        exact (Option.some.inj hb).symm
      rw [notified_attempt] at hn
      rw [hclient]
      exact ⟨h.move _ _, by simp [limitedEvents, hn, hb], by simp [Limited.move, hdef, hnone]⟩
  | next hc =>
      exact ⟨h.move _ _, by simp [limitedEvents],
        by simp [Limited.move, hdef, LimitedEvent.answered]⟩

/-- In every run of a client with a rate of at least one, whatever its
breaker: no worker sleeps in the bucket or is told to wait by the
breaker, and where there is a breaker the first answer of the server
is the end of what is defined. -/
theorem neverLimits (hconf : Configured client) {es : List (LimitedEvent n)}
    {events : List (WorkerEvent n)}
    (h : ((limited client n).logged limitedEvents).run (.initial client, []) es
      = some (s, events)) :
    s.sleeper = none ∧ (∀ i, .gate i (.isBreak true) ∉ events) ∧
      (s.undefined = true ↔
        client.circuitBreaker.isSome = true ∧ ∃ e ∈ es, e.answered = true) := by
  suffices hrun : ∀ (es : List (LimitedEvent n)) (p : Limited n × List (WorkerEvent n)),
      ((limited client n).logged limitedEvents).run (.initial client, []) es = some p →
        Unlimited client es p by
    have hunlimited := hrun es _ h
    exact ⟨hunlimited.idle.awake, hunlimited.passes, hunlimited.undefined⟩
  intro es
  induction es using List.reverseRecOn with
  | nil =>
      intro p hp
      cases hp
      exact ⟨hconf.idle, nofun, by simp [Limited.initial]⟩
  | append_singleton es e ih =>
      intro p' hp'
      obtain ⟨p, hp, hstep⟩ := System.run_concat_iff.mp hp'
      obtain ⟨hidle, hpasses, hundefined⟩ := ih p hp
      obtain ⟨hs, hlog⟩ := System.logged_step_iff.mp hstep
      obtain ⟨-, hdef, hcases⟩ := limited_cases hs
      obtain ⟨hidle', hpasses', hundefined'⟩ := idle_step hidle hdef hcases
      refine ⟨hidle', fun i => ?_, ?_⟩
      · rw [hlog, List.mem_append, not_or]
        exact ⟨hpasses i, hpasses' i⟩
      · -- Before the step the run was defined, so no answer had met a breaker.
        rw [hdef] at hundefined
        rw [hundefined']
        simp only [List.mem_append, List.mem_singleton]
        grind

/-- A client of one worker with ten tokens a second and a breaker. -/
def guardedClient : AsyncClient :=
  ((AsyncClient.new 1 0 100).setTokenBucket 10 0).setCircuitBreaker Client.fiveSeconds 100

theorem configured_guardedClient : Configured guardedClient where
  bucket := ⟨10, 0, rfl, by norm_num⟩
  breaker := by
    rintro breaker hb
    cases hb
    exact ⟨_, _, rfl⟩

/-- `neverLimits` for a call that succeeds: its report is not
defined. -/
theorem neverLimits_success :
    ∃ (s : Limited 1) (events : List (WorkerEvent 1)),
      ((limited guardedClient 1).logged limitedEvents).run (.initial guardedClient, [])
        [.call 0, .isBreak 0 100 100 0, .getToken 0 0, .attempt 0 {} (.status 200) 100]
          = some (s, events) ∧
      s.sleeper = none ∧ (∀ i, .gate i (.isBreak true) ∉ events) ∧ s.undefined = true := by
  obtain ⟨bucket, hget, -⟩ := Client.getToken_of_le_capacity (b := TokenBucket.new 10 0) 0
    (show ((1 : Int) : ℚ) ≤ 10 by norm_num)
  obtain ⟨s, hrun⟩ : ∃ s : Limited 1, (limited guardedClient 1).run (.initial guardedClient)
      [.call 0, .isBreak 0 100 100 0, .getToken 0 0, .attempt 0 {} (.status 200) 100]
        = some s := by
    have hasked : (limited guardedClient 1).run (.initial guardedClient)
        [.call 0, .isBreak 0 100 100 0] = some _ := rfl
    refine ⟨_, (System.run_append hasked).trans ((System.run_cons
      (step_getToken ?_ rfl rfl rfl hget)).trans rfl)⟩
    decide
  obtain ⟨events, hlogged⟩ := System.exists_logged_run limitedEvents hrun []
  obtain ⟨hawake, hpasses, hundefined⟩ := neverLimits configured_guardedClient hlogged
  exact ⟨s, events, hlogged, hawake, hpasses,
    hundefined.mpr ⟨rfl, .attempt 0 {} (.status 200) 100, by simp, rfl⟩⟩

/-! ### The rate of the requests -/

/-- The event of a worker, where its calls read the time `now`. The
draw of `rand` is 0: where there is no breaker, it is not asked
for. -/
def WorkerEvent.at (now : Int) : WorkerEvent n → LimitedEvent n
  | .call i => .call i
  | .gate i (.isBreak _) => .isBreak i now now 0
  | .gate i .getToken => .getToken i now
  | .attempt i msg outcome => .attempt i msg outcome now
  | .next i => .next i

/-- A report without a breaker. -/
theorem notify_none {client : AsyncClient} (h : client.circuitBreaker = none) (success : Bool)
    (now : Int) : client.notifyCircuitBreaker success now = some client := by
  rw [notifyCircuitBreaker, h]

/-- The attempt of a worker, without a breaker. -/
theorem attempt_none (hnone : s.client.circuitBreaker = none) {i : Fin n} {k : Int}
    (hc : s.call i = some (.attempt k)) (msg : RequestMessage) (outcome : Outcome) (now : Int) :
    ∃ s', s.attempt i msg outcome now = some s' ∧
      s'.call = Function.update s.call i
        (some (AsyncClient.attempt s.client.retries k msg outcome).next) := by
  unfold Limited.attempt
  rw [hc]
  dsimp only
  split
  · exact ⟨_, rfl, rfl⟩
  · rw [notify_none hnone]
    exact ⟨_, rfl, rfl⟩

/-- Without a breaker, the bucket lets a worker do at any time what it
does without them. The time is a parameter, as the bucket would be
asked at some time. -/
theorem exists_limited_step {pc : Option CallPc} {e : WorkerEvent n} (h : s.Idle client)
    (hconf : s.client.conf = client.conf) (hnone : s.client.circuitBreaker = none)
    (hdef : s.undefined = false) (hended : ¬ hasEnded s.call)
    (hgate : s.call e.worker ≠ some .breaker)
    (hpc : workerStep client.conf (s.call e.worker) e = some pc) (now : Int) :
    ∃ s', (limited client n).step s (e.at now) = some s' ∧
      s'.call = Function.update s.call e.worker pc := by
  have hretries : s.client.retries = client.conf.retries := congrArg Conf.retries hconf
  obtain ⟨bucket, hbucket, hcapacity⟩ := h.bucket
  obtain ⟨actions, hmove⟩ : ∃ actions, Move client.conf (s.call e.worker) e pc actions :=
    ⟨_, move_of_workerStep hpc⟩
  generalize hfrom : s.call e.worker = from' at hmove hgate
  have hlive : ¬ (hasEnded s.call ∨ s.undefined = true) := by simp [hended, hdef]
  cases hmove with
  | call i =>
      change s.call i = none at hfrom
      simp only [limited, if_neg hlive, WorkerEvent.at, Limited.enter, hfrom, hconf]
      exact ⟨_, rfl, rfl⟩
  -- No breaker is set, and a call that starts has gone past its gate.
  | waits | passes => exact absurd rfl hgate
  | token i hlimit =>
      -- A token a call, and the bucket holds one: `GetToken` has no deficit
      -- to wait for.
      obtain ⟨bucket', ht, -⟩ := Client.getToken_of_le_capacity now
        (show ((1 : Int) : ℚ) ≤ bucket.capacity by exact_mod_cast hcapacity)
      refine ⟨_, step_getToken hlive h.awake hfrom hbucket ht, ?_⟩
      rw [if_pos rfl, ← hretries]
      rfl
  | aborts i hlimit =>
      rw [← hconf] at hlimit
      simp [conf, hbucket] at hlimit
  | refused i k msg | thrown i k msg | succeeded i k msg =>
      simp only [limited, if_neg hlive]
      exact attempt_none hnone hfrom msg _ now
  | failed i k msg code hcode =>
      have hs' := attempt_none hnone hfrom msg (.status code) now
      simp only [attempt, ne_eq, hcode, not_false_eq_true, if_true, hretries] at hs'
      simp only [limited, if_neg hlive]
      exact hs'
  | next i =>
      change s.call i = some .returned at hfrom
      simp only [limited, if_neg hlive, WorkerEvent.at, Limited.next, hfrom]
      exact ⟨_, rfl, rfl⟩

/-- Without a breaker, no worker is in front of `IsBreak`. -/
theorem ne_breaker_of_move {conf : Conf} {pc pc' : Option CallPc} {e : WorkerEvent n}
    {actions : List Action} (hnone : conf.circuitBreaker = false) (hpc : pc ≠ some .breaker)
    (h : Move conf pc e pc' actions) : pc' ≠ some .breaker := by
  have hretry (i : Int) : retry conf.retries i ≠ .breaker := by
    unfold retry
    split <;> nofun
  cases h with
  | call => simp [call, hnone]
  | waits => exact hpc
  | token | failed => simpa using hretry _
  | passes | aborts | refused | thrown | succeeded | next => nofun

/-- The limited workers stand where the workers do, and nothing has
limited them. -/
structure Follows (client : AsyncClient) (call : Fin n → Option CallPc) (s : Limited n) :
    Prop where
  idle : s.Idle client
  sleeping : Sleeping client s
  undefined : s.undefined = false
  gate : ∀ i, call i ≠ some .breaker
  call : s.call = call

/-- What the workers do, the limited workers do at any time. Without a
breaker, and with a bucket that holds a token, no gate stops them. -/
theorem follows_step {call call' : Fin n → Option CallPc} {e : WorkerEvent n}
    (hnone : client.circuitBreaker = none) (h : Follows client call s)
    (hs : (workers client.conf n).step call e = some call') (now : Int) :
    ∃ s', (limited client n).step s (e.at now) = some s' ∧ Follows client call' s' := by
  simp only [workers] at hs
  split at hs
  · cases hs
  · rename_i hended
    obtain ⟨pc, hpc, rfl⟩ := Option.map_eq_some_iff.mp hs
    -- Whether there is a breaker never changes in a run.
    have hbreaker : s.client.circuitBreaker = none := by
      have hsome := h.idle.isSome
      rw [hnone] at hsome
      simpa using hsome
    rw [← h.call] at hpc hended
    -- The limited client takes the worker's step at any reading of the clock.
    obtain ⟨s', hstep, hcall⟩ := exists_limited_step h.idle h.sleeping.conf hbreaker h.undefined
      hended (h.call ▸ h.gate e.worker) hpc now
    obtain ⟨-, -, hcases⟩ := limited_cases hstep
    obtain ⟨hidle, -, hundefined⟩ := idle_step h.idle h.undefined hcases
    refine ⟨s', hstep, hidle, sleeping_step h.sleeping hcases, ?_, fun i => ?_, h.call ▸ hcall⟩
    · rw [Bool.eq_false_iff, ne_eq, hundefined, hnone]
      simp
    · rw [Function.update_apply]
      split
      · have hfrom : s.call e.worker ≠ some .breaker := h.call ▸ h.gate e.worker
        have hconf : client.conf.circuitBreaker = false := by simp [conf, hnone]
        exact ne_breaker_of_move hconf hfrom (move_of_workerStep hpc)
      · exact h.gate i

/-- A bucket with a rate of at least one limits nothing: without a
breaker, whatever the workers do without the bucket they do with it,
at whatever times.

With `workers_of_limited` the two systems have the same runs, so to a
server the bucket makes no difference. -/
theorem limitsNothing (hconf : Configured client) (hnone : client.circuitBreaker = none)
    {calls : List (Int × WorkerEvent n)} {call : Fin n → Option CallPc}
    (h : (workers client.conf n).run (fun _ => none) (calls.map Prod.snd) = some call) :
    ∃ s, (limited client n).run (.initial client) (calls.map fun c => c.2.at c.1) = some s ∧
      s.call = call := by
  suffices hrun : ∃ s, (limited client n).run (.initial client)
      (calls.map fun c => c.2.at c.1) = some s ∧ Follows client call s by
    obtain ⟨s, hs, hfollows⟩ := hrun
    exact ⟨s, hs, hfollows.call⟩
  induction calls using List.reverseRecOn generalizing call with
  | nil =>
      cases h
      exact ⟨_, rfl, hconf.idle, ⟨nofun, rfl, nofun⟩, rfl, nofun, rfl⟩
  | append_singleton calls c ih =>
      rw [List.map_append] at h
      obtain ⟨call₁, hcall₁, hstep⟩ := System.run_concat_iff.mp h
      obtain ⟨s₁, hs₁, hfollows⟩ := ih hcall₁
      obtain ⟨s, hs, hfollows'⟩ := follows_step hnone hfollows hstep c.1
      rw [List.map_append]
      exact ⟨s, System.run_concat_iff.mpr ⟨s₁, hs₁, hs⟩, hfollows'⟩

/-- A client of one worker with ten tokens a second. -/
def tenASecond : AsyncClient :=
  (AsyncClient.new 1 0 100).setTokenBucket 10 0

/-- Two calls of a worker that take their tokens at once. -/
def twoCalls (i : Fin 1) : List (Int × WorkerEvent 1) :=
  [(0, .call i), (0, .gate i .getToken), (0, .attempt i {} (.status 200)), (0, .next i),
   (0, .call i), (0, .gate i .getToken)]

/-- `limitsNothing` for them. -/
theorem limitsNothing_twoCalls :
    ∃ (call : Fin 1 → Option CallPc) (s : Limited 1),
      (workers tenASecond.conf 1).run (fun _ => none) ((twoCalls 0).map Prod.snd) = some call ∧
      (limited tenASecond 1).run (.initial tenASecond) ((twoCalls 0).map fun c => c.2.at c.1)
        = some s ∧ s.call = call := by
  have hconf : Configured tenASecond := ⟨⟨10, 0, rfl, by norm_num⟩, nofun⟩
  obtain ⟨call, hrun⟩ : ∃ call, (workers tenASecond.conf 1).run (fun _ => none)
      ((twoCalls 0).map Prod.snd) = some call := ⟨_, rfl⟩
  obtain ⟨s, hs⟩ := limitsNothing hconf rfl hrun
  exact ⟨call, s, hrun, hs⟩

end Bigpipe.AsyncClient
