import Bigpipe.Proofs.LimitedClient

/-!
# `Bigpipe.Proofs.Reports`: what the breaker is told of the attempts

`CallWithRetry` tells the circuit breaker how an attempt ended: true
for the status 200, false for any other. It is meant to tell it of
every attempt, and to return to `RunInLoop` whatever happens. Two
things stand against this.

An exception of `client.request(request).get()`, or of the constructor
of `http_client`, is caught neither in `CallWithRetry` nor in `Call`
nor in `RunInLoop`. The breaker is told nothing, and the worker is
lost.

With a breaker set, the report is a call of `OnSuccess` or `OnFail`,
and these are defined only where the deque has a back bucket after the
elapsed seconds whose count can grow (`HealthStats.CanRecord`). The
breaker that `SetCircuitBreaker` constructs has none, so its first
report is not defined (`Bigpipe.Client.defined_iff`); a breaker that
got its buckets in another way could be told.

The log has the end of each attempt, and behind it the report, where
`notifyCircuitBreaker` returns from it.

* `notify_isSome_iff`: when `notifyCircuitBreaker` is defined, as a
  condition on the breaker before it.
* `reported_iff`: every attempt is reported and none ends its worker,
  exactly when every attempt is answered while no breaker is set or
  the breaker can count one more outcome.
* `notReported`: a server that cannot be reached, without a breaker.
-/

set_option autoImplicit false

namespace Bigpipe.Client

/-- The deque has a back bucket after the elapsed seconds, and its
count stays an `int`. Each second that has elapsed costs a bucket, so
there have to be more buckets than seconds. -/
def HealthStats.CanRecord (counter : StatsBucket → Nat) (s : HealthStats) (now : Int) : Prop :=
  s.buckets ≠ [] ∧ now - s.updateTime < s.buckets.length ∧
    FitsInt (counter (s.bucketAt 0) + 1 : Nat)

/-- When the record of an outcome is defined, as a condition on the
deque before it. -/
theorem HealthStats.record_isSome_iff_canRecord {s : HealthStats} {now : Int}
    {add : StatsBucket → Option StatsBucket} {counter : StatsBucket → Nat}
    {count : StatsBucket → StatsBucket}
    (hadd : ∀ bucket, add bucket =
      if FitsInt (counter bucket + 1 : Nat) then some (count bucket) else none) :
    (s.record add now).isSome ↔ s.CanRecord counter now := by
  rw [record_isSome_iff hadd, CanRecord, ← and_assoc, ← updateBuckets_ne_nil_iff]
  refine and_congr_right fun hne => ?_
  rw [bucketAt_zero_updateBuckets hne]

end Bigpipe.Client

namespace Bigpipe.AsyncClient

open Bigpipe.Lib
open Bigpipe.Lib.Trace (trace)
open Bigpipe.Client (HealthStats StatsBucket TokenBucket increment_map)

variable {n : Nat}

/-! ### The report of an outcome -/

/-- The breaker can count one more outcome, where there is one. -/
def CanNotify (client : AsyncClient) (success : Bool) (now : Int) : Prop :=
  ∀ breaker, client.circuitBreaker = some breaker →
    breaker.healthStats.CanRecord
      (if success then StatsBucket.nSuccess else StatsBucket.nFail) now

/-- When `notifyCircuitBreaker` is defined. Without a breaker it does
nothing, and that is always defined. -/
theorem notify_isSome_iff {client : AsyncClient} {success : Bool} {now : Int} :
    (client.notifyCircuitBreaker success now).isSome ↔ client.CanNotify success now := by
  unfold notifyCircuitBreaker CanNotify
  split
  · rename_i hnone
    simp [hnone]
  · rename_i breaker hb
    rw [hb, Option.isSome_map]
    simp only [Option.some.injEq, forall_eq']
    cases success with
    | true =>
        simp only [if_true, Client.CircuitBreaker.onSuccess, Option.isSome_map]
        exact HealthStats.record_isSome_iff_canRecord fun bucket => increment_map _ _
    | false =>
        simp only [Bool.false_eq_true, if_false, Client.CircuitBreaker.onFail, Option.isSome_map]
        exact HealthStats.record_isSome_iff_canRecord fun bucket => increment_map _ _

/-- What is logged of an attempt. A report is logged behind the end
that it is about, by the same worker. -/
inductive Report where
  /-- The attempt ended. -/
  | ended (outcome : Outcome)
  /-- `notifyCircuitBreaker` was called, and returned. -/
  | notified (success : Bool)
  deriving DecidableEq, Repr

/-- What an attempt of a client at the time `now` leaves in the log.
An attempt that throws leaves its end only, and so does one whose
report is not defined. -/
def attemptReports (client : AsyncClient) (k : Int) (msg : RequestMessage) (outcome : Outcome)
    (now : Int) : List Report :=
  .ended outcome ::
    match (attempt client.retries k msg outcome).notified with
    | none => []
    | some success =>
      if (client.notifyCircuitBreaker success now).isSome then [.notified success] else []

/-- The log of a step. Only an attempt is logged, under the worker
that made it. -/
def reports (s : Limited n) : LimitedEvent n → List (Fin n × Report)
  | .attempt i msg outcome now =>
    match s.call i with
    | some (.attempt k) =>
      (attemptReports s.client k msg outcome now).map fun report => (i, report)
    | _ => []
  | .call _ | .isBreak .. | .getToken .. | .slept _ | .next _ => []

/-- The outcome of an attempt that ended. -/
def Report.outcome : Report → Option Outcome
  | .ended outcome => some outcome
  | .notified _ => none

/-- The attempts that ended, each with the report that is due: true
for the status 200 and false for anything else. -/
def due (actions : List Report) : List Report :=
  (actions.filterMap Report.outcome).flatMap fun outcome =>
    [.ended outcome, .notified (outcome = .status 200)]

theorem due_append (actions actions' : List Report) :
    due (actions ++ actions') = due actions ++ due actions' := by
  simp [due]

/-- Each attempt of a worker is followed by one report, that of its
outcome. No outcome has left `Call` by an exception, so where `Call`
has returned, `RunInLoop` goes on: unless the assertion in `Call` has
ended the process, or a sleep that does not fit an `int` is undefined,
neither of which is the outcome of an attempt. -/
structure Reported (client : AsyncClient) (p : Limited n × List (Fin n × Report)) : Prop where
  notified : ∀ i, trace i p.2 = due (trace i p.2)
  alive : ∀ i, p.1.call i ≠ some .thrown
  next : ∀ i, p.1.call i = some .returned → (∀ j, p.1.call j ≠ some .aborted) →
    p.1.undefined = false → ∃ p', ((limited client n).logged reports).step p (.next i) = some p'

/-- The attempt ends with an answer of the server, while no breaker is
set or the breaker can count one more outcome. It looks at the state
in front of the attempt and at its outcome. Other events are not
restricted. -/
def Answered (s : Limited n) : LimitedEvent n → Prop
  | .attempt _ _ outcome now =>
    ∃ code, outcome = .status code ∧ s.client.CanNotify (code = 200) now
  | .call _ | .isBreak .. | .getToken .. | .slept _ | .next _ => True

/-! ### The step -/

/-- The loop does not throw by itself. -/
theorem retry_ne_thrown (retries k : Int) : retry retries k ≠ .thrown := by
  unfold retry
  split <;> simp

/-- Only an attempt without an answer throws. -/
theorem attempt_next_thrown_iff {retries k : Int} {msg : RequestMessage} {outcome : Outcome} :
    (attempt retries k msg outcome).next = .thrown ↔ ∀ code, outcome ≠ .status code := by
  cases outcome with
  | refused | thrown => exact iff_of_true rfl (by simp)
  | status code =>
      refine iff_of_false ?_ fun h => h code rfl
      by_cases hcode : code = 200
      · simp [attempt, hcode]
      · simpa [attempt, hcode] using retry_ne_thrown _ _

/-- An attempt that is answered reports whether the status is 200. -/
theorem attempt_status_notified (retries k : Int) (msg : RequestMessage) (code : Nat) :
    (attempt retries k msg (.status code)).notified = some (decide (code = 200)) := by
  by_cases hcode : code = 200 <;> simp [attempt, hcode]

/-- What an attempt leaves in the log is what is due of it, where it
is answered and its report is defined. -/
theorem attemptReports_eq_due_iff {client : AsyncClient} {k now : Int} {msg : RequestMessage}
    {outcome : Outcome} :
    attemptReports client k msg outcome now = due (attemptReports client k msg outcome now) ↔
      ∃ code, outcome = .status code ∧ client.CanNotify (code = 200) now := by
  cases outcome with
  | refused | thrown => simp [attemptReports, attempt, due, Report.outcome]
  | status code =>
      rw [attemptReports, attempt_status_notified]
      simp only [Outcome.status.injEq, exists_eq_left', ← notify_isSome_iff]
      by_cases hcan : (client.notifyCircuitBreaker (decide (code = 200)) now).isSome = true
      · simp [hcan, due, Report.outcome]
      · simp [hcan, due, Report.outcome]

/-- The log of one worker: it grows by the reports of its own
attempts. -/
theorem trace_reports {s : Limited n} {i j : Fin n} {k now : Int} {msg : RequestMessage}
    {outcome : Outcome} (hc : s.call i = some (.attempt k)) (log : List (Fin n × Report)) :
    trace j (log ++ reports s (.attempt i msg outcome now)) =
      trace j log ++ if i = j then attemptReports s.client k msg outcome now else [] := by
  simp only [Trace.trace_append, reports, hc]
  by_cases hij : i = j
  · rw [if_pos hij, hij, Trace.trace_own]
  · rw [if_neg hij, Trace.trace_other hij]

/-- A worker whose call has returned goes on, where nothing has ended
the process. -/
theorem exists_next {client : AsyncClient} {p : Limited n × List (Fin n × Report)} {i : Fin n}
    (hreturned : p.1.call i = some .returned) (halive : ∀ j, p.1.call j ≠ some .thrown)
    (haborted : ∀ j, p.1.call j ≠ some .aborted) (hdefined : p.1.undefined = false) :
    ∃ p', ((limited client n).logged reports).step p (.next i) = some p' := by
  have hended : ¬ hasEnded p.1.call := by
    rintro ⟨j, hthrown | habort⟩
    · exact halive j hthrown
    · exact haborted j habort
  have hstep : (limited client n).step p.1 (.next i) = some (p.1.move i none) := by
    simp [limited, hended, hdefined, Limited.next, hreturned]
  exact ⟨(_, _), System.logged_step_iff.mpr ⟨hstep, rfl⟩⟩

/-- A move of a worker to a place where it has not thrown. -/
theorem move_ne_thrown {s : Limited n} {i : Fin n} {pc : Option CallPc}
    (halive : ∀ j, s.call j ≠ some .thrown) (hpc : pc ≠ some .thrown) (j : Fin n) :
    (s.move i pc).call j ≠ some .thrown := by
  show Function.update s.call i pc j ≠ some .thrown
  rw [Function.update_apply]
  split
  · exact hpc
  · exact halive j

/-- A step that is no attempt throws nothing and reports nothing. The
failed assertion is no exception, and ends the process. -/
theorem quiet_step {s s' : Limited n} {e : LimitedEvent n}
    (halive : ∀ j, s.call j ≠ some .thrown) (h : LimitedStep s e s')
    (hquiet : ∀ i msg outcome now, e ≠ .attempt i msg outcome now) :
    (∀ j, s'.call j ≠ some .thrown) ∧ reports s e = [] ∧ Answered s e := by
  cases h with
  | call =>
      refine ⟨move_ne_thrown halive ?_, rfl, trivial⟩
      unfold AsyncClient.call
      split <;> simp
  | isBreak =>
      refine ⟨move_ne_thrown halive ?_, rfl, trivial⟩
      split <;> simp
  | token | slept =>
      exact ⟨move_ne_thrown halive (by simpa using retry_ne_thrown _ _), rfl, trivial⟩
  | aborts | next => exact ⟨move_ne_thrown halive (by simp), rfl, trivial⟩
  | overflows | sleeps => exact ⟨halive, rfl, trivial⟩
  | silent | unrecorded | recorded => exact absurd rfl (hquiet _ _ _ _)

/-- An attempt goes on where it is answered and reported. -/
theorem attempt_step {s s' : Limited n} {i : Fin n} {msg : RequestMessage} {outcome : Outcome}
    {now : Int} (halive : ∀ j, s.call j ≠ some .thrown)
    (h : LimitedStep s (.attempt i msg outcome now) s') :
    ∃ k, s.call i = some (.attempt k) ∧
      ((∃ code, outcome = .status code) → ∀ j, s'.call j ≠ some .thrown) := by
  cases h with
  | @silent i k now msg outcome hc hn | @recorded i k now msg outcome success client hc hn hb =>
      refine ⟨k, hc, ?_⟩
      rintro ⟨code, rfl⟩
      refine move_ne_thrown halive ?_
      simp only [ne_eq, Option.some.injEq, attempt_next_thrown_iff, not_forall, not_not]
      exact ⟨code, rfl⟩
  | @unrecorded i k now msg outcome success hc hn hb => exact ⟨k, hc, fun _ => halive⟩

/-- A step keeps the reports in order exactly where its attempt is
answered and can be reported. The other steps report nothing and throw
nothing. -/
theorem reported_step {client : AsyncClient} {p p' : Limited n × List (Fin n × Report)}
    {e : LimitedEvent n} (h : Reported client p)
    (hs : ((limited client n).logged reports).step p e = some p') :
    Reported client p' ↔ Answered p.1 e := by
  obtain ⟨hstep, hlog⟩ := System.logged_step_iff.mp hs
  obtain ⟨-, -, hcases⟩ := limited_cases hstep
  by_cases hquiet : ∀ i msg outcome now, e ≠ .attempt i msg outcome now
  · obtain ⟨halive, hreports, hanswered⟩ := quiet_step h.alive hcases hquiet
    rw [hreports, List.append_nil] at hlog
    refine iff_of_true ⟨hlog ▸ h.notified, halive, fun i hreturned => ?_⟩ hanswered
    exact exists_next hreturned halive
  · obtain ⟨i, msg, outcome, now, rfl⟩ : ∃ i msg outcome now, e = .attempt i msg outcome now := by
      simpa using hquiet
    obtain ⟨k, hc, halive⟩ := attempt_step h.alive hcases
    -- The log of each worker is in order up to the attempt, so what the
    -- attempt adds decides.
    have hnotified : (∀ j, trace j p'.2 = due (trace j p'.2)) ↔
        ∃ code, outcome = .status code ∧ p.1.client.CanNotify (code = 200) now := by
      rw [← @attemptReports_eq_due_iff p.1.client k now msg outcome, hlog]
      simp only [trace_reports hc, due_append, ← h.notified, List.append_cancel_left_eq]
      constructor
      · intro hj
        simpa using hj i
      · intro hi j
        split
        · exact hi
        · rfl
    constructor
    · intro h'
      exact hnotified.mp h'.notified
    · rintro ⟨code, hcode, hcan⟩
      have halive' := halive ⟨code, hcode⟩
      refine ⟨hnotified.mpr ⟨code, hcode, hcan⟩, halive', fun i hreturned => ?_⟩
      exact exists_next hreturned halive'

/-! ### Runs -/

/-- In a run, every attempt is followed by one report of its outcome
and no outcome leaves `Call` by an exception, exactly when every
attempt ends with an answer of the server, while no breaker is set or
the breaker can count one more outcome.

Both sides are about the same runs of the workers with their bucket
and their breaker. The right one looks at the state before each
attempt and at what comes back from the server. -/
theorem reported_iff (client : AsyncClient) (es : List (LimitedEvent n)) :
    ((limited client n).logged reports).Always (Reported client) (.initial client, []) es ↔
      ((limited client n).logged reports).EveryStep (fun p e => Answered p.1 e)
        (.initial client, []) es := by
  refine System.always_iff_everyStep (I := fun _ => True) (fun _ _ _ _ _ => trivial) ?_ es trivial
    ?_
  · intro p e p' _ h hs
    exact reported_step h hs
  · refine ⟨fun i => rfl, fun i => ?_, fun i hreturned => ?_⟩
    · simp [Limited.initial]
    · simp [Limited.initial] at hreturned

/-- A worker that takes its token at once, and whose server cannot be
reached. -/
def unreachable : List (LimitedEvent 1) :=
  [.call 0, .getToken 0 0, .attempt 0 {} .thrown 0]

/-- The exception of the attempt leaves the worker, and there is no
report of it. -/
theorem notReported :
    ¬ ((limited tenASecond 1).logged reports).Always (Reported tenASecond)
      (.initial tenASecond, []) unreachable := by
  obtain ⟨bucket, hget, -⟩ := Client.getToken_of_le_capacity (b := TokenBucket.new 10 0) 0
    (show ((1 : Int) : ℚ) ≤ 10 by norm_num)
  obtain ⟨s, hrun, hthrown⟩ : ∃ s : Limited 1,
      (limited tenASecond 1).run (.initial tenASecond) unreachable = some s ∧
        s.call 0 = some .thrown := by
    have hcalled : (limited tenASecond 1).run (.initial tenASecond) [.call 0] = some _ := rfl
    refine ⟨_, (System.run_append hcalled).trans ((System.run_cons
      (step_getToken ?_ rfl rfl rfl hget)).trans rfl), rfl⟩
    decide
  obtain ⟨log, hlogged⟩ := System.exists_logged_run reports hrun []
  intro h
  have hreported : Reported tenASecond (s, log) := h.last hlogged
  exact hreported.alive 0 hthrown

end Bigpipe.AsyncClient
