import Bigpipe.Lib.Trace
import Bigpipe.Proofs.AsyncClient
import Bigpipe.Proofs.Consumer

/-!
# `Bigpipe.Proofs.Workers`: the gate in front of the requests

`Call` asks the circuit breaker and takes a token once, and
`CallWithRetry` tries again without either: the gate is a statement of
`Call` in front of the loop, and no path of the loop leads back to it.

The workers are looked at one at a time. What one of them has done is
a list of actions, and where it is in `Call` says what the end of that
list has to look like: since the start of its call, and since its last
request. `Gating` is this correspondence, and every move keeps it. So
each request finds a gate behind it, but only the first one of a call
finds it since the last request.

The worker of the consumer does the same things in between other
steps, such as its reads of the message. `workers_of_run` leaves these
out.

* `Move`: the steps of one worker, with what it does. `Gating`: what
  it has done since its last request and since the start of its call,
  at every point of the call.
* `callGated`: every request has passed the gate since the start of
  its call. `retryNotGated`: a retry does not pass it again, with a
  token bucket and no circuit breaker.
* `workers_of_run`: the workers of a consumer run as these workers.
-/

set_option autoImplicit false

namespace Bigpipe.AsyncClient

open Bigpipe.Lib
open Bigpipe.Lib.Trace (trace since since_append_of_forall since_append_cons)
open Bigpipe.Client (addInt)

variable {n : Nat} {conf : Conf}

/-- The workers and the log of what they have done. -/
abbrev Workers (n : Nat) := (Fin n → Option CallPc) × List (Fin n × Action)

variable {p p' : Workers n} {e : WorkerEvent n}

/-! ### The step of one worker -/

/-- A step of one worker. -/
theorem workers_one {call : Fin n → Option CallPc} {e : WorkerEvent n} {pc : Option CallPc}
    (h : ¬ hasEnded call) (hpc : workerStep conf (call e.worker) e = some pc) :
    (workers conf n).run call [e] = some (Function.update call e.worker pc) := by
  refine System.run_singleton ?_
  simp [workers, h, hpc]

/-- A step moves the worker of the event, and logs what it does. -/
theorem workersLog_cases (h : (workersLog conf n).step p e = some p') :
    ¬ hasEnded p.1 ∧ ∃ pc, workerStep conf (p.1 e.worker) e = some pc ∧
      p'.1 = Function.update p.1 e.worker pc ∧
      p'.2 = p.2 ++ (workerActions conf (p.1 e.worker) e).map fun action => (e.worker, action) := by
  obtain ⟨hstep, hlog⟩ := System.logged_step_iff.mp h
  unfold workers at hstep
  simp only at hstep
  split at hstep
  · cases hstep
  · rename_i hended
    obtain ⟨pc, hpc, heq⟩ := Option.map_eq_some_iff.mp hstep
    exact ⟨hended, pc, hpc, heq.symm, hlog⟩

/-- What a step does to each worker: the one of the event moves and
acts, the others do not. Proofs about all workers come down to one of
them here. -/
theorem worker_cases (h : (workersLog conf n).step p e = some p') (i : Fin n) :
    (i = e.worker ∧ ∃ pc, workerStep conf (p.1 i) e = some pc ∧ p'.1 i = pc ∧
      trace i p'.2 = trace i p.2 ++ workerActions conf (p.1 i) e) ∨
    (i ≠ e.worker ∧ p'.1 i = p.1 i ∧ trace i p'.2 = trace i p.2) := by
  obtain ⟨-, pc, hpc, hs', hlog⟩ := workersLog_cases h
  by_cases hi : i = e.worker
  · refine .inl ⟨hi, pc, ?_, ?_, ?_⟩
    · rw [hi]
      exact hpc
    · rw [hs', hi, Function.update_self]
    · rw [hlog, Trace.trace_append, hi, Trace.trace_own]
  · refine .inr ⟨hi, ?_, ?_⟩
    · rw [hs', Function.update_of_ne hi]
    · rw [hlog, Trace.trace_append, Trace.trace_other (fun heq => hi heq.symm), List.append_nil]

/-- The moves of a worker: one constructor for each step of `Call` and
of its attempts, with where it comes from, the event, where it goes
and what it does. -/
inductive Move (conf : Conf) :
    Option CallPc → WorkerEvent n → Option CallPc → List Action → Prop where
  | call (i : Fin n) : Move conf none (.call i) (some (call conf)) [.called]
  | waits (i : Fin n) :
      Move conf (some .breaker) (.gate i (.isBreak true)) (some .breaker) [.isBreak true]
  | passes (i : Fin n) :
      Move conf (some .breaker) (.gate i (.isBreak false)) (some .token) [.isBreak false]
  | token (i : Fin n) (hlimit : conf.rateLimit = true) :
      Move conf (some .token) (.gate i .getToken) (some (retry conf.retries 0)) [.getToken]
  -- `assert(rateLimit != nullptr)`, in front of `GetToken`.
  | aborts (i : Fin n) (hlimit : conf.rateLimit = false) :
      Move conf (some .token) (.gate i .getToken) (some .aborted) []
  -- An attempt: no connection, a throw after the request went out, another
  -- status, a 200.
  | refused (i : Fin n) (k : Int) (msg : RequestMessage) :
      Move conf (some (.attempt k)) (.attempt i msg .refused) (some .thrown) []
  | thrown (i : Fin n) (k : Int) (msg : RequestMessage) :
      Move conf (some (.attempt k)) (.attempt i msg .thrown) (some .thrown)
        [.requested (httpRequest msg)]
  | failed (i : Fin n) (k : Int) (msg : RequestMessage) (code : Nat) (hcode : code ≠ 200) :
      Move conf (some (.attempt k)) (.attempt i msg (.status code))
        (some (retry conf.retries (addInt k 1))) [.requested (httpRequest msg)]
  | succeeded (i : Fin n) (k : Int) (msg : RequestMessage) :
      Move conf (some (.attempt k)) (.attempt i msg (.status 200)) (some .returned)
        [.requested (httpRequest msg)]
  | next (i : Fin n) : Move conf (some .returned) (.next i) none []

/-- Every step of a worker is one of the moves. The log of the step is
that of the move. -/
theorem move_of_workerStep {pc pc' : Option CallPc} (h : workerStep conf pc e = some pc') :
    Move conf pc e pc' (workerActions conf pc e) := by
  cases e with
  | call i =>
      obtain ⟨hpc, heq⟩ := Option.ite_none_right_eq_some.mp h
      cases heq
      rw [hpc]
      exact .call i
  | gate i g =>
      cases pc with
      | none => cases h
      | some pc =>
          obtain ⟨pc₁, hgate, rfl⟩ := Option.map_eq_some_iff.mp h
          -- The gate is where the call is: the breaker's verdict, or the
          -- token.
          unfold gate at hgate
          split at hgate
          · rename_i isBreak
            cases hgate
            cases isBreak with
            | true => exact .waits i
            | false => exact .passes i
          · cases hgate
            cases hlimit : conf.rateLimit with
            | true =>
                show Move conf _ _ _ (if conf.rateLimit then _ else _)
                simp only [hlimit, if_true]
                exact .token i hlimit
            | false =>
                show Move conf _ _ _ (if conf.rateLimit then _ else _)
                simp only [hlimit, Bool.false_eq_true, if_false]
                exact .aborts i hlimit
          · cases hgate
  | attempt i msg outcome =>
      simp only [workerStep] at h
      split at h
      · rename_i k
        cases h
        cases outcome with
        | refused => exact .refused i k msg
        | thrown => exact .thrown i k msg
        | status code =>
            -- Only a 200 ends the loop here.
            by_cases hcode : code = 200
            · rw [hcode]
              exact .succeeded i k msg
            · simp only [workerActions, attempt, ne_eq, hcode, not_false_eq_true, if_true]
              exact .failed i k msg code hcode
      · cases h
  | next i =>
      obtain ⟨hpc, heq⟩ := Option.ite_none_right_eq_some.mp h
      cases heq
      rw [hpc]
      exact .next i

/-! ### The gate in front of the requests -/

/-- The start of an HTTP request. -/
def Action.isRequest : Action → Bool
  | .requested _ => true
  | _ => false

/-- The start of `Call`. -/
def Action.isCall : Action → Bool
  | .called => true
  | _ => false

/-- Among these actions `IsBreak` has returned false, where there is a
circuit breaker, and one `GetToken(1)` has returned. -/
structure PassedGate (conf : Conf) (actions : List Action) : Prop where
  isBreak : conf.circuitBreaker = true → .isBreak false ∈ actions
  getToken : actions.count .getToken = 1

/-- Every request that a step starts has passed the gate since the
worker's request before it. It is what a rate limit on requests asks
for. -/
def EachGated (conf : Conf) (p : Workers n) (e : WorkerEvent n) : Prop :=
  ∀ request, .requested request ∈ workerActions conf (p.1 e.worker) e →
    PassedGate conf (since Action.isRequest (trace e.worker p.2))

/-- What a worker has done before it tries. Since the start of its
call it has passed the gate. For its first request of the call it has
done so since its last request, and for a later one it has not come to
the gate again. -/
structure Tried (conf : Conf) (actions : List Action) : Prop where
  call : PassedGate conf (since Action.isCall actions)
  first : (∀ request, .requested request ∉ since Action.isCall actions) →
    PassedGate conf (since Action.isRequest actions)
  again : (∃ request, .requested request ∈ since Action.isCall actions) →
    ∀ action ∈ since Action.isRequest actions, action ≠ .getToken ∧ ∀ b, action ≠ .isBreak b

/-- Every request that a step starts is tried so: the worker has
passed the gate of this call, and of the call alone. -/
def CallGated (conf : Conf) (p : Workers n) (e : WorkerEvent n) : Prop :=
  ∀ request, .requested request ∈ workerActions conf (p.1 e.worker) e →
    Tried conf (trace e.worker p.2)

/-- In front of the gate of a call: no token and no request since its
start, and no token since the last request, if there are attempts at
all. -/
structure InFront (conf : Conf) (actions : List Action) : Prop where
  getToken : .getToken ∉ since Action.isCall actions
  requested : ∀ request, .requested request ∉ since Action.isCall actions
  unused : addInt conf.retries 1 ≠ 0 → .getToken ∉ since Action.isRequest actions

/-- What a worker has done where it is at `pc`. The invariant of one
worker, place by place in the order of the code. -/
def Gating (conf : Conf) (actions : List Action) : Option CallPc → Prop
  | none | some .returned => addInt conf.retries 1 ≠ 0 → .getToken ∉ since Action.isRequest actions
  | some .breaker => InFront conf actions
  | some .token => InFront conf actions ∧ (conf.circuitBreaker = true →
      .isBreak false ∈ since Action.isCall actions ∧
        .isBreak false ∈ since Action.isRequest actions)
  | some (.attempt _) => addInt conf.retries 1 ≠ 0 ∧ Tried conf actions
  | some .thrown | some .aborted => True

/-- The actions behind which the last call and the last request stay
the same. -/
theorem since_append_quiet (actions actions' : List Action)
    (h : ∀ action ∈ actions', action.isCall = false ∧ action.isRequest = false) :
    since Action.isCall (actions ++ actions') = since Action.isCall actions ++ actions' ∧
      since Action.isRequest (actions ++ actions') = since Action.isRequest actions ++ actions' :=
  ⟨since_append_of_forall fun action ha => (h action ha).1,
    since_append_of_forall fun action ha => (h action ha).2⟩

/-- The start of a call is in front of its gate. -/
theorem inFront_called {actions : List Action}
    (h : addInt conf.retries 1 ≠ 0 → .getToken ∉ since Action.isRequest actions) :
    InFront conf (actions ++ [.called]) := by
  have hcall : since Action.isCall (actions ++ [.called]) = [] := since_append_cons rfl nofun
  have hrequest : since Action.isRequest (actions ++ [.called]) =
      since Action.isRequest actions ++ [.called] :=
    since_append_of_forall (by simp [Action.isRequest])
  refine ⟨?_, ?_, fun hloops => ?_⟩
  · simp [hcall]
  · simp [hcall]
  · rw [hrequest]
    simpa using h hloops

/-- An answer of `IsBreak` stays in front of the gate. -/
theorem InFront.isBreak {actions : List Action} (h : InFront conf actions) (b : Bool) :
    InFront conf (actions ++ [.isBreak b]) := by
  obtain ⟨hcall, hrequest⟩ := since_append_quiet actions [.isBreak b]
    (by simp [Action.isCall, Action.isRequest])
  refine ⟨?_, fun request => ?_, fun hloops => ?_⟩
  · simpa [hcall] using h.getToken
  · simpa [hcall] using h.requested request
  · simpa [hrequest] using h.unused hloops

/-- A token takes the worker through the gate. It is the first one
since the call, and no request has gone out since then. -/
theorem InFront.tried {actions : List Action} (h : InFront conf actions)
    (hbreak : conf.circuitBreaker = true → .isBreak false ∈ since Action.isCall actions ∧
      .isBreak false ∈ since Action.isRequest actions) (hloops : addInt conf.retries 1 ≠ 0) :
    Tried conf (actions ++ [.getToken]) := by
  obtain ⟨hcall, hrequest⟩ := since_append_quiet actions [.getToken]
    (by simp [Action.isCall, Action.isRequest])
  refine ⟨?_, fun hfirst => ?_, ?_⟩
  · rw [hcall]
    refine ⟨fun hb => List.mem_append_left _ (hbreak hb).1, ?_⟩
    rw [List.count_append, List.count_eq_zero.mpr h.getToken]
    rfl
  · rw [hrequest]
    refine ⟨fun hb => List.mem_append_left _ (hbreak hb).2, ?_⟩
    rw [List.count_append, List.count_eq_zero.mpr (h.unused hloops)]
    rfl
  · intro ⟨request, hmem⟩
    rw [hcall] at hmem
    exact absurd hmem (by simpa using h.requested request)

/-- A failed attempt leads to one that comes to no gate: since the
request of this one, the worker has done nothing. -/
theorem Tried.failed {actions : List Action} (h : Tried conf actions) (request : HttpRequest) :
    Tried conf (actions ++ [.requested request]) := by
  have hcall : since Action.isCall (actions ++ [.requested request]) =
      since Action.isCall actions ++ [.requested request] :=
    since_append_of_forall (by simp [Action.isCall])
  have hrequest : since Action.isRequest (actions ++ [.requested request]) = [] :=
    since_append_cons rfl (by simp)
  refine ⟨?_, fun hfirst => ?_, fun hagain => ?_⟩
  · rw [hcall]
    refine ⟨fun hb => List.mem_append_left _ (h.call.isBreak hb), ?_⟩
    rw [List.count_append, h.call.getToken]
    simp
  · rw [hcall] at hfirst
    exact absurd (by simp) (hfirst request)
  · rw [hrequest]
    simp

/-- A move of a worker keeps what it has done in line with where it
is. The moves in front of the gate add to the actions, the token takes
the worker through it, and an attempt starts the count since the last
request anew. -/
theorem gating_move {actions actions' : List Action} {pc pc' : Option CallPc}
    (h : Gating conf actions pc) (hmove : Move conf pc e pc' actions') :
    Gating conf (actions ++ actions') pc' := by
  cases hmove with
  | call =>
      -- A call without a breaker starts at the token, with nothing asked of a
      -- breaker.
      have hfront := inFront_called h
      unfold call
      split
      · exact hfront
      · rename_i hb
        exact ⟨hfront, fun hb' => absurd hb' hb⟩
  | waits => exact h.isBreak true
  | passes =>
      obtain ⟨hcall, hrequest⟩ := since_append_quiet actions [.isBreak false]
        (by simp [Action.isCall, Action.isRequest])
      refine ⟨h.isBreak false, fun _ => ?_⟩
      rw [hcall, hrequest]
      simp
  | token i hlimit =>
      obtain ⟨hfront, hbreak⟩ := h
      unfold retry
      split
      · rename_i hloops
        -- The loop is entered, and the gates just passed are those of its
        -- first attempt.
        exact ⟨hloops, hfront.tried hbreak hloops⟩
      · rename_i hloops
        exact fun hloops' => absurd hloops' hloops
  | failed i k msg code hcode =>
      -- The next attempt asks no gate again, so the one request stays with
      -- the gates of this call.
      obtain ⟨hloops, htried⟩ := h
      unfold retry
      rw [if_pos hloops]
      exact ⟨hloops, htried.failed _⟩
  | succeeded i k msg =>
      have hrequest : since Action.isRequest (actions ++ [.requested (httpRequest msg)]) = [] :=
        since_append_cons rfl (by simp)
      intro _
      rw [hrequest]
      simp
  | next =>
      rw [List.append_nil]
      exact h
  | aborts | refused | thrown => trivial

/-- What every worker has done is in line with where it is. -/
def AllGating (conf : Conf) (p : Workers n) : Prop :=
  ∀ i, Gating conf (trace i p.2) (p.1 i)

/-- A step keeps this. -/
theorem allGating_step (h : AllGating conf p) (hs : (workersLog conf n).step p e = some p') :
    AllGating conf p' := by
  intro i
  rcases worker_cases hs i with ⟨-, pc, hpc, hp', htrace⟩ | ⟨-, hp', htrace⟩
  · rw [hp', htrace]
    exact gating_move (h i) (move_of_workerStep hpc)
  · rw [hp', htrace]
    exact h i

/-- A request is started by an attempt. -/
theorem Move.attempt_of_requested {pc pc' : Option CallPc} {actions : List Action}
    (h : Move conf pc e pc' actions) {request : HttpRequest} (hmem : .requested request ∈ actions) :
    ∃ k, pc = some (.attempt k) := by
  cases h with
  | refused i k | thrown i k | failed i k | succeeded i k => exact ⟨k, rfl⟩
  | _ => simp at hmem

/-- In every run, each request has passed the gate since the start of
its call: the first one of the call since the worker's last request,
and a later one without coming to the gate again.

So the number of requests is not limited by the number of tokens. It
is limited by that number and by the number of attempts. -/
theorem callGated (conf : Conf) (es : List (WorkerEvent n)) :
    (workersLog conf n).EveryStep (CallGated conf) (fun _ => none, []) es := by
  refine System.everyStep_of_invariant (I := AllGating conf)
    (fun p e p' h hs => allGating_step h hs) ?_ es ?_
  · intro p e p' h hs request hmem
    obtain ⟨-, pc, hpc, -⟩ := workersLog_cases hs
    obtain ⟨k, hk⟩ := (move_of_workerStep hpc).attempt_of_requested hmem
    have hgating := h e.worker
    rw [hk] at hgating
    exact hgating.2
  · intro i _
    simp

/-- One retry, with a token bucket and no circuit breaker. -/
def oneRetry : Conf where
  retries := 1
  rateLimit := true
  circuitBreaker := false

/-- The retry after an answer 500 takes no token. There is a token
bucket and no circuit breaker, so nothing stands between the two
requests. -/
theorem retryNotGated :
    ¬ (workersLog oneRetry 1).EveryStep (EachGated oneRetry) (fun _ => none, [])
      [.call 0, .gate 0 .getToken, .attempt 0 {} (.status 500), .attempt 0 {} (.status 200)] := by
  intro h
  obtain ⟨-, hcalled⟩ := h _ rfl
  obtain ⟨-, htoken⟩ := hcalled _ rfl
  -- The answer 500 is reported, and the loop goes on with the next attempt.
  obtain ⟨-, hfailed⟩ := htoken _ rfl
  obtain ⟨hgated, -⟩ := hfailed _ rfl
  have hgate := hgated (httpRequest {}) List.mem_cons_self
  exact absurd hgate.getToken (by decide)

end Bigpipe.AsyncClient

/-! ### The workers of a consumer -/

namespace Bigpipe.KafkaConsumer

open Bigpipe.Lib
open Bigpipe.AsyncClient (CallPc WorkerEvent hasEnded workers workers_one)

variable {n : Nat} {folly : Folly} {conf : AsyncClient.Conf} {s s' : State n} {e : Event n}

/-- The events of the workers in a step of a consumer. An attempt has
the message that it read. -/
def workerEvents (s : State n) : Event n → List (WorkerEvent n)
  | .call i => [.call i]
  | .gate i g => [.gate i g]
  | .attempt i outcome => [.attempt i (s.reading i).msg outcome]
  | .runTask i => if s.call i = some .returned then [.next i] else []
  | _ => []

/-- Before the end of the process no worker has ended it. -/
def Alive (s : State n) : Prop := s.ended = none → ¬ hasEnded s.call

/-- Where the call of a worker goes on. An exception and the failed
assertion end the process with it. -/
theorem Alive.goOn (h : ¬ hasEnded s.call) (i : Fin n) (pc : CallPc) : Alive (s.goOn i pc) := by
  intro hended
  rintro ⟨j, hj⟩
  change Function.update s.call i (some pc) j = some .thrown ∨
    Function.update s.call i (some pc) j = some .aborted at hj
  by_cases hji : j = i
  · -- The worker itself ends the process in these cases.
    rw [hji, Function.update_self] at hj
    rcases hj with hthrown | haborted
    · cases hthrown
      cases hended
    · cases haborted
      cases hended
  · rw [Function.update_of_ne hji] at hj
    exact h ⟨j, hj⟩

/-- Every step of a consumer is what its workers do. The steps of
`ConsumeLoop`, of `main` and of the pool are nothing to them. -/
theorem workers_of_step (htask : HasTask s) (halive : Alive s)
    (hs : (system folly conf n).step s e = some s') :
    Alive s' ∧ (workers conf n).run s.call (workerEvents s e) = some s'.call := by
  obtain ⟨hended, h⟩ := step_cases hs
  have hrun := halive hended
  cases h with
  | @call i reqmsg hw hc =>
      refine ⟨Alive.goOn hrun _ _, workers_one (e := .call i) hrun ?_⟩
      simp [AsyncClient.workerStep, WorkerEvent.worker, hc]
  | @gate i pc pc' g hc hg =>
      refine ⟨Alive.goOn hrun _ _, workers_one (e := .gate i g) hrun ?_⟩
      simp [AsyncClient.workerStep, WorkerEvent.worker, hc, hg]
  | @attempt i k outcome hc hend =>
      refine ⟨Alive.goOn hrun _ _,
        workers_one (e := .attempt i (s.reading i).msg outcome) hrun ?_⟩
      simp [AsyncClient.workerStep, WorkerEvent.worker, hc]
  | @runTask i workers hret hw =>
      constructor
      · rintro - ⟨j, hj⟩
        change Function.update s.call i none j = some .thrown ∨
          Function.update s.call i none j = some .aborted at hj
        by_cases hji : j = i
        · rw [hji, Function.update_self] at hj
          simp at hj
        · rw [Function.update_of_ne hji] at hj
          exact hrun ⟨j, hj⟩
      · by_cases hreturned : s.call i = some .returned
        · rw [show workerEvents s (.runTask i) = [.next i] from if_pos hreturned]
          refine workers_one (e := .next i) hrun ?_
          simp [AsyncClient.workerStep, WorkerEvent.worker, hreturned]
        · rw [show workerEvents s (.runTask i) = [] from if_neg hreturned]
          -- It took the null task, and is in no call.
          have hnone : s.call i = none := by
            by_contra hcall
            obtain ⟨reqmsg, htodo⟩ := htask i hcall
            simp [hasReturned, htodo, hreturned] at hret
          show some s.call = some (Function.update s.call i none)
          rw [← hnone, Function.update_eq_self]
  | start | spawn | stop | join | test | eof | message | malformed | throws | asyncCall
    | notStarted | putWait | putDone | endIteration | pool | read | readEnded =>
      exact ⟨fun _ => hrun, rfl⟩

/-- A step keeps the tasks of the workers. A worker in a call holds
its task until the call has returned. -/
theorem hasTask_step (hinv : Inv s) (htask : HasTask s) (h : Step folly conf s e s') :
    HasTask s' := by
  intro j hj
  rcases call_cases hinv htask h with ⟨i, pc, rfl, hi⟩ | hsame
  · change Function.update s.call i (some pc) j ≠ none at hj
    show ∃ reqmsg, s.workers.worker j = .todo (some reqmsg)
    by_cases hji : j = i
    · rw [hji]
      exact hi
    · rw [Function.update_of_ne hji] at hj
      exact htask j hj
  · obtain ⟨hcall, hworker⟩ := hsame j hj
    rw [hworker]
    exact htask j hcall

/-- In every run of a consumer its workers run as `workers`: what the
workers do there, they do here. So what is proved of any number of
workers with any messages holds of the workers of the consumer, whose
messages come from the broker. -/
theorem workers_of_run (isRunning : Bool) {es : List (Event n)} {events : List (WorkerEvent n)}
    (h : ((system folly conf n).logged workerEvents).run (initial isRunning, []) es
      = some (s, events)) :
    (workers conf n).run (fun _ => none) events = some s.call := by
  refine (System.run_induct (I := fun p : State n × List (WorkerEvent n) =>
    (Inv p.1 ∧ HasTask p.1 ∧ Alive p.1) ∧ (workers conf n).run (fun _ => none) p.2 = some p.1.call)
    ?_ ?_ h).2
  · intro p e p' _ hp hs
    obtain ⟨⟨hinv, htask, halive⟩, hrun⟩ := hp
    obtain ⟨hstep, hlog⟩ := System.logged_step_iff.mp hs
    have hcases := (step_cases hstep).2
    obtain ⟨halive', hevents⟩ := workers_of_step htask halive hstep
    refine ⟨⟨inv_step hinv hcases, hasTask_step hinv htask hcases, halive'⟩, ?_⟩
    rw [hlog, System.run_append hrun]
    exact hevents
  · refine ⟨⟨inv_initial isRunning, fun i hi => absurd rfl hi, ?_⟩, rfl⟩
    rintro - ⟨i, hi⟩
    simp [initial] at hi

/-- `workers_of_run` for a message that a worker takes. -/
theorem workers_of_run_queued :
    ∃ s : State 2, ((system compactFolly oneAttempt 2).logged workerEvents).run
        (initial false, []) (spawned ++ .consume (some "orders") payFile :: queued) =
          some (s, [.call ThreadPool.worker₀, .gate ThreadPool.worker₀ .getToken]) ∧
      (workers oneAttempt 2).run (fun _ => none)
        [.call ThreadPool.worker₀, .gate ThreadPool.worker₀ .getToken] = some s.call := by
  obtain ⟨s, s', hspawned, hended, hl, hqueued⟩ : ∃ s s' : State 2,
      ((system compactFolly oneAttempt 2).logged workerEvents).run (initial false, []) spawned
          = some (s, []) ∧ s.ended = none ∧ s.loop = .consuming ∧
        ((system compactFolly oneAttempt 2).logged workerEvents).run
            (s.create payMessage (.calling s.created), []) queued =
          some (s', [.call ThreadPool.worker₀, .gate ThreadPool.worker₀ .getToken]) :=
    ⟨_, _, rfl, rfl, rfl, rfl⟩
  have hconsumed : ((system compactFolly oneAttempt 2).logged workerEvents).step (s, [])
      (.consume (some "orders") payFile) = some (s.create payMessage (.calling s.created), []) :=
    System.logged_step_iff.mpr ⟨step_payFile hended hl, rfl⟩
  have hrun := (System.run_append hspawned).trans ((System.run_cons hconsumed).trans hqueued)
  exact ⟨s', hrun, workers_of_run false hrun⟩

end Bigpipe.KafkaConsumer
