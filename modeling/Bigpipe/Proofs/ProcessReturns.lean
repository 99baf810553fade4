import Bigpipe.Proofs.ConsumerReturns
import Bigpipe.Proofs.ProducerReturns
import Bigpipe.Proofs.Process

/-!
# `Bigpipe.Proofs.ProcessReturns`: the process ends or waits for good

An interrupt that finds `main` asleep brings it to the three `Stop`s.
`main` makes its calls in order, so the process is fair to the
acceptor and the producer while `producer.Stop()` is under way, and to
the consumer after that. Each of the two comes to rest.

There are three places where `main` may stay for good. Two of them are
sleeps: the `put` of the exit notification in `producer.Stop()`,
beside a full channel that nobody takes from any more, and the
`PutTask` of an exit notification in the `Stop` of the thread pool.
The third is a loop: `producer.Stop()` asks the Kafka client for the
length of its out queue until it is 0, and how that queue empties is
not part of the program.

The process is two objects and `main`, which belongs to both. An
execution of the process is projected to each of them, and the results
on the objects ask that the projection be fair. For a thread of one
object that is what fairness in the process says. For `main` it is so
only while `main` is in that object, and the order of its calls says
when.

* `main_of_server` / `main_of_stopped`: what `main` can do before and
  after the return of `producer.Stop()`.
* `server_fair` / `consumer_fair`: the fairness of the process is that
  of its objects.
* `flushes_of_server`: a wait for the out queue in the producer is one
  in the process.
* `shutsDown`: after the interrupt every fair execution ends, or
  `main` stays for good in one of the three places.
-/

set_option autoImplicit false

namespace Bigpipe.Process

open Bigpipe.Lib
open Bigpipe.Lib.System (Execution)

/-! ### The threads -/

/-- The threads of the process. `main` is one thread for both halves,
and the handlers are those of the HTTP server. -/
inductive Tid (H : Type) (n : Nat) where
  | main
  | pushing
  | handler (h : H)
  | consumeLoop
  | worker (i : Fin n)

variable {H : Type} {cap n : Nat}

/-- A thread of the acceptor and the producer. -/
def serverThread : Main.Tid H → Tid H n
  | .main => .main
  | .pushing => .pushing
  | .handler h => .handler h

/-- A thread of the consumer. `main` starts and stops the pool, and
`ConsumeLoop` calls it. -/
def consumerThread : ThreadPool.Tid n Unit → Tid H n
  | .owner => .main
  | .caller _ => .consumeLoop
  | .worker i => .worker i

/-- The thread that takes the step, if one does. A spurious wake-up, a
request and an interrupt come from outside, and nothing is assumed of
them. -/
def actor : Event H n → Option (Tid H n)
  | .server e => (Main.actor e).map serverThread
  | .consumer .start | .consumer .stop | .wait | .wake | .exit => some .main
  | .consumer e => (KafkaConsumer.actor e).map consumerThread
  | .spurious | .sigint => none

/-- A wake-up that nobody caused, in the channel or in the pool. -/
def Event.isSpurious : Event H n → Bool
  | .server (.spurious _) | .consumer (.pool (.spurious _)) => true
  | _ => false

variable [DecidableEq H] [Fintype H] {lib : Libraries} {topics : Topics}
  {conf : AsyncClient.Conf} {s s' : State H cap n} {e : Event H n}

/-! ### The calls of `main` -/

/-- Between its calls of `Start` and `Stop`, and after them, `main`
takes no step of the consumer. -/
theorem not_owner {folly : Folly} {s s' : KafkaConsumer.State n} {e : KafkaConsumer.Event n}
    (hm : s.main = .started ∨ s.main = .stopping)
    (hable : ThreadPool.able s.workers .owner = false) (h : KafkaConsumer.Step folly conf s e s') :
    KafkaConsumer.actor e ≠ some .owner := by
  intro hactor
  cases h with
  | spawn hm' | join hm' =>
      rw [hm'] at hm
      rcases hm with hm | hm <;> cases hm
  | pool _ hw =>
      cases (ThreadPool.able_of_step (ThreadPool.step_cases hw) hactor).symm.trans hable
  | _ => cases hactor

/-- While the pool runs. -/
theorem not_owner_of_started {folly : Folly} {s s' : KafkaConsumer.State n}
    {e : KafkaConsumer.Event n} (hsp : KafkaConsumer.Spawned s) (hm : s.main = .started)
    (h : KafkaConsumer.Step folly conf s e s') : KafkaConsumer.actor e ≠ some .owner :=
  not_owner (.inl hm) (by simp [ThreadPool.able, hsp.started (.inl hm)]) h

omit [DecidableEq H] [Fintype H] in
/-- `main` waits for the interrupt after the calls of `Start`. -/
theorem Ordered.not_idle (hordered : Ordered s) (hw : s.wait ≠ .before) :
    s.server.main ≠ .idle := by
  intro hidle
  rcases hordered.waits hw with hserving | hclosed
  · cases hidle.symm.trans hserving
  · rw [hidle] at hclosed
    cases hclosed

omit [DecidableEq H] [Fintype H] in
/-- Before `consumer.Stop()` the consumer is started when `main` calls
the producer. -/
theorem Ordered.started (hordered : Ordered s) (hidle : s.server.main ≠ .idle)
    (hstop : s.consumer.main.hasStopped ≠ true) : s.consumer.main = .started := by
  obtain ⟨hne, hne'⟩ := hordered.starts hidle
  cases hm : s.consumer.main with
  | idle => exact absurd hm hne
  | starting => exact absurd hm hne'
  | started => rfl
  | joining | stopping => exact absurd (by rw [hm]; rfl) hstop

omit [DecidableEq H] [Fintype H] in
/-- The other steps of the consumer are those of its threads. -/
theorem actor_consumer {e : KafkaConsumer.Event n} (hstart : e ≠ .start) (hstop : e ≠ .stop) :
    actor (.consumer e : Event H n) = (KafkaConsumer.actor e).map consumerThread := by
  cases e with
  | start => exact absurd rfl hstart
  | stop => exact absurd rfl hstop
  | _ => rfl

omit [DecidableEq H] [Fintype H] in
/-- A step of `main` on the consumer is a call of `Start` or of
`Stop`, or one inside of them. -/
theorem consumer_of_actor {e : KafkaConsumer.Event n}
    (hactor : actor (.consumer e : Event H n) = some .main) :
    e = .start ∨ e = .stop ∨ KafkaConsumer.actor e = some .owner := by
  by_cases hstart : e = .start
  · exact .inl hstart
  by_cases hstop : e = .stop
  · exact .inr (.inl hstop)
  rw [actor_consumer hstart hstop, Option.map_eq_some_iff] at hactor
  obtain ⟨t, ht, hmain⟩ := hactor
  cases t with
  | owner => exact .inr (.inr ht)
  | worker | caller => cases hmain

omit [DecidableEq H] [Fintype H] in
/-- A step of `main` in the acceptor and the producer. -/
theorem server_of_actor {e : Main.Event H} (hactor : actor (.server e : Event H n) = some .main) :
    Main.actor e = some .main := by
  obtain ⟨t, ht, hmain⟩ := Option.map_eq_some_iff.mp hactor
  cases t with
  | main => exact ht
  | pushing | handler => cases hmain

/-- From the call of `producer.Start()` up to the return of
`producer.Stop()`, `main` is in the acceptor and the producer, or it
comes to the wait for the interrupt or out of it. None of these steps
is one of the consumer. -/
theorem main_of_server (hordered : Ordered s) (hsp : KafkaConsumer.Spawned s.consumer)
    (h : Step lib topics conf s e s') (hactor : actor e = some .main)
    (hidle : s.server.main ≠ .idle) (hstopped : s.server.main ≠ .stopped) :
    (∃ e', e = .server e' ∧ Main.actor e' = some .main) ∨ e = .wait ∧ s.wait = .before ∨
      e = .wake ∧ s.wait = .woken := by
  have hrunning : s.consumer.main = .started :=
    hordered.started hidle (mt hordered.stops hstopped)
  cases h with
  | server => exact .inl ⟨_, rfl, server_of_actor hactor⟩
  | consumer hturn hs =>
      have hstep := (KafkaConsumer.step_cases hs).2
      rcases consumer_of_actor hactor with rfl | rfl | howner
      · cases hstep with
        | start hm => cases hm.symm.trans hrunning
      · exact absurd (of_decide_eq_true hturn) hstopped
      · exact absurd howner (not_owner_of_started hsp hrunning hstep)
  | wait _ hw => exact .inr (.inl ⟨rfl, hw⟩)
  | wake hw => exact .inr (.inr ⟨rfl, hw⟩)
  | exit hm => cases hm.symm.trans hrunning
  | spurious | sigint | ignored => cases hactor

/-- After its return, `main` takes no step in `producer.Stop()`. -/
theorem not_main_of_stopped {s s' : Main.State H cap} {e : Main.Event H} (hm : s.main = .stopped)
    (h : (Main.system lib topics H cap).step s e = some s') : Main.actor e ≠ some .main := by
  cases (Main.step_cases h).2 with
  | start hm' | setRunning hm' | serve hm' | close hm' | stop hm' | stopPut hm' | stopWait hm'
  | stopPutDone hm' | join hm' | flushWait hm' | flushed hm' => cases hm.symm.trans hm'
  | _ => nofun

/-- After the return of `producer.Stop()`, `main` is in
`consumer.Stop()`, or it returns. What it has left to do in the other
object is nothing. -/
theorem main_of_stopped (hordered : Ordered s) (h : Step lib topics conf s e s')
    (hactor : actor e = some .main) (hstopped : s.server.main = .stopped) :
    (e = .consumer .stop ∧ s.consumer.main = .started) ∨
      (∃ e', e = .consumer e' ∧ KafkaConsumer.actor e' = some .owner) ∨ e = .exit := by
  cases h with
  | server _ hs => exact absurd (server_of_actor hactor) (not_main_of_stopped hstopped hs)
  | consumer hturn hs =>
      have hstep := (KafkaConsumer.step_cases hs).2
      rcases consumer_of_actor hactor with rfl | rfl | howner
      · cases hstep with
        | start hm => exact absurd hm (hordered.starts (by rw [hstopped]; nofun)).1
      · cases hstep with
        | stop hm => exact .inl ⟨rfl, hm⟩
      · exact .inr (.inl ⟨_, rfl, howner⟩)
  | wait hm => cases hm.symm.trans hstopped
  | wake hw => cases hw.symm.trans (hordered.closes (by rw [hstopped]; rfl))
  | exit => exact .inr (.inr rfl)
  | spurious | sigint | ignored => cases hactor

/-- Once `main` was woken, it is its turn in the acceptor and the
producer. -/
theorem serverTurn_of_returned (hordered : Ordered s) (hreturned : s.wait = .returned)
    {e : Main.Event H} {server : Main.State H cap} (h : Main.Step lib s.server e server) :
    serverTurn s e = true := by
  cases h with
  | start hm => exact absurd hm (hordered.not_idle (by rw [hreturned]; nofun))
  | close => exact decide_eq_true hreturned
  | _ => rfl

/-! ### The executions of the objects -/

/-- The execution of the acceptor and the producer. The steps of the
consumer, and those of `main` outside of both, are steps in which it
stays. -/
def serverExecution (x : Execution (system lib topics conf H cap n)) :
    Execution (Main.system lib topics H cap) :=
  x.project State.server (fun _ => Event.toServer) serverProjection.init serverProjection.step

/-- The execution of the consumer. -/
def consumerExecution (x : Execution (system lib topics conf H cap n)) :
    Execution (KafkaConsumer.system lib.folly conf n) :=
  x.project State.consumer (fun _ => Event.toConsumer) consumerProjection.init
    consumerProjection.step

section

variable {x : Execution (system lib topics conf H cap n)}

/-- The objects in every state. -/
theorem objects (x : Execution (system lib topics conf H cap n)) (i : Nat) :
    Ordered (x.state i) ∧ KafkaConsumer.Spawned (x.state i).consumer :=
  ⟨reachable_ordered (x.reachable i),
    KafkaConsumer.reachable_spawned (consumerProjection.reachable (x.reachable i))⟩

omit [DecidableEq H] [Fintype H] in
/-- Where the process has not ended, none of its objects has ended
it. -/
theorem goes (hended : s.hasEnded = false) :
    s.server.crashed = false ∧ s.consumer.ended = none := by
  simp only [State.hasEnded, Bool.or_eq_false_iff, Option.isSome_eq_false_iff,
    Option.isNone_iff_eq_none] at hended
  exact hended.1

/-- A step of the acceptor and the producer in its turn. -/
theorem enabled_server {t : Main.Tid H} (hended : s.hasEnded = false)
    (hturn : ∀ e server, Main.actor e = some t → Main.Step lib s.server e server →
      serverTurn s e = true)
    (h : (Main.system lib topics H cap).Enabled (fun e => Main.actor e = some t) s.server) :
    (system lib topics conf H cap n).Enabled (fun e => actor e = some (serverThread t)) s := by
  obtain ⟨e, hactor, hsome⟩ := h
  obtain ⟨s', hs⟩ := Option.isSome_iff_exists.mp hsome
  refine ⟨.server e, ?_, ?_⟩
  · show (Main.actor e).map serverThread = some (serverThread t)
    rw [hactor]
    rfl
  · simp [system, hended, server, hturn e s' hactor (Main.step_cases hs).2, hs]

/-- A step of the consumer that can be taken by itself can be taken in
the process, by the thread that has it there. -/
theorem enabled_consumer {t : ThreadPool.Tid n Unit} (hended : s.hasEnded = false)
    (h : (KafkaConsumer.system lib.folly conf n).Enabled
      (fun e => KafkaConsumer.actor e = some t) s.consumer) :
    (system lib topics conf H cap n).Enabled (fun e => actor e = some (consumerThread t)) s := by
  obtain ⟨e, hactor, hsome⟩ := h
  obtain ⟨s', hs⟩ := Option.isSome_iff_exists.mp hsome
  have hstart : e ≠ .start := by
    rintro rfl
    cases hactor
  have hstop : e ≠ .stop := by
    rintro rfl
    cases hactor
  have hturn : consumerTurn s e = true := by
    cases e with
    | stop => exact absurd rfl hstop
    | _ => rfl
  refine ⟨.consumer e, ?_, by simp [system, hended, consumer, hturn, hs]⟩
  show actor (.consumer e) = some (consumerThread t)
  rw [actor_consumer hstart hstop, hactor]
  rfl

omit [DecidableEq H] [Fintype H] in
/-- A step of a thread other than `main` is one in its object. So
fairness to the thread is fairness within the object. -/
theorem actor_cases {t : Tid H n} (ht : t ≠ .main) (hactor : actor e = some t) :
    (∃ e' u, e = .server e' ∧ Main.actor e' = some u ∧ serverThread u = t) ∨
      ∃ e' u, e = .consumer e' ∧ KafkaConsumer.actor e' = some u ∧ consumerThread u = t := by
  have hmain : actor e ≠ some .main := by
    rw [hactor]
    exact fun heq => ht (Option.some.inj heq)
  cases e with
  | server e =>
      obtain ⟨u, hu, heq⟩ := Option.map_eq_some_iff.mp hactor
      exact .inl ⟨e, u, rfl, hu, heq⟩
  | consumer e =>
      rw [actor_consumer (by rintro rfl; exact hmain rfl) (by rintro rfl; exact hmain rfl),
        Option.map_eq_some_iff] at hactor
      obtain ⟨u, hu, heq⟩ := hactor
      exact .inr ⟨e, u, rfl, hu, heq⟩
  | wait | wake | exit => exact absurd rfl hmain
  | spurious | sigint => cases hactor

omit [DecidableEq H] [Fintype H] in
/-- A step of another thread of the acceptor and the producer. -/
theorem server_of_thread {t : Main.Tid H} (ht : t ≠ .main)
    (hactor : actor e = some (serverThread t)) :
    ∃ e', e = .server e' ∧ Main.actor e' = some t := by
  have hmain : (serverThread t : Tid H n) ≠ .main := by
    cases t with
    | main => exact absurd rfl ht
    | pushing | handler => nofun
  rcases actor_cases hmain hactor with ⟨e', u, rfl, hu, heq⟩ | ⟨e', u, -, -, heq⟩
  · cases u <;> cases t <;> cases heq <;> exact ⟨e', rfl, hu⟩
  · cases u <;> cases t <;> cases heq
    exact absurd rfl ht

omit [DecidableEq H] [Fintype H] in
/-- A step of another thread of the consumer. -/
theorem consumer_of_thread {t : ThreadPool.Tid n Unit} (ht : t ≠ .owner)
    (hactor : actor e = some (consumerThread t)) :
    ∃ e', e = .consumer e' ∧ KafkaConsumer.actor e' = some t := by
  have hmain : (consumerThread t : Tid H n) ≠ .main := by
    cases t with
    | owner => exact absurd rfl ht
    | worker | caller => nofun
  rcases actor_cases hmain hactor with ⟨e', u, -, -, heq⟩ | ⟨e', u, rfl, hu, heq⟩
  · cases u <;> cases t <;> cases heq
    exact absurd rfl ht
  · cases u <;> cases t <;> cases heq <;> exact ⟨e', rfl, hu⟩

/-- The return of `main` ends the process. -/
theorem hasEnded_of_exit (h : Step lib topics conf s .exit s') : s'.hasEnded = true := by
  cases h with
  | exit => simp [State.hasEnded]

/-- Once `main` was woken, the process is fair to the acceptor and the
producer. Where a thread stays able to run there, it stays able to run
in the process, since it is its turn. -/
theorem server_fair (hgoes : ∀ i, (x.state i).hasEnded = false)
    (hfair : ∀ t, x.WeaklyFair fun e => actor e = some t) {i : Nat}
    (hreturned : ∀ j, i ≤ j → (x.state j).wait = .returned) (t : Main.Tid H) :
    (serverExecution x).WeaklyFair fun e => Main.actor e = some t := by
  intro k henabled
  obtain ⟨j, e, hj, hactor, he⟩ := hfair (serverThread t) (max i k) fun j hj =>
    enabled_server (hgoes j) (fun _ _ _ => serverTurn_of_returned (objects x j).1
      (hreturned j ((Nat.le_max_left i k).trans hj))) (henabled j ((Nat.le_max_right i k).trans hj))
  have hkj := (Nat.le_max_right i k).trans hj
  have hserver : ∃ e', e = .server e' ∧ Main.actor e' = some t := by
    by_cases ht : t = .main
    · subst ht
      obtain ⟨hordered, hsp⟩ := objects x j
      have hw := hreturned j ((Nat.le_max_left i k).trans hj)
      have hidle := hordered.not_idle (by rw [hw]; nofun)
      have hstopped : (x.state j).server.main ≠ .stopped := by
        intro hm
        obtain ⟨e', hactor', hsome⟩ := henabled j hkj
        obtain ⟨s', hs'⟩ := Option.isSome_iff_exists.mp hsome
        exact not_main_of_stopped hm hs' hactor'
      rcases main_of_server hordered hsp (step_cases (x.steps j e he)).2 hactor hidle hstopped with
        hserver | ⟨-, hbefore⟩ | ⟨-, hwoken⟩
      · exact hserver
      · cases hw.symm.trans hbefore
      · cases hw.symm.trans hwoken
    · exact server_of_thread ht hactor
  obtain ⟨e', rfl, hactor'⟩ := hserver
  exact ⟨j, e', hkj, hactor', Execution.project_event he⟩

/-- Once `consumer.Stop()` has been called, the process is fair to the
consumer. -/
theorem consumer_fair (hgoes : ∀ i, (x.state i).hasEnded = false)
    (hfair : ∀ t, x.WeaklyFair fun e => actor e = some t) {i : Nat}
    (hstop : ∀ j, i ≤ j → (x.state j).consumer.main.hasStopped = true)
    (t : ThreadPool.Tid n Unit) :
    (consumerExecution x).WeaklyFair fun e => KafkaConsumer.actor e = some t := by
  intro k henabled
  obtain ⟨j, e, hj, hactor, he⟩ := hfair (consumerThread t) (max i k) fun j hj =>
    enabled_consumer (hgoes j) (henabled j ((Nat.le_max_right i k).trans hj))
  have hconsumer : ∃ e', e = .consumer e' ∧ KafkaConsumer.actor e' = some t := by
    by_cases ht : t = .owner
    · subst ht
      have hordered := (objects x j).1
      have hstop' := hstop j ((Nat.le_max_left i k).trans hj)
      have hstep := (step_cases (x.steps j e he)).2
      rcases main_of_stopped hordered hstep hactor (hordered.stops hstop') with
        ⟨-, hm⟩ | hconsumer | rfl
      · rw [hm] at hstop'
        cases hstop'
      · exact hconsumer
      · cases (hgoes (j + 1)).symm.trans (hasEnded_of_exit hstep)
    · exact consumer_of_thread ht hactor
  obtain ⟨e', rfl, hactor'⟩ := hconsumer
  exact ⟨j, e', (Nat.le_max_right i k).trans hj, hactor', Execution.project_event he⟩

/-! ### The stages of the end -/

omit [DecidableEq H] [Fintype H] in
/-- `main` is woken while it serves. -/
theorem Ordered.serving (hordered : Ordered s) (hw : s.wait = .woken) :
    s.server.main = .serving := by
  refine (hordered.waits (by rw [hw]; nofun)).resolve_right fun hclosed => ?_
  cases hw.symm.trans (hordered.closes hclosed)

/-- Once it was woken, `main` waits only for the mutex. -/
theorem woken_step (hordered : Ordered s) (hw : s.wait = .woken)
    (h : Step lib topics conf s e s') :
    s'.wait = .woken ∧ e ≠ .wake ∨ s'.wait = .returned ∧ s'.server.main = .serving := by
  cases h with
  | wait _ hw' | spurious hw' | sigint hw' => cases hw.symm.trans hw'
  | wake => exact .inr ⟨rfl, hordered.serving hw⟩
  | server | consumer | ignored | exit => exact .inl ⟨hw, nofun⟩

theorem returned_step (hw : s.wait = .returned) (h : Step lib topics conf s e s') :
    s'.wait = .returned := by
  cases h with
  | wait _ hw' | spurious hw' | sigint hw' | wake hw' => cases hw.symm.trans hw'
  | server | consumer | ignored | exit => exact hw

/-- `main` is serving until it calls `acceptor.Stop()`. What the
others do meanwhile does not move it. -/
theorem serving_step (hm : s.server.main = .serving) (h : Step lib topics conf s e s') :
    s'.server.main = .serving ∧ e ≠ .server .close ∨
      e = .server .close ∧ s'.server.main = .closed := by
  cases h with
  | server hturn hs =>
      rcases main_of_serverStep (Main.step_cases hs).2 with ⟨-, hm', -⟩ | ⟨rfl, -, hm'⟩ |
        ⟨-, hclosed, hserving, -⟩
      · cases hm.symm.trans hm'
      · exact .inr ⟨rfl, hm'⟩
      · refine .inl ⟨hserving hm, ?_⟩
        rintro ⟨⟩
        cases (Main.step_cases hs).2 with
        | close =>
            rw [hm] at hclosed
            cases hclosed
  | consumer | wait | spurious | wake | sigint | ignored | exit => exact .inl ⟨hm, nofun⟩

/-- A step of `main` there is the wait, its end, or this call. The
wait stands between the three `Start`s and the three `Stop`s. -/
theorem main_of_serving (hordered : Ordered s) (hsp : KafkaConsumer.Spawned s.consumer)
    (hm : s.server.main = .serving) (h : Step lib topics conf s e s')
    (hactor : actor e = some .main) :
    e = .server .close ∧ s.wait = .returned ∨ e = .wait ∧ s.wait = .before ∨
      e = .wake ∧ s.wait = .woken := by
  refine (main_of_server hordered hsp h hactor (by rw [hm]; nofun) (by rw [hm]; nofun)).imp ?_ id
  rintro ⟨e', rfl, hactor'⟩
  cases h with
  | server hturn hs =>
      cases (Main.step_cases hs).2 with
      | close => exact ⟨rfl, of_decide_eq_true hturn⟩
      | start hm' | setRunning hm' | serve hm' | stop hm' | stopPut hm' | stopWait hm'
      | stopPutDone hm' | join hm' | flushWait hm' | flushed hm' => cases hm.symm.trans hm'
      | _ => cases hactor'

/-- `waitForUserInterrupt()` returns: a thread that was woken is asked
for nothing, and takes its next step. -/
theorem woken_leadsTo_returned (hgoes : ∀ i, (x.state i).hasEnded = false)
    (hfair : x.WeaklyFair fun e => actor e = some .main) :
    x.LeadsTo (fun s => s.wait = .woken)
      fun s => s.wait = .returned ∧ s.server.main = .serving := by
  refine hfair.leadsTo ?_ ?_ ?_
  · intro i e he hw
    exact (woken_step (objects x i).1 hw (step_cases (x.steps i e he)).2).imp And.left id
  · intro i e he hactor hw
    obtain ⟨hordered, hsp⟩ := objects x i
    have hstep := (step_cases (x.steps i e he)).2
    rcases main_of_serving hordered hsp (hordered.serving hw) hstep hactor with
      ⟨-, hw'⟩ | ⟨-, hw'⟩ | ⟨hwake, -⟩
    · cases hw.symm.trans hw'
    · cases hw.symm.trans hw'
    · exact (woken_step hordered hw hstep).resolve_left fun h => h.2 hwake
  · intro i hw
    exact ⟨.wake, rfl, by simp [system, hgoes i, wake, hw]⟩

/-- `acceptor.Stop()` is called, as nothing stands between the end of
the wait and this call. -/
theorem returned_leadsTo_closed (hgoes : ∀ i, (x.state i).hasEnded = false)
    (hfair : x.WeaklyFair fun e => actor e = some .main) :
    x.LeadsTo (fun s => s.wait = .returned ∧ s.server.main = .serving)
      fun s => s.server.main = .closed := by
  refine hfair.leadsTo ?_ ?_ ?_
  · intro i e he ⟨hw, hm⟩
    have hstep := (step_cases (x.steps i e he)).2
    exact (serving_step hm hstep).imp (fun h => ⟨returned_step hw hstep, h.1⟩) And.right
  · intro i e he hactor ⟨hw, hm⟩
    obtain ⟨hordered, hsp⟩ := objects x i
    have hstep := (step_cases (x.steps i e he)).2
    rcases main_of_serving hordered hsp hm hstep hactor with
      ⟨hclose, -⟩ | ⟨-, hw'⟩ | ⟨-, hw'⟩
    · exact ((serving_step hm hstep).resolve_left fun h => h.2 hclose).2
    · cases hw.symm.trans hw'
    · cases hw.symm.trans hw'
  · intro i ⟨hw, hm⟩
    exact ⟨.server .close, rfl, by
      simp [system, hgoes i, server, serverTurn, hw, Main.system, (goes (hgoes i)).1, Main.close,
        hm]⟩

/-- `acceptor.Stop()` is called once. -/
theorem hasClosed_step (hclosed : hasClosed s.server.main = true)
    (h : Step lib topics conf s e s') : hasClosed s'.server.main = true := by
  cases h with
  | server _ hs =>
      rcases main_of_serverStep (Main.step_cases hs).2 with ⟨-, hm, -⟩ | ⟨-, hm, -⟩ | ⟨-, hsame, -⟩
      · rw [hm] at hclosed
        cases hclosed
      · rw [hm] at hclosed
        cases hclosed
      · exact hsame.trans hclosed
  | consumer | wait | spurious | wake | sigint | ignored | exit => exact hclosed

/-- After that no request comes in. -/
theorem actor_of_closed {s s' : Main.State H cap} {e : Main.Event H}
    (hclosed : hasClosed s.main = true) (h : Main.Step lib s e s')
    (hspurious : ∀ t, e ≠ .spurious t) : Main.actor e ≠ none := by
  cases h with
  | request hm =>
      rw [hm] at hclosed
      cases hclosed
  | spurious => exact absurd rfl (hspurious _)
  | _ => nofun

/-- `main` waits for good for the out queue of the Kafka client: it
tests its length again and again, and the length is never 0. Nobody
polls the client, so nothing in the program makes the queue
shorter. -/
def Flushes (x : Execution (system lib topics conf H cap n)) (i : Nat) : Prop :=
  (∀ j, i ≤ j → (x.state j).server.main = .flushing) ∧
    ∀ j, i ≤ j → ∃ k length, j ≤ k ∧ 0 < length ∧ x.event k = some (.server (.flush length))

/-- A wait of the producer is one of the process. -/
theorem flushes_of_server {i : Nat} (h : Main.Flushes (serverExecution x) i) : Flushes x i := by
  obtain ⟨hmain, htests⟩ := h
  refine ⟨hmain, fun j hj => ?_⟩
  obtain ⟨k, length, hk, hl, hevent⟩ := htests j hj
  obtain ⟨e, he, hserver⟩ := Option.bind_eq_some_iff.mp hevent
  refine ⟨k, length, hk, hl, ?_⟩
  cases e with
  | server e =>
      cases hserver
      exact he
  | _ => cases hserver

/-- The acceptor and the producer come to rest, or `main` waits for
good for the out queue. -/
theorem server_settles (hcap : 0 < cap) (hgoes : ∀ i, (x.state i).hasEnded = false)
    (hfair : ∀ t, x.WeaklyFair fun e => actor e = some t) {i m : Nat}
    (hclosed : (x.state i).server.main = .closed)
    (hown : ∀ j e, m ≤ j → x.event j = some e → e.isSpurious = false) :
    ∃ j, i ≤ j ∧ ((∀ k, j ≤ k → Main.Settled (x.state k).server) ∨ Flushes x j) := by
  have hclosed' : ∀ j, i ≤ j → hasClosed (x.state j).server.main = true := fun j hij =>
    Execution.always_from (x := x) (P := fun s => hasClosed s.server.main = true)
      (by rw [hclosed]; rfl) (fun k e _ he hk => hasClosed_step hk (step_cases (x.steps k e he)).2)
      hij
  -- A closed server takes no request, so from here on its steps are those of
  -- its threads.
  have hserverOwn : ∀ j e, max i m ≤ j → (serverExecution x).event j = some e →
      Main.actor e ≠ none := by
    intro j e hj hevent
    obtain ⟨e', he', hevent'⟩ := Option.bind_eq_some_iff.mp hevent
    cases e' with
    | server e' =>
        cases hevent'
        refine actor_of_closed (hclosed' j ((Nat.le_max_left i m).trans hj))
          (Main.step_cases ((serverExecution x).steps j e hevent)).2 ?_
        rintro t rfl
        cases hown j _ ((Nat.le_max_right i m).trans hj) he'
    | _ => cases hevent'
  have hserverFair := server_fair hgoes hfair fun j hij => (objects x j).1.closes (hclosed' j hij)
  have hnot : ∀ j, (x.state j).server.crashed ≠ true := fun j =>
    Bool.eq_false_iff.mp (goes (hgoes j)).1
  obtain ⟨j₁, h₁, hends⟩ := Main.closed_leadsTo (hserverFair .main) i hclosed
  -- The server's own theorem, at the execution of its half.
  obtain ⟨j, hj, hstays, hrests⟩ :=
    Main.rest_of_stop hcap hserverFair (hends.resolve_left (hnot j₁)) hserverOwn
  refine ⟨j, h₁.trans hj, ?_⟩
  rcases hrests.resolve_left (hnot j) with hsettled | ⟨hflushes, -⟩
  · refine .inl fun k hk => ?_
    have hsame : (x.state k).server = (x.state j).server := hstays k hk
    rw [hsame]
    exact hsettled
  · exact .inr (flushes_of_server hflushes)

/-- After the return of `producer.Stop()`, a step of the process
leaves `main` there or calls `consumer.Stop()`. -/
theorem stopped_step (hs : s.server.main = .stopped) (hm : s.consumer.main = .started)
    (h : Step lib topics conf s e s') :
    (s'.server.main = .stopped ∧ s'.consumer.main = .started) ∧ e ≠ .consumer .stop ∨
      s'.consumer.main.hasStopped = true := by
  cases h with
  | server _ hserver =>
      refine .inl ⟨⟨?_, hm⟩, nofun⟩
      rcases main_of_serverStep (Main.step_cases hserver).2 with ⟨-, hm', -⟩ | ⟨-, hm', -⟩ |
        ⟨-, -, -, hstopped⟩
      · cases hs.symm.trans hm'
      · cases hs.symm.trans hm'
      · exact hstopped hs
  | consumer _ hconsumer =>
      cases (KafkaConsumer.step_cases hconsumer).2 with
      | start hm' | spawn hm' | join hm' => cases hm.symm.trans hm'
      | stop => exact .inr rfl
      | _ => exact .inl ⟨⟨hs, hm⟩, nofun⟩
  | wait | spurious | wake | sigint | ignored | exit => exact .inl ⟨⟨hs, hm⟩, nofun⟩

/-- A step of `main` there is this call. -/
theorem stop_of_actor (hordered : Ordered s) (hsp : KafkaConsumer.Spawned s.consumer)
    (hs : s.server.main = .stopped) (hm : s.consumer.main = .started)
    (h : Step lib topics conf s e s') (hactor : actor e = some .main) : e = .consumer .stop := by
  rcases main_of_stopped hordered h hactor hs with ⟨hstop, -⟩ | ⟨e', rfl, howner⟩ | rfl
  · exact hstop
  · cases h with
    | consumer _ hconsumer =>
        exact absurd howner (not_owner_of_started hsp hm (KafkaConsumer.step_cases hconsumer).2)
  · cases h with
    | exit hm' => cases hm.symm.trans hm'

/-- `consumer.Stop()` is called. Nothing but `main` can keep the
process from it, and `main` has no other step. -/
theorem stopped_leadsTo_stop (hgoes : ∀ i, (x.state i).hasEnded = false)
    (hfair : x.WeaklyFair fun e => actor e = some .main) :
    x.LeadsTo (fun s => s.server.main = .stopped ∧ s.consumer.main = .started)
      fun s => s.consumer.main.hasStopped = true := by
  refine hfair.leadsTo ?_ ?_ ?_
  · intro i e he ⟨hs, hm⟩
    exact (stopped_step hs hm (step_cases (x.steps i e he)).2).imp And.left id
  · intro i e he hactor ⟨hs, hm⟩
    obtain ⟨hordered, hsp⟩ := objects x i
    have hstep := (step_cases (x.steps i e he)).2
    exact (stopped_step hs hm hstep).resolve_left fun h =>
      h.2 (stop_of_actor hordered hsp hs hm hstep hactor)
  · intro i ⟨hs, hm⟩
    exact ⟨.consumer .stop, rfl, by
      simp [system, hgoes i, consumer, consumerTurn, hs, KafkaConsumer.system, (goes (hgoes i)).2,
        KafkaConsumer.step, KafkaConsumer.stop, hm]⟩

/-- `consumer.Stop()` is called once. -/
theorem hasStopped_step (hstop : s.consumer.main.hasStopped = true)
    (h : Step lib topics conf s e s') : s'.consumer.main.hasStopped = true := by
  cases h with
  | consumer _ hs =>
      rcases main_of_consumerStep (KafkaConsumer.step_cases hs).2 with ⟨-, hm, -⟩ | ⟨hsame, -⟩
      · rw [hm] at hstop
        cases hstop
      · exact hsame.trans hstop
  | server | wait | spurious | wake | sigint | ignored | exit => exact hstop

/-- The consumer comes to rest. The theorem about the consumer alone
is used for the half of the process that is the consumer. -/
theorem consumer_settles (hn : 0 < n) (hgoes : ∀ i, (x.state i).hasEnded = false)
    (hfair : ∀ t, x.WeaklyFair fun e => actor e = some t)
    (hcall : ∀ u, x.LeadsTo (fun s => s.consumer.call u ≠ none)
      fun s => s.consumer.call u = some .returned ∨ s.hasEnded = true)
    (hconsume : x.LeadsTo (fun s => s.consumer.loop = .consuming)
      fun s => s.consumer.loop ≠ .consuming ∨ s.hasEnded = true) {i m : Nat}
    (hstop : (x.state i).consumer.main.hasStopped = true)
    (hown : ∀ j e, m ≤ j → x.event j = some e → e.isSpurious = false) :
    ∃ j, i ≤ j ∧ ∀ k, j ≤ k → KafkaConsumer.Settled (x.state k).consumer := by
  have hstop' : ∀ j, i ≤ j → (x.state j).consumer.main.hasStopped = true := fun j hij =>
    Execution.always_from (x := x) (P := fun s => s.consumer.main.hasStopped = true) hstop
      (fun k e _ he hk => hasStopped_step hk (step_cases (x.steps k e he)).2) hij
  have hnot : ∀ j, (x.state j).hasEnded ≠ true := fun j => Bool.eq_false_iff.mp (hgoes j)
  have hconsumerOwn : ∀ j t, m ≤ j →
      (consumerExecution x).event j ≠ some (.pool (.spurious t)) := by
    intro j t hj hevent
    obtain ⟨e, he, hevent⟩ := Option.bind_eq_some_iff.mp hevent
    cases e with
    | consumer e =>
        cases hevent
        cases hown j _ hj he
    | _ => cases hevent
  exact KafkaConsumer.settled_of_hasStopped hn (x := consumerExecution x)
    (fun j => (goes (hgoes j)).2) (consumer_fair hgoes hfair hstop')
    (fun u j hj => (hcall u j hj).imp fun k hk => ⟨hk.1, .inl (hk.2.resolve_right (hnot k))⟩)
    (fun j hj => (hconsume j hj).imp fun k hk => ⟨hk.1, .inl (hk.2.resolve_right (hnot k))⟩)
    hstop hconsumerOwn

/-- Once `consumer.Stop()` has returned, `main` returns, and with it
the process ends. -/
theorem hasEnded_of_returned (hfair : x.WeaklyFair fun e => actor e = some .main) {i : Nat}
    (hmain : ∀ j, i ≤ j → (x.state j).consumer.main = .stopping)
    (hpool : ∀ j, i ≤ j → (x.state j).consumer.workers.owner = .stopped) :
    ∃ j, (x.state j).hasEnded = true := by
  by_contra hnever
  have hgoes : ∀ j, (x.state j).hasEnded = false := fun j =>
    Bool.eq_false_of_not_eq_true fun h => hnever ⟨j, h⟩
  obtain ⟨j, e, hij, hactor, he⟩ := hfair i fun j hij =>
    ⟨.exit, rfl, by simp [system, hgoes j, exit, hmain j hij, hpool j hij]⟩
  have hordered := (objects x j).1
  have hstep := (step_cases (x.steps j e he)).2
  have hm := hmain j hij
  rcases main_of_stopped hordered hstep hactor (hordered.stops (by rw [hm]; rfl)) with
    ⟨-, hm'⟩ | ⟨e', rfl, howner⟩ | rfl
  · cases hm.symm.trans hm'
  · exact not_owner (.inr hm) (by simp [ThreadPool.able, hpool j hij])
      (KafkaConsumer.step_cases ((consumerExecution x).steps j e' (Execution.project_event he))).2
      howner
  · exact hnever ⟨j + 1, hasEnded_of_exit hstep⟩

end

/-! ### The end of the process -/

/-- In every execution of the process, with slots and workers, in
which every thread that stays able to run runs in the end, every
`Call` and every wait for a message comes to an end, and from some
point on there are no spurious wake-ups: once an interrupt has woken
`main`, the process ends, or `main` sleeps for good in
`producer.Stop()` or in the `Stop` of the thread pool, or it waits for
good for an out queue of the Kafka client that is never empty when it
looks.

The first of the four includes an end by a crash. The other three are
told apart by where `main` is. -/
theorem shutsDown (hcap : 0 < cap) (hn : 0 < n) (x : Execution (system lib topics conf H cap n))
    (hfair : ∀ t, x.WeaklyFair fun e => actor e = some t)
    (hcall : ∀ u, x.LeadsTo (fun s => s.consumer.call u ≠ none)
      fun s => s.consumer.call u = some .returned ∨ s.hasEnded = true)
    (hconsume : x.LeadsTo (fun s => s.consumer.loop = .consuming)
      fun s => s.consumer.loop ≠ .consuming ∨ s.hasEnded = true) {i m : Nat}
    (hwoken : (x.state i).wait = .woken)
    (hown : ∀ j e, m ≤ j → x.event j = some e → e.isSpurious = false) :
    ∃ j, i ≤ j ∧ ((∀ k, j ≤ k → (x.state k).hasEnded = true) ∨
      (∀ k, j ≤ k → Main.Abandoned (x.state k).server) ∨ Flushes x j ∨
        ∀ k, j ≤ k → ThreadPool.Wedged (x.state k).consumer.workers) := by
  by_cases hends : ∃ j, (x.state j).hasEnded = true
  · obtain ⟨j, hj⟩ := hends
    refine ⟨max i j, Nat.le_max_left i j, .inl fun k hk => ?_⟩
    refine Execution.always_from (x := x) (P := fun s => s.hasEnded = true) hj
      (fun l e _ he hl => ?_) ((Nat.le_max_right i j).trans hk)
    cases hl.symm.trans (step_cases (x.steps l e he)).1
  have hgoes : ∀ j, (x.state j).hasEnded = false := fun j =>
    Bool.eq_false_of_not_eq_true fun h => hends ⟨j, h⟩
  -- `main` calls `acceptor.Stop()`, and the producer comes to rest.
  obtain ⟨j₁, h₁, hreturned⟩ := woken_leadsTo_returned hgoes (hfair .main) i hwoken
  obtain ⟨j₂, h₂, hclosed⟩ := returned_leadsTo_closed hgoes (hfair .main) j₁ hreturned
  obtain ⟨j₃, h₃, hserver⟩ := server_settles hcap hgoes hfair hclosed hown
  have hi₃ := h₁.trans (h₂.trans h₃)
  rcases hserver with hserver | hflushes
  swap
  · exact ⟨j₃, hi₃, .inr (.inr (.inl hflushes))⟩
  by_cases habandoned : ∀ k, j₃ ≤ k → Main.Abandoned (x.state k).server
  · exact ⟨j₃, hi₃, .inr (.inl habandoned)⟩
  push Not at habandoned
  obtain ⟨j₄, h₄, hnot⟩ := habandoned
  have hs := (hserver j₄ h₄).main.resolve_right hnot
  -- `producer.Stop()` has returned, and `main` calls `consumer.Stop()`.
  have hstop : ∃ j, j₄ ≤ j ∧ (x.state j).consumer.main.hasStopped = true := by
    by_cases hstop : (x.state j₄).consumer.main.hasStopped = true
    · exact ⟨j₄, Nat.le_refl j₄, hstop⟩
    · exact stopped_leadsTo_stop hgoes (hfair .main) j₄
        ⟨hs, (objects x j₄).1.started (by rw [hs]; nofun) hstop⟩
  obtain ⟨j₅, h₅, hstop⟩ := hstop
  obtain ⟨j₆, h₆, hconsumer⟩ := consumer_settles hn hgoes hfair hcall hconsume hstop hown
  have hi₆ := hi₃.trans (h₄.trans (h₅.trans h₆))
  by_cases hwedged : ∀ k, j₆ ≤ k → ThreadPool.Wedged (x.state k).consumer.workers
  · exact ⟨j₆, hi₆, .inr (.inr (.inr hwedged))⟩
  push Not at hwedged
  obtain ⟨j₇, h₇, hnot⟩ := hwedged
  -- `consumer.Stop()` has returned, and `main` returns.
  have hpool := (hconsumer j₇ h₇).pool.resolve_right hnot
  exact absurd (hasEnded_of_returned (hfair .main)
    (fun k hk => (hconsumer k (h₇.trans hk)).main)
    fun k hk => ThreadPool.stopped_always (x := KafkaConsumer.pool (consumerExecution x)) hk hpool)
    hends

/-- `shutsDown` in the execution that takes the steps of `started` and
`stopped` and then stays. -/
theorem shutsDown_stopped :
    ∃ (x : Execution (system Main.compactLibraries Main.oneTopic KafkaConsumer.oneAttempt
        Unit 20 2)) (j : Nat),
      (x.state 10).wait = .woken ∧ 10 ≤ j ∧ ((∀ k, j ≤ k → (x.state k).hasEnded = true) ∨
        (∀ k, j ≤ k → Main.Abandoned (x.state k).server) ∨ Flushes x j ∨
          ∀ k, j ≤ k → ThreadPool.Wedged (x.state k).consumer.workers) := by
  have hinit : (system Main.compactLibraries Main.oneTopic KafkaConsumer.oneAttempt
      Unit 20 2).init (initial Main.oneTopic false false) := ⟨false, false, rfl⟩
  obtain ⟨s₁, s, hrun₁, hwoken, hrun, hended⟩ : ∃ s₁ s : State Unit 20 2,
      (system Main.compactLibraries Main.oneTopic KafkaConsumer.oneAttempt Unit 20 2).run
        (initial Main.oneTopic false false) ((started ++ stopped).take 10) = some s₁ ∧
      s₁.wait = .woken ∧
      (system Main.compactLibraries Main.oneTopic KafkaConsumer.oneAttempt Unit 20 2).run
        (initial Main.oneTopic false false) (started ++ stopped) = some s ∧
      s.hasEnded = true := ⟨_, _, rfl, rfl, rfl, rfl⟩
  have hsome := Option.isSome_of_eq_some hrun
  let x : Execution (system Main.compactLibraries Main.oneTopic KafkaConsumer.oneAttempt
    Unit 20 2) := Execution.ofRun _ hinit _ hsome
  have hends : ∀ i, ∃ j, i ≤ j ∧ (x.state j).hasEnded = true := by
    intro i
    have hlast : x.state (max i (started ++ stopped).length) = s :=
      Execution.ofRun_last hsome hrun (Nat.le_max_right _ _)
    exact ⟨_, Nat.le_max_left _ _, by rw [hlast, hended]⟩
  have hstate : x.state 10 = s₁ := Execution.ofRun_state hsome hrun₁
  have hwoken' : (x.state 10).wait = .woken := by rw [hstate, hwoken]
  -- Nothing happens after the end.
  have hfair : ∀ t, x.WeaklyFair fun e => actor e = some t := by
    intro t
    refine Execution.weaklyFair_ofRun hsome hrun ?_
    rintro ⟨e, -, hstep⟩
    simp [system, hended] at hstep
  have hcaused : (started ++ stopped : List (Event Unit 2)).all (!·.isSpurious) = true := rfl
  obtain ⟨j, hj, houtcome⟩ := shutsDown (by decide) Nat.zero_lt_two x hfair
    (fun u i _ => (hends i).imp fun j hj => ⟨hj.1, .inr hj.2⟩)
    (fun i _ => (hends i).imp fun j hj => ⟨hj.1, .inr hj.2⟩) hwoken' (m := 0) fun i e _ he =>
      by simpa using List.all_eq_true.mp hcaused e (List.mem_of_getElem? he)
  exact ⟨x, j, hwoken', hj, houtcome⟩

end Bigpipe.Process
