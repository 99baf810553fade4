import Bigpipe.Process
import Bigpipe.Proofs.Conservation
import Bigpipe.Proofs.ConsumeLoop
import Bigpipe.Proofs.ThreadPoolReturns
import Bigpipe.Proofs.Workers

/-!
# `Bigpipe.Proofs.Process`: start and end of the process, and what goes through it

`main` starts the consumer, the producer and the acceptor, sleeps
until an interrupt, and stops them in the other order. The acceptor
and the producer are one object, as they share the channel, and the
consumer is the other. The two have no state in common, so a run of
the process is an interleaving of one run of each.

What connects them is the order in which `main` makes its calls.
`Ordered` has it as an invariant: while `main` is in a call of one
object, it is between two calls of the other.

* `Step`: what a step can do, and `step_cases` that nothing else
  happens.
* `serverProjection` / `consumerProjection`: a run of the process is a
  run of each of its objects.
* `threadsEnded`: when `main` returns, only handlers of the HTTP
  server may still run.
* `interrupted`: `acceptor.Stop()` is called after a SIGINT that found
  `main` asleep.
-/

set_option autoImplicit false

namespace Bigpipe.Process

open Bigpipe.Lib

variable {H : Type} {cap n : Nat} [DecidableEq H] [Fintype H] {lib : Libraries} {topics : Topics}
  {conf : AsyncClient.Conf} {s s' : State H cap n} {e : Event H n}

/-! ### What a step can do -/

/-- The steps: one constructor for each branch of each event, with the
guard of the branch and the state after it. -/
inductive Step (lib : Libraries) (topics : Topics) (conf : AsyncClient.Conf) (s : State H cap n) :
    Event H n → State H cap n → Prop where
  | server {e : Main.Event H} {server : Main.State H cap} (hturn : serverTurn s e = true)
      (hs : (Main.system lib topics H cap).step s.server e = some server) :
      Step lib topics conf s (.server e) { s with server }
  | consumer {e : KafkaConsumer.Event n} {consumer : KafkaConsumer.State n}
      (hturn : consumerTurn s e = true)
      (hs : (KafkaConsumer.system lib.folly conf n).step s.consumer e = some consumer) :
      Step lib topics conf s (.consumer e) { s with consumer }
  | wait (hm : s.server.main = .serving) (hw : s.wait = .before) :
      Step lib topics conf s .wait { s with wait := .asleep }
  | spurious (hw : s.wait = .asleep) : Step lib topics conf s .spurious { s with wait := .woken }
  | wake (hw : s.wait = .woken) : Step lib topics conf s .wake { s with wait := .returned }
  | sigint (hw : s.wait = .asleep) : Step lib topics conf s .sigint { s with wait := .woken }
  | ignored (hw : s.wait ≠ .asleep) : Step lib topics conf s .sigint s
  | exit (hm : s.consumer.main = .stopping) (ho : s.consumer.workers.owner = .stopped) :
      Step lib topics conf s .exit { s with exited := true }

/-- Every step is one of the steps. What ends one object ends the
process, and nothing happens after it. -/
theorem step_cases (h : (system lib topics conf H cap n).step s e = some s') :
    s.hasEnded = false ∧ Step lib topics conf s e s' := by
  simp only [system] at h
  split at h
  · cases h
  · rename_i hended
    -- A step of either half is guarded by whose turn it is; the others are
    -- main's own wait, and the exit.
    refine ⟨Bool.eq_false_iff.mpr hended, ?_⟩
    cases e with
    | server e =>
        obtain ⟨hturn, h⟩ := Option.ite_none_right_eq_some.mp h
        obtain ⟨server, hs, rfl⟩ := Option.map_eq_some_iff.mp h
        exact .server hturn hs
    | consumer e =>
        obtain ⟨hturn, h⟩ := Option.ite_none_right_eq_some.mp h
        obtain ⟨consumer, hs, rfl⟩ := Option.map_eq_some_iff.mp h
        exact .consumer hturn hs
    | wait =>
        simp only [wait] at h
        split at h
        · rename_i hm hw
          cases h
          exact .wait hm hw
        · cases h
    | spurious =>
        simp only [spurious] at h
        split at h
        · rename_i hw
          cases h
          exact .spurious hw
        · cases h
    | wake =>
        simp only [wake] at h
        split at h
        · rename_i hw
          cases h
          exact .wake hw
        · cases h
    | sigint =>
        simp only [sigint] at h
        split at h
        · rename_i hw
          cases h
          exact .sigint hw
        · rename_i hw
          cases h
          exact .ignored hw
    | exit =>
        simp only [exit] at h
        split at h
        · rename_i hm ho
          cases h
          exact .exit hm ho
        · cases h

/-! ### The objects of the process -/

/-- The event of the acceptor and the producer. -/
def Event.toServer : Event H n → Option (Main.Event H)
  | .server e => some e
  | _ => none

/-- The event of the consumer. -/
def Event.toConsumer : Event H n → Option (KafkaConsumer.Event n)
  | .consumer e => some e
  | _ => none

/-- A run of the process is a run of the acceptor and the producer. So
every invariant and every run property of that object holds in the
process. -/
theorem serverProjection :
    System.Projection (system lib topics conf H cap n) (Main.system lib topics H cap) State.server
      Event.toServer where
  init := by
    rintro s ⟨producing, consuming, rfl⟩
    exact ⟨producing, rfl⟩
  step s e s' hs := by
    cases (step_cases hs).2 with
    | server _ hserver => exact System.run_singleton hserver
    | consumer | wait | spurious | wake | sigint | ignored | exit => rfl

/-- A run of the process is a run of the consumer. -/
theorem consumerProjection :
    System.Projection (system lib topics conf H cap n) (KafkaConsumer.system lib.folly conf n)
      State.consumer Event.toConsumer where
  init := by
    rintro s ⟨producing, consuming, rfl⟩
    exact ⟨consuming, rfl⟩
  step s e s' hs := by
    cases (step_cases hs).2 with
    | consumer _ hconsumer => exact System.run_singleton hconsumer
    | server | wait | spurious | wake | sigint | ignored | exit => rfl

/-- While `main` may make its calls, a run of the acceptor and the
producer is one of the process. -/
theorem run_server {server : Main.State H cap} {es : List (Main.Event H)}
    (hended : s.consumer.ended = none) (hexited : s.exited = false)
    (hturn : ∀ e ∈ es, serverTurn s e = true)
    (hrun : (Main.system lib topics H cap).run s.server es = some server) :
    (system lib topics conf H cap n).run s (es.map .server) = some { s with server } := by
  induction es generalizing s with
  | nil =>
      cases hrun
      rfl
  | cons e es ih =>
      obtain ⟨server₁, hs, hrest⟩ := Option.bind_eq_some_iff.mp hrun
      have hstep : (system lib topics conf H cap n).step s (.server e)
          = some { s with server := server₁ } := by
        -- The server's own guard is that it has not crashed, so its half lets
        -- the process step.
        have hcrashed := (Main.step_cases hs).1
        simp [system, State.hasEnded, hcrashed, hended, hexited, Process.server,
          hturn e List.mem_cons_self, hs]
      rw [List.map_cons, System.run_cons hstep]
      refine ih hended hexited (fun e' he' => ?_) hrest
      have hturn' := hturn e' (List.mem_cons_of_mem _ he')
      cases e' <;> exact hturn'

/-- So is a run of the consumer, where `main` has its turn in each of
its steps. -/
theorem run_consumer {consumer : KafkaConsumer.State n} {es : List (KafkaConsumer.Event n)}
    (hcrashed : s.server.crashed = false) (hexited : s.exited = false)
    (hturn : ∀ e ∈ es, consumerTurn s e = true)
    (hrun : (KafkaConsumer.system lib.folly conf n).run s.consumer es = some consumer) :
    (system lib topics conf H cap n).run s (es.map .consumer) = some { s with consumer } := by
  induction es generalizing s with
  | nil =>
      cases hrun
      rfl
  | cons e es ih =>
      obtain ⟨consumer₁, hs, hrest⟩ := Option.bind_eq_some_iff.mp hrun
      have hstep : (system lib topics conf H cap n).step s (.consumer e)
          = some { s with consumer := consumer₁ } := by
        have hended := (KafkaConsumer.step_cases hs).1
        simp [system, State.hasEnded, hcrashed, hended, hexited, Process.consumer,
          hturn e List.mem_cons_self, hs]
      rw [List.map_cons, System.run_cons hstep]
      refine ih hcrashed hexited (fun e' he' => ?_) hrest
      have hturn' := hturn e' (List.mem_cons_of_mem _ he')
      cases e' <;> exact hturn'

/-! ### The order of the calls of `main` -/

/-- `acceptor.Stop()` has been called. In the order of `main` this is
the first of the three `Stop`s. -/
def hasClosed : Main.MainPc → Bool
  | .closed | .stopPut | .stopPutting | .stopJoin | .flushing | .stopped => true
  | .idle | .spawned | .started | .serving => false

/-- `main` has made its calls in order: the consumer is started first,
and it is stopped last. -/
structure Ordered (s : State H cap n) : Prop where
  starts : s.server.main ≠ .idle → s.consumer.main ≠ .idle ∧ s.consumer.main ≠ .starting
  waits : s.wait ≠ .before → s.server.main = .serving ∨ hasClosed s.server.main = true
  closes : hasClosed s.server.main = true → s.wait = .returned
  stops : s.consumer.main.hasStopped = true → s.server.main = .stopped
  exits : s.exited = true → s.consumer.main = .stopping ∧ s.consumer.workers.owner = .stopped

/-- What a step of the acceptor and the producer does to the place of
`main`. -/
theorem main_of_serverStep {s s' : Main.State H cap} {e : Main.Event H}
    (h : Main.Step lib s e s') :
    (e = .start ∧ s.main = .idle ∧ s'.main = .spawned) ∨
    (e = .close ∧ s.main = .serving ∧ s'.main = .closed) ∨
    (s'.main = .idle ↔ s.main = .idle) ∧ (hasClosed s'.main = hasClosed s.main) ∧
      (s.main = .serving → s'.main = .serving) ∧ (s.main = .stopped → s'.main = .stopped) := by
  cases h with
  | start hm => exact .inl ⟨rfl, hm, rfl⟩
  | close hm => exact .inr (.inl ⟨rfl, hm, rfl⟩)
  | setRunning hm | serve hm | stop hm | stopPut hm | stopPutDone hm | join hm | flushed hm =>
      refine .inr (.inr ?_)
      simp [hm, hasClosed]
  | _ => exact .inr (.inr ⟨Iff.rfl, rfl, id, id⟩)

/-- What a step of the consumer does to the place of `main`. -/
theorem main_of_consumerStep {folly : Folly} {s s' : KafkaConsumer.State n}
    {e : KafkaConsumer.Event n} (h : KafkaConsumer.Step folly conf s e s') :
    (e = .stop ∧ s.main = .started ∧ s'.main = .joining) ∨
    s'.main.hasStopped = s.main.hasStopped ∧
      (s.main ≠ .idle ∧ s.main ≠ .starting → s'.main ≠ .idle ∧ s'.main ≠ .starting) := by
  cases h with
  | stop hm => exact .inl ⟨rfl, hm, rfl⟩
  | start hm | spawn hm | join hm =>
      refine .inr ?_
      simp [hm, KafkaConsumer.MainPc.hasStopped]
  | _ => exact .inr ⟨rfl, id⟩

/-- A step keeps the order. Only `main` moves from one call to the
next, and each of its calls has its predecessor as a guard. -/
theorem ordered_step (h : Ordered s) (hended : s.hasEnded = false)
    (hs : Step lib topics conf s e s') : Ordered s' := by
  have hexited : s.exited = false := by
    simp [State.hasEnded] at hended
    exact hended.2
  have hexits {P : Prop} : s.exited = true → P := fun h => nomatch hexited.symm.trans h
  cases hs with
  | @server e server hturn hs =>
      rcases main_of_serverStep (Main.step_cases hs).2 with ⟨rfl, hm, hm'⟩ | ⟨rfl, hm, hm'⟩ |
        ⟨hidle, hclosed, hserving, hstopped⟩
      · -- `consumer.Start()` has returned.
        have hstarted : s.consumer.main = .started := of_decide_eq_true hturn
        refine ⟨fun _ => ?_, fun hw => ?_, fun hclosed => ?_, fun hstop => ?_, hexits⟩
        · show s.consumer.main ≠ .idle ∧ s.consumer.main ≠ .starting
          rw [hstarted]
          exact ⟨nofun, nofun⟩
        · rcases h.waits hw with hserving | hclosed
          · exact nomatch hm.symm.trans hserving
          · rw [hm] at hclosed
            cases hclosed
        · change hasClosed server.main = true at hclosed
          rw [hm'] at hclosed
          cases hclosed
        · exact nomatch hm.symm.trans (h.stops hstop)
      · -- `waitForUserInterrupt()` has returned.
        have hreturned : s.wait = .returned := of_decide_eq_true hturn
        refine ⟨fun _ => h.starts (by rw [hm]; nofun), fun _ => .inr ?_, fun _ => hreturned,
          fun hstop => ?_, hexits⟩
        · show hasClosed server.main = true
          rw [hm']
          rfl
        · exact nomatch hm.symm.trans (h.stops hstop)
      · refine ⟨fun hne => h.starts (mt hidle.mpr hne), fun hw => ?_, fun hclosed' => ?_,
          fun hstop => hstopped (h.stops hstop), hexits⟩
        · rcases h.waits hw with hserving' | hclosed'
          · exact .inl (hserving hserving')
          · exact .inr (hclosed.trans hclosed')
        · exact h.closes (hclosed.symm.trans hclosed')
  | @consumer e consumer hturn hs =>
      rcases main_of_consumerStep (KafkaConsumer.step_cases hs).2 with ⟨rfl, hm, hm'⟩ |
        ⟨hstopped, hstarted⟩
      · -- `producer.Stop()` has returned.
        have hserver : s.server.main = .stopped := of_decide_eq_true hturn
        refine ⟨fun _ => ?_, h.waits, h.closes, fun _ => hserver, hexits⟩
        show consumer.main ≠ .idle ∧ consumer.main ≠ .starting
        rw [hm']
        exact ⟨nofun, nofun⟩
      · exact ⟨fun hne => hstarted (h.starts hne), h.waits, h.closes,
          fun hstop => h.stops (hstopped.symm.trans hstop), hexits⟩
  | wait hm hw =>
      refine ⟨h.starts, fun _ => .inl hm, fun hclosed => ?_, h.stops, h.exits⟩
      change hasClosed s.server.main = true at hclosed
      rw [hm] at hclosed
      cases hclosed
  | spurious hw | sigint hw =>
      have hwaits := h.waits (by rw [hw]; nofun)
      refine ⟨h.starts, fun _ => hwaits, fun hclosed => ?_, h.stops, h.exits⟩
      exact nomatch hw.symm.trans (h.closes hclosed)
  | wake hw =>
      exact ⟨h.starts, fun _ => h.waits (by rw [hw]; nofun), fun _ => rfl, h.stops, h.exits⟩
  | ignored hw => exact h
  | exit hm ho => exact ⟨h.starts, h.waits, h.closes, h.stops, fun _ => ⟨hm, ho⟩⟩

/-- The calls are made in this order in every reachable state. -/
theorem reachable_ordered (h : (system lib topics conf H cap n).Reachable s) : Ordered s := by
  refine h.induct (I := Ordered) ?_ fun s e s' _ hordered hs => ?_
  · rintro s ⟨producing, consuming, rfl⟩
    exact ⟨fun h => absurd rfl h, fun h => absurd rfl h, nofun, nofun, nofun⟩
  · obtain ⟨hended, hstep⟩ := step_cases hs
    exact ordered_step hordered hended hstep

/-! ### The end of `main` -/

/-- The invariants of the consumer. -/
theorem consumer_inv {folly : Folly} {s : KafkaConsumer.State n}
    (h : (KafkaConsumer.system folly conf n).Reachable s) :
    KafkaConsumer.Inv s ∧ KafkaConsumer.Lifecycle s ∧ KafkaConsumer.HasTask s := by
  refine h.induct (I := fun s => KafkaConsumer.Inv s ∧ KafkaConsumer.Lifecycle s ∧
    KafkaConsumer.HasTask s) ?_ fun s e s' _ hinv hs => ?_
  · rintro s ⟨isRunning, rfl⟩
    exact ⟨KafkaConsumer.inv_initial isRunning, KafkaConsumer.lifecycle_initial isRunning,
      fun i hi => absurd rfl hi⟩
  · obtain ⟨hinv, hlife, htask⟩ := hinv
    have hstep := (KafkaConsumer.step_cases hs).2
    exact ⟨KafkaConsumer.inv_step hinv hstep, KafkaConsumer.lifecycle_step hlife hstep,
      KafkaConsumer.hasTask_step hinv htask hstep⟩

/-- When `main` returns, it was woken in `waitForUserInterrupt`, and
of the threads that the process started `Pushing`, `ConsumeLoop` and
every worker have ended.

The handlers are left out. One that sleeps in its `put` beside a full
channel sleeps on while `main` returns. -/
theorem threadsEnded (h : (system lib topics conf H cap n).Reachable s)
    (hexited : s.exited = true) :
    s.wait = .returned ∧ s.server.pushing = .left ∧ s.consumer.loop = .left ∧
      ∀ i, s.consumer.workers.worker i = .left ∧ s.consumer.call i = none := by
  have hordered := reachable_ordered h
  obtain ⟨hm, ho⟩ := hordered.exits hexited
  have hserver : s.server.main = .stopped := hordered.stops (by rw [hm]; rfl)
  obtain ⟨hinv, hlife, htask⟩ := consumer_inv (consumerProjection.reachable h)
  obtain ⟨s₀, hstopping⟩ := ThreadPool.exists_stopping hinv.workers (by rw [ho]; rfl)
  refine ⟨hordered.closes (by rw [hserver]; rfl), ?_, hlife.left hm, fun i => ?_⟩
  · exact (Main.reachable_inv (serverProjection.reachable h)).left (by rw [hserver]; rfl)
  · have hleft := hstopping.left_of_stopped ho i
    refine ⟨hleft, ?_⟩
    -- A worker in `Call` has its task.
    by_contra hcall
    obtain ⟨reqmsg, htodo⟩ := htask i hcall
    exact nomatch hleft.symm.trans htodo

/-! ### The interrupt -/

/-- A SIGINT of the run found `main` asleep in `waitForUserInterrupt`.
One that came before finds nobody to wake. -/
def Interrupted (lib : Libraries) (topics : Topics) (conf : AsyncClient.Conf) (s₀ : State H cap n)
    (es : List (Event H n)) : Prop :=
  ∃ es₁ es₂ s, es = es₁ ++ .sigint :: es₂ ∧
    (system lib topics conf H cap n).run s₀ es₁ = some s ∧ s.wait = .asleep

/-- A run that goes on. -/
theorem Interrupted.append {s₀ : State H cap n} {es : List (Event H n)}
    (h : Interrupted lib topics conf s₀ es) (es' : List (Event H n)) :
    Interrupted lib topics conf s₀ (es ++ es') := by
  obtain ⟨es₁, es₂, s, rfl, hrun, hasleep⟩ := h
  exact ⟨es₁, es₂ ++ es', s, by simp, hrun, hasleep⟩

/-- In a run without spurious wake-ups of `main`, `acceptor.Stop()` is
called only after a SIGINT that found `main` asleep. A SIGINT that
came before is lost: the handler notifies a condition on which nobody
waits yet, and `main` waits without a predicate. -/
theorem interrupted {s₀ : State H cap n} {es : List (Event H n)}
    (hinit : (system lib topics conf H cap n).init s₀)
    (hrun : (system lib topics conf H cap n).run s₀ es = some s) (hspurious : .spurious ∉ es)
    (hclosed : hasClosed s.server.main = true) : Interrupted lib topics conf s₀ es := by
  have hreturned := (reachable_ordered ((System.Reachable.init hinit).run hrun)).closes hclosed
  suffices hwoken : ∀ s, (system lib topics conf H cap n).run s₀ es = some s →
      s.wait = .woken ∨ s.wait = .returned → Interrupted lib topics conf s₀ es from
    hwoken s hrun (.inr hreturned)
  clear hrun hclosed hreturned
  -- By induction on the run from its end: the last step that left the wait
  -- woken is the interrupt, or it came earlier.
  induction es using List.reverseRecOn with
  | nil =>
      intro s hs hw
      obtain ⟨producing, consuming, rfl⟩ := hinit
      cases hs
      rcases hw with hw | hw <;> cases hw
  | append_singleton es e ih =>
      intro s' hs' hw
      obtain ⟨s, hs, hstep⟩ := System.run_concat_iff.mp hs'
      rw [List.mem_append, not_or] at hspurious
      obtain ⟨hnone, hlast⟩ := hspurious
      cases (step_cases hstep).2 with
      | sigint hasleep => exact ⟨es, [], s, rfl, hs, hasleep⟩
      | spurious => exact absurd (List.mem_singleton.mpr rfl) hlast
      | wait => rcases hw with hw | hw <;> cases hw
      | wake hwoken => exact (ih hnone s hs (.inl hwoken)).append _
      -- These leave the wait as it was.
      | server | consumer | ignored | exit => exact (ih hnone _ hs hw).append _

/-! ### A run of `main` -/

/-- The start of a process with two workers, up to the sleep of
`main`. -/
def started : List (Event Unit 2) :=
  [.consumer .start, .consumer (.pool .spawn), .consumer (.pool .spawn), .consumer (.pool .spawn),
   .consumer .spawn, .server .start, .server .setRunning, .server .serve, .wait]

/-- The interrupt, and the three `Stop`s. The client has delivered all
its messages, so the flush loop ends at its first test. -/
def stopped : List (Event Unit 2) :=
  [.sigint, .wake, .server .close, .server .stop, .server .stopPut, .server (.stopSection none),
   .server .test, .server .join, .server (.flush 0), .consumer .stop, .consumer .test,
   .consumer .join, .consumer (.pool .stopPut), .consumer (.pool (.stopSection none)),
   .consumer (.pool (.test ThreadPool.worker₀)), .consumer (.pool .join),
   .consumer (.pool .stopPut), .consumer (.pool (.stopSection none)),
   .consumer (.pool (.test ThreadPool.worker₁)), .consumer (.pool .join), .exit]

/-- `threadsEnded` for this run. -/
theorem threadsEnded_stopped :
    ∃ s : State Unit 20 2, (system Main.compactLibraries Main.oneTopic KafkaConsumer.oneAttempt
        Unit 20 2).Reachable s ∧ s.exited = true ∧
      s.wait = .returned ∧ s.server.pushing = .left ∧ s.consumer.loop = .left ∧
      ∀ i, s.consumer.workers.worker i = .left ∧ s.consumer.call i = none := by
  have hinit : (system Main.compactLibraries Main.oneTopic KafkaConsumer.oneAttempt
      Unit 20 2).Reachable (initial Main.oneTopic false false) := .init ⟨false, false, rfl⟩
  obtain ⟨s, hrun, hexited⟩ : ∃ s, (system Main.compactLibraries Main.oneTopic
      KafkaConsumer.oneAttempt Unit 20 2).run (initial Main.oneTopic false false)
        (started ++ stopped) = some s ∧ s.exited = true := ⟨_, rfl, rfl⟩
  exact ⟨s, hinit.run hrun, hexited, threadsEnded (hinit.run hrun) hexited⟩

/-- `interrupted` for this run. -/
theorem interrupted_stopped :
    ∃ s : State Unit 20 2, (system Main.compactLibraries Main.oneTopic KafkaConsumer.oneAttempt
        Unit 20 2).run (initial Main.oneTopic false false) (started ++ stopped) = some s ∧
      hasClosed s.server.main = true ∧
      Interrupted Main.compactLibraries Main.oneTopic KafkaConsumer.oneAttempt
        (initial Main.oneTopic false false : State Unit 20 2) (started ++ stopped) := by
  obtain ⟨s, hrun, hclosed⟩ : ∃ s, (system Main.compactLibraries Main.oneTopic
      KafkaConsumer.oneAttempt Unit 20 2).run (initial Main.oneTopic false false)
        (started ++ stopped) = some s ∧ hasClosed s.server.main = true := ⟨_, rfl, rfl⟩
  exact ⟨s, hrun, hclosed, interrupted ⟨false, false, rfl⟩ hrun (by simp [started, stopped])
    hclosed⟩

end Bigpipe.Process
