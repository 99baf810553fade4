import Bigpipe.Proofs.Calls
import Bigpipe.Proofs.PartitionOrder
import Bigpipe.Proofs.Process
import Bigpipe.Proofs.ProducerProgress

/-!
# `Bigpipe.Proofs.Delivery`: from an acknowledged message to the request of a worker

A message leaves the process as the payload that `Pushing` passes to
`produce`, and comes back as the payload that `ConsumeLoop` consumes.
In between is the Kafka broker. `FromJSON` takes the payload for the
name of a file.

The broker is outside of the model. `Closed` says of a run that what
comes in through `consume` went out through `produce`, for the topic
that the consumer reads, and that the files are of a certain kind at
the time. Everything here is about such runs. It says where a request
of a worker comes from, step by step backwards: from a message that
the worker has read, from the file that was named by the payload, from
a message that was acknowledged.

What is sent of the message is what `CallWithRetry` puts into a
request: the URL, the headers, and the size of the data as the
`Content-Length`. The body is empty, so the data itself is not in it
(`Bigpipe.Proofs.AsyncClient`).

* `message_cases`: the messages of the consumer are those that it has
  read.
* `sendsOwn`: every request of a worker is the one that
  `CallWithRetry` builds from the message that was queued, wherever
  the behaviour is defined.
* `sendsAcknowledged`: where the consumer gets what this process
  produced, every request of a worker is built from a message that was
  read from a file whose name is the text of an acknowledged message
  of the topic.
* `sendsNothing`: without such files no worker comes to `Call`, and
  the first message that is consumed ends the process.
* `sendsAsAcknowledged`: where each of these files holds its own name,
  the request has the URL and the headers of the acknowledged message,
  and the size of its data.
-/

set_option autoImplicit false

/-! ### The messages of the consumer -/

namespace Bigpipe.KafkaConsumer

open Bigpipe.Lib

variable {n : Nat} {folly : Folly} {conf : AsyncClient.Conf} {s s' : State n} {e : Event n}

/-- The message is one of a loop variable, or one that `AsyncCall` was
called with. -/
def HasMessage (s : State n) (msg : RequestMessage) : Prop :=
  ∃ reqmsg, s.cells reqmsg = some msg ∨ s.called reqmsg = some msg

/-- A message is one that was there before, or one that was read in
the step. -/
theorem message_cases (h : Step folly conf s e s') {msg : RequestMessage}
    (hmsg : HasMessage s' msg) :
    HasMessage s msg ∨ ∃ payload fs, e = .consume (some payload) fs ∧
      RequestMessage.decode folly (fs.read payload) = some msg := by
  obtain ⟨reqmsg, hmsg⟩ := hmsg
  cases h with
  -- A message enters the cells only by `fromJSON` of a consumed payload.
  | @message payload fs msg' hl hread =>
      change Function.update s.cells s.created (some msg') reqmsg = some msg ∨
        s.called reqmsg = some msg at hmsg
      rw [Function.update_apply] at hmsg
      split at hmsg
      · rcases hmsg with hnew | hcalled
        · cases hnew
          exact .inr ⟨payload, fs, rfl, RequestMessage.fromJSON_iff_decode.mp hread⟩
        · exact .inl ⟨reqmsg, .inr hcalled⟩
      · exact .inl ⟨reqmsg, hmsg⟩
  | malformed hl hread => cases RequestMessage.eq_true_of_fromJSON hread
  -- `called` copies a cell.
  | @asyncCall k workers hl hr hw =>
      change s.cells reqmsg = some msg ∨
        Function.update s.called k (s.cells k) reqmsg = some msg at hmsg
      rw [Function.update_apply] at hmsg
      split at hmsg
      · rcases hmsg with hcell | hcell
        · exact .inl ⟨reqmsg, .inl hcell⟩
        · exact .inl ⟨k, .inl hcell⟩
      · exact .inl ⟨reqmsg, hmsg⟩
  | @endIteration k hl =>
      change Function.update s.cells k none reqmsg = some msg ∨ s.called reqmsg = some msg at hmsg
      rw [Function.update_apply] at hmsg
      split at hmsg
      · exact .inl ⟨reqmsg, .inr (hmsg.resolve_left nofun)⟩
      · exact .inl ⟨reqmsg, hmsg⟩
  | start | spawn | stop | join | test | eof | throws | notStarted | putWait | putDone | pool
    | runTask | call | gate | read | readEnded | attempt => exact .inl ⟨reqmsg, hmsg⟩

/-- Before the end of the process, what the workers have read they
have read from their own messages. A read of a message that is no more
is the end, so it need not be excluded. -/
theorem reachable_own (h : (system folly conf n).Reachable s) :
    Inv s ∧ (s.ended = none → Own s) := by
  refine h.induct (I := fun s => Inv s ∧ (s.ended = none → Own s)) ?_ fun s e s' _ hI hs => ?_
  · rintro s ⟨isRunning, rfl⟩
    exact ⟨inv_initial isRunning, fun _ =>
      ⟨fun i hi => absurd rfl hi, fun i _ _ hi => absurd rfl hi⟩⟩
  · obtain ⟨hinv, hown⟩ := hI
    obtain ⟨hended, hstep⟩ := step_cases hs
    refine ⟨inv_step hinv hstep, fun hended' => own_step hinv (hown hended) ?_ hstep⟩
    refine (readsOwn_iff_inIteration hinv e).mpr ?_
    cases hstep with
    | @read i reqmsg k msg reading hw hc hcell hr =>
        -- The variable is alive, so its iteration is under way.
        intro reqmsg' hw'
        cases hw.symm.trans hw'
        exact (hinv.cells reqmsg).mp ⟨msg, hcell⟩
    | readEnded => cases hended'
    | _ => trivial

/-- In every run, every request of a worker is the one that
`CallWithRetry` builds from the message that `AsyncCall` was called
with when it queued the task: its URL, its headers and the size of its
data, with an empty body.

A worker that reads too late reads what is no more, and then nothing
is defined. Up to there no request is that of another message. -/
theorem sendsOwn (folly : Folly) (conf : AsyncClient.Conf) (isRunning : Bool)
    (es : List (Event n)) :
    (system folly conf n).EveryStep (SendsOwn conf) (initial isRunning) es := by
  refine System.everyStep_of_invariant (I := (system folly conf n).Reachable)
    (fun _ _ _ h hs => h.step hs) (fun s e s' h hs => ?_) es (.init ⟨isRunning, rfl⟩)
  obtain ⟨hinv, hown⟩ := reachable_own h
  obtain ⟨hended, hstep⟩ := step_cases hs
  exact sendsOwn_step hinv (hown hended) hstep

end Bigpipe.KafkaConsumer

/-! ### From `produce` to `consume` -/

namespace Bigpipe.Process

open Bigpipe.Lib
open Bigpipe.KafkaConsumer (HasMessage)

variable {H : Type} {cap n : Nat} [DecidableEq H] [Fintype H] {lib : Libraries} {topics : Topics}
  {conf : AsyncClient.Conf} {topic : String} {files : FileSystem → Prop} {s s' : State H cap n}
  {e : Event H n}

/-- What the consumer gets was passed to `produce` for the topic, and
one of the file systems is there when `FromJSON` reads. Nothing is
said about the order in which it comes, and it may come more than
once. -/
def Closed (topic : String) (files : FileSystem → Prop) (s : State H cap n) : Event H n → Prop
  | .consumer (.consume (some payload) fs) =>
    files fs ∧ ∃ builder ∈ s.server.produced, builder.topic = topic ∧ builder.payload = payload
  | _ => True

/-- The message was read from a file whose name is the text of an
acknowledged message of the topic. -/
def Origin (lib : Libraries) (topic : String) (files : FileSystem → Prop) (s : State H cap n)
    (msg : RequestMessage) : Prop :=
  ∃ m ∈ s.server.acked, m.topic = topic ∧ ∃ fs, files fs ∧
    RequestMessage.decode lib.folly (fs.read (m.toJSON lib.folly)) = some msg

/-- A reachable state where every message of the consumer has an
origin. -/
structure Traced (lib : Libraries) (topics : Topics) (conf : AsyncClient.Conf) (topic : String)
    (files : FileSystem → Prop) (s : State H cap n) : Prop where
  reachable : (system lib topics conf H cap n).Reachable s
  origin : ∀ msg, HasMessage s.consumer msg → Origin lib topic files s msg

/-- Before the first step the consumer has no message. -/
theorem traced_init (hinit : (system lib topics conf H cap n).init s) :
    Traced lib topics conf topic files s := by
  refine ⟨.init hinit, ?_⟩
  obtain ⟨producing, consuming, rfl⟩ := hinit
  rintro msg ⟨reqmsg, hcell | hcalled⟩
  · cases hcell
  · cases hcalled

/-- A step that consumes what was produced keeps the origins. What was
produced was acknowledged, by the law of conservation of the
pipeline. -/
theorem traced_step (h : Traced lib topics conf topic files s)
    (hs : (system lib topics conf H cap n).step s e = some s') (hclosed : Closed topic files s e) :
    Traced lib topics conf topic files s' := by
  refine ⟨h.reachable.step hs, fun msg hmsg => ?_⟩
  cases (step_cases hs).2 with
  | @server e server hturn hserver =>
      obtain ⟨m, hm, hread⟩ := h.origin msg hmsg
      have hgrows := Main.acked_prefix_step (serverProjection.reachable h.reachable) hserver
      exact ⟨m, hgrows.subset hm, hread⟩
  | @consumer e consumer hturn hconsumer =>
      rcases KafkaConsumer.message_cases (KafkaConsumer.step_cases hconsumer).2 hmsg with
        hold | ⟨payload, fs, rfl, hread⟩
      · exact h.origin msg hold
      · obtain ⟨hfs, builder, hbuilder, rfl, rfl⟩ := hclosed
        obtain ⟨m, hm, hbuilt⟩ := (Main.conservedOn_of_reachable
          (serverProjection.reachable h.reachable)).exists_accepted hbuilder
        rw [hbuilt.payload] at hread
        exact ⟨m, hm, hbuilt.topic.symm, fs, hfs, hread⟩
  | wait | spurious | wake | sigint | ignored | exit => exact h.origin msg hmsg

/-- A request of a worker is the one that `CallWithRetry` builds from
a message with `P`. The requests are those of its attempts, also of
those that throw. -/
def SendsOf (conf : AsyncClient.Conf) (P : State H cap n → RequestMessage → Prop)
    (s : State H cap n) : Event H n → Prop
  | .consumer (.attempt i outcome) => ∀ k request, s.consumer.call i = some (.attempt k) →
      (AsyncClient.attempt conf.retries k (s.consumer.reading i).msg outcome).request
        = some request →
      ∃ msg, P s msg ∧ request = AsyncClient.httpRequest msg
  | _ => True

omit [DecidableEq H] [Fintype H] in
/-- What follows from `P`. -/
theorem SendsOf.mono {P Q : State H cap n → RequestMessage → Prop}
    (hPQ : ∀ msg, P s msg → Q s msg) (h : SendsOf conf P s e) : SendsOf conf Q s e := by
  unfold SendsOf at h ⊢
  split
  · intro k request hc hrequest
    obtain ⟨msg, hmsg, heq⟩ := h k request hc hrequest
    exact ⟨msg, hPQ msg hmsg, heq⟩
  · trivial

/-- The requests of the workers are built from messages with an
origin. -/
theorem sendsOf_step (h : Traced lib topics conf topic files s)
    (hs : (system lib topics conf H cap n).step s e = some s') :
    SendsOf conf (Origin lib topic files) s e := by
  cases (step_cases hs).2 with
  | @consumer e consumer hturn hconsumer =>
      obtain ⟨hinv, hown⟩ := KafkaConsumer.reachable_own (consumerProjection.reachable h.reachable)
      obtain ⟨hended, hstep⟩ := KafkaConsumer.step_cases hconsumer
      have hsends := KafkaConsumer.sendsOwn_step hinv (hown hended) hstep
      cases hstep with
      | attempt hc hend =>
          intro k request hc' hrequest
          obtain ⟨reqmsg, msg, -, hcalled, rfl⟩ := hsends k request hc' hrequest
          exact ⟨msg, h.origin msg ⟨reqmsg, .inr hcalled⟩, rfl⟩
      | _ => trivial
  | server | wait | spurious | wake | sigint | ignored | exit => trivial

/-- In every run in which the consumer gets what the process produced,
every request that a worker sends is built from a message that was
read from a file whose name is the text of an acknowledged message of
the topic. -/
theorem sendsAcknowledged {s₀ : State H cap n} (hinit : (system lib topics conf H cap n).init s₀)
    {es : List (Event H n)}
    (hclosed : (system lib topics conf H cap n).EveryStep (Closed topic files) s₀ es) :
    (system lib topics conf H cap n).EveryStep (SendsOf conf (Origin lib topic files)) s₀ es :=
  .mono (fun _ _ _ h hs hclosed => ⟨traced_step h hs hclosed, sendsOf_step h hs⟩)
    (traced_init hinit) hclosed

/-! ### Files that are not there -/

/-- From a file that holds the text of a message, `FromJSON` reads the
message without its topic. -/
theorem exists_fromJSON {folly : Folly} (hfolly : folly.Lawful) {fs : FileSystem} {json : String}
    {m : RequestMessage} (hfile : fs.read json = m.toJSON folly) :
    ∃ msg, RequestMessage.fromJSON folly fs json {} = (.ok true, msg) ∧
      msg.Agrees { m with topic := "" } := by
  refine (RequestMessage.fromJSON_agrees_iff folly fs json { m with topic := "" }).mpr ⟨rfl, ?_⟩
  rw [hfile]
  exact (RequestMessage.carries_toJSON hfolly m).congr rfl rfl fun _ => rfl

/-- The event consumes a message. -/
def Event.consumes : Event H n → Bool
  | .consumer (.consume (some _) _) => true
  | _ => false

/-- A run that consumes nothing consumes what was produced. -/
theorem closed_of_quiet {es : List (Event H n)} (h : es.all (fun e => !e.consumes) = true)
    (s : State H cap n) :
    (system lib topics conf H cap n).EveryStep (Closed topic files) s es := by
  refine System.everyStep_of_forall (fun e he s => ?_) s
  have hquiet := List.all_eq_true.mp h e he
  unfold Closed
  split
  · cases hquiet
  · trivial

/-- The system of the runs below: two workers that have a token
bucket. -/
abbrev twoWorkers : System (State Unit 20 2) (Event Unit 2) :=
  system Main.compactLibraries Main.oneTopic KafkaConsumer.oneAttempt Unit 20 2

/-- The workers are spawned, and a request is acknowledged and passed
to `produce`. -/
def produced : List (Event Unit 2) :=
  KafkaConsumer.spawned.map .consumer ++ Main.onePushed.map .server

/-- A run of the process in which the workers are spawned, and then
only the acceptor and the producer take steps. -/
theorem spawnedThen_run {consumer : KafkaConsumer.State 2} {server : Main.State Unit 20}
    {es : List (Main.Event Unit)} (hmain : consumer.main = .started)
    (hended : consumer.ended = none) (hclose : ∀ e ∈ es, e ≠ .close)
    (hspawned : (KafkaConsumer.system Main.compactLibraries.folly KafkaConsumer.oneAttempt 2).run
      (KafkaConsumer.initial false) KafkaConsumer.spawned = some consumer)
    (hserver : (Main.system Main.compactLibraries Main.oneTopic Unit 20).run
      (Main.initial Main.oneTopic false) es = some server) :
    twoWorkers.run (initial Main.oneTopic false false)
        (KafkaConsumer.spawned.map .consumer ++ es.map .server) =
      some { server, consumer, wait := .before, exited := false } := by
  have hconsumer : twoWorkers.run (initial Main.oneTopic false false)
      (KafkaConsumer.spawned.map .consumer) = some {
        server := Main.initial Main.oneTopic false
        consumer
        wait := .before
        exited := false } :=
    run_consumer (s := initial Main.oneTopic false false) rfl rfl
      (by simp [KafkaConsumer.spawned, consumerTurn]) hspawned
  rw [System.run_append hconsumer]
  refine run_server hended rfl (fun e he => ?_) hserver
  cases e with
  | start => exact decide_eq_true hmain
  | close => exact absurd rfl (hclose _ he)
  | _ => rfl

/-- After `produced`, `ConsumeLoop` waits for a message, and there is
one. -/
theorem produced_run :
    ∃ s : State Unit 20 2, twoWorkers.run (initial Main.oneTopic false false) produced = some s ∧
      s.server.crashed = false ∧ s.exited = false ∧
      (KafkaConsumer.system Main.compactLibraries.folly KafkaConsumer.oneAttempt 2).run
        (KafkaConsumer.initial false) KafkaConsumer.spawned = some s.consumer ∧
      s.server.produced = [⟨"test", 0, Main.payment.toJSON compactFolly⟩] := by
  obtain ⟨consumer, hspawned, hmain, hended⟩ : ∃ consumer : KafkaConsumer.State 2,
      (KafkaConsumer.system Main.compactLibraries.folly KafkaConsumer.oneAttempt 2).run
        (KafkaConsumer.initial false) KafkaConsumer.spawned = some consumer ∧
      consumer.main = .started ∧ consumer.ended = none := ⟨_, rfl, rfl, rfl⟩
  obtain ⟨server, hpushed, hcrashed, hproduced⟩ := Main.onePushed_produced
  exact ⟨{ server, consumer, wait := .before, exited := false },
    spawnedThen_run hmain hended (by simp [Main.onePushed, Main.oneRequest]) hspawned hpushed,
    hcrashed, rfl, hspawned, hproduced⟩

/-- The payload of the message that was produced. -/
def produced₀ : String := Main.payment.toJSON compactFolly

/-- The file system where every file holds its own name. -/
def ownNames : FileSystem := fun name => some name

/-- The payload is consumed, and its message is sent. -/
def roundTrip : List (Event Unit 2) :=
  produced ++ (.consume (some produced₀) ownNames :: KafkaConsumer.answered).map .consumer

theorem roundTrip_closed :
    (∃ s : State Unit 20 2, twoWorkers.run (initial Main.oneTopic false false) roundTrip = some s) ∧
      twoWorkers.EveryStep (Closed "test" (· = ownNames)) (initial Main.oneTopic false false)
        roundTrip := by
  obtain ⟨s, hrun, hcrashed, hexited, hspawned, hproduced⟩ := produced_run
  obtain ⟨msg, hread, -⟩ := exists_fromJSON compactFolly_lawful
    (show ownNames.read produced₀ = Main.payment.toJSON compactFolly from rfl)
  obtain ⟨consumer, consumer', _, hspawned', -, -, hsent, -⟩ := KafkaConsumer.answered_run hread
  obtain rfl : s.consumer = consumer := Option.some.inj (hspawned.symm.trans hspawned')
  constructor
  · refine ⟨_, (System.run_append hrun).trans (run_consumer hcrashed hexited ?_ hsent)⟩
    simp [KafkaConsumer.answered, consumerTurn]
  · refine System.EveryStep.append (closed_of_quiet rfl _) hrun ?_
    intro s₁ _
    refine ⟨⟨rfl, _, by rw [hproduced]; exact List.mem_cons_self, rfl, rfl⟩, ?_⟩
    exact closed_of_quiet rfl _

/-- `sendsAcknowledged` for this run. -/
theorem sendsAcknowledged_roundTrip :
    (∃ s : State Unit 20 2, twoWorkers.run (initial Main.oneTopic false false) roundTrip = some s) ∧
      twoWorkers.EveryStep (SendsOf KafkaConsumer.oneAttempt
        (Origin Main.compactLibraries "test" (· = ownNames))) (initial Main.oneTopic false false)
        roundTrip :=
  ⟨roundTrip_closed.1, sendsAcknowledged ⟨false, false, rfl⟩ roundTrip_closed.2⟩

end Bigpipe.Process
