import Bigpipe.Proofs.Consumer
import Bigpipe.Proofs.ThreadPoolDrain

/-!
# `Bigpipe.Proofs.ConsumeLoop`: what `ConsumeLoop` dispatches

`Stop` of the consumer clears the flag, joins the thread in
`ConsumeLoop`, and only then stops the pool.

In this order the pool is there for as long as `ConsumeLoop` is, and
no `AsyncCall` can come too late. `Lifecycle` has the order as an
invariant of three program counters and two flags.

What is dispatched is said of a log. `ConsumeLoop` leaves its marks in
it: that it consumed a message, that it passed one to `AsyncCall`, and
that it left the loop. The messages are numbered by their loop
variables, so that the order of the log can be compared with that of
the queue. `due` picks out of the log what should have been passed on,
and the claim is that it is a part, in order, of what was.

The three things that can go wrong all happen in one step. The queue
yields the end of a partition, for which the loop is left like for
`Stop`. It yields a payload at which `FromJSON` throws. Or the payload
names a file, and `FromJSON` reads the file and not the payload.

* `Lifecycle`: what `main`, `ConsumeLoop` and the pool keep of each
  other.
* `offersToRunning`: every `AsyncCall` finds the pool started, and no
  `PutTask` is under way once `Stop` of the pool has begun.
* `Turn`: a step as `ConsumeLoop` sees it, and `Numbered`: the order
  of the messages in its log.
* `dispatched_iff`: the loop goes on until `Stop` and passes on every
  well-formed message, exactly when the queue yields no end of a
  partition and no payload that `FromJSON` throws at.
* `lostMessage`: a message that is lost.
-/

set_option autoImplicit false

namespace Bigpipe.KafkaConsumer

open Bigpipe.Lib
open Bigpipe.AsyncClient (CallPc Gate Outcome)

variable {n : Nat} {folly : Folly} {conf : AsyncClient.Conf} {s s' : State n} {e : Event n}

/-! ### `main`, `ConsumeLoop` and the pool -/

/-- `Stop` of the consumer has set the flag to false. -/
def MainPc.hasStopped : MainPc → Bool
  | .joining | .stopping => true
  | .idle | .starting | .started => false

/-- `Start` of the pool has been called, and its `Stop` has not. -/
def MainPc.poolRuns : MainPc → Bool
  | .starting | .started | .joining => true
  | .idle | .stopping => false

/-- The call of the queue that `ConsumeLoop` is in. -/
def LoopPc.call : LoopPc → Option (BoundedBlockingQueue.Call (Option Nat))
  | .putting reqmsg => some (.put (some reqmsg))
  | .unborn | .loop | .consuming | .calling _ | .ending _ | .left => none

/-- The pool runs from before `ConsumeLoop` is spawned until it has
left. The flag of the consumer is set while `ConsumeLoop` runs and
`Stop` has not cleared it. -/
structure Lifecycle (s : State n) : Prop where
  runs : s.main.poolRuns = true → s.workers.isRunning = true
  stopped : s.workers.owner.hasStopped = true → s.main = .stopping
  left : s.main = .stopping → s.loop = .left
  unborn : s.main = .idle ∨ s.main = .starting → s.loop = .unborn
  flag : s.main = .starting ∨ s.main = .started → s.isRunning = true
  put : (s.workers.queue.pos (.caller ())).within = s.loop.call

/-- Where `main` stays, and `ConsumeLoop` stays or moves within its
life. -/
theorem Lifecycle.congr (hlife : Lifecycle s) (hmain : s'.main = s.main)
    (hflag : s'.isRunning = s.isRunning)
    (hpool : s'.workers.isRunning = s.workers.isRunning ∧
      s'.workers.owner.hasStopped = s.workers.owner.hasStopped)
    (hloop : s'.loop = s.loop ∨ s.loop ≠ .left ∧ s.loop ≠ .unborn)
    (hput : (s'.workers.queue.pos (.caller ())).within = s'.loop.call) : Lifecycle s' where
  runs := by
    rw [hmain, hpool.1]
    exact hlife.runs
  stopped := by
    rw [hmain, hpool.2]
    exact hlife.stopped
  left hm := by
    rw [hmain] at hm
    rcases hloop with hsame | ⟨hleft, -⟩
    · rw [hsame]
      exact hlife.left hm
    · exact absurd (hlife.left hm) hleft
  unborn hm := by
    rw [hmain] at hm
    rcases hloop with hsame | ⟨-, hborn⟩
    · rw [hsame]
      exact hlife.unborn hm
    · exact absurd (hlife.unborn hm) hborn
  flag := by
    rw [hmain, hflag]
    exact hlife.flag
  put := hput

/-- A step of the pool outside of `PutTask`. No such step starts or
stops the pool, or moves the loop's own call. -/
theorem Lifecycle.pool_step (hlife : Lifecycle s) {e : ThreadPool.Event n Unit Nat}
    (hw : (ThreadPool.system n Unit Nat 20).step s.workers e = some s'.workers)
    (he : inPool e = true ∨ ∃ i, e = .runTask i) (hmain : s'.main = s.main)
    (hloop : s'.loop = s.loop) (hflag : s'.isRunning = s.isRunning) : Lifecycle s' := by
  have hother : e ≠ .start ∧ e ≠ .stop ∧ (∀ c task, e ≠ .putTask c task) ∧
      ∀ c pick, e ≠ .callerSection c pick := by
    rcases he with he | ⟨i, rfl⟩
    · refine ⟨?_, ?_, ?_, ?_⟩ <;> intros <;> intro heq <;> rw [heq] at he <;> cases he
    · exact ⟨nofun, nofun, nofun, nofun⟩
  obtain ⟨hstart, hstop, hput, hsection⟩ := hother
  have hstep := ThreadPool.step_cases hw
  refine hlife.congr hmain hflag (ThreadPool.running_step hstep hstart hstop) (.inl hloop) ?_
  rw [ThreadPool.caller_within_step hstep hput hsection, hloop]
  exact hlife.put

/-- Where `ConsumeLoop` alone moves, outside of `PutTask`. -/
theorem Lifecycle.moveLoop (hlife : Lifecycle s) (hmain : s'.main = s.main)
    (hworkers : s'.workers = s.workers) (hflag : s'.isRunning = s.isRunning)
    (hcall : s'.loop.call = s.loop.call)
    (hloop : s'.loop = s.loop ∨ s.loop ≠ .left ∧ s.loop ≠ .unborn) : Lifecycle s' := by
  refine hlife.congr hmain hflag ?_ hloop ?_
  · rw [hworkers]
    exact ⟨rfl, rfl⟩
  · rw [hworkers, hcall]
    exact hlife.put

/-- A lock section of `PutTask` that leaves `ConsumeLoop` in it. -/
theorem within_of_putWait {pick : Option (ThreadPool.Tid n Unit)}
    {workers : ThreadPool.State n Unit Nat 20}
    (hw : ThreadPool.callerSection s.workers () pick = some workers)
    (hpos : workers.queue.pos (.caller ()) ≠ .outside) :
    (workers.queue.pos (.caller ())).within = (s.workers.queue.pos (.caller ())).within := by
  obtain ⟨⟨q, o⟩, hq, rfl⟩ := Option.map_eq_some_iff.mp hw
  cases o with
  | slept | aborted => exact Monitor.acquire_within_waits hq rfl _
  | returned r =>
      -- A call that has returned is outside the queue.
      have hout := (Monitor.acquire_within_returned hq (.caller ())).trans (if_pos rfl)
      exact absurd (Monitor.Pos.within_eq_none_iff.mp hout) hpos

/-- A step keeps `main`, `ConsumeLoop` and the pool in order. The
steps of `main` are the ones to look at, since each of the others
moves one thread within its life. -/
theorem lifecycle_step (hlife : Lifecycle s) (h : Step folly conf s e s') : Lifecycle s' := by
  cases h with
  | start hm hw =>
      -- Before `Start` returns there is no loop, and its state is the first
      -- one.
      have hl := hlife.unborn (.inl hm)
      have hput := hlife.put
      unfold ThreadPool.start at hw
      split at hw
      · cases hw
        exact ⟨fun _ => rfl, nofun, nofun, fun _ => hl, fun _ => rfl, hput⟩
      · cases hw
  | spawn hm ho =>
      have hput := hlife.put
      rw [hlife.unborn (.inr hm)] at hput
      refine ⟨fun _ => hlife.runs (by rw [hm]; rfl), ?_, nofun, by simp,
        fun _ => hlife.flag (.inl hm), hput⟩
      show s.workers.owner.hasStopped = true → _
      rw [ho]
      exact nofun
  | stop hm =>
      refine ⟨fun _ => hlife.runs (by rw [hm]; rfl), fun hstopped => ?_, nofun, by simp, by simp,
        hlife.put⟩
      -- Where the pool was stopped, main is behind its join, and here it has
      -- only called `Stop`.
      have hmain := hlife.stopped hstopped
      rw [hm] at hmain
      cases hmain
  | join hm hl hw =>
      have hput := hlife.put
      unfold ThreadPool.stop at hw
      split at hw
      · cases hw
        exact ⟨nofun, fun _ => rfl, fun _ => hl, by simp, by simp, hput⟩
      · cases hw
  | test hl =>
      -- The loop moves between positions that call nothing.
      refine hlife.moveLoop rfl rfl rfl ?_ (.inr (by rw [hl]; exact ⟨nofun, nofun⟩))
      show (if s.isRunning then LoopPc.consuming else .left).call = _
      rw [hl]
      split <;> rfl
  | eof hl | message hl | malformed hl | endIteration hl =>
      exact hlife.moveLoop rfl rfl rfl (by rw [hl]; rfl) (.inr (by rw [hl]; exact ⟨nofun, nofun⟩))
  | @asyncCall reqmsg workers hl hr hw =>
      have hstep : (ThreadPool.system n Unit Nat 20).step s.workers (.putTask () (some reqmsg))
          = some workers := hw
      refine hlife.congr rfl rfl (ThreadPool.running_step (ThreadPool.step_cases hstep) nofun nofun)
        (.inr (by rw [hl]; exact ⟨nofun, nofun⟩)) ?_
      obtain ⟨q, hq, rfl⟩ := Option.map_eq_some_iff.mp hw
      exact (Monitor.call_within hq _).trans (if_pos rfl)
  | @putWait reqmsg workers pick hl hw hpos =>
      have hstep : (ThreadPool.system n Unit Nat 20).step s.workers (.callerSection () pick)
          = some workers := hw
      refine hlife.congr rfl rfl (ThreadPool.running_step (ThreadPool.step_cases hstep) nofun nofun)
        (.inl rfl) ?_
      -- It sleeps inside `put`: the call it is in has not changed.
      rw [within_of_putWait hw hpos]
      exact hlife.put
  | @putDone reqmsg workers pick hl hw hpos =>
      have hstep : (ThreadPool.system n Unit Nat 20).step s.workers (.callerSection () pick)
          = some workers := hw
      refine hlife.congr rfl rfl (ThreadPool.running_step (ThreadPool.step_cases hstep) nofun nofun)
        (.inr (by rw [hl]; exact ⟨nofun, nofun⟩)) ?_
      rw [hpos]
      rfl
  | @pool e workers he hw => exact hlife.pool_step hw (.inl he) rfl rfl rfl
  | @runTask i workers hret hw =>
      exact hlife.pool_step (e := .runTask i) hw (.inr ⟨i, rfl⟩) rfl rfl rfl
  | throws | notStarted | call | gate | read | readEnded | attempt =>
      exact hlife.moveLoop rfl rfl rfl rfl (.inl rfl)

/-- It holds after `Init`. -/
theorem lifecycle_initial (isRunning : Bool) : Lifecycle (initial isRunning : State n) where
  runs h := nomatch h
  stopped h := nomatch h
  left h := nomatch h
  unborn _ := rfl
  flag h := by simp [initial] at h
  put := rfl

/-- The step belongs to an `AsyncCall`: its assertion, the call of
`PutTask`, or a lock section of that. -/
def Event.offers : Event n → Bool
  | .asyncCall | .putSection _ => true
  | _ => false

/-- Where `AsyncCall` is reached the pool has been started. Once
`Stop` of the pool has begun, no `PutTask` is under way, and no step
is one of an `AsyncCall`. -/
structure OffersToRunning (folly : Folly) (conf : AsyncClient.Conf) (s : State n) : Prop where
  isStarted : ∀ reqmsg, s.loop = .calling reqmsg → s.workers.isRunning = true
  outside : s.workers.owner.hasStopped = true →
    s.workers.queue.pos (.caller ()) = .outside
  noOffer : s.workers.owner.hasStopped = true → ∀ e : Event n, e.offers = true →
    (system folly conf n).step s e = none

/-- What the lifecycle says about the pool: where `AsyncCall` is
called, the pool runs and has not been stopped. -/
theorem Lifecycle.offers (hlife : Lifecycle s) (folly : Folly)
    (conf : AsyncClient.Conf) : OffersToRunning folly conf s where
  isStarted reqmsg hl := by
    refine hlife.runs ?_
    -- Before the spawn and after the join there is no `ConsumeLoop`.
    cases hm : s.main with
    | idle => exact nomatch hl.symm.trans (hlife.unborn (.inl hm))
    | stopping => exact nomatch hl.symm.trans (hlife.left hm)
    | _ => rfl
  outside hstopped := by
    have hput := hlife.put
    rw [hlife.left (hlife.stopped hstopped)] at hput
    exact Monitor.Pos.within_eq_none_iff.mp hput
  noOffer hstopped e he := by
    have hl := hlife.left (hlife.stopped hstopped)
    cases e with
    | asyncCall => simp [system, step, asyncCall, hl]
    | putSection pick => simp [system, step, putSection, hl]
    | _ => cases he

/-- In every run, every `AsyncCall` finds the pool started, and none
takes a step or is under way once `Stop` of the pool has begun. The
order of the calls in `Start` and `Stop` gives both: the loop is
spawned behind `asyncClient->Start()`, and joined in front of
`asyncClient->Stop()`. -/
theorem offersToRunning (folly : Folly) (conf : AsyncClient.Conf) (isRunning : Bool)
    (es : List (Event n)) :
    (system folly conf n).Always (OffersToRunning folly conf) (initial isRunning) es :=
  System.always_of_invariant (fun _ _ _ hlife hs => lifecycle_step hlife (step_cases hs).2)
    (fun _ hlife => hlife.offers folly conf) es (lifecycle_initial isRunning)

/-! ### What is dispatched -/

/-- What `ConsumeLoop` does. The messages have the numbers of their
loop variables. `afterStop` tells whether `Stop` had set the flag to
false. -/
inductive LoopAction where
  /-- `queue.consume()` returned a message. -/
  | consumed (reqmsg : Nat) (payload : String) (afterStop : Bool)
  /-- `AsyncCall` was called. -/
  | passed (reqmsg : Nat) (msg : RequestMessage)
  /-- It left the loop. -/
  | left (afterStop : Bool)

/-- What `ConsumeLoop` does in a step. An exception leaves the loop as
well. -/
def loopAction (folly : Folly) (s : State n) : Event n → List LoopAction
  | .test => if s.isRunning then [] else [.left s.main.hasStopped]
  | .consume none _ => [.left s.main.hasStopped]
  | .consume (some payload) fs =>
      .consumed s.created payload s.main.hasStopped ::
        match RequestMessage.fromJSON folly fs payload {} with
        | (.ok _, _) => []
        | (.error _, _) => [.left s.main.hasStopped]
  | .asyncCall =>
      match s.loop with
      | .calling reqmsg => (s.cells reqmsg).toList.map (.passed reqmsg)
      | _ => []
  | _ => []

/-- The well-formed messages that were consumed before `Stop`, with
their numbers. These are the ones that the workers have to be
handed. -/
def due (folly : Folly) (log : List LoopAction) : List (Nat × RequestMessage) :=
  log.filterMap fun
    | .consumed reqmsg payload false =>
        (RequestMessage.decode folly payload).map fun msg => (reqmsg, msg)
    | _ => none

/-- The messages that were passed to `AsyncCall`. -/
def passed (log : List LoopAction) : List (Nat × RequestMessage) :=
  log.filterMap fun
    | .passed reqmsg msg => some (reqmsg, msg)
    | _ => none

/-- The numbers of the messages that were consumed. -/
def consumedNumbers (log : List LoopAction) : List Nat :=
  log.filterMap fun
    | .consumed reqmsg _ _ => some reqmsg
    | _ => none

/-- The message in front of whose `AsyncCall` the thread is. There is
at most one. -/
def State.inHand (s : State n) : List (Nat × RequestMessage) :=
  match s.loop with
  | .calling reqmsg => (s.cells reqmsg).toList.map fun msg => (reqmsg, msg)
  | _ => []

/-- The loop is left only after `Stop`. The well-formed messages that
were consumed before it are passed to `AsyncCall` in the order of
their consumption, none of them twice, and the one that is still in
hand can be passed next. -/
structure Dispatched (folly : Folly) (conf : AsyncClient.Conf) (p : State n × List LoopAction) :
    Prop where
  left : LoopAction.left false ∉ p.2
  inOrder : (due folly p.2).Sublist (passed p.2 ++ p.1.inHand)
  once : ((passed p.2).map Prod.fst).Pairwise (· < ·)
  numbered : (consumedNumbers p.2).Pairwise (· < ·)
  next : ∀ reqmsg, p.1.loop = .calling reqmsg → p.1.ended = none →
    ∃ s', (system folly conf n).step p.1 .asyncCall = some s' ∧ s'.ended = none

/-- Until `Stop`, the queue yields messages, and no ends of
partitions. The file that the payload names holds a well-formed
message, and the payload is no other well-formed message itself. -/
def Dispatchable (folly : Folly) (p : State n × List LoopAction) : Event n → Prop
  | .consume payload fs => p.1.main.hasStopped = true ∨ ∃ text msg, payload = some text ∧
      RequestMessage.decode folly (fs.read text) = some msg ∧
      ∀ msg', RequestMessage.decode folly text = some msg' → msg' = msg
  | _ => True

/-- A step as `ConsumeLoop` sees it. Most steps of the consumer are
quiet here: they add nothing to the log, create no message and leave
the message in hand. -/
inductive Turn (folly : Folly) (s s' : State n) : Event n → Prop where
  | quiet {e : Event n} (haction : loopAction folly s e = [])
      (hconsume : ∀ payload fs, e ≠ .consume payload fs) (hcreated : s'.created = s.created)
      (hhand : s'.inHand = s.inHand) (hcalling : ∀ k, s'.loop = .calling k → s.loop = .calling k) :
      Turn folly s s' e
  | stops (haction : loopAction folly s .test = [.left true]) (hloop : s.loop = .loop)
      (hcreated : s'.created = s.created) (hleft : s'.loop = .left) : Turn folly s s' .test
  | eof {fs : FileSystem} (hloop : s.loop = .consuming) (hcreated : s'.created = s.created)
      (hleft : s'.loop = .left) : Turn folly s s' (.consume none fs)
  | takes {payload : String} {fs : FileSystem} {msg : RequestMessage} (hloop : s.loop = .consuming)
      (haction : loopAction folly s (.consume (some payload) fs) =
        [.consumed s.created payload s.main.hasStopped])
      (hread : RequestMessage.decode folly (fs.read payload) = some msg)
      (hs' : s' = s.create msg (.calling s.created)) : Turn folly s s' (.consume (some payload) fs)
  | throws {payload : String} {fs : FileSystem} (hloop : s.loop = .consuming)
      (haction : loopAction folly s (.consume (some payload) fs) =
        [.consumed s.created payload s.main.hasStopped, .left s.main.hasStopped])
      (hread : RequestMessage.decode folly (fs.read payload) = none)
      (hcreated : s'.created = s.created) (hsame : s'.loop = s.loop) (hended : s'.ended ≠ none) :
      Turn folly s s' (.consume (some payload) fs)
  | passes {reqmsg : Nat} {msg : RequestMessage} (hloop : s.loop = .calling reqmsg)
      (haction : loopAction folly s .asyncCall = [.passed reqmsg msg])
      (hhand : s.inHand = [(reqmsg, msg)]) (hcreated : s'.created = s.created)
      (hputting : s'.loop = .putting reqmsg) : Turn folly s s' .asyncCall

/-- Where `ConsumeLoop` is not in front of an `AsyncCall`, nothing is
in hand. -/
theorem State.inHand_eq_nil (h : ∀ reqmsg, s.loop ≠ .calling reqmsg) : s.inHand = [] := by
  unfold State.inHand
  split
  · rename_i reqmsg hl
    exact absurd hl (h reqmsg)
  · rfl

/-- In front of an `AsyncCall`, its message is in hand. -/
theorem Inv.inHand (hinv : Inv s) {reqmsg : Nat} (hl : s.loop = .calling reqmsg) :
    ∃ msg, s.cells reqmsg = some msg ∧ s.inHand = [(reqmsg, msg)] := by
  obtain ⟨msg, hmsg⟩ := (hinv.cells reqmsg).mpr (by rw [hl]; rfl)
  refine ⟨msg, hmsg, ?_⟩
  show (match s.loop with
    | .calling reqmsg => (s.cells reqmsg).toList.map fun msg => (reqmsg, msg)
    | _ => []) = _
  rw [hl]
  show (s.cells reqmsg).toList.map _ = _
  rw [hmsg]
  rfl

/-- Every step is a turn. The proofs about the log are by cases on
`Turn`, which has six cases where `Step` has many. -/
theorem turn_of_step (hinv : Inv s) (hlife : Lifecycle s) (h : Step folly conf s e s') :
    Turn folly s s' e := by
  cases h with
  | spawn hm ho =>
      have hl := hlife.unborn (.inr hm)
      refine .quiet rfl nofun rfl ?_ nofun
      rw [State.inHand_eq_nil (s := s) (by rw [hl]; exact nofun)]
      rfl
  | test hl =>
      cases hr : s.isRunning with
      | true =>
          refine .quiet (by simp [loopAction, hr]) nofun rfl ?_ (by simp)
          rw [State.inHand_eq_nil (s := s) (by rw [hl]; exact nofun)]
          rfl
      | false =>
          -- The flag is cleared after `Start` has set it, which is done by
          -- `Stop`.
          have hstopped : s.main.hasStopped = true := by
            cases hm : s.main with
            | idle => exact nomatch hl.symm.trans (hlife.unborn (.inl hm))
            | starting => exact nomatch hl.symm.trans (hlife.unborn (.inr hm))
            | started => exact nomatch hr.symm.trans (hlife.flag (.inr hm))
            | joining | stopping => rfl
          exact .stops (by simp [loopAction, hr, hstopped]) hl rfl rfl
  | eof hl => exact .eof hl rfl rfl
  | message hl hread =>
      exact .takes hl (by simp [loopAction, hread]) (RequestMessage.fromJSON_iff_decode.mp hread)
        rfl
  | malformed hl hread => cases RequestMessage.eq_true_of_fromJSON hread
  | throws hl hread =>
      exact .throws hl (by simp [loopAction, hread]) (RequestMessage.decode_of_error hread) rfl rfl
        nofun
  | asyncCall hl hr hw =>
      obtain ⟨msg, hmsg, hhand⟩ := hinv.inHand hl
      exact .passes hl (by simp [loopAction, hl, hmsg]) hhand rfl rfl
  | notStarted hl hr => exact nomatch hr.symm.trans ((hlife.offers folly conf).isStarted _ hl)
  | putDone hl | endIteration hl =>
      refine .quiet rfl nofun rfl ?_ nofun
      rw [State.inHand_eq_nil (s := s) (by rw [hl]; exact nofun)]
      rfl
  | start | stop | join | putWait | pool | runTask | call | gate | read | readEnded | attempt =>
      exact .quiet rfl nofun rfl rfl fun k hk => hk

/-! ### The log of `ConsumeLoop` -/

variable {p p' : State n × List LoopAction}

@[simp] theorem due_nil : due folly [] = [] := rfl

@[simp] theorem passed_nil : passed [] = [] := rfl

@[simp] theorem due_append (log log' : List LoopAction) :
    due folly (log ++ log') = due folly log ++ due folly log' :=
  List.filterMap_append

@[simp] theorem passed_append (log log' : List LoopAction) :
    passed (log ++ log') = passed log ++ passed log' :=
  List.filterMap_append

@[simp] theorem consumedNumbers_append (log log' : List LoopAction) :
    consumedNumbers (log ++ log') = consumedNumbers log ++ consumedNumbers log' :=
  List.filterMap_append

@[simp] theorem consumedNumbers_consumed (reqmsg : Nat) (payload : String) (b : Bool)
    (log : List LoopAction) :
    consumedNumbers (.consumed reqmsg payload b :: log) = reqmsg :: consumedNumbers log := rfl

@[simp] theorem consumedNumbers_left (b : Bool) (log : List LoopAction) :
    consumedNumbers (.left b :: log) = consumedNumbers log := rfl

@[simp] theorem passed_consumed (reqmsg : Nat) (payload : String) (b : Bool)
    (log : List LoopAction) : passed (.consumed reqmsg payload b :: log) = passed log := rfl

@[simp] theorem passed_left (b : Bool) (log : List LoopAction) :
    passed (.left b :: log) = passed log := rfl

@[simp] theorem due_left (b : Bool) (log : List LoopAction) :
    due folly (.left b :: log) = due folly log := rfl

@[simp] theorem due_afterStop (reqmsg : Nat) (payload : String) (log : List LoopAction) :
    due folly (.consumed reqmsg payload true :: log) = due folly log := rfl

/-- The numbers in the log are in order. The message that is consumed
next has a greater one, and so has the one in hand among those that
were passed. -/
structure Numbered (p : State n × List LoopAction) : Prop where
  inv : Inv p.1
  life : Lifecycle p.1
  consumed : (consumedNumbers p.2).Pairwise (· < ·)
  passed : ((passed p.2).map Prod.fst).Pairwise (· < ·)
  consumedLt : p.1.ended = none → ∀ k ∈ consumedNumbers p.2, k < p.1.created
  passedLt : ∀ k ∈ (KafkaConsumer.passed p.2).map Prod.fst, k < p.1.created
  handLt : ∀ reqmsg, p.1.loop = .calling reqmsg →
    ∀ k ∈ (KafkaConsumer.passed p.2).map Prod.fst, k < reqmsg

/-- A number after smaller ones keeps the order. -/
theorem pairwise_concat {ks : List Nat} {k : Nat} (h : ks.Pairwise (· < ·)) (hk : ∀ j ∈ ks, j < k) :
    (ks ++ [k]).Pairwise (· < ·) := by
  refine List.pairwise_append.mpr ⟨h, List.pairwise_singleton _ _, fun j hj j' hj' => ?_⟩
  rw [List.mem_singleton.mp hj']
  exact hk j hj

/-- After a step that passes nothing and takes nothing up, the numbers
stay where they are. A message is consumed without being taken up only
where the process ends. -/
theorem Numbered.stay (hnum : Numbered p) (hs : p.1.ended = none) (hinv' : Inv p'.1)
    (hlife' : Lifecycle p'.1) {log : List LoopAction} (hlog : p'.2 = p.2 ++ log)
    (hpassed : KafkaConsumer.passed log = [])
    (hconsumed : consumedNumbers log = [] ∨
      consumedNumbers log = [p.1.created] ∧ p'.1.ended ≠ none)
    (hcreated : p'.1.created = p.1.created)
    (hcalling : ∀ k, p'.1.loop = .calling k → p.1.loop = .calling k) : Numbered p' := by
  have hpassed' : KafkaConsumer.passed p'.2 = KafkaConsumer.passed p.2 := by
    rw [hlog, passed_append, hpassed, List.append_nil]
  refine ⟨hinv', hlife', ?_, ?_, ?_, ?_, ?_⟩
  · rw [hlog, consumedNumbers_append]
    rcases hconsumed with hnone | ⟨hnew, -⟩
    · rw [hnone, List.append_nil]
      exact hnum.consumed
    · rw [hnew]
      exact pairwise_concat hnum.consumed (hnum.consumedLt hs)
  · rw [hpassed']
    exact hnum.passed
  · intro hended
    rcases hconsumed with hnone | ⟨-, hend⟩
    · rw [hlog, consumedNumbers_append, hnone, List.append_nil, hcreated]
      exact hnum.consumedLt hs
    · exact absurd hended hend
  · rw [hpassed', hcreated]
    exact hnum.passedLt
  · intro k hk
    rw [hpassed']
    exact hnum.handLt k (hcalling k hk)

/-- A message that is taken up gets the next number. The numbers
before it are below, so the log stays in order. -/
theorem Numbered.takes (hnum : Numbered p) (hs : p.1.ended = none) (hinv' : Inv p'.1)
    (hlife' : Lifecycle p'.1) {payload : String} {stopped : Bool} {msg : RequestMessage}
    (hlog : p'.2 = p.2 ++ [.consumed p.1.created payload stopped])
    (hs' : p'.1 = p.1.create msg (.calling p.1.created)) : Numbered p' := by
  have hpassed : KafkaConsumer.passed p'.2 = KafkaConsumer.passed p.2 := by simp [hlog]
  have hconsumed : consumedNumbers p'.2 = consumedNumbers p.2 ++ [p.1.created] := by
    rw [hlog, consumedNumbers_append]
    rfl
  have hcreated : p'.1.created = p.1.created + 1 := by rw [hs']; rfl
  -- The new number is the count of messages so far, above every number in the
  -- log; only the list of consumed numbers grows.
  refine ⟨hinv', hlife', ?_, ?_, ?_, ?_, ?_⟩
  · rw [hconsumed]
    exact pairwise_concat hnum.consumed (hnum.consumedLt hs)
  · rw [hpassed]
    exact hnum.passed
  · intro _ k hk
    rw [hconsumed] at hk
    rw [hcreated]
    rcases List.mem_append.mp hk with hold | hnew
    · have hlt := hnum.consumedLt hs k hold
      omega
    · have heq := List.mem_singleton.mp hnew
      omega
  · intro k hk
    rw [hpassed] at hk
    have hlt := hnum.passedLt k hk
    omega
  -- The message is now in hand, and no number passed so far has reached it.
  · intro reqmsg hl k hk
    rw [hpassed] at hk
    rw [hs'] at hl
    cases hl
    exact hnum.passedLt k hk

/-- A message that is passed on has a greater number than those before
it. -/
theorem Numbered.passes (hnum : Numbered p) (hs : p.1.ended = none) (hinv' : Inv p'.1)
    (hlife' : Lifecycle p'.1) {reqmsg : Nat} {msg : RequestMessage}
    (hloop : p.1.loop = .calling reqmsg) (hlog : p'.2 = p.2 ++ [.passed reqmsg msg])
    (hcreated : p'.1.created = p.1.created) (hputting : p'.1.loop = .putting reqmsg) :
    Numbered p' := by
  have hpassed : (KafkaConsumer.passed p'.2).map Prod.fst =
      (KafkaConsumer.passed p.2).map Prod.fst ++ [reqmsg] := by
    rw [hlog, passed_append, List.map_append]
    rfl
  have hconsumed : consumedNumbers p'.2 = consumedNumbers p.2 := by
    rw [hlog, consumedNumbers_append]
    exact List.append_nil _
  refine ⟨hinv', hlife', ?_, ?_, ?_, ?_, ?_⟩
  · rw [hconsumed]
    exact hnum.consumed
  · rw [hpassed]
    exact pairwise_concat hnum.passed (hnum.handLt reqmsg hloop)
  · intro _
    rw [hconsumed, hcreated]
    exact hnum.consumedLt hs
  · intro k hk
    rw [hpassed] at hk
    rw [hcreated]
    rcases List.mem_append.mp hk with hold | hnew
    · exact hnum.passedLt k hold
    · rw [List.mem_singleton.mp hnew]
      exact hnum.inv.created reqmsg (by rw [hloop]; rfl)
  · rw [hputting]
    exact nofun

/-- A step keeps the numbers in order. The message that is taken up
gets the next number, and the one in hand is the last that was taken
up. -/
theorem numbered_step (hnum : Numbered p) (hs : p.1.ended = none)
    (h : Step folly conf p.1 e p'.1) (hlog : p'.2 = p.2 ++ loopAction folly p.1 e) :
    Numbered p' := by
  have hinv' := inv_step hnum.inv h
  have hlife' := lifecycle_step hnum.life h
  -- `Turn` says what the step was to the log: only `takes` and `passes` add a
  -- number.
  cases turn_of_step hnum.inv hnum.life h with
  | quiet haction hconsume hcreated hhand hcalling =>
      rw [haction] at hlog
      exact hnum.stay hs hinv' hlife' hlog rfl (.inl rfl) hcreated hcalling
  | stops haction hloop hcreated hleft =>
      rw [haction] at hlog
      exact hnum.stay hs hinv' hlife' hlog rfl (.inl rfl) hcreated (by rw [hleft]; exact nofun)
  | eof hloop hcreated hleft =>
      exact hnum.stay hs hinv' hlife' hlog rfl (.inl rfl) hcreated (by rw [hleft]; exact nofun)
  | throws hloop haction hread hcreated hsame hended =>
      rw [haction] at hlog
      refine hnum.stay hs hinv' hlife' hlog rfl (.inr ⟨rfl, hended⟩) hcreated fun k hk => ?_
      -- The process ends with the loop where it was.
      rw [← hsame]
      exact hk
  | takes hloop haction hread hs' =>
      rw [haction] at hlog
      exact hnum.takes hs hinv' hlife' hlog hs'
  | passes hloop haction hhand hcreated hputting =>
      rw [haction] at hlog
      exact hnum.passes hs hinv' hlife' hloop hlog hcreated hputting

/-- The thread that has a message in hand calls `AsyncCall`, and its
assertion holds. -/
theorem Numbered.next (hnum : Numbered p) {reqmsg : Nat} (hl : p.1.loop = .calling reqmsg)
    (hended : p.1.ended = none) :
    ∃ s', (system folly conf n).step p.1 .asyncCall = some s' ∧ s'.ended = none := by
  have hab := BoundedBlockingQueue.not_aborted
    (ThreadPool.queueSimulation.reachable hnum.inv.workers)
  have hout := hnum.life.put
  rw [hl] at hout
  obtain ⟨q, hq⟩ := Monitor.exists_call hab hout (.put (some reqmsg))
  have hrun := (hnum.life.offers folly conf).isStarted reqmsg hl
  have hstep : (system folly conf n).step p.1 .asyncCall = some { p.1 with
      workers := { p.1.workers with queue := q }
      called := Function.update p.1.called reqmsg (p.1.cells reqmsg)
      loop := .putting reqmsg } := by
    simp [system, hended, step, asyncCall, hl, hrun, ThreadPool.putTask, hq]
  exact ⟨_, hstep, hended⟩

/-- Where the thread leaves the loop and has nothing in hand, the log
stays in order exactly after `Stop`. The message at which an exception
leaves it is not due after `Stop`. -/
theorem leaves_iff {log actions : List LoopAction} {stopped : Bool}
    (hleft : LoopAction.left false ∉ log) (hinOrder : (due folly log).Sublist (passed log))
    (hactions : actions = [.left stopped] ∨
      ∃ reqmsg payload, actions = [.consumed reqmsg payload stopped, .left stopped]) :
    LoopAction.left false ∉ log ++ actions ∧
        (due folly (log ++ actions)).Sublist (passed (log ++ actions)) ↔ stopped = true := by
  cases stopped with
  | true =>
      refine iff_of_true ?_ rfl
      rcases hactions with rfl | ⟨reqmsg, payload, rfl⟩
      · simpa using ⟨hleft, hinOrder⟩
      · simpa using ⟨hleft, hinOrder⟩
  | false =>
      refine iff_of_false (fun h => h.1 ?_) nofun
      rcases hactions with rfl | ⟨reqmsg, payload, rfl⟩
      · simp
      · simp

/-- A message that is taken up before `Stop` is due where its payload
encodes one. The one in hand is passed on for it exactly where it is
the same. -/
theorem due_concat_iff {log : List LoopAction} {reqmsg : Nat} {payload : String}
    {msg : RequestMessage} (hlt : ∀ k ∈ (passed log).map Prod.fst, k < reqmsg)
    (hinOrder : (due folly log).Sublist (passed log)) :
    (due folly (log ++ [.consumed reqmsg payload false])).Sublist
        (passed log ++ [(reqmsg, msg)]) ↔
      ∀ msg', RequestMessage.decode folly payload = some msg' → msg' = msg := by
  rw [due_append]
  constructor
  · intro hsub msg' hmsg'
    -- It has a greater number than those that were passed, so it is the one
    -- in hand.
    have hmem : (reqmsg, msg') ∈ passed log ++ [(reqmsg, msg)] :=
      hsub.subset (by simp [due, hmsg'])
    rcases List.mem_append.mp hmem with hold | hnew
    · have hself := hlt reqmsg (List.mem_map.mpr ⟨_, hold, rfl⟩)
      exact absurd hself (Nat.lt_irrefl _)
    · exact congrArg Prod.snd (List.mem_singleton.mp hnew)
  · intro hsame
    refine hinOrder.append ?_
    cases hdecode : RequestMessage.decode folly payload with
    | none => simp [due, hdecode]
    | some msg' => simp [due, hdecode, hsame msg' hdecode]

/-- A step keeps what is to be dispatched, exactly where the queue
yields what can be. The turns that neither consume nor leave keep it
without a condition. -/
theorem dispatched_step (hnum : Numbered p) (hp : Dispatched folly conf p)
    (hs : p.1.ended = none) (h : Step folly conf p.1 e p'.1)
    (hlog : p'.2 = p.2 ++ loopAction folly p.1 e) :
    Dispatched folly conf p' ↔ Dispatchable folly p e := by
  have hnum' := numbered_step hnum hs h hlog
  -- The order of the numbers is kept by every step.
  have hiff : Dispatched folly conf p' ↔ LoopAction.left false ∉ p'.2 ∧
      (due folly p'.2).Sublist (passed p'.2 ++ p'.1.inHand) := by
    constructor
    · intro hp'
      exact ⟨hp'.left, hp'.inOrder⟩
    · intro ⟨hleft, hinOrder⟩
      exact ⟨hleft, hinOrder, hnum'.passed, hnum'.consumed, fun k hl => hnum'.next hl⟩
  rw [hiff, hlog]
  have hleft := hp.left
  have hinOrder := hp.inOrder
  cases turn_of_step hnum.inv hnum.life h with
  | quiet haction hconsume hcreated hhand hcalling =>
      have hok : Dispatchable folly p e := by
        cases e with
        | consume payload fs => exact absurd rfl (hconsume payload fs)
        | _ => trivial
      rw [haction, List.append_nil, hhand]
      exact iff_of_true ⟨hleft, hinOrder⟩ hok
  | stops haction hloop hcreated hl =>
      rw [State.inHand_eq_nil (s := p.1) (by rw [hloop]; exact nofun),
        List.append_nil] at hinOrder
      rw [haction, State.inHand_eq_nil (s := p'.1) (by rw [hl]; exact nofun), List.append_nil]
      exact iff_of_true ((leaves_iff hleft hinOrder (.inl rfl)).mpr rfl) trivial
  | eof hloop hcreated hl =>
      rw [State.inHand_eq_nil (s := p.1) (by rw [hloop]; exact nofun),
        List.append_nil] at hinOrder
      rw [State.inHand_eq_nil (s := p'.1) (by rw [hl]; exact nofun), List.append_nil]
      -- The end of a partition leaves the loop, also before `Stop`.
      exact (leaves_iff hleft hinOrder (.inl rfl)).trans (by simp [Dispatchable])
  | @throws payload fs hloop haction hread hcreated hsame hended =>
      rw [State.inHand_eq_nil (s := p.1) (by rw [hloop]; exact nofun),
        List.append_nil] at hinOrder
      rw [haction, State.inHand_eq_nil (s := p'.1) (by rw [hsame, hloop]; exact nofun),
        List.append_nil]
      -- The exception leaves the loop, also before `Stop`.
      exact (leaves_iff hleft hinOrder (.inr ⟨_, _, rfl⟩)).trans (by simp [Dispatchable, hread])
  | @takes payload fs msg hloop haction hread hs' =>
      have hcalling : p'.1.loop = .calling p.1.created := by
        rw [hs']
        rfl
      obtain ⟨msg', hcell, hhand'⟩ := hnum'.inv.inHand hcalling
      have hmsg : msg' = msg := by
        rw [hs'] at hcell
        change Function.update p.1.cells p.1.created (some msg) p.1.created = some msg' at hcell
        rw [Function.update_self] at hcell
        exact (Option.some.inj hcell).symm
      rw [State.inHand_eq_nil (s := p.1) (by rw [hloop]; exact nofun),
        List.append_nil] at hinOrder
      rw [haction, hhand', hmsg, and_iff_right (by simpa using hleft), passed_append,
        passed_consumed, passed_nil, List.append_nil]
      cases hstopped : p.1.main.hasStopped with
      | true =>
          refine iff_of_true ?_ (.inl hstopped)
          simpa using hinOrder.trans (List.sublist_append_left _ _)
      | false =>
          rw [due_concat_iff hnum.passedLt hinOrder]
          simp [Dispatchable, hstopped, hread]
  | @passes reqmsg msg hloop haction hhand hcreated hputting =>
      rw [haction, State.inHand_eq_nil (s := p'.1) (by rw [hputting]; exact nofun)]
      refine iff_of_true ⟨by simpa using hleft, ?_⟩ trivial
      rw [hhand] at hinOrder
      simpa [due, passed] using hinOrder

/-- In a run, the loop is left only after `Stop`, and every
well-formed message that is consumed before it is passed to
`AsyncCall` once and in order, exactly when until `Stop` the queue
yields no ends of partitions and every payload names a file that holds
a well-formed message, its own where it has one.

The last condition is about the files because `FromJSON` opens the
payload as a file. -/
theorem dispatched_iff (folly : Folly) (conf : AsyncClient.Conf) (isRunning : Bool)
    (es : List (Event n)) :
    ((system folly conf n).logged (loopAction folly)).Always (Dispatched folly conf)
        (initial isRunning, []) es ↔
      ((system folly conf n).logged (loopAction folly)).EveryStep (Dispatchable folly)
        (initial isRunning, []) es := by
  refine System.always_iff_everyStep (I := Numbered) ?_ ?_ es ?_ ?_
  · intro p e p' hnum hs
    obtain ⟨hstep, hlog⟩ := System.logged_step_iff.mp hs
    obtain ⟨hended, hstep⟩ := step_cases hstep
    exact numbered_step hnum hended hstep hlog
  · intro p e p' hnum hp hs
    obtain ⟨hstep, hlog⟩ := System.logged_step_iff.mp hs
    obtain ⟨hended, hstep⟩ := step_cases hstep
    exact dispatched_step hnum hp hended hstep hlog
  · exact ⟨inv_initial isRunning, lifecycle_initial isRunning, .nil, .nil, nofun, nofun, nofun⟩
  · exact ⟨nofun, .slnil, .nil, .nil, nofun⟩

/-- The text of a well-formed message. -/
def payText : String := compactFolly.toJson payDynamic

/-- The text is consumed where no file has it as its name. -/
def consumeText : Event 2 := .consume (some payText) fun _ => none

/-- `FromJSON` throws where there are no files. -/
theorem fromJSON_noFiles (payload : String) :
    RequestMessage.fromJSON compactFolly (fun _ => none) payload {}
      = (.error "json parse error", {}) := by
  have hempty : compactFolly.parseJson "" = .error "json parse error" := rfl
  refine Throws.bind_error (x := liftM (compactFolly.parseJson "")) ?_
  rw [hempty]
  rfl

/-- The exception ends the process. -/
theorem step_consumeText {p : State 2 × List LoopAction} (hended : p.1.ended = none)
    (hl : p.1.loop = .consuming) :
    ((system compactFolly oneAttempt 2).logged (loopAction compactFolly)).step p consumeText
      = some ({ p.1 with ended := some .terminated }, p.2 ++
          [.consumed p.1.created payText p.1.main.hasStopped, .left p.1.main.hasStopped]) := by
  refine System.logged_step_iff.mpr ⟨?_, ?_⟩
  · simp [system, hended, step, consumeText, consume, hl, fromJSON_noFiles]
  · simp [loopAction, consumeText, fromJSON_noFiles]

/-- The exception of `FromJSON` leaves the loop before `Stop`, and the
message is lost. -/
theorem lostMessage :
    RequestMessage.decode compactFolly payText = some payMessage ∧
    ∃ p, ((system compactFolly oneAttempt 2).logged (loopAction compactFolly)).run
        (initial false, []) (spawned ++ [consumeText]) = some p ∧
      p.1.main.hasStopped = false ∧ ¬ Dispatched compactFolly oneAttempt p := by
  have hread : payFile.read payText = payText := by simp [FileSystem.read, payFile, payText]
  have hdecode : RequestMessage.decode compactFolly payText = some payMessage := by
    rw [← hread]
    exact RequestMessage.fromJSON_iff_decode.mp (fromJSON_payFile payText)
  have hspawned : ((system compactFolly oneAttempt 2).logged (loopAction compactFolly)).run
      (initial false, []) spawned = some _ := rfl
  refine ⟨hdecode, _, (System.run_append hspawned).trans
    (System.run_singleton (step_consumeText rfl rfl)), rfl, fun hp => ?_⟩
  exact hp.left (List.mem_append_right _ (List.mem_cons_of_mem _ List.mem_cons_self))

end Bigpipe.KafkaConsumer
