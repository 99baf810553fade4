import Bigpipe.Lib.Pipeline
import Bigpipe.Main
import Bigpipe.Proofs.Acceptor
import Bigpipe.Proofs.BoundedBlockingQueue

/-!
# `Bigpipe.Proofs.Main`: the acceptor and the producer as a pipeline

Handlers put messages in the job channel, and `Pushing` takes them out
and passes them to the Kafka client. `main` starts and stops both.

`Step` says once what each event can do, and `step_cases` that nothing
else happens. Then there are two projections, and most of what is
known of the process is known of one of them. `channelSimulation`
forgets everything but the channel, so the results about the queue
hold of it. `pipeline` forgets the threads, and leaves the messages:
those that were acknowledged, those in the channel, the one that
`Pushing` holds, and those that were passed on.

`Inv` is what the two need from the rest of the state: that every
thread is in the call of the channel that its program counter says,
that `main` and `Pushing` are in step, and that no handler has written
errno 0 before its `put` has returned. The last one is why an
acknowledged message is one that is in the channel or was there.

* `pipeline_step`: every step is a move of the pipeline from the
  acknowledged requests to the Kafka client.
* `conservedOn_of_reachable`: no message with a topic is lost,
  duplicated or reordered in any reachable state, during `Stop` as
  well as before it.
* `empty_of_asleep`: `Pushing` sleeps beside an empty channel only.
-/

set_option autoImplicit false

namespace Bigpipe.Main

open Bigpipe.Lib
open Bigpipe.Acceptor (HandlerPc Answer receive success overloaded)
open Bigpipe.BoundedBlockingQueue (queue)
open Bigpipe.KafkaProducer (PushingPc calcPartition push)
open Bigpipe.Lib.Monitor (acquire)

variable {lib : Libraries} {topics : Topics} {H : Type} {cap : Nat} [DecidableEq H] [Fintype H]
  {s s' : State H cap} {e : Event H}

/-! ### What a step can do -/

/-- The steps of the process: one constructor for each branch of each
event, with the guard of the branch and the state after it. -/
inductive Step (lib : Libraries) (s : State H cap) : Event H → State H cap → Prop where
  | start (hm : s.main = .idle) :
      Step lib s .start { s with main := .spawned, pushing := .loop }
  | setRunning (hm : s.main = .spawned) :
      Step lib s .setRunning { s with main := .started, isRunning := true }
  | serve (hm : s.main = .started) : Step lib s .serve { s with main := .serving }
  | close (hm : s.main = .serving) : Step lib s .close { s with main := .closed }
  | stop (hm : s.main = .closed) :
      Step lib s .stop { s with main := .stopPut, isRunning := false }
  | stopPut {q : Channel H cap} (hm : s.main = .stopPut)
      (hq : Monitor.call s.taskchan .main (.putMove {}) = some q) :
      Step lib s .stopPut { s with taskchan := q, main := .stopPutting }
  | stopWait {q : Channel H cap} {pick : Option (Tid H)}
      {o : Monitor.Outcome (BoundedBlockingQueue.Ret RequestMessage)}
      (hm : s.main = .stopPutting)
      (hq : acquire (queue RequestMessage cap) s.taskchan .main pick = some (q, o))
      (hret : o.isReturned = false) :
      Step lib s (.stopSection pick) { s with taskchan := q }
  | stopPutDone {q : Channel H cap} {pick : Option (Tid H)}
      {r : BoundedBlockingQueue.Ret RequestMessage} (hm : s.main = .stopPutting)
      (hq : acquire (queue RequestMessage cap) s.taskchan .main pick = some (q, .returned r)) :
      Step lib s (.stopSection pick) { s with taskchan := q, main := .stopJoin }
  | join (hm : s.main = .stopJoin) (hp : s.pushing = .left) :
      Step lib s .join { s with main := .flushing }
  | flushWait {length : Nat} (hm : s.main = .flushing) (hl : 0 < length) :
      Step lib s (.flush length) s
  -- The Kafka client says how long its out queue is. Only 0 ends the loop.
  | flushed (hm : s.main = .flushing) : Step lib s (.flush 0) { s with main := .stopped }
  | take {q : Channel H cap} (hp : s.pushing = .loop) (hr : s.isRunning = true)
      (hq : Monitor.call s.taskchan .pushing .take = some q) :
      Step lib s .test { s with taskchan := q, pushing := .taking }
  | leave (hp : s.pushing = .loop) (hr : s.isRunning = false) :
      Step lib s .test { s with pushing := .left }
  | takeWait {q : Channel H cap} {pick : Option (Tid H)}
      {o : Monitor.Outcome (BoundedBlockingQueue.Ret RequestMessage)} (hp : s.pushing = .taking)
      (hq : acquire (queue RequestMessage cap) s.taskchan .pushing pick = some (q, o))
      (hret : ∀ x, o ≠ .returned (.item x)) :
      Step lib s (.takeSection pick) { s with taskchan := q }
  | takeDone {q : Channel H cap} {pick : Option (Tid H)} {reqmsg : RequestMessage}
      (hp : s.pushing = .taking)
      (hq : acquire (queue RequestMessage cap) s.taskchan .pushing pick
        = some (q, .returned (.item reqmsg))) :
      Step lib s (.takeSection pick) { s with taskchan := q, pushing := .taken reqmsg }
  | skip {rd : UInt32} {throws : Bool} {reqmsg : RequestMessage}
      (hp : s.pushing = .taken reqmsg) (hpush : push lib rd s.topics reqmsg = .skipped) :
      Step lib s (.push rd throws) { s with pushing := .loop }
  | crash {rd : UInt32} {throws : Bool} {reqmsg : RequestMessage} {topics : Topics}
      -- A trap in `CalcPartition`, or an exception of `produce`. Without a
      -- topic neither is reached.
      (hp : s.pushing = .taken reqmsg) (htopic : reqmsg.topic ≠ "") :
      Step lib s (.push rd throws) { s with topics, crashed := true }
  | produce {rd : UInt32} {throws : Bool} {reqmsg : RequestMessage} {topics : Topics}
      {builder : MessageBuilder} (hp : s.pushing = .taken reqmsg)
      (hpush : push lib rd s.topics reqmsg = .message topics builder) :
      Step lib s (.push rd throws)
        { s with topics, pushing := .loop, produced := s.produced ++ [builder] }
  | request {h : H} {fs : FileSystem} {headers : UnorderedMap String} {body : String}
      {q : Channel H cap} (hm : s.main = .serving) (hh : s.handler h = .idle)
      (hq : Monitor.call s.taskchan (.handler h) .full = some q) :
      Step lib s (.request h fs headers body)
        { s.setHandler h (.checking (receive lib.folly fs headers body).1
            (receive lib.folly fs headers body).2) with taskchan := q }
  | fullWait {h : H} {q : Channel H cap} {pick : Option (Tid H)} {reqmsg : RequestMessage}
      {resp : List CallResp} {o : Monitor.Outcome (BoundedBlockingQueue.Ret RequestMessage)}
      (hh : s.handler h = .checking reqmsg resp)
      (hq : acquire (queue RequestMessage cap) s.taskchan (.handler h) pick = some (q, o))
      (hret : ∀ full, o ≠ .returned (.flag full)) :
      Step lib s (.fullSection h pick) { s with taskchan := q }
  | full {h : H} {q : Channel H cap} {pick : Option (Tid H)} {reqmsg : RequestMessage}
      {resp : List CallResp} (hh : s.handler h = .checking reqmsg resp)
      (hq : acquire (queue RequestMessage cap) s.taskchan (.handler h) pick
        = some (q, .returned (.flag true))) :
      Step lib s (.fullSection h pick)
        { s.answer h reqmsg resp overloaded with taskchan := q }
  | free {h : H} {q : Channel H cap} {pick : Option (Tid H)} {reqmsg : RequestMessage}
      {resp : List CallResp} (hh : s.handler h = .checking reqmsg resp)
      (hq : acquire (queue RequestMessage cap) s.taskchan (.handler h) pick
        = some (q, .returned (.flag false))) :
      Step lib s (.fullSection h pick)
        { s.setHandler h (.free reqmsg resp) with taskchan := q }
  | put {h : H} {q : Channel H cap} {reqmsg : RequestMessage} {resp : List CallResp}
      (hh : s.handler h = .free reqmsg resp)
      (hq : Monitor.call s.taskchan (.handler h) (.put reqmsg) = some q) :
      Step lib s (.put h) { s.setHandler h (.putting reqmsg resp) with taskchan := q }
  | putWait {h : H} {q : Channel H cap} {pick : Option (Tid H)} {reqmsg : RequestMessage}
      {resp : List CallResp} {o : Monitor.Outcome (BoundedBlockingQueue.Ret RequestMessage)}
      (hh : s.handler h = .putting reqmsg resp)
      (hq : acquire (queue RequestMessage cap) s.taskchan (.handler h) pick = some (q, o))
      (hret : o.isReturned = false) :
      Step lib s (.putSection h pick) { s with taskchan := q }
  | putDone {h : H} {q : Channel H cap} {pick : Option (Tid H)} {reqmsg : RequestMessage}
      {resp : List CallResp} {r : BoundedBlockingQueue.Ret RequestMessage}
      (hh : s.handler h = .putting reqmsg resp)
      (hq : acquire (queue RequestMessage cap) s.taskchan (.handler h) pick
        = some (q, .returned r)) :
      Step lib s (.putSection h pick) { s.answer h reqmsg resp success with taskchan := q }
  | spurious {t : Tid H} {q : Channel H cap} (hq : Monitor.spurious s.taskchan t = some q) :
      Step lib s (.spurious t) { s with taskchan := q }

/-- A lock section of the `put` in `Stop`: `main` waits for room, or
goes on to `join()`. -/
theorem stopSection_cases {pick : Option (Tid H)} (h : stopSection s pick = some s') :
    Step lib s (.stopSection pick) s' := by
  unfold stopSection at h
  split at h
  · rename_i hm
    obtain ⟨⟨q, o⟩, hq, heq⟩ := Option.map_eq_some_iff.mp h
    cases o with
    | returned r =>
        cases heq
        exact .stopPutDone hm hq
    | slept | aborted =>
        cases heq
        exact .stopWait hm hq rfl
  · cases h

/-- The test of `IsRunning` sends `Pushing` into `take` or out of its
loop. -/
theorem test_cases (h : test s = some s') : Step lib s .test s' := by
  unfold test at h
  split at h
  · rename_i hp hr
    obtain ⟨q, hq, rfl⟩ := Option.map_eq_some_iff.mp h
    exact .take hp hr hq
  · rename_i hp hr
    cases h
    exact .leave hp hr
  · cases h

/-- A lock section of `take`: `Pushing` has a message in its hand, or
it is still in `take`. -/
theorem takeSection_cases {pick : Option (Tid H)} (h : takeSection s pick = some s') :
    Step lib s (.takeSection pick) s' := by
  unfold takeSection at h
  split at h
  · rename_i hp
    obtain ⟨⟨q, o⟩, hq, heq⟩ := Option.map_eq_some_iff.mp h
    split at heq
    · rename_i reqmsg ho
      cases ho
      cases heq
      exact .takeDone hp hq
    · rename_i q' o' hne ho
      cases ho
      cases heq
      exact .takeWait hp hq hne
  · cases h

/-- The rest of the loop body of `Pushing`: the message is dropped for
want of a topic, it is passed to `produce`, or the process ends. -/
theorem pushTaken_cases {rd : UInt32} {throws : Bool} (h : pushTaken lib s rd throws = some s') :
    Step lib s (.push rd throws) s' := by
  unfold pushTaken at h
  split at h
  · rename_i reqmsg hp
    split at h
    · rename_i hpush
      cases h
      exact .skip hp hpush
    · rename_i topics' hpush
      cases h
      -- A trap comes after the lookup of the topic, which a message without
      -- one never reaches.
      refine .crash hp fun htopic => ?_
      cases hpush.symm.trans (KafkaProducer.push_of_empty htopic)
    · rename_i topics' builder hpush
      split at h
      · cases h
        exact .crash hp (KafkaProducer.push_message hpush).2.1
      · cases h
        exact .produce hp hpush
  · cases h

/-- The lock section of `full`. It ends with the answer of the
channel, and the request is answered at once where that is true. -/
theorem fullSection_cases {k : H} {pick : Option (Tid H)} (h : fullSection s k pick = some s') :
    Step lib s (.fullSection k pick) s' := by
  unfold fullSection at h
  split at h
  · rename_i reqmsg resp hh
    obtain ⟨⟨q, o⟩, hq, heq⟩ := Option.map_eq_some_iff.mp h
    split at heq
    · rename_i ho
      cases ho
      cases heq
      exact .full hh hq
    · rename_i ho
      cases ho
      cases heq
      exact .free hh hq
    · rename_i q' o' hfull hfree ho
      cases ho
      cases heq
      refine .fullWait hh hq fun full => ?_
      cases full with
      | true => exact hfull
      | false => exact hfree
  · cases h

/-- A lock section of the `put` in `RpcCallback`. The handler answers
in the section in which the `put` returns. -/
theorem putSection_cases {k : H} {pick : Option (Tid H)} (h : putSection s k pick = some s') :
    Step lib s (.putSection k pick) s' := by
  unfold putSection at h
  split at h
  · rename_i reqmsg resp hh
    obtain ⟨⟨q, o⟩, hq, heq⟩ := Option.map_eq_some_iff.mp h
    cases o with
    | returned r =>
        cases heq
        exact .putDone hh hq
    | slept | aborted =>
        cases heq
        exact .putWait hh hq rfl
  · cases h

/-- Every step of the system is one of the steps. -/
theorem step_cases (h : (system lib topics H cap).step s e = some s') :
    s.crashed = false ∧ Step lib s e s' := by
  simp only [system] at h
  split at h
  · cases h
  · rename_i hcrashed
    -- One case per event: each sets its part of the code free and reads its
    -- guard.
    refine ⟨Bool.eq_false_iff.mpr hcrashed, ?_⟩
    cases e with
    | start =>
        simp only [start] at h
        split at h
        · rename_i hm
          cases h
          exact .start hm
        · cases h
    | setRunning =>
        simp only [setRunning] at h
        split at h
        · rename_i hm
          cases h
          exact .setRunning hm
        · cases h
    | serve =>
        simp only [serve] at h
        split at h
        · rename_i hm
          cases h
          exact .serve hm
        · cases h
    | close =>
        simp only [close] at h
        split at h
        · rename_i hm
          cases h
          exact .close hm
        · cases h
    | stop =>
        simp only [stop] at h
        split at h
        · rename_i hm
          cases h
          exact .stop hm
        · cases h
    | flush length =>
        simp only [flush] at h
        split at h
        · rename_i hm
          split at h
          · rename_i hl
            cases h
            exact .flushWait hm hl
          · rename_i hl
            cases h
            -- `flush` returns once the queue it looked at is empty, so the
            -- only length left is 0.
            obtain rfl : length = 0 := Nat.eq_zero_of_not_pos hl
            exact .flushed hm
        · cases h
    | join =>
        simp only [join] at h
        split at h
        · rename_i hm hp
          cases h
          exact .join hm hp
        · cases h
    | stopPut =>
        simp only [stopPut] at h
        split at h
        · rename_i hm
          obtain ⟨q, hq, rfl⟩ := Option.map_eq_some_iff.mp h
          exact .stopPut hm hq
        · cases h
    | request k fs headers body =>
        simp only [request] at h
        split at h
        · rename_i hm hh
          obtain ⟨q, hq, rfl⟩ := Option.map_eq_some_iff.mp h
          exact .request hm hh hq
        · cases h
    | put k =>
        simp only [put] at h
        split at h
        · rename_i reqmsg resp hh
          obtain ⟨q, hq, rfl⟩ := Option.map_eq_some_iff.mp h
          exact .put hh hq
        · cases h
    -- The critical sections branch on what the monitor answers; each has its
    -- own lemma.
    | stopSection pick => exact stopSection_cases h
    | test => exact test_cases h
    | takeSection pick => exact takeSection_cases h
    | push rd throws => exact pushTaken_cases h
    | fullSection k pick => exact fullSection_cases h
    | putSection k pick => exact putSection_cases h
    | spurious t =>
        obtain ⟨q, hq, rfl⟩ := Option.map_eq_some_iff.mp h
        exact .spurious hq

/-! ### The channel of the process -/

/-- A step of the process leaves its channel alone or is a step of the
channel. -/
theorem channel_step (h : Step lib s e s') :
    s'.taskchan = s.taskchan ∨
    ∃ qe, ((queue RequestMessage cap).system (Tid H)).step s.taskchan qe = some s'.taskchan := by
  cases h with
  | start | setRunning | serve | close | stop | join | flushWait | flushed | leave | skip | crash
  | produce =>
      exact .inl rfl
  | stopPut _ hq => exact .inr ⟨.call .main (.putMove {}), hq⟩
  | take _ _ hq => exact .inr ⟨.call .pushing .take, hq⟩
  | @request k _ _ _ _ _ _ hq => exact .inr ⟨.call (.handler k) .full, hq⟩
  | @put k _ reqmsg _ _ hq => exact .inr ⟨.call (.handler k) (.put reqmsg), hq⟩
  | @spurious t _ hq => exact .inr ⟨.spurious t, hq⟩
  | @stopWait _ pick _ _ hq => exact .inr ⟨.acquire .main pick, by simp [Monitor.system, hq]⟩
  | @stopPutDone _ pick _ _ hq => exact .inr ⟨.acquire .main pick, by simp [Monitor.system, hq]⟩
  | @takeWait _ pick _ _ hq => exact .inr ⟨.acquire .pushing pick, by simp [Monitor.system, hq]⟩
  | @takeDone _ pick _ _ hq => exact .inr ⟨.acquire .pushing pick, by simp [Monitor.system, hq]⟩
  | @fullWait k _ pick _ _ _ _ hq | @full k _ pick _ _ _ hq | @free k _ pick _ _ _ hq
  | @putWait k _ pick _ _ _ _ hq | @putDone k _ pick _ _ _ _ hq =>
      exact .inr ⟨.acquire (.handler k) pick, by simp [Monitor.system, hq]⟩

/-- The channel is a queue that the threads share: what holds of every
reachable queue holds of it. -/
theorem channelSimulation :
    System.Simulation (system lib topics H cap) ((queue RequestMessage cap).system (Tid H))
      State.taskchan where
  init := by
    rintro s ⟨isRunning, rfl⟩
    rfl
  step s e s' h := channel_step (step_cases h).2

/-! ### The program counters and the positions in the channel -/

/-- The channel call that the thread in `Pushing` is in. -/
def pushingCall : PushingPc → Option (BoundedBlockingQueue.Call RequestMessage)
  | .taking => some .take
  | .unborn | .loop | .taken _ | .left => none

/-- The channel call that a handler is in. -/
def handlerCall : HandlerPc → Option (BoundedBlockingQueue.Call RequestMessage)
  | .checking _ _ => some .full
  | .putting reqmsg _ => some (.put reqmsg)
  | .idle | .free _ _ => none

/-- The channel call that `main` is in. -/
def MainPc.call : MainPc → Option (BoundedBlockingQueue.Call RequestMessage)
  | .stopPutting => some (.putMove {})
  | .idle | .spawned | .started | .serving | .closed | .stopPut | .stopJoin | .flushing
  | .stopped => none

/-- `join()` has returned. -/
def MainPc.joined : MainPc → Bool
  | .flushing | .stopped => true
  | .idle | .spawned | .started | .serving | .closed | .stopPut | .stopPutting
  | .stopJoin => false

/-- Every thread is in the channel call that its program counter says.
No call is left out: a thread that is in none is outside. -/
structure Positions (s : State H cap) : Prop where
  pushing : (s.taskchan.pos .pushing).within = pushingCall s.pushing
  handler : ∀ h, (s.taskchan.pos (.handler h)).within = handlerCall (s.handler h)
  main : (s.taskchan.pos .main).within = s.main.call

/-- `Pushing` runs from `Start` on, and has ended when `join()` has
returned. `Stop` clears `IsRunning` for good. -/
structure Control (s : State H cap) : Prop where
  born : s.pushing = .unborn ↔ s.main = .idle
  left : s.main.joined = true → s.pushing = .left
  flag : s.main.beforeStop = false → s.isRunning = false

/-- The invariant. No handler has answered 0 before its `put`, and the
topics are the configured ones until a crash. -/
structure Inv (topics : Topics) (s : State H cap) : Prop extends Positions s, Control s where
  resp : ∀ h, ∀ status ∈ (s.handler h).resp, status.errcode ≠ 0
  topics : s.crashed = false → s.topics = topics

omit [DecidableEq H] [Fintype H] in
/-- No thread moves into a call of the channel or out of one. It may
still move within its call, or outside of the calls. -/
theorem Positions.congr (hpos : Positions s)
    (hin : ∀ t, (s'.taskchan.pos t).within = (s.taskchan.pos t).within)
    (hpushing : pushingCall s'.pushing = pushingCall s.pushing)
    (hhandler : s'.handler = s.handler) (hmain : s'.main.call = s.main.call) :
    Positions s' where
  pushing := by
    rw [hin, hpushing]
    exact hpos.pushing
  handler h := by
    rw [hin, hhandler]
    exact hpos.handler h
  main := by
    rw [hin, hmain]
    exact hpos.main

omit [Fintype H] in
/-- `Pushing` moves into a call or out of one. -/
theorem Positions.movePushing (hpos : Positions s)
    (hin : ∀ t, (s'.taskchan.pos t).within =
      if t = .pushing then pushingCall s'.pushing else (s.taskchan.pos t).within)
    (hhandler : s'.handler = s.handler) (hmain : s'.main = s.main) : Positions s' where
  pushing := hin .pushing
  handler h := by
    rw [hin (.handler h), if_neg nofun, hhandler]
    exact hpos.handler h
  main := by
    rw [hin .main, if_neg nofun, hmain]
    exact hpos.main

omit [Fintype H] in
/-- `main` moves into a call or out of one. -/
theorem Positions.moveMain (hpos : Positions s)
    (hin : ∀ t, (s'.taskchan.pos t).within =
      if t = .main then s'.main.call else (s.taskchan.pos t).within)
    (hpushing : s'.pushing = s.pushing) (hhandler : s'.handler = s.handler) :
    Positions s' where
  pushing := by
    rw [hin .pushing, if_neg nofun, hpushing]
    exact hpos.pushing
  handler h := by
    rw [hin (.handler h), if_neg nofun, hhandler]
    exact hpos.handler h
  main := hin .main

omit [Fintype H] in
/-- The handler `k` moves into a call or out of one. The positions of
the others are untouched. -/
theorem Positions.moveHandler (hpos : Positions s) {k : H} {pc : HandlerPc}
    (hin : ∀ t, (s'.taskchan.pos t).within =
      if t = .handler k then handlerCall pc else (s.taskchan.pos t).within)
    (hpushing : s'.pushing = s.pushing) (hmain : s'.main = s.main)
    (hhandler : s'.handler = Function.update s.handler k pc) : Positions s' where
  pushing := by
    rw [hin .pushing, if_neg nofun, hpushing]
    exact hpos.pushing
  handler h := by
    rw [hin (.handler h), hhandler, Function.update_apply]
    cases decEq h k with
    | isTrue heq => rw [if_pos heq, if_pos (congrArg Tid.handler heq)]
    | isFalse hne =>
        rw [if_neg hne, if_neg fun h => hne (Tid.handler.inj h)]
        exact hpos.handler h
  main := by
    rw [hin .main, if_neg nofun, hmain]
    exact hpos.main

/-- A step keeps the threads in their calls. One thread moves, or none
does, and the lemmas above are about the kind of thread that moves. -/
theorem positions_step (hpos : Positions s) (hcontrol : Control s) (h : Step lib s e s') :
    Positions s' := by
  cases h with
  | start hm =>
      -- The thread was not born before, so it is outside the channel.
      have hunborn := hcontrol.born.mpr hm
      exact hpos.congr (fun _ => rfl) (by rw [hunborn]; rfl) rfl (by rw [hm]; rfl)
  | setRunning hm | serve hm | close hm | stop hm | join hm | flushed hm =>
      exact hpos.congr (fun _ => rfl) rfl rfl (by rw [hm]; rfl)
  | leave hp | skip hp | produce hp =>
      exact hpos.congr (fun _ => rfl) (by rw [hp]; rfl) rfl rfl
  | flushWait | crash => exact hpos.congr (fun _ => rfl) rfl rfl rfl
  | stopPut hm hq => exact hpos.moveMain (Monitor.call_within hq) rfl rfl
  | stopPutDone hm hq => exact hpos.moveMain (Monitor.acquire_within_returned hq) rfl rfl
  | take hp hr hq => exact hpos.movePushing (Monitor.call_within hq) rfl rfl
  | takeDone hp hq => exact hpos.movePushing (Monitor.acquire_within_returned hq) rfl rfl
  | request _ hh hq | put hh hq => exact hpos.moveHandler (Monitor.call_within hq) rfl rfl rfl
  | full hh hq | free hh hq | putDone hh hq =>
      exact hpos.moveHandler (Monitor.acquire_within_returned hq) rfl rfl rfl
  | stopWait hm hq hret | putWait hh hq hret =>
      exact hpos.congr (Monitor.acquire_within_waits hq hret) rfl rfl rfl
  | takeWait hp hq hret =>
      -- Only a message ends the call of `take`.
      have htake : (s.taskchan.pos .pushing).within = some .take := by
        rw [hpos.pushing, hp]
        rfl
      have hnot := BoundedBlockingQueue.not_returned_of_take htake hq hret
      exact hpos.congr (Monitor.acquire_within_waits hq hnot) rfl rfl rfl
  | @fullWait k q pick reqmsg resp o hh hq hret =>
      have hfull : (s.taskchan.pos (.handler k)).within = some .full := by
        rw [hpos.handler, hh]
        rfl
      exact absurd (BoundedBlockingQueue.full_returned hfull hq).1 (hret _)
  | spurious hq => exact hpos.congr (Monitor.spurious_within hq) rfl rfl rfl

/-- A step keeps `main` and `Pushing` in order. `join()` returns only
after `Pushing` has left, and only `Stop` clears the flag. -/
theorem control_step (hcontrol : Control s) (h : Step lib s e s') : Control s' := by
  cases h with
  | start => exact ⟨iff_of_false nofun nofun, nofun, nofun⟩
  | setRunning hm | serve hm | close hm =>
      have hborn := hcontrol.born
      rw [hm] at hborn
      exact ⟨hborn.trans (iff_of_false nofun nofun), nofun, nofun⟩
  | stop hm =>
      have hborn := hcontrol.born
      rw [hm] at hborn
      exact ⟨hborn.trans (iff_of_false nofun nofun), nofun, fun _ => rfl⟩
  | stopPut hm | stopPutDone hm =>
      have hborn := hcontrol.born
      rw [hm] at hborn
      exact ⟨hborn.trans (iff_of_false nofun nofun), nofun,
        fun _ => hcontrol.flag (by rw [hm]; rfl)⟩
  | join hm hp =>
      have hflag := hcontrol.flag (by rw [hm]; rfl)
      exact ⟨iff_of_false (by rw [hp]; nofun) nofun, fun _ => hp, fun _ => hflag⟩
  | flushed hm =>
      have hborn := hcontrol.born
      rw [hm] at hborn
      exact ⟨hborn.trans (iff_of_false nofun nofun),
        fun _ => hcontrol.left (by rw [hm]; rfl), fun _ => hcontrol.flag (by rw [hm]; rfl)⟩
  | take hp | leave hp | takeDone hp | skip hp | produce hp =>
      -- `Pushing` is born and has not left, so it moves on within its life.
      have hborn := hcontrol.born
      have hleft := hcontrol.left
      rw [hp] at hborn hleft
      exact ⟨(iff_of_false nofun nofun).trans hborn, fun hj => (nomatch hleft hj), hcontrol.flag⟩
  | _ => exact ⟨hcontrol.born, hcontrol.left, hcontrol.flag⟩

omit [Fintype H] in
/-- A handler that moves to `pc` answers 0 only when it is done. -/
theorem resp_setHandler (hresp : ∀ h, ∀ status ∈ (s.handler h).resp, status.errcode ≠ 0)
    {k : H} {pc : HandlerPc} (hpc : ∀ status ∈ pc.resp, status.errcode ≠ 0) (h : H) :
    ∀ status ∈ ((s.setHandler k pc).handler h).resp, status.errcode ≠ 0 := by
  rw [State.setHandler_handler]
  split
  · exact hpc
  · exact hresp h

/-- A handler answers 0 only when it is done. What it has written
before comes from the parser, whose answers have errno -1. -/
theorem resp_step (hresp : ∀ h, ∀ status ∈ (s.handler h).resp, status.errcode ≠ 0)
    (h : Step lib s e s') : ∀ h, ∀ status ∈ (s'.handler h).resp, status.errcode ≠ 0 := by
  cases h with
  | request hm hh hq => exact resp_setHandler hresp fun _ => Acceptor.errcode_of_mem_receive
  | full | putDone => exact resp_setHandler hresp nofun
  | @free k _ _ _ _ hh | @put k _ _ _ hh =>
      refine resp_setHandler hresp ?_
      have hold := hresp k
      rw [hh] at hold
      exact hold
  | _ => exact hresp

/-- A step keeps the configured topics or crashes. -/
theorem topics_step (htopics : s.crashed = false → s.topics = topics) (h : Step lib s e s') :
    s'.crashed = false → s'.topics = topics := by
  cases h with
  | produce hp hpush =>
      intro hcrashed
      exact (KafkaProducer.push_message hpush).1.trans (htopics hcrashed)
  | crash => exact nofun
  | _ => exact htopics

/-- A step keeps the invariant. -/
theorem inv_step (hinv : Inv topics s) (h : Step lib s e s') : Inv topics s' where
  toPositions := positions_step hinv.toPositions hinv.toControl h
  toControl := control_step hinv.toControl h
  resp := resp_step hinv.resp h
  topics := topics_step hinv.topics h

omit [DecidableEq H] [Fintype H] in
/-- The invariant holds before `Start`. -/
theorem inv_initial (isRunning : Bool) :
    Inv topics (initial topics isRunning : State H cap) where
  pushing := rfl
  handler _ := rfl
  main := rfl
  born := iff_of_true rfl rfl
  left h := nomatch h
  flag h := nomatch h
  resp _ _ h := nomatch h
  topics _ := rfl

/-- The invariant holds in every reachable state. -/
theorem reachable_inv (h : (system lib topics H cap).Reachable s) : Inv topics s := by
  refine h.induct (I := Inv topics) ?_ fun s e s' _ hinv hstep =>
    inv_step hinv (step_cases hstep).2
  rintro s ⟨isRunning, rfl⟩
  exact inv_initial isRunning

omit [DecidableEq H] [Fintype H] in
theorem Inv.pushing_take (hinv : Inv topics s) (hp : s.pushing = .taking) :
    (s.taskchan.pos .pushing).within = some .take := by
  rw [hinv.pushing, hp]
  rfl

omit [DecidableEq H] [Fintype H] in
theorem Inv.main_put (hinv : Inv topics s) (hm : s.main = .stopPutting) :
    (s.taskchan.pos .main).within = some (.putMove {}) := by
  rw [hinv.main, hm]
  rfl

omit [DecidableEq H] [Fintype H] in
theorem Inv.handler_put (hinv : Inv topics s) {h : H} {reqmsg : RequestMessage}
    {resp : List CallResp} (hh : s.handler h = .putting reqmsg resp) :
    (s.taskchan.pos (.handler h)).within = some (.put reqmsg) := by
  rw [hinv.handler, hh]
  rfl

omit [DecidableEq H] [Fintype H] in
/-- What a handler has written before its `put` has no errno 0. -/
theorem Inv.errcode (hinv : Inv topics s) {h : H} {resp : List CallResp}
    (hh : (s.handler h).resp = resp) : ∀ status ∈ resp, status.errcode ≠ 0 := by
  rw [← hh]
  exact hinv.resp h

/-! ### The pipeline -/

/-- The messages that were answered with errno 0, in the order of the
answers. -/
def State.acked (s : State H cap) : List RequestMessage :=
  (s.answers.filter Answer.isSuccess).map Answer.reqmsg

/-- The message has a topic. -/
def hasTopic (reqmsg : RequestMessage) : Bool :=
  reqmsg.topic ≠ ""

theorem hasTopic_iff {reqmsg : RequestMessage} : hasTopic reqmsg = true ↔ reqmsg.topic ≠ "" := by
  simp [hasTopic]

theorem hasTopic_eq_false_iff {reqmsg : RequestMessage} :
    hasTopic reqmsg = false ↔ reqmsg.topic = "" := by
  simp [hasTopic]

/-- The process as a pipeline from the acknowledged requests to the
Kafka client. -/
def pipeline (s : State H cap) : Pipeline.State RequestMessage MessageBuilder where
  accepted := s.acked
  queue := s.taskchan.data.items
  held := s.pushing.held
  delivered := s.produced

/-- The step that drops a message, in the state before it: `Pushing`
has taken a message without a topic. -/
def Drops (s : State H cap) : Event H → Prop
  | .push _ _ => ∃ reqmsg, s.pushing = .taken reqmsg ∧ reqmsg.topic = ""
  | _ => False

omit [Fintype H] in
/-- An answer with errno 0 acknowledges its message. -/
theorem acked_answer_success (h : H) {reqmsg : RequestMessage} {resp : List CallResp}
    (hresp : ∀ status ∈ resp, status.errcode ≠ 0) :
    (s.answer h reqmsg resp success).acked = s.acked ++ [reqmsg] := by
  have hsuccess : Answer.isSuccess ⟨reqmsg, resp ++ [success]⟩ = true :=
    Acceptor.isSuccess_concat hresp
  simp only [State.acked, State.answer, List.filter_append, List.filter_singleton, hsuccess,
    List.map_append]
  rfl

omit [Fintype H] in
/-- An answer with errno -1 acknowledges nothing. -/
theorem acked_answer_overloaded (h : H) {reqmsg : RequestMessage} {resp : List CallResp}
    (hresp : ∀ status ∈ resp, status.errcode ≠ 0) :
    (s.answer h reqmsg resp overloaded).acked = s.acked := by
  have hsuccess : Answer.isSuccess ⟨reqmsg, resp ++ [overloaded]⟩ = false :=
    Acceptor.isSuccess_concat hresp
  simp only [State.acked, State.answer, List.filter_append, List.filter_singleton, hsuccess]
  simp

omit [DecidableEq H] [Fintype H] in
/-- The pipeline sees the acknowledged messages, the ring, the message
that `Pushing` holds and what was passed to `produce`. -/
theorem pipeline_congr (hacked : s'.acked = s.acked) (hring : s'.taskchan.data = s.taskchan.data)
    (hheld : s'.pushing.held = s.pushing.held) (hproduced : s'.produced = s.produced) :
    pipeline s' = pipeline s := by
  simp only [pipeline, hacked, hring, hheld, hproduced]

/-- A lock section of `take` that returns no message leaves the ring
alone. -/
theorem data_of_takeWait (hinv : Inv topics s) {q : Channel H cap} {pick : Option (Tid H)}
    {o : Monitor.Outcome (BoundedBlockingQueue.Ret RequestMessage)} (hp : s.pushing = .taking)
    (hq : acquire (queue RequestMessage cap) s.taskchan .pushing pick = some (q, o))
    (hret : ∀ x, o ≠ .returned (.item x)) : q.data = s.taskchan.data := by
  have hwait := BoundedBlockingQueue.not_returned_of_take (hinv.pushing_take hp) hq hret
  exact Monitor.acquire_data hq hwait

/-- A lock section of `full` leaves the ring alone. -/
theorem data_of_full (hinv : Inv topics s) {h : H} {q : Channel H cap} {pick : Option (Tid H)}
    {reqmsg : RequestMessage} {resp : List CallResp}
    {o : Monitor.Outcome (BoundedBlockingQueue.Ret RequestMessage)}
    (hh : s.handler h = .checking reqmsg resp)
    (hq : acquire (queue RequestMessage cap) s.taskchan (.handler h) pick = some (q, o)) :
    q.data = s.taskchan.data := by
  have hfull : (s.taskchan.pos (.handler h)).within = some .full := by
    rw [hinv.handler, hh]
    rfl
  exact (BoundedBlockingQueue.full_returned hfull hq).2

/-- The step is a move of the pipeline. Only `Drops` drops, and only
`Stop` injects. The exit notification is the one message that no
handler has put. -/
def IsMove (lib : Libraries) (topics : Topics) (s : State H cap) (e : Event H)
    (s' : State H cap) : Prop :=
  ∃ move, Pipeline.Step (KafkaProducer.BuiltFrom lib topics) hasTopic (pipeline s) move
      (pipeline s') ∧
    (move = .drop ↔ Drops s e) ∧ (move = .inject → s.main.beforeStop = false)

omit [DecidableEq H] [Fintype H] in
/-- A step that the pipeline does not see. -/
theorem isMove_of_eq (heq : pipeline s' = pipeline s) (hdrops : ¬ Drops s e) :
    IsMove lib topics s e s' := by
  unfold IsMove
  rw [heq]
  exact ⟨.idle, .idle, iff_of_false nofun hdrops, nofun⟩

/-- Every step is a move of the pipeline. Most steps are not seen by
it. A `put` of a handler is seen where the answer is written, since
the two happen in one lock section. -/
theorem pipeline_step (hinv : Inv topics s) (hcrashed : s.crashed = false)
    (h : Step lib s e s') : IsMove lib topics s e s' := by
  cases h with
  | start hm =>
      have hunborn := hinv.born.mpr hm
      -- `Pushing` holds no message before its start and none at the head of
      -- its loop.
      exact isMove_of_eq (pipeline_congr rfl rfl (by rw [hunborn]; rfl) rfl) id
  | setRunning | serve | close | stop | join | flushWait | flushed =>
      exact isMove_of_eq (pipeline_congr rfl rfl rfl rfl) id
  | stopPut hm hq =>
      obtain ⟨-, -, rfl⟩ := Monitor.call_cases hq
      exact isMove_of_eq (pipeline_congr rfl rfl rfl rfl) id
  | stopWait hm hq hret =>
      exact isMove_of_eq (pipeline_congr rfl (Monitor.acquire_data hq hret) rfl rfl) id
  | stopPutDone hm hq =>
      -- The exit notification has no topic.
      have hring := (BoundedBlockingQueue.put_returned (hinv.main_put hm) rfl hq).2
      refine ⟨.inject, ?_, iff_of_false nofun id, fun _ => by rw [hm]; rfl⟩
      simp only [pipeline, hring]
      exact .inject ({} : RequestMessage) rfl
  | take hp hr hq =>
      obtain ⟨-, -, rfl⟩ := Monitor.call_cases hq
      exact isMove_of_eq (pipeline_congr rfl rfl (by rw [hp]; rfl) rfl) id
  | leave hp hr => exact isMove_of_eq (pipeline_congr rfl rfl (by rw [hp]; rfl) rfl) id
  | takeWait hp hq hret =>
      exact isMove_of_eq (pipeline_congr rfl (data_of_takeWait hinv hp hq hret) rfl rfl) id
  | takeDone hp hq =>
      have hring := BoundedBlockingQueue.take_returned (hinv.pushing_take hp) hq
      have hheld : (pipeline s).held = none := by rw [pipeline, hp]; rfl
      exact ⟨.take, .take hheld hring, iff_of_false nofun id, nofun⟩
  | @skip rd throws reqmsg hp hpush =>
      have htopic := KafkaProducer.push_eq_skipped_iff.mp hpush
      have hheld : (pipeline s).held = some reqmsg := by rw [pipeline, hp]; rfl
      exact ⟨.drop, .drop hheld (hasTopic_eq_false_iff.mpr htopic),
        iff_of_true rfl ⟨reqmsg, hp, htopic⟩, nofun⟩
  | @crash rd throws reqmsg topics' hp htopic =>
      refine isMove_of_eq (pipeline_congr rfl rfl rfl rfl) fun ⟨reqmsg', hp', htopic'⟩ => ?_
      cases hp.symm.trans hp'
      exact htopic htopic'
  | @produce rd throws reqmsg topics' builder hp hpush =>
      obtain ⟨-, htopic, hbuilt⟩ := KafkaProducer.push_message hpush
      -- Up to a crash the topics are the configured ones.
      rw [hinv.topics hcrashed] at hbuilt
      have hheld : (pipeline s).held = some reqmsg := by rw [pipeline, hp]; rfl
      refine ⟨.deliver, .deliver hheld (hasTopic_iff.mpr htopic) hbuilt, iff_of_false nofun ?_,
        nofun⟩
      intro ⟨reqmsg', hp', htopic'⟩
      cases hp.symm.trans hp'
      exact htopic htopic'
  | request hm hh hq =>
      obtain ⟨-, -, rfl⟩ := Monitor.call_cases hq
      exact isMove_of_eq (pipeline_congr rfl rfl rfl rfl) id
  | fullWait hh hq hret =>
      exact isMove_of_eq (pipeline_congr rfl (data_of_full hinv hh hq) rfl rfl) id
  | @full k q pick reqmsg resp hh hq =>
      have hresp : ∀ status ∈ resp, status.errcode ≠ 0 := hinv.errcode (by rw [hh]; rfl)
      exact isMove_of_eq
        (pipeline_congr (acked_answer_overloaded k hresp) (data_of_full hinv hh hq) rfl rfl) id
  | free hh hq => exact isMove_of_eq (pipeline_congr rfl (data_of_full hinv hh hq) rfl rfl) id
  | put hh hq =>
      obtain ⟨-, -, rfl⟩ := Monitor.call_cases hq
      exact isMove_of_eq (pipeline_congr rfl rfl rfl rfl) id
  | putWait hh hq hret =>
      exact isMove_of_eq (pipeline_congr rfl (Monitor.acquire_data hq hret) rfl rfl) id
  | @putDone k q pick reqmsg resp r hh hq =>
      have hresp : ∀ status ∈ resp, status.errcode ≠ 0 := hinv.errcode (by rw [hh]; rfl)
      have hring := (BoundedBlockingQueue.put_returned (hinv.handler_put hh) rfl hq).2
      have hacked : (pipeline { s.answer k reqmsg resp success with taskchan := q }).accepted
          = s.acked ++ [reqmsg] := acked_answer_success k hresp
      -- The message is appended and acknowledged in one step.
      have hpipeline : pipeline { s.answer k reqmsg resp success with taskchan := q } =
          { pipeline s with
            accepted := s.acked ++ [reqmsg], queue := s.taskchan.data.items ++ [reqmsg] } := by
        rw [← hacked, ← hring]
        rfl
      unfold IsMove
      rw [hpipeline]
      exact ⟨.accept, .accept reqmsg, iff_of_false nofun id, nofun⟩
  | spurious hq =>
      obtain ⟨-, m, -, rfl⟩ := Monitor.spurious_cases hq
      exact isMove_of_eq (pipeline_congr rfl rfl rfl rfl) id

omit [DecidableEq H] [Fintype H] in
/-- Nothing is in the pipeline before `Start`. -/
theorem conservedOn_initial (isRunning : Bool) :
    Pipeline.ConservedOn (KafkaProducer.BuiltFrom lib topics) hasTopic
      (pipeline (initial topics isRunning : State H cap)) :=
  ⟨[], .nil, rfl⟩

/-- In every reachable state, the messages passed to `produce`,
followed by the one that `Pushing` holds and the channel, are the
acknowledged messages, where messages without a topic are left out.

It holds after a crash as well, and after `Stop`. The message that
`Stop` puts has no topic, so it is not counted. -/
theorem conservedOn_of_reachable (h : (system lib topics H cap).Reachable s) :
    Pipeline.ConservedOn (KafkaProducer.BuiltFrom lib topics) hasTopic (pipeline s) := by
  refine h.induct (I := fun s => Pipeline.ConservedOn (KafkaProducer.BuiltFrom lib topics)
    hasTopic (pipeline s)) ?_ fun s e s' hreach hlaw hstep => ?_
  · rintro s ⟨isRunning, rfl⟩
    exact conservedOn_initial isRunning
  · obtain ⟨hcrashed, hstep⟩ := step_cases hstep
    obtain ⟨move, hmove, -, -⟩ := pipeline_step (reachable_inv hreach) hcrashed hstep
    exact hlaw.step hmove

/-- `producer.Stop()` is called once. -/
theorem beforeStop_of_step (h : Step lib s e s') (hstop : s'.main.beforeStop = true) :
    s.main.beforeStop = true := by
  cases h with
  | start hm | setRunning hm | serve hm | close hm =>
      rw [hm]
      rfl
  | stop | stopPut | stopPutDone | join | flushed => cases hstop
  | _ => exact hstop

/-- Before `Stop`, every message that `Pushing` holds or the channel
has was acknowledged. -/
theorem known_of_reachable (h : (system lib topics H cap).Reachable s)
    (hstop : s.main.beforeStop = true) : Pipeline.Known (pipeline s) := by
  revert hstop
  refine h.induct (I := fun s => s.main.beforeStop = true → Pipeline.Known (pipeline s)) ?_
    fun s e s' hreach hknown hstep hstop => ?_
  · rintro s ⟨isRunning, rfl⟩ hstop x hx
    cases hx
  · obtain ⟨hcrashed, hstep⟩ := step_cases hstep
    have hbefore := beforeStop_of_step hstep hstop
    obtain ⟨move, hmove, -, hinject⟩ := pipeline_step (reachable_inv hreach) hcrashed hstep
    refine (hknown hbefore).step hmove fun heq => ?_
    -- Only `Stop` injects.
    rw [hinject heq] at hbefore
    cases hbefore

/-! ### The sleep of `Pushing` -/

omit [DecidableEq H] [Fintype H] in
/-- Only `Pushing` is in `take`. -/
theorem Inv.pushing_of_take (hinv : Inv topics s) {t : Tid H}
    (ht : (s.taskchan.pos t).within = some .take) : t = .pushing := by
  cases t with
  | pushing => rfl
  | handler h =>
      rw [hinv.handler] at ht
      cases hh : s.handler h <;> rw [hh] at ht <;> cases ht
  | main =>
      rw [hinv.main] at ht
      cases hm : s.main <;> rw [hm] at ht <;> cases ht

omit [DecidableEq H] [Fintype H] in
/-- With one taker no wake-up is lost: where it is notified, no other
taker sleeps. -/
theorem Inv.not_losesWakeup (hinv : Inv topics s)
    (qe : Monitor.Event (Tid H) (BoundedBlockingQueue.Call RequestMessage)) :
    ¬ BoundedBlockingQueue.LosesWakeup s.taskchan qe := by
  cases qe with
  | call t m => exact id
  | spurious t => exact id
  | acquire t pick =>
      rintro ⟨hnotified, -, ⟨u, hasleep⟩, -⟩
      rw [BoundedBlockingQueue.notifiedOn_notEmpty_iff] at hnotified
      rw [BoundedBlockingQueue.asleepOn_notEmpty_iff] at hasleep
      have ht := hinv.pushing_of_take (t := t) (by rw [hnotified]; rfl)
      have hu := hinv.pushing_of_take (t := u) (by rw [hasleep]; rfl)
      subst ht hu
      rw [hnotified] at hasleep
      cases hasleep

/-- The wake-ups of the channel. -/
theorem takerWoken_of_reachable (h : (system lib topics H cap).Reachable s) :
    BoundedBlockingQueue.TakerWoken s.taskchan := by
  refine h.induct (I := fun s => BoundedBlockingQueue.TakerWoken s.taskchan) ?_
    fun s e s' hreach hwoken hstep => ?_
  · rintro s ⟨isRunning, rfl⟩ _ hne
    exact absurd rfl hne
  · rcases channel_step (step_cases hstep).2 with heq | ⟨qe, hqe⟩
    · rw [heq]
      exact hwoken
    · exact (BoundedBlockingQueue.takerWoken_step hqe hwoken).mpr
        ((reachable_inv hreach).not_losesWakeup qe)

/-- `Pushing` sleeps beside an empty channel only. There is no other
taker, so it would be the one that is notified. -/
theorem empty_of_asleep (h : (system lib topics H cap).Reachable s)
    (hasleep : s.taskchan.pos .pushing = .asleep .take) : s.taskchan.data.items = [] := by
  by_contra hne
  have hsleeper := BoundedBlockingQueue.asleepOn_notEmpty_iff.mpr hasleep
  obtain ⟨u, hu⟩ := takerWoken_of_reachable h ⟨.pushing, hsleeper⟩ hne
  rw [BoundedBlockingQueue.notifiedOn_notEmpty_iff] at hu
  have hpushing := (reachable_inv h).pushing_of_take (t := u) (by rw [hu]; rfl)
  subst hpushing
  rw [hasleep] at hu
  cases hu

end Bigpipe.Main
