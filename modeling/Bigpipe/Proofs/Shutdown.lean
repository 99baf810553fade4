import Bigpipe.Proofs.Conservation

/-!
# `Bigpipe.Proofs.Shutdown`: acknowledged messages at `Stop`

`Stop` clears `IsRunning`, and `Pushing` looks at it before every
`take`. So `Pushing` takes at most one message after the call of
`Stop`, and only if it is in `take` already. What else is in the
channel is never taken.

Whether an acknowledged message is lost is settled at the call of
`Stop`, by what is in the channel and by where `Pushing` is. The
handlers have been joined by then (`acceptor.Stop()` comes first), so
nobody adds to the channel but `Stop`, whose exit notification has no
topic and is not delivered. `due` counts the deliveries that are made
or will be made in any case, and no step lowers it.

The other direction needs a run that loses a message. `Pushing` leaves
at the flag, or takes its one message and leaves then, and `Stop` puts
its notification and returns. Only a full channel that nobody takes
from keeps it from returning, and then nothing is claimed.

* `delivered_iff_drains`: every run from the call of `Stop` that
  returns from it delivers all acknowledged messages exactly when the
  channel has no more than that message, or `Stop` cannot return
  because nobody takes from the full channel.
* `backlog`: a run that leaves a message behind.
* `due_step`: no step loses a delivery that is made or due.
* `exists_leave` and `exists_stopped`: the runs to the return of
  `Stop`.
-/

set_option autoImplicit false

namespace Bigpipe.Main

open Bigpipe.Lib
open Bigpipe.Acceptor (Answer receive success topicAcl requestFile receive_topicFile)
open Bigpipe.KafkaProducer (PushingPc Configured)

variable {lib : Libraries} {topics : Topics} {H : Type} {cap : Nat} [DecidableEq H] [Fintype H]
  {s s' s₀ : State H cap} {e : Event H}

/-- The messages that were acknowledged in `s₀` have been passed to
`produce` in `s`, in order and each once: they are the messages of the
first calls, and the later calls are for messages that were
acknowledged later. -/
def Delivered (lib : Libraries) (topics : Topics) (s₀ s : State H cap) : Prop :=
  ∃ sent, List.Forall₂ (KafkaProducer.BuiltFrom lib topics) sent s.produced ∧
    s₀.acked <+: sent ∧ sent.Sublist s.acked

/-- The channel has at most the message that `Pushing` takes before it
looks at `IsRunning`, or `Pushing` takes none and the channel has no
room for the exit notification. -/
def Drains (s : State H cap) : Prop :=
  s.taskchan.data.items = [] ∨
  (s.pushing = .taking ∧ s.taskchan.data.items.length ≤ 1) ∨
  (s.pushing ≠ .taking ∧ s.taskchan.data.isFull = true)

/-! ### Deliveries that are due -/

/-- With `IsRunning` cleared, the messages that `Pushing` passes on
before it leaves. -/
def next (s : State H cap) : List RequestMessage :=
  match s.pushing with
  | .taken reqmsg => [reqmsg]
  | .taking => s.taskchan.data.items.take 1
  | .unborn | .loop | .left => []

/-- The deliveries that are made or due. A message without a topic is
taken and dropped, so it does not count. -/
def due (s : State H cap) : Nat :=
  s.produced.length + (next s).countP hasTopic

omit [DecidableEq H] [Fintype H] in
/-- Deliveries stay due while the channel grows. -/
theorem due_mono (hpushing : s'.pushing = s.pushing) (hproduced : s'.produced = s.produced)
    (hring : s.taskchan.data.items <+: s'.taskchan.data.items) : due s ≤ due s' := by
  have hnext : (next s).countP hasTopic ≤ (next s').countP hasTopic := by
    unfold next
    rw [hpushing]
    split
    · exact Nat.le_refl _
    · exact (hring.take 1).sublist.countP_le
    · exact Nat.le_refl _
    · exact Nat.le_refl _
    · exact Nat.le_refl _
  rw [due, due, hproduced]
  omega

/-- The event is a step of `Pushing`, or its start. -/
def Event.ofPushing : Event H → Bool
  | .start | .test | .takeSection _ | .push _ _ => true
  | _ => false

/-- `Pushing` and its deliveries are left alone. The channel only
grows, and not when it is full. It is all that the proofs need to know
about the other threads. -/
structure Frame (s s' : State H cap) : Prop where
  pushing : s'.pushing = s.pushing
  produced : s'.produced = s.produced
  grows : s.taskchan.data.items <+: s'.taskchan.data.items
  full : s.taskchan.data.isFull = true → s'.taskchan.data = s.taskchan.data

omit [DecidableEq H] [Fintype H] in
/-- A step that leaves the channel alone too. -/
theorem frame_of_eq (hpushing : s'.pushing = s.pushing) (hproduced : s'.produced = s.produced)
    (hring : s'.taskchan.data = s.taskchan.data) : Frame s s' := by
  refine ⟨hpushing, hproduced, ?_, fun _ => hring⟩
  rw [hring]

omit [DecidableEq H] [Fintype H] in
/-- A step that adds an item to a channel that is not full. -/
theorem frame_of_append {reqmsg : RequestMessage} (hpushing : s'.pushing = s.pushing)
    (hproduced : s'.produced = s.produced) (hfree : s.taskchan.data.isFull = false)
    (hring : s'.taskchan.data.items = s.taskchan.data.items ++ [reqmsg]) : Frame s s' := by
  refine ⟨hpushing, hproduced, ?_, fun hfull => ?_⟩
  · rw [hring]
    exact List.prefix_append _ _
  · rw [hfree] at hfull
    cases hfull

/-- The steps of the other threads. They may append a message to the
channel, and leave `Pushing` and what it has produced alone. -/
theorem frame_step (hinv : Inv topics s) (h : Step lib s e s') (he : e.ofPushing = false) :
    Frame s s' := by
  cases h with
  | start | take | leave | takeWait | takeDone | skip | crash | produce => cases he
  | setRunning | serve | close | stop | join | flushWait | flushed => exact frame_of_eq rfl rfl rfl
  | stopPut _ hq | request _ _ hq | put _ hq =>
      obtain ⟨-, -, rfl⟩ := Monitor.call_cases hq
      exact frame_of_eq rfl rfl rfl
  | spurious hq =>
      obtain ⟨-, m, -, rfl⟩ := Monitor.spurious_cases hq
      exact frame_of_eq rfl rfl rfl
  | stopWait _ hq hret | putWait _ hq hret =>
      exact frame_of_eq rfl rfl (Monitor.acquire_data hq hret)
  | fullWait hh hq | full hh hq | free hh hq => exact frame_of_eq rfl rfl (data_of_full hinv hh hq)
  -- The two calls of `put` that return are the ones that write the channel.
  | stopPutDone hm hq =>
      obtain ⟨hfree, hring⟩ := BoundedBlockingQueue.put_returned (hinv.main_put hm) rfl hq
      exact frame_of_append rfl rfl hfree hring
  | putDone hh hq =>
      obtain ⟨hfree, hring⟩ := BoundedBlockingQueue.put_returned (hinv.handler_put hh) rfl hq
      exact frame_of_append rfl rfl hfree hring

/-- No step of a stopping process loses a delivery that is made or
due. With the flag cleared, the steps of `Pushing` lead from `take` to
the delivery and out of the loop. -/
theorem due_step (hinv : Inv topics s) (hflag : s.isRunning = false)
    (h : Step lib s e s') : due s ≤ due s' := by
  cases he : e.ofPushing with
  | false =>
      obtain ⟨hpushing, hproduced, hring, -⟩ := frame_step hinv h he
      exact due_mono hpushing hproduced hring
  | true =>
      cases h with
      | start hm =>
          have hunborn := hinv.born.mpr hm
          simp [due, next, hunborn]
      | take hp hr hq =>
          rw [hflag] at hr
          cases hr
      | leave hp hr => simp [due, next, hp]
      | takeWait hp hq hret =>
          refine due_mono rfl rfl ?_
          rw [data_of_takeWait hinv hp hq hret]
      | takeDone hp hq =>
          have hring := BoundedBlockingQueue.take_returned (hinv.pushing_take hp) hq
          -- The message moves from the front of the channel to `Pushing`, and
          -- stays due.
          simp [due, next, hp, hring]
      | skip hp hpush =>
          have htopic := hasTopic_eq_false_iff.mpr (KafkaProducer.push_eq_skipped_iff.mp hpush)
          -- A message without a topic was never due.
          simp [due, next, hp, htopic]
      | crash => exact due_mono rfl rfl (List.prefix_refl _)
      | @produce rd throws reqmsg topics' builder hp hpush =>
          have hcount : [reqmsg].countP hasTopic ≤ 1 := List.countP_le_length
          -- One message less is due and one more is made.
          simp only [due, next, hp, List.length_append, List.length_singleton]
          omega
      | _ => cases he

/-! ### The full channel -/

/-- `Stop` waits for room in the channel, and nobody will take from
it. -/
structure Blocked (s : State H cap) : Prop where
  pushing : s.pushing ≠ .taking
  full : s.taskchan.data.isFull = true
  main : s.main = .stopPut ∨ s.main = .stopPutting

/-- A blocked `Stop` stays blocked. `Pushing` is not in `take` and
does not enter it, so the channel stays full. -/
theorem blocked_step (hinv : Inv topics s) (hblocked : Blocked s) (h : Step lib s e s') :
    Blocked s' := by
  obtain ⟨hpushing, hfull, hmain⟩ := hblocked
  have hflag : s.isRunning = false := by
    apply hinv.flag
    rcases hmain with hm | hm <;> rw [hm] <;> rfl
  cases he : e.ofPushing with
  | false =>
      -- The other threads leave Pushing and a full channel as they are.
      obtain ⟨hpushing', -, -, hring⟩ := frame_step hinv h he
      refine ⟨by rwa [hpushing'], by rwa [hring hfull], ?_⟩
      cases h with
      | start => cases he
      | setRunning hm | serve hm | close hm | stop hm | join hm | flushed hm =>
          rw [hm] at hmain
          rcases hmain with hm | hm <;> cases hm
      | stopPut => exact .inr rfl
      | stopPutDone hm hq =>
          -- Main's `put` would need room.
          have hfree := (BoundedBlockingQueue.put_returned (hinv.main_put hm) rfl hq).1
          rw [hfree] at hfull
          cases hfull
      | _ => exact hmain
  | true =>
      cases h with
      | start hm =>
          rw [hm] at hmain
          rcases hmain with hm | hm <;> cases hm
      -- Pushing reads a flag that is clear, so it never comes to another
      -- `take`.
      | take hp hr hq =>
          rw [hflag] at hr
          cases hr
      | leave | skip | produce => exact ⟨nofun, hfull, hmain⟩
      | crash => exact ⟨hpushing, hfull, hmain⟩
      | takeWait hp | takeDone hp => exact absurd hp hpushing
      | _ => cases he

/-! ### The call of `Stop` -/

/-- `Stop` is called after `acceptor.Stop()`, and clears the flag. -/
theorem stop_cases (h : (system lib topics H cap).step s .stop = some s₀) :
    s.crashed = false ∧ s.main = .closed ∧
      s₀ = { s with main := .stopPut, isRunning := false } := by
  obtain ⟨hcrashed, hstep⟩ := step_cases h
  cases hstep with
  | stop hm => exact ⟨hcrashed, hm, rfl⟩

/-- The messages that `Pushing` holds or the channel has at the call
of `Stop` were acknowledged. -/
theorem known_at_stop (hreach : (system lib topics H cap).Reachable s)
    (hstop : (system lib topics H cap).step s .stop = some s₀) : Pipeline.Known (pipeline s₀) := by
  obtain ⟨-, hm, rfl⟩ := stop_cases hstop
  have hknown : Pipeline.Known (pipeline s) := known_of_reachable hreach (by rw [hm]; rfl)
  exact hknown

/-- At the call of `Stop` every acknowledged message with a configured
topic is passed to `produce`, held or in the channel. It is the law of
conservation, in a state in which no handler holds a message. -/
theorem length_at_stop (hreach : (system lib topics H cap).Reachable s)
    (hstop : (system lib topics H cap).step s .stop = some s₀)
    (hconf : ∀ m ∈ s₀.acked, Configured topics m) :
    s₀.produced.length + s₀.pushing.held.toList.length + s₀.taskchan.data.items.length =
      s₀.acked.length := by
  have hlaw := conservedOn_of_reachable (hreach.step hstop)
  have hconserved := hlaw.conserved (known_at_stop hreach hstop) fun m hm =>
    hasTopic_iff.mpr (hconf m hm).1
  exact hconserved.length

omit [DecidableEq H] [Fintype H] in
/-- Where the channel drains, everything in it is due. -/
theorem next_eq (h : s.taskchan.data.items = [] ∨
      s.pushing = .taking ∧ s.taskchan.data.items.length ≤ 1) :
    next s = s.pushing.held.toList ++ s.taskchan.data.items := by
  unfold next
  rcases h with hempty | ⟨htaking, hone⟩
  · rw [hempty]
    cases s.pushing <;> rfl
  · rw [htaking]
    exact List.take_of_length_le hone

/-- Where the channel drains, the deliveries made or due are all
acknowledged messages. -/
theorem length_le_due (hreach : (system lib topics H cap).Reachable s)
    (hstop : (system lib topics H cap).step s .stop = some s₀)
    (hconf : ∀ m ∈ s₀.acked, Configured topics m)
    (h : s₀.taskchan.data.items = [] ∨
      s₀.pushing = .taking ∧ s₀.taskchan.data.items.length ≤ 1) :
    s₀.acked.length ≤ due s₀ := by
  have hcount : (next s₀).countP hasTopic = (next s₀).length := by
    rw [List.countP_eq_length, next_eq h]
    intro m hm
    exact hasTopic_iff.mpr (hconf m (known_at_stop hreach hstop m hm)).1
  have hlength := length_at_stop hreach hstop hconf
  rw [due, hcount, next_eq h, List.length_append]
  omega

/-! ### The runs that return from `Stop` -/

/-- A run from a state where all acknowledged messages are delivered
or due delivers them by the return of `Stop`. By then `Pushing` has
left, so nothing is due any more that is not made. -/
theorem delivered_of_due (hreach : (system lib topics H cap).Reachable s₀)
    (hstop : s₀.main.beforeStop = false) (hconf : ∀ m ∈ s₀.acked, Configured topics m)
    (hdue : s₀.acked.length ≤ due s₀) {es : List (Event H)}
    (hrun : (system lib topics H cap).run s₀ es = some s) (hstopped : s.main = .stopped) :
    Delivered lib topics s₀ s := by
  have hrest : (system lib topics H cap).Reachable s ∧ s.main.beforeStop = false ∧
      s₀.acked <+: s.acked ∧ s₀.acked.length ≤ due s := by
    refine System.run_induct (I := fun s => (system lib topics H cap).Reachable s ∧
      s.main.beforeStop = false ∧ s₀.acked <+: s.acked ∧ s₀.acked.length ≤ due s) ?_
      ⟨hreach, hstop, List.prefix_refl _, hdue⟩ hrun
    intro s e s' _ ⟨hreach, hstop, hprefix, hdue⟩ hs
    obtain ⟨hcrashed, hstep⟩ := step_cases hs
    have hinv := reachable_inv hreach
    obtain ⟨move, hmove, -, -⟩ := pipeline_step hinv hcrashed hstep
    refine ⟨hreach.step hs, ?_, hprefix.trans hmove.accepted_prefix,
      hdue.trans (due_step hinv (hinv.flag hstop) hstep)⟩
    by_contra hne
    -- `Stop` has been called already.
    rw [beforeStop_of_step hstep (by simpa using hne)] at hstop
    cases hstop
  obtain ⟨hreach', -, hprefix, hdue'⟩ := hrest
  have hleft : s.pushing = .left := (reachable_inv hreach').left (by rw [hstopped]; rfl)
  refine (conservedOn_of_reachable hreach').delivered hprefix
    (fun m hm => hasTopic_iff.mpr (hconf m hm).1) ?_
  have hmade : due s = s.produced.length := by simp [due, next, hleft]
  rw [hmade] at hdue'
  exact hdue'

/-- `Stop` does not return from a blocked state. -/
theorem not_stopped_of_blocked (hreach : (system lib topics H cap).Reachable s₀)
    (hblocked : Blocked s₀) {es : List (Event H)}
    (hrun : (system lib topics H cap).run s₀ es = some s) : s.main ≠ .stopped := by
  have hrest : (system lib topics H cap).Reachable s ∧ Blocked s := by
    refine System.run_induct (I := fun s => (system lib topics H cap).Reachable s ∧ Blocked s) ?_
      ⟨hreach, hblocked⟩ hrun
    intro s e s' _ ⟨hreach, hblocked⟩ hs
    exact ⟨hreach.step hs, blocked_step (reachable_inv hreach) hblocked (step_cases hs).2⟩
  intro hstopped
  have hmain := hrest.2.main
  rw [hstopped] at hmain
  rcases hmain with hm | hm <;> cases hm

/-! ### Runs to the return of `Stop` -/

/-- `Pushing` leaves its loop at the cleared flag. -/
theorem test_of_loop (lib : Libraries) (topics : Topics) (hcrashed : s.crashed = false)
    (hflag : s.isRunning = false) (hp : s.pushing = .loop) :
    (system lib topics H cap).step s .test = some { s with pushing := .left } := by
  simp only [system, hcrashed, test, hp, hflag]
  rfl

/-- `Pushing` passes on a message with a configured topic. -/
theorem push_of_taken (lib : Libraries) {reqmsg : RequestMessage}
    (hcrashed : s.crashed = false) (htopics : s.topics = topics) (hp : s.pushing = .taken reqmsg)
    (hconf : Configured topics reqmsg) :
    ∃ builder, (system lib topics H cap).step s (.push 0 false) =
      some { s with topics, pushing := .loop, produced := s.produced ++ [builder] } := by
  obtain ⟨builder, hbuilder⟩ := hconf.push lib 0
  refine ⟨builder, ?_⟩
  simp only [system, hcrashed, pushTaken, hp, htopics, hbuilder]
  rfl

/-- `Pushing` takes the first message of the channel. It is not asleep
there, as a thread sleeps in `take` beside an empty channel only. -/
theorem takeSection_of_taking (hreach : (system lib topics H cap).Reachable s)
    (hcrashed : s.crashed = false) (hp : s.pushing = .taking)
    (hring : s.taskchan.data.items ≠ []) :
    ∃ pick reqmsg q, s.taskchan.data.items = reqmsg :: q.data.items ∧
      (system lib topics H cap).step s (.takeSection pick) =
        some { s with taskchan := q, pushing := .taken reqmsg } := by
  have htake := (reachable_inv hreach).pushing_take hp
  have hab := BoundedBlockingQueue.not_aborted (channelSimulation.reachable hreach)
  have hrun : (s.taskchan.pos .pushing).runnable = some .take := by
    rcases Monitor.Pos.asleep_or_runnable htake with hasleep | hrun
    · exact absurd (empty_of_asleep hreach hasleep) hring
    · exact hrun
  obtain ⟨pick, q, reqmsg, hq⟩ := BoundedBlockingQueue.exists_take hab hrun hring
  refine ⟨pick, reqmsg, q, BoundedBlockingQueue.take_returned htake hq, ?_⟩
  simp only [system, hcrashed, takeSection, hp, hq]
  rfl

/-- `Pushing` in front of the cleared flag passes on the message that
it holds, if any, and leaves. The other messages stay in the
channel. -/
theorem exists_leave_of_not_taking (hreach : (system lib topics H cap).Reachable s)
    (hcrashed : s.crashed = false) (hflag : s.isRunning = false) (hborn : s.main ≠ .idle)
    (hp : s.pushing ≠ .taking) (hconf : ∀ m ∈ s.pushing.held.toList, Configured topics m) :
    ∃ es s', (system lib topics H cap).run s es = some s' ∧ s'.pushing = .left ∧
      s'.main = s.main ∧ s'.crashed = false ∧ s'.taskchan = s.taskchan ∧
      s'.produced.length = s.produced.length + s.pushing.held.toList.length := by
  have hinv := reachable_inv hreach
  cases hpc : s.pushing with
  | unborn => exact absurd (hinv.born.mp hpc) hborn
  | loop =>
      have htest := test_of_loop lib topics hcrashed hflag hpc
      exact ⟨_, _, System.run_singleton htest, rfl, rfl, hcrashed, rfl, rfl⟩
  | taking => exact absurd hpc hp
  | taken reqmsg =>
      rw [hpc] at hconf
      obtain ⟨builder, hpush⟩ := push_of_taken lib hcrashed (hinv.topics hcrashed) hpc
        (hconf reqmsg List.mem_cons_self)
      have htest := test_of_loop lib topics
        (s := { s with topics, pushing := .loop, produced := s.produced ++ [builder] })
        hcrashed hflag rfl
      refine ⟨_, _, (System.run_cons hpush).trans (System.run_singleton htest), rfl, rfl, hcrashed,
        rfl, ?_⟩
      exact List.length_append
  | left => exact ⟨[], s, rfl, hpc, rfl, hcrashed, rfl, rfl⟩

/-- `Pushing` in `take` takes one message, passes it on and leaves.
The flag is clear, and it is tested only in front of the next
`take`. -/
theorem exists_leave_of_taking (hreach : (system lib topics H cap).Reachable s)
    (hcrashed : s.crashed = false) (hflag : s.isRunning = false) (hborn : s.main ≠ .idle)
    (hp : s.pushing = .taking) (hring : s.taskchan.data.items ≠ [])
    (hconf : ∀ m ∈ s.taskchan.data.items, Configured topics m) :
    ∃ es s', (system lib topics H cap).run s es = some s' ∧ s'.pushing = .left ∧
      s'.main = s.main ∧ s'.crashed = false ∧
      s.taskchan.data.items.length = s'.taskchan.data.items.length + 1 ∧
      s'.produced.length = s.produced.length + 1 := by
  obtain ⟨pick, reqmsg, q, hitems, hstep⟩ := takeSection_of_taking hreach hcrashed hp hring
  obtain ⟨es, s', hrun, hleft, hmain, hcrashed', hchan, hproduced⟩ :=
    exists_leave_of_not_taking (hreach.step hstep) hcrashed hflag hborn nofun fun m hm => by
      rw [List.mem_singleton.mp hm]
      exact hconf reqmsg (by rw [hitems]; exact List.mem_cons_self)
  refine ⟨_, s', (System.run_cons hstep).trans hrun, hleft, hmain, hcrashed', ?_, hproduced⟩
  rw [hchan, hitems]
  rfl

/-- Once `Pushing` has left, `Stop` returns if the channel has room
for the exit notification. -/
theorem exists_stopped (hreach : (system lib topics H cap).Reachable s)
    (hcrashed : s.crashed = false) (hleft : s.pushing = .left) (hm : s.main = .stopPut)
    (hroom : s.taskchan.data.isFull = false) :
    ∃ es s', (system lib topics H cap).run s es = some s' ∧ s'.main = .stopped ∧
      s'.produced = s.produced := by
  have hab := BoundedBlockingQueue.not_aborted (channelSimulation.reachable hreach)
  have hout : (s.taskchan.pos .main).within = none := by
    rw [(reachable_inv hreach).main, hm]
    rfl
  -- The call of `put`.
  obtain ⟨q₁, hcall⟩ := Monitor.exists_call hab hout (.putMove {})
  obtain ⟨hrun, hdata, hab₁⟩ := Monitor.call_runnable hcall
  have hput : (system lib topics H cap).step s .stopPut =
      some { s with taskchan := q₁, main := .stopPutting } := by
    simp only [system, hcrashed, stopPut, hm, hcall]
    rfl
  -- Its lock section finds room.
  rw [← hdata] at hroom
  obtain ⟨pick, q₂, hq⟩ := BoundedBlockingQueue.exists_put hab₁ hrun rfl hroom
  have hsection : (system lib topics H cap).step
      { s with taskchan := q₁, main := .stopPutting } (.stopSection pick) =
        some { s with taskchan := q₂, main := .stopJoin } := by
    simp only [system, hcrashed, stopSection, hq]
    rfl
  -- `Pushing` has left, so `join` returns at once.
  have hjoin : (system lib topics H cap).step { s with taskchan := q₂, main := .stopJoin } .join =
      some { s with taskchan := q₂, main := .flushing } := by
    simp only [system, hcrashed, join, hleft]
    rfl
  have hflushed : (system lib topics H cap).step { s with taskchan := q₂, main := .flushing }
      (.flush 0) = some { s with taskchan := q₂, main := .stopped } := by
    simp only [system, hcrashed, flush]
    rfl
  refine ⟨[.stopPut, .stopSection pick, .join, .flush 0],
    { s with taskchan := q₂, main := .stopped }, ?_, rfl, rfl⟩
  rw [System.run_cons hput, System.run_cons hsection, System.run_cons hjoin]
  exact System.run_singleton hflushed

/-- Where the channel does not drain, `Pushing` leaves with an
acknowledged message behind it and with room in the channel. The two
cases are those of `Pushing`: it may be in `take` or not. -/
theorem exists_leave (hreach : (system lib topics H cap).Reachable s)
    (hstop : (system lib topics H cap).step s .stop = some s₀)
    (hconf : ∀ m ∈ s₀.acked, Configured topics m) (hdrains : ¬ Drains s₀) :
    ∃ es s', (system lib topics H cap).run s₀ es = some s' ∧ s'.pushing = .left ∧
      s'.main = .stopPut ∧ s'.crashed = false ∧ s'.taskchan.data.isFull = false ∧
      s'.produced.length < s₀.acked.length := by
  have hlength := length_at_stop hreach hstop hconf
  have hknown : ∀ m ∈ s₀.pushing.held.toList ++ s₀.taskchan.data.items, Configured topics m :=
    fun m hm => hconf m (known_at_stop hreach hstop m hm)
  have hreach₀ := hreach.step hstop
  obtain ⟨hne, hmore⟩ := not_or.mp hdrains
  obtain ⟨htwo, hroom⟩ := not_or.mp hmore
  have hpos := List.length_pos_iff.mpr hne
  have hcap := s₀.taskchan.data.size_le
  obtain ⟨hcrashed, -, hs₀⟩ := stop_cases hstop
  have hm₀ : s₀.main = .stopPut := by rw [hs₀]
  have hflag₀ : s₀.isRunning = false := by rw [hs₀]
  have hcrashed₀ : s₀.crashed = false := by rw [hs₀, hcrashed]
  have hborn₀ : s₀.main ≠ .idle := by simp [hm₀]
  by_cases htaking : s₀.pushing = .taking
  · -- the message that `Pushing` takes is not the only one
    obtain ⟨es, s', hrun, hleft, hmain, hcrashed', hring, hproduced⟩ :=
      exists_leave_of_taking hreach₀ hcrashed₀ hflag₀ hborn₀ htaking hne fun m hm =>
        hknown m (List.mem_append_right _ hm)
    have htwo' := mt (And.intro htaking) htwo
    have hheld : s₀.pushing.held.toList.length = 0 := by
      rw [htaking]
      rfl
    refine ⟨es, s', hrun, hleft, hmain.trans hm₀, hcrashed', ?_, ?_⟩
    · rw [CircularBuffer.isFull_eq_false_iff]
      omega
    · omega
  · obtain ⟨es, s', hrun, hleft, hmain, hcrashed', hchan, hproduced⟩ :=
      exists_leave_of_not_taking hreach₀ hcrashed₀ hflag₀ hborn₀ htaking fun m hm =>
        hknown m (List.mem_append_left _ hm)
    refine ⟨es, s', hrun, hleft, hmain.trans hm₀, hcrashed', ?_, ?_⟩
    · rw [hchan]
      exact Bool.eq_false_iff.mpr (mt (And.intro htaking) hroom)
    · omega

/-- Every run that returns from `Stop` delivers the messages that were
acknowledged at its call, all with configured topics, exactly when the
channel drains at the call.

The statement quantifies over every continuation of the run, so the
condition is on the state at the call and on nothing later. -/
theorem delivered_iff_drains (hreach : (system lib topics H cap).Reachable s)
    (hstop : (system lib topics H cap).step s .stop = some s₀)
    (hconf : ∀ m ∈ s₀.acked, Configured topics m) :
    (∀ es s', (system lib topics H cap).run s₀ es = some s' → s'.main = .stopped →
      Delivered lib topics s₀ s') ↔ Drains s₀ := by
  have hreach₀ := hreach.step hstop
  constructor
  · intro hall
    by_contra hdrains
    -- `Pushing` leaves first, with a message behind it, and then `Stop`
    -- returns.
    obtain ⟨es₁, s₁, hrun₁, hleft, hmain, hcrashed, hroom, hless⟩ :=
      exists_leave hreach hstop hconf hdrains
    obtain ⟨es₂, s₂, hrun₂, hstopped, hproduced⟩ :=
      exists_stopped (hreach₀.run hrun₁) hcrashed hleft hmain hroom
    have hdelivered : Pipeline.Delivered (KafkaProducer.BuiltFrom lib topics) s₀.acked
        (pipeline s₂) :=
      hall _ s₂ ((System.run_append hrun₁).trans hrun₂) hstopped
    have hle : s₀.acked.length ≤ s₂.produced.length := hdelivered.length_le
    rw [hproduced] at hle
    omega
  · intro hdrains es s' hrun hstopped
    -- In the first two cases all messages are due, and in the third `Stop`
    -- never returns.
    obtain ⟨-, -, hs₀⟩ := stop_cases hstop
    have hmain : s₀.main = .stopPut := by rw [hs₀]
    rcases hdrains with hempty | hone | ⟨htaking, hfull⟩
    · exact delivered_of_due hreach₀ (by rw [hmain]; rfl) hconf
        (length_le_due hreach hstop hconf (.inl hempty)) hrun hstopped
    · exact delivered_of_due hreach₀ (by rw [hmain]; rfl) hconf
        (length_le_due hreach hstop hconf (.inr hone)) hrun hstopped
    · exact absurd hstopped
        (not_stopped_of_blocked hreach₀ ⟨htaking, hfull, .inl hmain⟩ hrun)

/-- `Pushing` sees the cleared flag before the message in the channel,
and `Stop` returns. -/
def leaveBehind : List (Event Unit) :=
  [.test, .stopPut, .stopSection none, .join, .flush 0]

/-- One request is answered, `Stop` is called before `Pushing` takes
its message, and `Stop` returns. -/
theorem oneRequest_left (lib : Libraries) (topics : Topics) (fs : FileSystem)
    (headers : UnorderedMap String) (body : String) :
    ∃ s s₀ s', (system lib topics Unit 20).run (initial topics false)
        (oneRequest fs headers body ++ [.close]) = some s ∧
      (system lib topics Unit 20).step s .stop = some s₀ ∧
      (system lib topics Unit 20).run s₀ leaveBehind = some s' ∧ s'.main = .stopped ∧
      s'.produced = [] ∧
      s₀.answers = [⟨(receive lib.folly fs headers body).1,
        (receive lib.folly fs headers body).2 ++ [success]⟩] :=
  ⟨_, _, _, rfl, rfl, rfl, rfl, rfl, rfl⟩

/-- The message of the request with a topic. It is a message of which
`Push` produces a record. -/
def payment : RequestMessage where
  headers := ∅
  topic := "test"
  url := "/pay"
  data := "x"

theorem configured_payment : Configured oneTopic payment := by
  refine ⟨by decide, { partitions := 1 }, ?_, by decide⟩
  exact AList.lookup_insert ∅

/-- One request with a topic, which is acknowledged before `Stop` is
called. -/
theorem oneRequest_acked :
    ∃ s s₀ s', (system compactLibraries oneTopic Unit 20).run (initial oneTopic false)
        (oneRequest (requestFile topicAcl) ∅ "request.json" ++ [.close]) = some s ∧
      (system compactLibraries oneTopic Unit 20).step s .stop = some s₀ ∧
      (system compactLibraries oneTopic Unit 20).run s₀ leaveBehind = some s' ∧
      s'.main = .stopped ∧ s'.produced = [] ∧ s₀.acked = [payment] := by
  obtain ⟨s, s₀, s', hrun, hstop, hrun', hstopped, hproduced, hanswers⟩ :=
    oneRequest_left compactLibraries oneTopic (requestFile topicAcl) ∅ "request.json"
  rw [show compactLibraries.folly = compactFolly from rfl, receive_topicFile] at hanswers
  refine ⟨s, s₀, s', hrun, hstop, hrun', hstopped, hproduced, ?_⟩
  rw [State.acked, hanswers]
  rfl

/-- `delivered_iff_drains` at the state in which `Stop` is called
after one request. -/
theorem delivered_iff_drains_oneRequest :
    ∃ s s₀, (system compactLibraries oneTopic Unit 20).run (initial oneTopic false)
        (oneRequest (requestFile topicAcl) ∅ "request.json" ++ [.close]) = some s ∧
      (system compactLibraries oneTopic Unit 20).step s .stop = some s₀ ∧
      ((∀ es s', (system compactLibraries oneTopic Unit 20).run s₀ es = some s' →
        s'.main = .stopped → Delivered compactLibraries oneTopic s₀ s') ↔ Drains s₀) := by
  obtain ⟨s, s₀, s', hrun, hstop, -, -, -, hacked⟩ := oneRequest_acked
  have hinit : (system compactLibraries oneTopic Unit 20).Reachable (initial oneTopic false) :=
    .init ⟨false, rfl⟩
  refine ⟨s, s₀, hrun, hstop, delivered_iff_drains (hinit.run hrun) hstop fun m hm => ?_⟩
  rw [hacked] at hm
  rw [List.mem_singleton.mp hm]
  exact configured_payment

/-- `Stop` returns, and the acknowledged message is still in the
channel. -/
theorem backlog :
    ∃ s s₀ s', (system compactLibraries oneTopic Unit 20).run (initial oneTopic false)
        (oneRequest (requestFile topicAcl) ∅ "request.json" ++ [.close]) = some s ∧
      (system compactLibraries oneTopic Unit 20).step s .stop = some s₀ ∧
      (∀ m ∈ s₀.acked, Configured oneTopic m) ∧
      (system compactLibraries oneTopic Unit 20).run s₀ leaveBehind = some s' ∧
      s'.main = .stopped ∧ ¬ Delivered compactLibraries oneTopic s₀ s' := by
  obtain ⟨s, s₀, s', hrun, hstop, hrun', hstopped, hproduced, hacked⟩ := oneRequest_acked
  refine ⟨s, s₀, s', hrun, hstop, fun m hm => ?_, hrun', hstopped, fun hdelivered => ?_⟩
  · rw [hacked] at hm
    rw [List.mem_singleton.mp hm]
    exact configured_payment
  · have hdelivered' : Pipeline.Delivered (KafkaProducer.BuiltFrom compactLibraries oneTopic)
        s₀.acked (pipeline s') := hdelivered
    have hle : s₀.acked.length ≤ s'.produced.length := hdelivered'.length_le
    rw [hacked, hproduced] at hle
    exact absurd hle (by decide)

end Bigpipe.Main
