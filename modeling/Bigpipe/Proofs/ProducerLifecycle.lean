import Bigpipe.Proofs.Shutdown

/-!
# `Bigpipe.Proofs.ProducerLifecycle`: `Start` and `Stop` of the producer against `Pushing`

`Start` spawns `Pushing` first and sets `IsRunning` afterwards, so the
thread may look at the flag before it is set, and leave. `Stop` puts
an exit notification in the bounded channel, and `Pushing` may leave
on the cleared flag without a `take` that makes room for it.

Both are races between `main` and one thread, and both are lost in a
single step. For `Start` the invariant is that `Pushing` is in its
loop, and the step that breaks it is the assignment of the flag, if
`Pushing` has left by then: `Pushing` cannot leave later, since from
the assignment on the flag is set until `Stop`.

For `Stop`, a state is wedged when neither `main` nor `Pushing` has a
step. `main` can be stuck at two places, in its `put` and at `join`,
and `Pushing` can be stuck asleep in `take` or because it has left. Of
the four combinations only one is possible: `main` asleep in its
`put`, and `Pushing` gone. The others are excluded by what the channel
holds while `Pushing` has not taken from it (`Untaken`).

* `started_iff`: in a run, `Pushing` is in its loop from the return of
  `Start` to `Stop` exactly when it has not left before `Start` sets
  the flag.
* `earlyTest`: a run in which it has.
* `neverWedged_iff`: a run never reaches a state in which `Stop` waits
  for good exactly when `Stop` finds no full channel after `Pushing`
  has left, and `Pushing` does not leave while `Stop` sleeps in its
  `put`.
* `fullAtStop`: a run that reaches such a state.
-/

set_option autoImplicit false

namespace Bigpipe.Main

open Bigpipe.Lib
open Bigpipe.Acceptor (topicAcl requestFile)
open Bigpipe.BoundedBlockingQueue (queue)

variable {lib : Libraries} {topics : Topics} {H : Type} {cap : Nat} [DecidableEq H] [Fintype H]
  {s s' : State H cap} {e : Event H}

/-! ### `Start` -/

/-- `Start` has returned, and `Stop` has not been called. -/
def MainPc.running : MainPc → Bool
  | .started | .serving | .closed => true
  | .idle | .spawned | .stopPut | .stopPutting | .stopJoin | .flushing | .stopped => false

/-- Between the return of `Start` and the call of `Stop`, `Pushing`
has not left its loop. It may be anywhere in it, also asleep. -/
def TakerAlive (s : State H cap) : Prop :=
  s.main.running = true → s.pushing ≠ .left

/-- `Start` sets the flag after `Pushing` has left. From then on
nobody takes from the channel, and `Start` returns as if all were
well. -/
def StartsTooLate (s : State H cap) (e : Event H) : Prop :=
  e = .setRunning ∧ s.pushing = .left

/-- Between `Start` and `Stop` the flag is set. -/
def FlagSet (s : State H cap) : Prop :=
  s.main.running = true → s.isRunning = true

/-- A step keeps the flag set between `Start` and `Stop`. -/
theorem flagSet_step (hset : FlagSet s) (h : Step lib s e s') : FlagSet s' := by
  cases h with
  | setRunning => exact fun _ => rfl
  | serve hm | close hm =>
      intro _
      exact hset (by rw [hm]; rfl)
  | start | stop | stopPut | stopPutDone | join | flushed => exact nofun
  | _ => exact hset

/-- The step lemma: from a state in which `Pushing` is alive, a step
keeps it so exactly when it is not the late assignment of the flag.
Before the assignment nothing is claimed, and after it `Pushing` finds
the flag set. -/
theorem takerAlive_step (hset : FlagSet s) (halive : TakerAlive s) (h : Step lib s e s') :
    TakerAlive s' ↔ ¬ StartsTooLate s e := by
  cases h with
  | setRunning hm =>
      constructor
      · intro halive' hlate
        exact halive' rfl hlate.2
      · intro hok _ hleft
        exact hok ⟨rfl, hleft⟩
  | leave hp hr =>
      -- `Pushing` leaves on a cleared flag only, so `Start` has not returned
      -- or `Stop` was called.
      refine iff_of_true (fun hrunning => ?_) nofun
      rw [hset hrunning] at hr
      cases hr
  | serve hm | close hm =>
      refine iff_of_true (fun _ => ?_) nofun
      exact halive (by rw [hm]; rfl)
  | start | stop | stopPut | stopPutDone | join | flushed => exact iff_of_true nofun nofun
  | take | takeDone | skip | produce => exact iff_of_true nofun nofun
  | _ => exact iff_of_true halive nofun

/-- In a run from any initial value of `IsRunning`, `Pushing` has not
left its loop at any time between the return of `Start` and the call
of `Stop`, exactly when it has not left before `Start` sets the flag.

`IsRunning` is not initialized, so both values are possible at the
start. Where it happens to be true, `Pushing` finds it set at its
first test, and the condition holds. -/
theorem started_iff (lib : Libraries) (topics : Topics) (isRunning : Bool)
    (es : List (Event H)) :
    (system lib topics H cap).Always TakerAlive (initial topics isRunning) es ↔
      (system lib topics H cap).EveryStep (fun s e => ¬ StartsTooLate s e)
        (initial topics isRunning) es := by
  refine System.always_iff_everyStep (I := FlagSet) (fun s e s' hset h => ?_)
    (fun s e s' hset halive h => ?_) es nofun nofun
  · exact flagSet_step hset (step_cases h).2
  · exact takerAlive_step hset halive (step_cases h).2

/-- `Pushing` looks at the cleared flag before `Start` sets it. -/
def earlyTest : List (Event Unit) :=
  [.start, .test, .setRunning]

/-- `Start` returns, and `Pushing` has left. -/
theorem started_earlyTest :
    ∃ s, (system compactLibraries oneTopic Unit 20).run (initial oneTopic false) earlyTest
        = some s ∧ s.main = .started ∧ ¬ TakerAlive s :=
  ⟨_, rfl, rfl, fun halive => halive rfl rfl⟩

/-! ### `Stop` -/

/-- `Stop` has cleared the flag, and has not passed `join()`. -/
def MainPc.stopping : MainPc → Bool
  | .stopPut | .stopPutting | .stopJoin => true
  | .idle | .spawned | .started | .serving | .closed | .flushing | .stopped => false

/-- The event is a step of `Stop`. -/
def Event.ofStop : Event H → Bool
  | .stop | .stopPut | .stopSection _ | .join | .flush _ => true
  | _ => false

/-- `Stop` has not passed `join()`, and neither `Stop` nor `Pushing`
can take a step. The handlers may still take some, but they only put,
and a `put` makes no room. -/
structure Wedged (lib : Libraries) (topics : Topics) (s : State H cap) : Prop where
  crashed : s.crashed = false
  main : s.main.stopping = true
  stuck : ∀ e : Event H, e.ofStop = true ∨ e.ofPushing = true →
    (system lib topics H cap).step s e = none

/-- `Pushing` leaves while `Stop` sleeps in its `put`, or `Stop` finds
the channel full after `Pushing` has left. It is about the state in
front of the step. -/
def GoesWrong (s : State H cap) : Event H → Prop
  | .test => s.isRunning = false ∧ s.main = .stopPutting ∧
      s.taskchan.pos .main = .asleep (.putMove {})
  | .stopSection _ => s.taskchan.data.isFull = true ∧ s.pushing = .left
  | _ => False

/-- `Stop` sleeps in its `put`, and `Pushing` has left. No thread
takes from the channel any more, so the `put` never finds a place. -/
structure Abandoned (s : State H cap) : Prop where
  crashed : s.crashed = false
  main : s.main = .stopPutting
  asleep : s.taskchan.pos .main = .asleep (.putMove {})
  pushing : s.pushing = .left

/-- Where `Pushing` has not taken since `Stop` was called, the channel
is full while `Stop` sleeps in its `put`, and has an item once that
`put` has returned. So `Pushing` does not sleep in `take` there. -/
structure Untaken (s : State H cap) : Prop where
  full : s.main = .stopPutting → s.taskchan.pos .main = .asleep (.putMove {}) →
    s.pushing = .taking → s.taskchan.data.isFull = true
  item : s.main = .stopJoin → s.pushing = .taking → s.taskchan.data.items ≠ []

/-- The sleep of `Stop` in its `put` begins in a lock section of its
own that finds the channel full, or it began before. -/
theorem main_asleep_cases (hinv : Inv topics s) (h : Step lib s e s')
    (hasleep : s'.taskchan.pos .main = .asleep (.putMove {})) :
    s.taskchan.pos .main = .asleep (.putMove {}) ∨
      (∃ pick, e = .stopSection pick) ∧ s.taskchan.data.isFull = true := by
  cases h with
  | stopPut hm hq | take _ _ hq | request _ _ hq | put _ hq =>
      exact .inl (Monitor.call_asleep hq hasleep)
  | spurious hq => exact .inl (Monitor.spurious_asleep hq hasleep)
  | takeWait _ hq | takeDone _ hq | fullWait _ hq | full _ hq | free _ hq | putWait _ hq
  | putDone _ hq => exact .inl (Monitor.acquire_asleep hq (u := .main) nofun hasleep)
  | @stopWait q pick o hm hq hret =>
      refine .inr ⟨⟨pick, rfl⟩, ?_⟩
      cases BoundedBlockingQueue.put_section (hinv.main_put hm) rfl hq with
      | full hfull => exact hfull
      | silent | wakes => cases hret
  | @stopPutDone q pick r hm hq =>
      -- The `put` has returned, so `main` is outside the channel.
      have hout := Monitor.acquire_within_returned hq .main
      rw [show q.pos .main = _ from hasleep, if_pos rfl] at hout
      cases hout
  | _ => exact .inl hasleep

omit [DecidableEq H] [Fintype H] in
/-- `main` is inside the channel in that `put` only. -/
theorem main_of_asleep (hinv : Inv topics s) {m : BoundedBlockingQueue.Call RequestMessage}
    (hasleep : s.taskchan.pos .main = .asleep m) : s.main = .stopPutting := by
  have hcall := hinv.main
  rw [hasleep] at hcall
  cases hm : s.main with
  | stopPutting => rfl
  | _ => rw [hm] at hcall; cases hcall

omit [DecidableEq H] [Fintype H] in
/-- After the call of `Stop` the flag is cleared for good. -/
theorem not_running (hinv : Inv topics s) (hstop : s.main.beforeStop = false) :
    s.isRunning ≠ true := by
  rw [hinv.flag hstop]
  nofun

/-- A step of `Pushing` after the call of `Stop` that leaves it in
`take` found it there, and changes neither the ring nor `Stop`. -/
theorem take_step (hinv : Inv topics s) (h : Step lib s e s') (he : e.ofPushing = true)
    (hstop : s'.main.stopping = true) (htaking : s'.pushing = .taking) :
    s.pushing = .taking ∧ s.main = s'.main ∧ s'.taskchan.data = s.taskchan.data ∧
      ∀ m, s'.taskchan.pos .main = .asleep m → s.taskchan.pos .main = .asleep m := by
  cases h with
  | take hp hr =>
      -- The flag is cleared, so `Pushing` does not enter `take` any more.
      refine absurd hr (not_running hinv ?_)
      change s.main.stopping = true at hstop
      cases hm : s.main <;> rw [hm] at hstop <;> first | rfl | cases hstop
  | takeWait hp hq hret =>
      exact ⟨hp, rfl, data_of_takeWait hinv hp hq hret, fun m =>
        Monitor.acquire_asleep hq (u := .main) nofun⟩
  | crash => exact ⟨htaking, rfl, rfl, fun _ => id⟩
  | start => cases hstop
  | leave | takeDone | skip | produce => cases htaking
  | _ => cases he

/-- A step keeps the channel full while `Stop` sleeps and `Pushing`
has not taken. Only a `take` makes room, and `Pushing` is the only
taker. -/
theorem untaken_full_step (hinv : Inv topics s) (huntaken : Untaken s) (h : Step lib s e s')
    (hasleep : s'.taskchan.pos .main = .asleep (.putMove {})) (hm : s'.main = .stopPutting)
    (htaking : s'.pushing = .taking) : s'.taskchan.data.isFull = true := by
  cases he : e.ofPushing with
  | false =>
      obtain ⟨hpushing, -, -, hring⟩ := frame_step hinv h he
      -- The channel was full, and stays as it is without a step of `Pushing`.
      have hfull : s.taskchan.data.isFull = true := by
        rcases main_asleep_cases hinv h hasleep with hbefore | ⟨-, hfull⟩
        · exact huntaken.full (main_of_asleep hinv hbefore) hbefore (hpushing ▸ htaking)
        · exact hfull
      rw [hring hfull]
      exact hfull
  | true =>
      obtain ⟨hp, hm', hdata, hpos⟩ := take_step hinv h he (by rw [hm]; rfl) htaking
      rw [hdata]
      exact huntaken.full (hm'.trans hm) (hpos _ hasleep) hp

/-- A step keeps an item in the channel while `Stop` joins and
`Pushing` has not taken. -/
theorem untaken_item_step (hinv : Inv topics s) (huntaken : Untaken s) (h : Step lib s e s')
    (hm : s'.main = .stopJoin) (htaking : s'.pushing = .taking) :
    s'.taskchan.data.items ≠ [] := by
  cases he : e.ofPushing with
  | false =>
      obtain ⟨hpushing, -, hgrows, -⟩ := frame_step hinv h he
      have hmono : s.taskchan.data.items ≠ [] → s'.taskchan.data.items ≠ [] := by
        intro hne hempty
        rw [hempty] at hgrows
        exact hne (List.prefix_nil.mp hgrows)
      cases h with
      | stopPutDone hm' hq =>
          -- The exit notification is in the channel.
          have hring := (BoundedBlockingQueue.put_returned (hinv.main_put hm') rfl hq).2
          rw [show State.taskchan _ = _ from rfl, hring]
          exact List.append_ne_nil_of_right_ne_nil _ nofun
      | setRunning | serve | close | stop | stopPut | join | flushed => cases hm
      | start => cases he
      | _ => exact hmono (huntaken.item hm (hpushing ▸ htaking))
  | true =>
      obtain ⟨hp, hm', hdata, -⟩ := take_step hinv h he (by rw [hm]; rfl) htaking
      rw [hdata]
      exact huntaken.item (hm'.trans hm) hp

/-- A step keeps what the channel holds until `Pushing` takes. -/
theorem untaken_step (hinv : Inv topics s) (huntaken : Untaken s) (h : Step lib s e s') :
    Untaken s' where
  full hm hasleep htaking := untaken_full_step hinv huntaken h hasleep hm htaking
  item hm htaking := untaken_item_step hinv huntaken h hm htaking

/-- It holds in every reachable state. -/
theorem reachable_untaken (hreach : (system lib topics H cap).Reachable s) : Untaken s := by
  refine hreach.induct (I := Untaken) ?_ fun s e s' hreach huntaken hstep =>
    untaken_step (reachable_inv hreach) huntaken (step_cases hstep).2
  rintro s ⟨isRunning, rfl⟩
  exact ⟨nofun, nofun⟩

/-! ### Who can take a step -/

omit [DecidableEq H] [Fintype H] in
/-- `Pushing` is inside the channel in `take` only. -/
theorem taking_of_asleep (hinv : Inv topics s) {m : BoundedBlockingQueue.Call RequestMessage}
    (hasleep : s.taskchan.pos .pushing = .asleep m) : s.pushing = .taking := by
  have hcall := hinv.pushing
  rw [hasleep] at hcall
  cases hp : s.pushing with
  | taking => rfl
  | _ => rw [hp] at hcall; cases hcall

/-- `Pushing` can take a step unless it has left or sleeps in `take`.
Those are its two ways to be stuck. -/
theorem pushing_able (hreach : (system lib topics H cap).Reachable s) (hcrashed : s.crashed = false)
    (hstop : s.main.beforeStop = false) (hleft : s.pushing ≠ .left)
    (hasleep : s.taskchan.pos .pushing ≠ .asleep .take) :
    ∃ e : Event H, e.ofPushing = true ∧ (system lib topics H cap).step s e ≠ none := by
  have hinv := reachable_inv hreach
  cases hp : s.pushing with
  | unborn =>
      rw [hinv.born.mp hp] at hstop
      cases hstop
  | loop =>
      have hstep := test_of_loop lib topics hcrashed (hinv.flag hstop) hp
      exact ⟨.test, rfl, by rw [hstep]; nofun⟩
  | taking =>
      have hab := BoundedBlockingQueue.not_aborted (channelSimulation.reachable hreach)
      have hrun := (Monitor.Pos.asleep_or_runnable (hinv.pushing_take hp)).resolve_left hasleep
      obtain ⟨pick, ⟨q, o⟩, hq⟩ :=
        Monitor.exists_acquire (M := queue RequestMessage cap) hab hrun
      refine ⟨.takeSection pick, rfl, ?_⟩
      simp [system, hcrashed, takeSection, hp, hq]
  -- `Push` may also throw: that event is there whatever the broker does.
  | taken reqmsg =>
      refine ⟨.push 0 true, rfl, ?_⟩
      cases hpush : KafkaProducer.push lib 0 s.topics reqmsg <;>
        simp [system, hcrashed, pushTaken, hp, hpush]
  | left => exact absurd hp hleft

/-- `Stop` can take a step before `join()` unless it sleeps in its
`put`. What it does at `join()` depends on `Pushing`. -/
theorem stop_able (hreach : (system lib topics H cap).Reachable s) (hcrashed : s.crashed = false)
    (hstop : s.main = .stopPut ∨ s.main = .stopPutting)
    (hasleep : s.taskchan.pos .main ≠ .asleep (.putMove {})) :
    ∃ e : Event H, e.ofStop = true ∧ (system lib topics H cap).step s e ≠ none := by
  have hinv := reachable_inv hreach
  have hab := BoundedBlockingQueue.not_aborted (channelSimulation.reachable hreach)
  rcases hstop with hm | hm
  · have hout : (s.taskchan.pos .main).within = none := by
      rw [hinv.main, hm]
      rfl
    obtain ⟨q, hq⟩ := Monitor.exists_call hab hout (.putMove {})
    exact ⟨.stopPut, rfl, by simp [system, hcrashed, stopPut, hm, hq]⟩
  · have hrun := (Monitor.Pos.asleep_or_runnable (hinv.main_put hm)).resolve_left hasleep
    obtain ⟨pick, ⟨q, o⟩, hq⟩ := Monitor.exists_acquire (M := queue RequestMessage cap) hab hrun
    exact ⟨.stopSection pick, rfl, by simp [system, hcrashed, stopSection, hm, hq]⟩

/-- Where `Stop` sleeps in its `put` and `Pushing` has left, neither
can take a step. -/
theorem Abandoned.wedged (lib : Libraries) (topics : Topics) (h : Abandoned s) :
    Wedged lib topics s where
  crashed := h.crashed
  main := by
    rw [h.main]
    rfl
  stuck e he := by
    have hmain := h.main
    have hpushing := h.pushing
    -- Main sleeps inside `put` and Pushing has left: no event of either is
    -- enabled.
    cases e with
    | stopSection pick =>
        simp [system, h.crashed, stopSection, hmain, Monitor.acquire_of_asleep _ pick h.asleep]
    | start => simp [system, start, hmain]
    | stop => simp [system, stop, hmain]
    | stopPut => simp [system, stopPut, hmain]
    | join => simp [system, join, hmain]
    | flush length => simp [system, flush, hmain]
    | test => simp [system, test, hpushing]
    | takeSection pick => simp [system, takeSection, hpushing]
    | push rd throws => simp [system, pushTaken, hpushing]
    | _ => simp [Event.ofStop, Event.ofPushing] at he

/-- Where `Stop` cannot take a step before `join()` returns, it sleeps
in its `put` or joins a thread that has not left. -/
theorem Wedged.waits (h : Wedged lib topics s)
    (hreach : (system lib topics H cap).Reachable s) :
    s.taskchan.pos .main = .asleep (.putMove {}) ∨ s.main = .stopJoin ∧ s.pushing ≠ .left := by
  by_contra hnot
  obtain ⟨hasleep, hjoin⟩ := not_or.mp hnot
  have hable : ∃ e : Event H, e.ofStop = true ∧ (system lib topics H cap).step s e ≠ none := by
    cases hm : s.main with
    | stopPut => exact stop_able hreach h.crashed (.inl hm) hasleep
    | stopPutting => exact stop_able hreach h.crashed (.inr hm) hasleep
    | stopJoin =>
        have hleft : s.pushing = .left := by
          by_contra hne
          exact hjoin ⟨hm, hne⟩
        exact ⟨.join, rfl, by simp [system, h.crashed, join, hm, hleft]⟩
    | _ =>
        have hmain := h.main
        rw [hm] at hmain
        cases hmain
  obtain ⟨e, he, hstep⟩ := hable
  exact hstep (h.stuck e (.inl he))

/-- Where `Pushing` cannot take a step before `join()` returns, it has
left. It does not sleep in `take` then: the channel holds what it has
not taken. -/
theorem Wedged.left (h : Wedged lib topics s) (hcap : 0 < cap)
    (hreach : (system lib topics H cap).Reachable s) : s.pushing = .left := by
  have hinv := reachable_inv hreach
  have hstop : s.main.beforeStop = false := by
    have hmain := h.main
    cases hm : s.main <;> rw [hm] at hmain <;> first | rfl | cases hmain
  by_contra hne
  by_cases hsleep : s.taskchan.pos .pushing = .asleep .take
  · have hempty := empty_of_asleep hreach hsleep
    have htaking := taking_of_asleep hinv hsleep
    rcases h.waits hreach with hasleep | ⟨hm, -⟩
    · have hfull := (reachable_untaken hreach).full (main_of_asleep hinv hasleep) hasleep htaking
      have hroom : s.taskchan.data.isFull = false := by
        rw [CircularBuffer.isFull_eq_false_iff, hempty]
        exact hcap
      rw [hroom] at hfull
      cases hfull
    · exact (reachable_untaken hreach).item hm htaking hempty
  · obtain ⟨e, he, hstep⟩ := pushing_able hreach h.crashed hstop hne hsleep
    exact hstep (h.stuck e (.inr he))

/-- With a capacity of at least 1, neither can take a step exactly
where `Stop` sleeps in its `put` and `Pushing` has left. -/
theorem wedged_iff (hcap : 0 < cap) (hreach : (system lib topics H cap).Reachable s) :
    Wedged lib topics s ↔ Abandoned s := by
  constructor
  · intro h
    have hleft := h.left hcap hreach
    have hasleep : s.taskchan.pos .main = .asleep (.putMove {}) :=
      (h.waits hreach).resolve_right fun hjoin => hjoin.2 hleft
    exact ⟨h.crashed, main_of_asleep (reachable_inv hreach) hasleep, hasleep, hleft⟩
  · intro h
    exact h.wedged lib topics

/-! ### The runs that wedge -/

/-- The step lemma: a step leads into such a state exactly when it
goes wrong, or was in one before. -/
theorem abandoned_step (hinv : Inv topics s) (hcrashed : s.crashed = false)
    (hbefore : ¬ Abandoned s) (h : Step lib s e s') : Abandoned s' ↔ GoesWrong s e := by
  -- Forward: only Pushing's exit and main's falling asleep can complete the
  -- pair; any other step finds the state abandoned before it.
  constructor
  · intro ⟨hcrashed', hm, hasleep, hleft⟩
    cases h with
    | leave hp hr => exact ⟨hr, hm, hasleep⟩
    | @stopWait q pick o hm' hq hret =>
        cases BoundedBlockingQueue.put_section (hinv.main_put hm') rfl hq with
        | full hfull => exact ⟨hfull, hleft⟩
        | silent | wakes => cases hret
    | crash => cases hcrashed'
    | start | setRunning | serve | close | stop | stopPutDone | join | flushed => cases hm
    | flushWait hm' => cases hm.symm.trans hm'
    | take | takeDone | skip | produce => cases hleft
    | stopPut hm' hq =>
        have hmain := main_of_asleep hinv (Monitor.call_asleep hq hasleep)
        rw [hmain] at hm'
        cases hm'
    | takeWait hp => rw [show s.pushing = _ from hleft] at hp; cases hp
    -- A handler's call leaves main asleep and Pushing gone, so both were so
    -- before.
    | request _ _ hq | put _ hq =>
        exact absurd ⟨hcrashed, hm, Monitor.call_asleep hq hasleep, hleft⟩ hbefore
    | fullWait _ hq | full _ hq | free _ hq | putWait _ hq | putDone _ hq =>
        exact absurd
          ⟨hcrashed, hm, Monitor.acquire_asleep hq (u := .main) nofun hasleep, hleft⟩ hbefore
    | spurious hq =>
        exact absurd ⟨hcrashed, hm, Monitor.spurious_asleep hq hasleep, hleft⟩ hbefore
  -- Backward: the two events of `GoesWrong`, in the state before them.
  · intro hwrong
    cases h with
    | leave hp hr => exact ⟨hcrashed, hwrong.2.1, hwrong.2.2, rfl⟩
    | take hp hr =>
        rw [hwrong.1] at hr
        cases hr
    | stopWait hm hq hret =>
        cases BoundedBlockingQueue.put_section (hinv.main_put hm) rfl hq with
        | full =>
            refine ⟨hcrashed, hm, ?_, hwrong.2⟩
            show (s.taskchan.move .main (.asleep (.putMove {}))).pos .main = _
            rw [Monitor.State.move_pos, Function.update_self]
        | silent | wakes => cases hret
    -- The channel is full, so this `put` cannot return.
    | stopPutDone hm hq =>
        have hroom := (BoundedBlockingQueue.put_returned (hinv.main_put hm) rfl hq).1
        rw [hwrong.1] at hroom
        cases hroom
    | _ => exact hwrong.elim

/-- In a run with a capacity of at least 1, no state is reached in
which `Stop` has not passed `join()` and neither `Stop` nor `Pushing`
can take a step, exactly when no step of the run goes wrong. Two steps
can go wrong, and they complete the same pair: `Stop` sleeps in its
`put` on a full channel, and `Pushing` has left. -/
theorem neverWedged_iff (hcap : 0 < cap) (lib : Libraries) (topics : Topics) (isRunning : Bool)
    (es : List (Event H)) :
    (system lib topics H cap).Always (fun s => ¬ Wedged lib topics s)
        (initial topics isRunning) es ↔
      (system lib topics H cap).EveryStep (fun s e => ¬ GoesWrong s e)
        (initial topics isRunning) es := by
  have hinit : (system lib topics H cap).Reachable (initial topics isRunning) :=
    .init ⟨isRunning, rfl⟩
  refine System.always_iff_everyStep (I := (system lib topics H cap).Reachable)
    (fun s e s' hreach h => hreach.step h) (fun s e s' hreach hnot h => ?_) es hinit ?_
  · obtain ⟨hcrashed, hstep⟩ := step_cases h
    rw [wedged_iff hcap hreach] at hnot
    rw [wedged_iff hcap (hreach.step h)]
    exact not_congr (abandoned_step (reachable_inv hreach) hcrashed hnot hstep)
  · rw [wedged_iff hcap hinit]
    intro h
    cases h.main

/-- One request fills a channel of capacity 1. Then `Stop` is called,
`Pushing` leaves on the cleared flag, and `Stop` finds no room for the
exit notification. -/
def fullAtStop (fs : FileSystem) (headers : UnorderedMap String) (body : String) :
    List (Event Unit) :=
  oneRequest fs headers body ++ [.close, .stop, .test, .stopPut, .stopSection none]

/-- The run ends with `Stop` asleep and `Pushing` gone, whatever the
request is. -/
theorem fullAtStop_abandoned (lib : Libraries) (topics : Topics) (fs : FileSystem)
    (headers : UnorderedMap String) (body : String) :
    ∃ s, (system lib topics Unit 1).run (initial topics false) (fullAtStop fs headers body)
        = some s ∧ Abandoned s :=
  ⟨_, rfl, rfl, rfl, rfl, rfl⟩

/-- `neverWedged_iff` at the run `fullAtStop`. -/
theorem neverWedged_iff_fullAtStop :
    (system compactLibraries oneTopic Unit 1).Always
        (fun s => ¬ Wedged compactLibraries oneTopic s) (initial oneTopic false)
        (fullAtStop (requestFile topicAcl) ∅ "request.json") ↔
      (system compactLibraries oneTopic Unit 1).EveryStep (fun s e => ¬ GoesWrong s e)
        (initial oneTopic false) (fullAtStop (requestFile topicAcl) ∅ "request.json") :=
  neverWedged_iff Nat.one_pos compactLibraries oneTopic false
    (fullAtStop (requestFile topicAcl) ∅ "request.json")

/-- `Stop` has cleared the flag, and neither it nor `Pushing` can take
a step. -/
theorem fullAtStop_wedged :
    ∃ s, (system compactLibraries oneTopic Unit 1).run (initial oneTopic false)
        (fullAtStop (requestFile topicAcl) ∅ "request.json") = some s ∧
      Wedged compactLibraries oneTopic s := by
  obtain ⟨s, hrun, habandoned⟩ :=
    fullAtStop_abandoned compactLibraries oneTopic (requestFile topicAcl) ∅ "request.json"
  exact ⟨s, hrun, habandoned.wedged compactLibraries oneTopic⟩

end Bigpipe.Main
