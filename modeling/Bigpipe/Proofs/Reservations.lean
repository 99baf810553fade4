import Bigpipe.Lib.Parties
import Bigpipe.Proofs.Conservation

/-!
# `Bigpipe.Proofs.Reservations`: the free slots between the check and the put

`RpcCallback` asks whether the channel is full in one lock section,
and puts its message in another. In between other handlers get the
same answer for the same slot, and `Stop` puts its exit notification
without asking.

A handler that was told of a free slot counts on it until its `put`
has returned. Nothing reserves the slot, so the number of handlers
that count on one may exceed the number of the slots that are there.
As long as it does not, every `put` finds its slot. Once it does, the
`put`s that are on their way get in each other's way: some run of
them, with nobody else taking a step, sends a handler to sleep.

The accounting is one number against another, `reserved` against
`free`, and a step changes each by at most one. That makes the
condition on the steps exact for the accounting (`covered_iff_spare`),
and enough for the handlers (`neverWaits_of_spare`). It is not exact
for the handlers, since a `Pushing` that is quick enough may repair
what the accounting has lost.

* `covered_step`: a step leaves enough free slots for the handlers
  that were told of one exactly when it is `Spare`.
* `neverWaits_of_spare`: in a run of such steps no handler waits in
  its `put`.
* `exists_waiting`: without enough free slots, the `put`s that are on
  their way block one another.
* `twoChecks`: two handlers and one slot.
-/

set_option autoImplicit false

namespace Bigpipe.Main

open Bigpipe.Lib
open Bigpipe.Acceptor (HandlerPc receive topicAcl requestFile)
open Bigpipe.BoundedBlockingQueue (queue)
open Bigpipe.Lib.Monitor (acquire)

variable {lib : Libraries} {topics : Topics} {H : Type} {cap : Nat} [DecidableEq H] [Fintype H]
  {s s' : State H cap} {e : Event H}

/-! ### Handlers that were told of a free slot -/

/-- The slots that a handler counts on: one from the answer of
`full()` to the end of its `put`. A handler that was told that the
channel is full counts on none, and answers. -/
def reserves : HandlerPc → Nat
  | .free _ _ | .putting _ _ => 1
  | .idle | .checking _ _ => 0

/-- The slots that the handlers count on. -/
def reserved (s : State H cap) : Nat :=
  ∑ h, reserves (s.handler h)

/-- The free slots of the channel. -/
def free (s : State H cap) : Nat :=
  cap - s.taskchan.data.size

/-- There is a free slot for every handler that was told of one. -/
def Covered (s : State H cap) : Prop :=
  reserved s ≤ free s

/-- The step takes no slot that a handler counts on: `full()` tells of
a free slot, and the `put` of `Stop` takes one, only where there are
more of them than handlers that were told of one. The condition looks
at the state before the step. -/
def Spare (s : State H cap) : Event H → Prop
  | .fullSection _ _ | .stopSection _ => s.taskchan.data.isFull = false → reserved s < free s
  | _ => True

/-- No handler sleeps in the channel: a handler that was told of a
free slot found one in its `put`, and no other has taken it. -/
def NeverWaits (s : State H cap) : Prop :=
  ∀ h m, s.taskchan.pos (.handler h) ≠ .asleep m

omit [Fintype H] [DecidableEq H] in
/-- A channel that is not full has a free slot. -/
theorem isFull_eq_false_iff_free : s.taskchan.data.isFull = false ↔ 0 < free s := by
  rw [CircularBuffer.isFull_eq_false_iff, free, CircularBuffer.size]
  omega

omit [Fintype H] [DecidableEq H] in
/-- A channel that is full has none. -/
theorem free_of_full (h : s.taskchan.data.isFull = true) : free s = 0 := by
  by_contra hne
  rw [isFull_eq_false_iff_free.mpr (Nat.pos_of_ne_zero hne)] at h
  cases h

omit [Fintype H] [DecidableEq H] in
/-- A completed `put` takes a free slot. -/
theorem free_of_put {reqmsg : RequestMessage}
    (hitems : s'.taskchan.data.items = s.taskchan.data.items ++ [reqmsg]) :
    free s' + 1 = free s := by
  have hle := s'.taskchan.data.size_le
  rw [hitems, List.length_append, List.length_singleton] at hle
  rw [free, free, CircularBuffer.size, CircularBuffer.size, hitems, List.length_append,
    List.length_singleton]
  omega

omit [Fintype H] [DecidableEq H] in
/-- A completed `take` makes one. -/
theorem free_of_take {reqmsg : RequestMessage}
    (hitems : s.taskchan.data.items = reqmsg :: s'.taskchan.data.items) :
    free s' = free s + 1 := by
  have hle := s.taskchan.data.size_le
  rw [hitems, List.length_cons] at hle
  rw [free, free, CircularBuffer.size, CircularBuffer.size, hitems, List.length_cons]
  omega

omit [Fintype H] [DecidableEq H] in
/-- The free slots depend on the ring alone. -/
theorem free_congr (h : s'.taskchan.data = s.taskchan.data) : free s' = free s := by
  rw [free, free, h]

/-- A handler that moves counts on what its new place counts on. The
others count on what they did. -/
theorem reserved_move {k : H} {pc : HandlerPc}
    (h : s'.handler = Function.update s.handler k pc) :
    reserved s' + reserves (s.handler k) = reserved s + reserves pc := by
  rw [reserved, h]
  exact sum_move reserves s.handler k pc

omit [DecidableEq H] in
/-- What the handlers count on depends on where they are. -/
theorem reserved_congr (h : s'.handler = s.handler) : reserved s' = reserved s := by
  rw [reserved, reserved, h]

/-! ### The steps -/

omit [DecidableEq H] in
/-- A step that changes neither the ring nor the handlers. -/
theorem covered_congr (hcovered : Covered s) (hring : s'.taskchan.data = s.taskchan.data)
    (hhandler : s'.handler = s.handler) : Covered s' := by
  rw [Covered, reserved_congr hhandler, free_congr hring]
  exact hcovered

/-- A handler that moves and leaves the ring alone, and counts on as
much as before. -/
theorem covered_move (hcovered : Covered s) (hring : s'.taskchan.data = s.taskchan.data) {k : H}
    {pc : HandlerPc} (hhandler : s'.handler = Function.update s.handler k pc)
    (hpc : reserves pc = reserves (s.handler k)) : Covered s' := by
  have hsum := reserved_move hhandler
  rw [Covered, free_congr hring]
  unfold Covered at hcovered
  omega

omit [DecidableEq H] in
/-- A `put` of another thread takes a slot. -/
theorem covered_put {reqmsg : RequestMessage}
    (hitems : s'.taskchan.data.items = s.taskchan.data.items ++ [reqmsg])
    (hhandler : s'.handler = s.handler) : Covered s' ↔ reserved s < free s := by
  have hfree := free_of_put hitems
  rw [Covered, reserved_congr hhandler]
  omega

omit [DecidableEq H] in
/-- A `take` makes a slot. -/
theorem covered_take {reqmsg : RequestMessage} (hcovered : Covered s)
    (hitems : s.taskchan.data.items = reqmsg :: s'.taskchan.data.items)
    (hhandler : s'.handler = s.handler) : Covered s' := by
  rw [Covered, reserved_congr hhandler, free_of_take hitems]
  exact Nat.le_succ_of_le hcovered

/-- A handler that is told of a slot counts on one more. -/
theorem covered_free (hring : s'.taskchan.data = s.taskchan.data) {k : H} {pc : HandlerPc}
    (hhandler : s'.handler = Function.update s.handler k pc)
    (hpc : reserves pc = reserves (s.handler k) + 1) : Covered s' ↔ reserved s < free s := by
  have hsum := reserved_move hhandler
  rw [Covered, free_congr hring]
  omega

/-- A handler that puts its message takes the slot that it counted on.
Both numbers go down by one. -/
theorem covered_putDone {reqmsg : RequestMessage} (hcovered : Covered s)
    (hitems : s'.taskchan.data.items = s.taskchan.data.items ++ [reqmsg]) {k : H} {pc : HandlerPc}
    (hhandler : s'.handler = Function.update s.handler k pc)
    (hpc : reserves (s.handler k) = reserves pc + 1) : Covered s' := by
  have hsum := reserved_move hhandler
  have hfree := free_of_put hitems
  unfold Covered at hcovered ⊢
  omega

/-- The answer of `full()`. -/
theorem flag_of_full (hinv : Inv topics s) {k : H} {q : Channel H cap} {pick : Option (Tid H)}
    {reqmsg : RequestMessage} {resp : List CallResp} {full : Bool}
    (hh : s.handler k = .checking reqmsg resp)
    (hq : acquire (queue RequestMessage cap) s.taskchan (.handler k) pick
      = some (q, .returned (.flag full))) : s.taskchan.data.isFull = full := by
  have hcall : (s.taskchan.pos (.handler k)).within = some .full := by
    rw [hinv.handler, hh]
    rfl
  have hflag := (BoundedBlockingQueue.full_returned hcall hq).1
  cases hflag
  rfl

/-- The step lemma: a step leaves a free slot for every handler that
was told of one exactly when it takes none of them. Most steps change
neither number. A `take` makes a slot, and a `put` of a handler takes
the one that the handler counted on. -/
theorem covered_step (hinv : Inv topics s) (hcovered : Covered s) (h : Step lib s e s') :
    Covered s' ↔ Spare s e := by
  cases h with
  | start | setRunning | serve | close | stop | join | flushWait | flushed | leave | skip | crash
  | produce =>
      exact iff_of_true (covered_congr hcovered rfl rfl) trivial
  | stopPut hm hq =>
      obtain ⟨-, hdata, -⟩ := Monitor.call_runnable hq
      exact iff_of_true (covered_congr hcovered hdata rfl) trivial
  | stopWait hm hq hret =>
      -- `Stop` sleeps beside a full ring.
      have hdata := Monitor.acquire_data hq hret
      refine iff_of_true (covered_congr hcovered hdata rfl) fun hroom => ?_
      cases BoundedBlockingQueue.put_section (hinv.main_put hm) rfl hq with
      | full hfull =>
          rw [hfull] at hroom
          cases hroom
      | silent | wakes => cases hret
  | stopPutDone hm hq =>
      obtain ⟨hroom, hitems⟩ := BoundedBlockingQueue.put_returned (hinv.main_put hm) rfl hq
      show _ ↔ (s.taskchan.data.isFull = false → reserved s < free s)
      rw [imp_iff_right hroom]
      exact covered_put hitems rfl
  | take hp hr hq =>
      obtain ⟨-, hdata, -⟩ := Monitor.call_runnable hq
      exact iff_of_true (covered_congr hcovered hdata rfl) trivial
  | takeWait hp hq hret =>
      exact iff_of_true (covered_congr hcovered (data_of_takeWait hinv hp hq hret) rfl) trivial
  | takeDone hp hq =>
      have hitems := BoundedBlockingQueue.take_returned (hinv.pushing_take hp) hq
      exact iff_of_true (covered_take hcovered hitems rfl) trivial
  | request hm hh hq =>
      obtain ⟨-, hdata, -⟩ := Monitor.call_runnable hq
      exact iff_of_true (covered_move hcovered hdata rfl (by rw [hh]; rfl)) trivial
  | @fullWait k q pick reqmsg resp o hh hq hret =>
      have hfull : (s.taskchan.pos (.handler k)).within = some .full := by
        rw [hinv.handler, hh]
        rfl
      exact absurd (BoundedBlockingQueue.full_returned hfull hq).1 (hret _)
  | full hh hq =>
      refine iff_of_true (covered_move hcovered (data_of_full hinv hh hq) rfl (by rw [hh]; rfl))
        fun hroom => ?_
      rw [flag_of_full hinv hh hq] at hroom
      cases hroom
  | free hh hq =>
      show _ ↔ (s.taskchan.data.isFull = false → reserved s < free s)
      rw [imp_iff_right (flag_of_full hinv hh hq)]
      exact covered_free (data_of_full hinv hh hq) rfl (by rw [hh]; rfl)
  | put hh hq =>
      obtain ⟨-, hdata, -⟩ := Monitor.call_runnable hq
      exact iff_of_true (covered_move hcovered hdata rfl (by rw [hh]; rfl)) trivial
  | putWait hh hq hret =>
      exact iff_of_true (covered_congr hcovered (Monitor.acquire_data hq hret) rfl) trivial
  | putDone hh hq =>
      have hitems := (BoundedBlockingQueue.put_returned (hinv.handler_put hh) rfl hq).2
      exact iff_of_true (covered_putDone hcovered hitems rfl (by rw [hh]; rfl)) trivial
  | spurious hq =>
      obtain ⟨-, m, -, rfl⟩ := Monitor.spurious_cases hq
      exact iff_of_true (covered_congr hcovered rfl rfl) trivial

/-- A lock section that ends the call of its thread puts nobody to
sleep. -/
theorem not_asleep_of_returned {t u : Tid H} {q : Channel H cap} {pick : Option (Tid H)}
    {r : BoundedBlockingQueue.Ret RequestMessage}
    {m : BoundedBlockingQueue.Call RequestMessage}
    (hq : acquire (queue RequestMessage cap) s.taskchan t pick = some (q, .returned r))
    (hasleep : q.pos u = .asleep m) : s.taskchan.pos u = .asleep m := by
  by_cases hut : u = t
  · have houtside := Monitor.acquire_within_returned hq u
    rw [if_pos hut, hasleep] at houtside
    cases houtside
  · exact Monitor.acquire_asleep hq hut hasleep

omit [DecidableEq H] in
/-- A handler that counts on a slot is one of those that do. -/
theorem reserved_pos {k : H} (h : reserves (s.handler k) = 1) : 0 < reserved s := by
  have hle := le_sum (fun h => reserves (s.handler h)) k
  rw [h] at hle
  exact hle

/-- With a free slot for every handler that was told of one, no step
sends a handler to sleep. A handler falls asleep in its own `put`
only, beside a full ring, and then it would be one of those that count
on a slot where there is none. -/
theorem neverWaits_step (hinv : Inv topics s) (hcovered : Covered s) (hnever : NeverWaits s)
    (h : Step lib s e s') : NeverWaits s' := by
  intro h' m hasleep
  cases h with
  | start | setRunning | serve | close | stop | join | flushWait | flushed | leave | skip | crash
  | produce =>
      exact hnever h' m hasleep
  | stopPut _ hq | take _ _ hq | request _ _ hq | put _ hq =>
      exact hnever h' m (Monitor.call_asleep hq hasleep)
  | stopWait _ hq | stopPutDone _ hq | takeWait _ hq | takeDone _ hq =>
      exact hnever h' m (Monitor.acquire_asleep hq (u := .handler h') nofun hasleep)
  | spurious hq => exact hnever h' m (Monitor.spurious_asleep hq hasleep)
  | @fullWait k q pick reqmsg resp o hh hq hret =>
      have hfull : (s.taskchan.pos (.handler k)).within = some .full := by
        rw [hinv.handler, hh]
        rfl
      exact absurd (BoundedBlockingQueue.full_returned hfull hq).1 (hret _)
  | full hh hq | free hh hq | putDone hh hq =>
      exact hnever h' m (not_asleep_of_returned hq hasleep)
  | @putWait k q pick reqmsg resp o hh hq hret =>
      cases BoundedBlockingQueue.put_section (hinv.handler_put hh) rfl hq with
      | full hfull =>
          -- The handler counts on a slot, so the ring is not full.
          have hpos := reserved_pos (s := s) (k := k) (by rw [hh]; rfl)
          have hfree := free_of_full hfull
          unfold Covered at hcovered
          omega
      | silent | wakes => cases hret

/-! ### Runs -/

omit [DecidableEq H] in
/-- Before `Start` no handler counts on a slot. -/
theorem covered_initial (topics : Topics) (isRunning : Bool) :
    Covered (initial topics isRunning : State H cap) := by
  have hnone : reserved (initial topics isRunning : State H cap) = 0 :=
    Finset.sum_eq_zero fun h _ => rfl
  rw [Covered, hnone]
  exact Nat.zero_le _

omit [DecidableEq H] [Fintype H] in
/-- And none sleeps. -/
theorem neverWaits_initial (topics : Topics) (isRunning : Bool) :
    NeverWaits (initial topics isRunning : State H cap) := nofun

/-- In a run there is always a free slot for every handler that was
told of one, and none waits, exactly when the steps take no slot that
a handler counts on. It is the run lemma, applied to the two step
lemmas above. -/
theorem covered_iff_spare (lib : Libraries) (topics : Topics) (isRunning : Bool)
    (es : List (Event H)) :
    (system lib topics H cap).Always (fun s => Covered s ∧ NeverWaits s)
        (initial topics isRunning) es ↔
      (system lib topics H cap).EveryStep Spare (initial topics isRunning) es := by
  have hinit : (system lib topics H cap).Reachable (initial topics isRunning) :=
    .init ⟨isRunning, rfl⟩
  refine System.always_iff_everyStep (I := (system lib topics H cap).Reachable)
    (fun s e s' hreach h => hreach.step h) (fun s e s' hreach hP h => ?_) es hinit
    ⟨covered_initial topics isRunning, neverWaits_initial topics isRunning⟩
  have hinv := reachable_inv hreach
  have hstep := (step_cases h).2
  rw [← covered_step hinv hP.1 hstep]
  exact and_iff_left (neverWaits_step hinv hP.1 hP.2 hstep)

/-- For every capacity, any handlers and every run: where `full()`
tells of a free slot, and the `put` of `Stop` takes one, only if there
are more of them than handlers that were told of one, no handler waits
in its `put`. -/
theorem neverWaits_of_spare {isRunning : Bool} {es : List (Event H)}
    (hspare : (system lib topics H cap).EveryStep Spare (initial topics isRunning) es) :
    (system lib topics H cap).Always NeverWaits (initial topics isRunning) es :=
  ((covered_iff_spare lib topics isRunning es).mpr hspare).mono fun _ h => h.2

/-! ### Too many handlers that were told of a free slot -/

/-- Only the calls and the lock sections of the `put`s in
`RpcCallback`. Nobody takes in such a run, and nobody asks. -/
def OnlyPuts (es : List (Event H)) : Prop :=
  ∀ e ∈ es, (∃ h, e = .put h) ∨ ∃ h pick, e = .putSection h pick

/-- Some run of the `put`s that are on their way sends a handler to
sleep. -/
def Blocks (lib : Libraries) (topics : Topics) (s : State H cap) : Prop :=
  ∃ es s', OnlyPuts es ∧ (system lib topics H cap).run s es = some s' ∧ ¬ NeverWaits s'

/-- A step of these `put`s in front of such a run. -/
theorem Blocks.of_step (h : Blocks lib topics s')
    (he : (∃ h, e = .put h) ∨ ∃ h pick, e = .putSection h pick)
    (hs : (system lib topics H cap).step s e = some s') : Blocks lib topics s := by
  obtain ⟨es, s₁, hes, hrun, hwaits⟩ := h
  refine ⟨e :: es, s₁, fun e' he' => ?_, (System.run_cons hs).trans hrun, hwaits⟩
  rcases List.mem_cons.mp he' with rfl | he'
  · exact he
  · exact hes e' he'

/-- Where a handler sleeps, nothing more has to happen. -/
theorem blocks_of_waits (h : ¬ NeverWaits s) : Blocks lib topics s :=
  ⟨[], s, nofun, rfl, h⟩

/-- No assertion of the channel failed. -/
theorem not_aborted (hreach : (system lib topics H cap).Reachable s) :
    s.taskchan.aborted = false :=
  BoundedBlockingQueue.not_aborted (channelSimulation.reachable hreach)

/-- A handler that was told of a free slot can call `put`. -/
theorem exists_put (hreach : (system lib topics H cap).Reachable s) (hcrashed : s.crashed = false)
    {h : H} {reqmsg : RequestMessage} {resp : List CallResp}
    (hh : s.handler h = .free reqmsg resp) :
    ∃ s', (system lib topics H cap).step s (.put h) = some s' ∧
      s'.taskchan.data = s.taskchan.data ∧
      s'.handler = Function.update s.handler h (.putting reqmsg resp) ∧ s'.crashed = false := by
  have hout : (s.taskchan.pos (.handler h)).within = none := by
    rw [(reachable_inv hreach).handler, hh]
    rfl
  obtain ⟨q, hq⟩ := Monitor.exists_call (not_aborted hreach) hout (.put reqmsg)
  obtain ⟨-, hdata, -⟩ := Monitor.call_runnable hq
  refine ⟨{ s.setHandler h (.putting reqmsg resp) with taskchan := q }, ?_, hdata, rfl, hcrashed⟩
  simp [system, hcrashed, put, hh, hq]

/-- A handler that is awake in its `put` can take the mutex. Then it
sleeps, or has put its message. -/
theorem exists_putSection (hreach : (system lib topics H cap).Reachable s)
    (hcrashed : s.crashed = false) (hnever : NeverWaits s) {h : H} {reqmsg : RequestMessage}
    {resp : List CallResp} (hh : s.handler h = .putting reqmsg resp) :
    ∃ pick s', (system lib topics H cap).step s (.putSection h pick) = some s' ∧
      (¬ NeverWaits s' ∨
        s'.taskchan.data.items = s.taskchan.data.items ++ [reqmsg] ∧
        s'.handler = Function.update s.handler h .idle ∧ s'.crashed = false) := by
  have hput := (reachable_inv hreach).handler_put hh
  have hrun : (s.taskchan.pos (.handler h)).runnable = some (.put reqmsg) :=
    (Monitor.Pos.asleep_or_runnable hput).resolve_left (hnever h _)
  obtain ⟨pick, ⟨q, o⟩, hq⟩ :=
    Monitor.exists_acquire (M := queue RequestMessage cap) (not_aborted hreach) hrun
  cases o with
  | returned r =>
      refine ⟨pick, { s.answer h reqmsg resp Acceptor.success with taskchan := q }, ?_, .inr ?_⟩
      · simp [system, hcrashed, putSection, hh, hq]
      · exact ⟨(BoundedBlockingQueue.put_returned hput rfl hq).2, rfl, hcrashed⟩
  | slept =>
      refine ⟨pick, { s with taskchan := q }, ?_, .inl fun hnever' => ?_⟩
      · simp [system, hcrashed, putSection, hh, hq]
      · cases BoundedBlockingQueue.put_section hput rfl hq with
        | full hfull =>
            refine hnever' h (.put reqmsg) ?_
            show (s.taskchan.move (.handler h) (.asleep (.put reqmsg))).pos (.handler h) = _
            rw [Monitor.State.move_pos, Function.update_self]
  | aborted => cases BoundedBlockingQueue.put_section hput rfl hq

/-- A handler in its `put` sleeps there, or takes a slot, which
another one counted on. In the second case there is one handler and
one slot less, and still too few slots. -/
theorem blocks_of_putting (hreach : (system lib topics H cap).Reachable s)
    (hcrashed : s.crashed = false) (hless : free s < reserved s) {h : H}
    {reqmsg : RequestMessage} {resp : List CallResp} (hh : s.handler h = .putting reqmsg resp)
    (ih : ∀ s' : State H cap, (system lib topics H cap).Reachable s' → s'.crashed = false →
      free s' + 1 = free s → free s' < reserved s' → Blocks lib topics s') :
    Blocks lib topics s := by
  by_cases hnever : NeverWaits s
  · obtain ⟨pick, s', hstep, hsection⟩ := exists_putSection hreach hcrashed hnever hh
    refine Blocks.of_step ?_ (.inr ⟨h, pick, rfl⟩) hstep
    rcases hsection with hwaits | ⟨hitems, hhandler, hcrashed'⟩
    · exact blocks_of_waits hwaits
    · have hfree : free s' + 1 = free s := free_of_put hitems
      have hsum : reserved s' + 1 = reserved s := by
        have hmove := reserved_move hhandler
        rw [hh] at hmove
        exact hmove
      exact ih s' (hreach.step hstep) hcrashed' hfree (by omega)
  · exact blocks_of_waits hnever

/-- With more handlers that were told of a free slot than free slots,
the `put`s that are on their way can send one to sleep. -/
theorem exists_waiting (hreach : (system lib topics H cap).Reachable s)
    (hcrashed : s.crashed = false) (hless : free s < reserved s) : Blocks lib topics s := by
  -- By induction on the free slots, each of which one of the handlers takes.
  induction hn : free s using Nat.strong_induction_on generalizing s with
  | _ n ih =>
      have hrest : ∀ s' : State H cap, (system lib topics H cap).Reachable s' →
          s'.crashed = false → free s' + 1 = free s → free s' < reserved s' →
          Blocks lib topics s' := by
        intro s' hreach' hcrashed' hfree hless'
        exact ih (free s') (by omega) hreach' hcrashed' hless' rfl
      obtain ⟨h, hpos⟩ : ∃ h, reserves (s.handler h) ≠ 0 :=
        exists_of_sum_pos (Nat.zero_lt_of_lt hless)
      cases hh : s.handler h with
      | idle | checking =>
          rw [hh] at hpos
          exact absurd rfl hpos
      | putting reqmsg resp => exact blocks_of_putting hreach hcrashed hless hh hrest
      | free reqmsg resp =>
          -- It calls `put` first, and counts on the slot there as well.
          obtain ⟨s', hstep, hdata, hhandler, hcrashed'⟩ := exists_put hreach hcrashed hh
          have hfree : free s' = free s := free_congr hdata
          have hsum : reserved s' = reserved s := by
            have hmove := reserved_move hhandler
            rw [hh] at hmove
            exact Nat.add_right_cancel hmove
          have hputting : s'.handler h = .putting reqmsg resp := by
            rw [hhandler, Function.update_self]
          refine Blocks.of_step ?_ (.inl ⟨h, rfl⟩) hstep
          refine blocks_of_putting (hreach.step hstep) hcrashed' (by omega) hputting ?_
          rw [hfree]
          exact hrest

/-- The `put`s that are on their way keep a slot for every handler
that counts on one. -/
theorem not_blocks_of_covered (hreach : (system lib topics H cap).Reachable s)
    (hcovered : Covered s) (hnever : NeverWaits s) : ¬ Blocks lib topics s := by
  intro ⟨es, s', hes, hrun, hwaits⟩
  have hinv : (system lib topics H cap).Reachable s' ∧ Covered s' ∧ NeverWaits s' := by
    refine System.run_induct (I := fun s : State H cap =>
      (system lib topics H cap).Reachable s ∧ Covered s ∧ NeverWaits s) ?_
      ⟨hreach, hcovered, hnever⟩ hrun
    intro s e s' he hI h
    obtain ⟨hreach, hcovered, hnever⟩ := hI
    have hstep := (step_cases h).2
    have hspare : Spare s e := by
      rcases hes e he with ⟨h, rfl⟩ | ⟨h, pick, rfl⟩
      · trivial
      · trivial
    exact ⟨hreach.step h, (covered_step (reachable_inv hreach) hcovered hstep).mpr hspare,
      neverWaits_step (reachable_inv hreach) hcovered hnever hstep⟩
  exact hwaits hinv.2.2

/-- The condition leaves out no other run: in a run there is never a
state from which the `put`s that are on their way can send a handler
to sleep exactly when its steps take no slot that a handler counts
on. -/
theorem neverBlocks_iff_spare (lib : Libraries) (topics : Topics) (isRunning : Bool)
    (es : List (Event H)) :
    (system lib topics H cap).Always (fun s => ¬ Blocks lib topics s)
        (initial topics isRunning) es ↔
      (system lib topics H cap).EveryStep Spare (initial topics isRunning) es := by
  have hinit : (system lib topics H cap).Reachable (initial topics isRunning) :=
    .init ⟨isRunning, rfl⟩
  refine System.always_iff_everyStep (I := fun s =>
    (system lib topics H cap).Reachable s)
    (fun s e s' hreach h => hreach.step h) (fun s e s' hreach hnot h => ?_) es hinit
    (not_blocks_of_covered hinit (covered_initial topics isRunning)
      (neverWaits_initial topics isRunning))
  obtain ⟨hcrashed, hstep⟩ := step_cases h
  have hnever : NeverWaits s := by
    by_contra hwaits
    exact hnot (blocks_of_waits hwaits)
  have hcovered : Covered s := by
    by_contra hless
    exact hnot (exists_waiting hreach hcrashed (Nat.lt_of_not_le hless))
  rw [← covered_step (reachable_inv hreach) hcovered hstep]
  constructor
  · intro hnot'
    by_contra hless
    cases hcrashed' : s'.crashed with
    | false => exact hnot' (exists_waiting (hreach.step h) hcrashed' (Nat.lt_of_not_le hless))
    | true =>
        -- A crash changes neither the ring nor the handlers.
        cases hstep with
        | crash => exact hless (covered_congr hcovered rfl rfl)
        | _ => cases hcrashed.symm.trans hcrashed'
  · intro hcovered'
    exact not_blocks_of_covered (hreach.step h) hcovered'
      (neverWaits_step (reachable_inv hreach) hcovered hnever hstep)

/-! ### Two runs -/

/-- The start, and a check of the channel by one handler. -/
def oneCheck (fs : FileSystem) (headers : UnorderedMap String) (body : String) :
    List (Event Bool) :=
  [.start, .setRunning, .serve, .request false fs headers body, .fullSection false none]

/-- One handler that checks a channel with one slot takes no slot of
another one. -/
theorem spare_oneCheck (lib : Libraries) (topics : Topics) (fs : FileSystem)
    (headers : UnorderedMap String) (body : String) :
    (system lib topics Bool 1).EveryStep Spare (initial topics false)
      (oneCheck fs headers body) := by
  intro s₁ h₁
  cases h₁
  refine ⟨trivial, fun s₂ h₂ => ?_⟩
  cases h₂
  refine ⟨trivial, fun s₃ h₃ => ?_⟩
  cases h₃
  refine ⟨trivial, fun s₄ h₄ => ?_⟩
  cases h₄
  refine ⟨trivial, fun s₅ h₅ => ?_⟩
  cases h₅
  exact ⟨fun _ => Nat.one_pos, trivial⟩

/-- `neverWaits_of_spare` at that run. -/
theorem neverWaits_of_spare_oneCheck :
    (system compactLibraries oneTopic Bool 1).Always NeverWaits (initial oneTopic false)
      (oneCheck (requestFile topicAcl) ∅ "request.json") :=
  neverWaits_of_spare
    (spare_oneCheck compactLibraries oneTopic (requestFile topicAcl) ∅ "request.json")

/-- Two handlers check the channel, and then both put their
messages. -/
def twoChecksRun (fs : FileSystem) (headers : UnorderedMap String) (body : String) :
    List (Event Bool) :=
  oneCheck fs headers body ++
    [.request true fs headers body, .fullSection true none, .put false, .put true,
      .putSection false none, .putSection true none]

/-- With one slot, the second of two handlers that were told of it
sleeps, whatever the requests are. -/
theorem twoChecksRun_asleep (lib : Libraries) (topics : Topics) (fs : FileSystem)
    (headers : UnorderedMap String) (body : String) :
    ∃ s, (system lib topics Bool 1).run (initial topics false) (twoChecksRun fs headers body) =
        some s ∧
      s.taskchan.pos (.handler true) = .asleep (.put (receive lib.folly fs headers body).1) :=
  ⟨_, rfl, rfl⟩

/-- Two handlers that were told of the same slot: the second one waits
in its `put`. -/
theorem twoChecks :
    ∃ s, (system compactLibraries oneTopic Bool 1).run (initial oneTopic false)
        (twoChecksRun (requestFile topicAcl) ∅ "request.json") = some s ∧ ¬ NeverWaits s := by
  obtain ⟨s, hrun, hasleep⟩ :=
    twoChecksRun_asleep compactLibraries oneTopic (requestFile topicAcl) ∅ "request.json"
  exact ⟨s, hrun, fun hnever => hnever true _ hasleep⟩

end Bigpipe.Main
