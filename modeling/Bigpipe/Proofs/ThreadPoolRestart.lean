import Bigpipe.Proofs.ThreadPoolCycles

/-!
# `Bigpipe.Proofs.ThreadPoolRestart`: a pool that is used after its first cycle

A call that comes after a `Stop` that comes after a `Start` ends in a
`join` on a thread that is not joinable. `threads_` keeps the threads
of the first cycle, and the next `Stop` begins with the first of them.

That some schedule gets there has to be shown for every list of calls,
so the schedule is built with the list. Between two calls the workers
have not begun, before `Stop` they line up at the mutex of `take`, and
each null task goes to the worker that is joined next. In this
schedule nobody ever sleeps and the queue is empty between two rounds,
which keeps the description of its states short (`Lined`, `Joining`,
`Ready`).

The other half of `cycles_iff`, that one cycle keeps what it promises
in every schedule, is in `Bigpipe.Proofs.ThreadPoolCycles`.

* `exists_started`: the loop of `Start` returns. `exists_stopped`: the
  first `Stop` returns.
* `throws_of_spent`: from there, the next `Stop` throws, be it a call
  or that of the destructor.
* `cycles_iff`: the calls for which a pool keeps what `Cycled` says,
  in every schedule.
* `restart_throws`: a pool that is started and stopped twice.
-/

set_option autoImplicit false

namespace Bigpipe.ThreadPoolCycles

open Bigpipe.Lib
open Bigpipe.BoundedBlockingQueue (queue exists_handover exists_put)
open Bigpipe.ThreadPool (OwnerPc Tid WorkerPc stopNext)

variable {n N : Nat} {C Task : Type} {cap : Nat} {calls : List Call}

/-! ### The loop of `Start` -/

/-- The state after `m` more threads were spawned. Nothing but the
threads and the owner has changed. -/
structure Spawned (m : Nat) (s s' : State N C Task cap) : Prop where
  queue : s'.pool.queue = s.pool.queue
  isRunning : s'.pool.isRunning = s.pool.isRunning
  calls : s'.calls = s.calls
  phase : s'.phase = s.phase
  threads : s'.threads = s.threads ++ List.replicate m true
  old : ∀ j : Fin N, j < s.threads.length → s'.pool.worker j = s.pool.worker j
  new : ∀ j : Fin N, s.threads.length ≤ j → j < s.threads.length + m → s'.pool.worker j = .loop

/-- A thread, and then the others. The induction on the number of
threads goes from the first one on. -/
theorem Spawned.cons {m : Nat} {s s' : State N C Task cap} (hroom : s.threads.length < N) {i : Nat}
    (h : Spawned m { s with
      pool := { s.pool.setWorker ⟨s.threads.length, hroom⟩ .loop with owner := .starting (i + 1) }
      threads := s.threads ++ [true] } s') : Spawned (m + 1) s s' where
  queue := h.queue
  isRunning := h.isRunning
  calls := h.calls
  phase := h.phase
  threads := by
    rw [h.threads, List.replicate_succ, List.append_assoc, List.singleton_append]
  old j hj := by
    have hworker := h.old j (by simp; omega)
    rw [hworker]
    show (s.pool.setWorker _ _).worker j = _
    rw [ThreadPool.State.setWorker_worker, if_neg]
    rintro rfl
    exact Nat.lt_irrefl _ hj
  new j hlo hhi := by
    by_cases hj : (j : Nat) = s.threads.length
    · -- the thread that was spawned first
      rw [h.old j (by simp; omega)]
      show (s.pool.setWorker _ _).worker j = _
      rw [ThreadPool.State.setWorker_worker, if_pos (Fin.ext hj)]
    · exact h.new j (by simp; omega) (by simp; omega)

variable [DecidableEq C] [Fintype C]

/-- A step past `threads_`. -/
theorem reachable_within {s s' : State (n * calls.count .start) C Task cap}
    {e : ThreadPool.Event (n * calls.count .start) C Task}
    (hreach : (system n C Task cap calls).Reachable s) (h : within s e = some s') :
    (system n C Task cap calls).Reachable s' :=
  hreach.step (e := .within e) h

/-- The loop of `Start` spawns the threads that are left, and returns.
The induction is on their number. -/
theorem exists_spawned (m : Nat) {i : Nat} {s : State (n * calls.count .start) C Task cap}
    (hreach : (system n C Task cap calls).Reachable s) (ho : s.pool.owner = .starting i)
    (hm : i + m = n) :
    ∃ s', (system n C Task cap calls).Reachable s' ∧ s'.pool.owner = .started ∧
      Spawned m s s' := by
  induction m generalizing i s with
  | zero =>
      have hi : ¬ i < n := by omega
      have hspawn : spawn n s = some { s with pool := { s.pool with owner := .started } } := by
        simp [spawn, ho, hi]
      refine ⟨_, hreach.step (e := .spawn) hspawn, rfl, ⟨rfl, rfl, rfl, rfl, ?_, ?_, ?_⟩⟩
      · simp
      · exact fun j _ => rfl
      · intro j hlo hhi
        omega
  | succ m ih =>
      have hi : i < n := by omega
      have hroom := spawn_room hreach ho hi
      have hspawn : spawn n s = some { s with
          pool := { s.pool.setWorker ⟨s.threads.length, hroom⟩ .loop with
            owner := .starting (i + 1) }
          threads := s.threads ++ [true] } := by
        simp [spawn, ho, hi, hroom]
      obtain ⟨s', hreach', hstarted, hspawned⟩ :=
        ih (hreach.step (e := .spawn) hspawn) rfl (by omega)
      exact ⟨s', hreach', hstarted, hspawned.cons hroom⟩

/-- The owner is between two calls, or in front of the first. -/
structure Between (s : State N C Task cap) : Prop where
  owner : between s.pool.owner = true
  phase : s.phase = .used

omit [DecidableEq C] [Fintype C] in
/-- The next call is a `Start`. -/
theorem Between.call_start {s : State N C Task cap} {rest : List Call} (h : Between s)
    (hcalls : s.calls = .start :: rest) :
    call s = some { s.start with made := s.made ++ [.start], calls := rest } := by
  simp [call, h.owner, h.phase, hcalls]

omit [DecidableEq C] [Fintype C] in
/-- The next call is a `Stop`. -/
theorem Between.call_stop {s : State N C Task cap} {rest : List Call} (h : Between s)
    (hcalls : s.calls = .stop :: rest) :
    call s = some { s.stop with made := s.made ++ [.stop], calls := rest } := by
  simp [call, h.owner, h.phase, hcalls]

/-- A call of `Start` returns. -/
theorem exists_started {s : State (n * calls.count .start) C Task cap} {rest : List Call}
    (hreach : (system n C Task cap calls).Reachable s) (h : Between s)
    (hcalls : s.calls = .start :: rest) :
    ∃ s', (system n C Task cap calls).Reachable s' ∧ Between s' ∧ s'.calls = rest ∧
      Spawned n { s.start with calls := rest } s' := by
  obtain ⟨s', hreach', hstarted, hspawned⟩ :=
    exists_spawned n (hreach.step (e := .call) (h.call_start hcalls)) rfl (Nat.zero_add n)
  refine ⟨s', hreach', ⟨by rw [hstarted]; rfl, hspawned.phase.trans h.phase⟩, hspawned.calls, ?_⟩
  exact { hspawned with }

/-! ### A `Stop` over a thread that was joined -/

/-- The first thread was joined before, and the `put` of the owner
finds a free slot. Nothing in the program makes the thread joinable
again. -/
structure Spent (s : State N C Task cap) : Prop where
  joined : s.threads[0]? = some false
  aborted : s.pool.queue.aborted = false
  items : s.pool.queue.data.items = []
  outside : s.pool.queue.pos .owner = .outside

omit [DecidableEq C] [Fintype C] in
/-- The threads of another `Start` come after those that were
joined. -/
theorem Spent.spawned {m : Nat} {s s' : State N C Task cap} (h : Spent s)
    (hspawned : Spawned m s s') : Spent s' where
  joined := by
    rw [hspawned.threads, List.getElem?_append_left (List.getElem?_eq_some_iff.mp h.joined).1,
      h.joined]
  aborted := by rw [hspawned.queue, h.aborted]
  items := by rw [hspawned.queue, h.items]
  outside := by rw [hspawned.queue, h.outside]

/-- `Stop` puts the first null task and calls `join` on the first
thread. -/
theorem throws_of_stopNext (hcap : 0 < cap) {s : State (n * calls.count .start) C Task cap}
    (hreach : (system n C Task cap calls).Reachable s) (h : Spent s)
    (ho : s.pool.owner = stopNext s.threads.length 0) :
    ∃ s', (system n C Task cap calls).Reachable s' ∧ s'.thrown = true := by
  have hlength : 0 < s.threads.length := (List.getElem?_eq_some_iff.mp h.joined).1
  have howner : s.pool.owner = .stopPut 0 := ho.trans (if_pos hlength)
  -- The owner puts an empty function; nobody has to take it, as the queue has
  -- room.
  obtain ⟨q, hq⟩ := Monitor.exists_call h.aborted (by rw [h.outside]; rfl)
    (BoundedBlockingQueue.Call.putMove (none : Option Task))
  obtain ⟨hrun, hdata, hab⟩ := Monitor.call_runnable hq
  have hroom : q.data.isFull = false := by
    rw [hdata]
    exact s.pool.queue.data.isFull_eq_false_iff.mpr (by rw [h.items]; exact hcap)
  obtain ⟨pick, q', hq'⟩ := exists_put hab hrun rfl hroom
  have hput : within s .stopPut =
      some { s with pool := { s.pool with queue := q, owner := .stopPutting 0 } } := by
    simp [within, ThreadPool.system, ThreadPool.stopPut, howner, hq]
  have hsection : within { s with pool := { s.pool with queue := q, owner := .stopPutting 0 } }
      (.stopSection pick) =
        some { s with pool := { s.pool with queue := q', owner := .stopJoin 0 } } := by
    simp [within, ThreadPool.system, ThreadPool.stopSection, hq']
  -- The first thread has been joined before, and `Stop` begins with the first
  -- thread.
  have hjoin : join { s with pool := { s.pool with queue := q', owner := .stopJoin 0 } } =
      some { s with
        pool := { s.pool with queue := q', owner := .stopJoin 0 }, thrown := true } := by
    simp [join, h.joined]
  have hreach' := reachable_within (reachable_within hreach hput) hsection
  exact ⟨_, hreach'.step (e := .join) hjoin, rfl⟩

/-- Where the first thread was joined before: a call that is to come,
or the destructor with the flag set, ends in a `Stop` that throws. A
`Start` in between adds threads behind the first one and does not
help. -/
theorem throws_of_spent (hcap : 0 < cap) {rest : List Call}
    {s : State (n * calls.count .start) C Task cap}
    (hreach : (system n C Task cap calls).Reachable s) (hbetween : Between s) (h : Spent s)
    (hcalls : s.calls = rest) (hmore : rest ≠ [] ∨ s.pool.isRunning = true) :
    ∃ s', (system n C Task cap calls).Reachable s' ∧ s'.thrown = true := by
  induction rest generalizing s with
  | nil =>
      have hrun : s.pool.isRunning = true := by
        rcases hmore with hne | hrun
        · exact absurd rfl hne
        · exact hrun
      have hdestroy : destroy s = some { s.stop with phase := .destroying } := by
        simp [destroy, hbetween.owner, hbetween.phase, hcalls, hrun]
      exact throws_of_stopNext hcap (hreach.step (e := .destroy) hdestroy) { h with } rfl
  | cons c rest ih =>
      cases c with
      | stop =>
          have hreach' := hreach.step (e := Event.call) (hbetween.call_stop hcalls)
          exact throws_of_stopNext hcap hreach' { h with } rfl
      | start =>
          obtain ⟨s', hreach', hbetween', hcalls', hspawned⟩ :=
            exists_started hreach hbetween hcalls
          have hspent : Spent { s.start with calls := rest } := { h with }
          exact ih hreach' hbetween' (hspent.spawned hspawned) hcalls' (.inr hspawned.isRunning)

/-! ### A round of the first `Stop` -/

/-- The events between the head of the loop of `Stop` and its `join`,
in the schedule of this module: the null task goes to the worker `i`,
which runs it and leaves. -/
def round (i : Fin N) : List (ThreadPool.Event N C Task) :=
  [.stopPut, .stopSection none, .workerSection i none, .runTask i, .test i]

/-- Where nobody sleeps, the queue is empty and the worker `i` is at
the mutex of `take`, the round ends with that worker left and the
queue as it was. So the next round finds what this one did. -/
theorem exists_round (hcap : 0 < cap) {p : ThreadPool.State N C Task cap} {k : Nat} {i : Fin N}
    (ho : p.owner = .stopPut k) (hrun : p.isRunning = false) (hw : p.worker i = .taking)
    (hawake : ∀ t m, p.queue.pos t ≠ .asleep m) (hab : p.queue.aborted = false)
    (hempty : p.queue.data.items = []) (howner : p.queue.pos .owner = .outside)
    (hworker : p.queue.pos (.worker i) = .entering .take) :
    ∃ q, (ThreadPool.system N C Task cap).run p (round i) =
        some { p.setWorker i .left with queue := q, owner := .stopJoin k } ∧
      q.aborted = false ∧ q.data.items = [] ∧
      q.pos = Function.update p.queue.pos (.worker i) .outside := by
  obtain ⟨q₁, q₂, q₃, hq₁, hq₂, hq₃, hab₃, hitems₃, hpos₃⟩ :=
    exists_handover hcap hawake hab hempty (m := .putMove (none : Option Task)) rfl howner hworker
  refine ⟨q₃, ?_, hab₃, hitems₃, hpos₃⟩
  -- The five steps of the round: `put`'s call and section, then the worker
  -- takes the empty function, runs it and sees the flag.
  have hput : (ThreadPool.system N C Task cap).step p .stopPut =
      some { p with queue := q₁, owner := .stopPutting k } := by
    simp [ThreadPool.system, ThreadPool.stopPut, ho, hq₁]
  have hsection : (ThreadPool.system N C Task cap).step
      { p with queue := q₁, owner := .stopPutting k } (.stopSection none) =
        some { p with queue := q₂, owner := .stopJoin k } := by
    simp [ThreadPool.system, ThreadPool.stopSection, hq₂]
  have htake : (ThreadPool.system N C Task cap).step
      { p with queue := q₂, owner := .stopJoin k } (.workerSection i none) =
        some { p.setWorker i (.todo none) with queue := q₃, owner := .stopJoin k } := by
    simp [ThreadPool.system, ThreadPool.workerSection, hw, hq₃, ThreadPool.State.setWorker]
  have htask : (ThreadPool.system N C Task cap).step
      { p.setWorker i (.todo none) with queue := q₃, owner := .stopJoin k } (.runTask i) =
        some { p.setWorker i .loop with queue := q₃, owner := .stopJoin k } := by
    simp [ThreadPool.system, ThreadPool.runTask, ThreadPool.State.setWorker]
  have hleave : (ThreadPool.system N C Task cap).step
      { p.setWorker i .loop with queue := q₃, owner := .stopJoin k } (.test i) =
        some { p.setWorker i .left with queue := q₃, owner := .stopJoin k } := by
    simp [ThreadPool.system, ThreadPool.test, ThreadPool.State.setWorker, hrun]
  rw [round, System.run_cons hput, System.run_cons hsection, System.run_cons htake,
    System.run_cons htask, System.run_singleton hleave]

/-- A step of one cycle that goes past `threads_`. -/
theorem within_of_step {s : State N C Task cap} {e : ThreadPool.Event N C Task}
    {p : ThreadPool.State N C Task cap}
    (h : (ThreadPool.system N C Task cap).step s.pool e = some p) (hstart : e ≠ .start)
    (hspawn : e ≠ .spawn) (hstop : e ≠ .stop) (hjoin : e ≠ .join) :
    within s e = some { s with pool := p } := by
  cases e with
  | start => exact absurd rfl hstart
  | spawn => exact absurd rfl hspawn
  | stop => exact absurd rfl hstop
  | join => exact absurd rfl hjoin
  | _ => simp [within, h]

/-- The round is a run of the pool. Its events are steps of the pool
within the object. -/
theorem reachable_round {s : State (n * calls.count .start) C Task cap}
    {i : Fin (n * calls.count .start)} {p : ThreadPool.State (n * calls.count .start) C Task cap}
    (hreach : (system n C Task cap calls).Reachable s)
    (h : (ThreadPool.system (n * calls.count .start) C Task cap).run s.pool (round i) = some p) :
    (system n C Task cap calls).Reachable { s with pool := p } := by
  have hpast : ∀ e ∈ (round i : List (ThreadPool.Event (n * calls.count .start) C Task)),
      e ≠ .start ∧ e ≠ .spawn ∧ e ≠ .stop ∧ e ≠ .join := by
    simp [round]
  refine System.run_induct (I := fun p => (system n C Task cap calls).Reachable
    { s with pool := p }) ?_ hreach h
  intro p e p' he ih hs
  obtain ⟨hstart, hspawn, hstop, hjoin⟩ := hpast e he
  exact reachable_within ih (within_of_step (s := { s with pool := p }) hs hstart hspawn hstop
    hjoin)

/-! ### The workers in a line -/

/-- The positions where the workers from `lo` up to `hi` are at the
mutex of `take`, and nobody else is in a call. -/
def lineUp (lo hi : Nat) : Tid N C → Monitor.Pos (BoundedBlockingQueue.Call (Option Task))
  | .worker j => if lo ≤ j ∧ j < hi then .entering .take else .outside
  | .caller _ | .owner => .outside

omit [DecidableEq C] [Fintype C] in
theorem lineUp_ne_asleep {lo hi : Nat} (t : Tid N C)
    (m : BoundedBlockingQueue.Call (Option Task)) : lineUp lo hi t ≠ .asleep m := by
  cases t with
  | worker j =>
      simp only [lineUp]
      split
      · nofun
      · nofun
  | caller c => nofun
  | owner => nofun

omit [Fintype C] in
/-- One worker comes to the line, or goes from it. -/
theorem update_lineUp {lo hi lo' hi' : Nat} {i : Fin N}
    {pos : Monitor.Pos (BoundedBlockingQueue.Call (Option Task))}
    (hpos : lineUp lo' hi' (.worker i : Tid N C) = pos)
    (hsame : ∀ j : Nat, j ≠ i → (lo' ≤ j ∧ j < hi' ↔ lo ≤ j ∧ j < hi)) :
    Function.update (lineUp lo hi) (.worker i : Tid N C) pos = lineUp lo' hi' := by
  rw [Function.update_eq_iff]
  refine ⟨hpos.symm, fun t ht => ?_⟩
  cases t with
  | worker j =>
      have hj : (j : Nat) ≠ i := fun heq => ht (by rw [Fin.ext heq])
      simp only [lineUp, hsame j hj]
  | caller c => rfl
  | owner => rfl

omit [Fintype C] in
/-- The next worker comes to the mutex. -/
theorem update_lineUp_entering {lo hi : Nat} (hlo : lo ≤ hi) (hhi : hi < N) :
    Function.update (lineUp lo hi : Tid N C → Monitor.Pos (BoundedBlockingQueue.Call (Option Task)))
      (.worker ⟨hi, hhi⟩) (.entering .take) = lineUp lo (hi + 1) := by
  refine update_lineUp (if_pos ⟨hlo, Nat.lt_succ_self hi⟩) fun j hj => ?_
  simp only at hj
  omega

omit [Fintype C] in
/-- The first worker has gone. -/
theorem update_lineUp_outside {lo hi : Nat} (hlo : lo < N) :
    Function.update (lineUp lo hi : Tid N C → Monitor.Pos (BoundedBlockingQueue.Call (Option Task)))
      (.worker ⟨lo, hlo⟩) .outside = lineUp (lo + 1) hi := by
  refine update_lineUp (if_neg fun h => Nat.not_succ_le_self lo h.1) fun j hj => ?_
  simp only at hj
  omega

/-- The queue is empty, and the workers from `lo` up to `hi` are at
the mutex of `take`. They come to the line from above and go from it
below. -/
structure Lined (lo hi : Nat) (p : ThreadPool.State N C Task cap) : Prop where
  aborted : p.queue.aborted = false
  items : p.queue.data.items = []
  pos : p.queue.pos = lineUp lo hi
  taking : ∀ j : Fin N, lo ≤ j → j < hi → p.worker j = .taking

/-- The owner is where it was, with the same threads and the same
calls in front of it. Only the workers and the queue have moved. -/
structure SameOwner (s s' : State N C Task cap) : Prop where
  owner : s'.pool.owner = s.pool.owner
  isRunning : s'.pool.isRunning = s.pool.isRunning
  threads : s'.threads = s.threads
  calls : s'.calls = s.calls
  phase : s'.phase = s.phase

/-- While the flag is set, the workers that are at the test of it come
to the mutex of `take`. This has to happen before `Stop` clears the
flag, or they would leave without the null tasks. -/
theorem exists_lined (m : Nat) {s : State (n * calls.count .start) C Task cap}
    (hreach : (system n C Task cap calls).Reachable s) (hrun : s.pool.isRunning = true)
    (hlined : Lined 0 0 s.pool) (hm : m ≤ s.threads.length)
    (hloop : ∀ j : Fin (n * calls.count .start), j < s.threads.length → s.pool.worker j = .loop) :
    ∃ s', (system n C Task cap calls).Reachable s' ∧ SameOwner s s' ∧ Lined 0 m s'.pool ∧
      ∀ j : Fin (n * calls.count .start), m ≤ j → j < s.threads.length →
        s'.pool.worker j = .loop := by
  -- By induction on `m`: one more worker tests the flag and calls `take`.
  induction m with
  | zero => exact ⟨s, hreach, ⟨rfl, rfl, rfl, rfl, rfl⟩, hlined, fun j _ => hloop j⟩
  | succ m ih =>
      obtain ⟨s', hreach', hsame, hlined', hloop'⟩ := ih (by omega)
      have htotal := (reachable_books hreach).total
      have hmN : m < n * calls.count .start := by omega
      -- The queue is not aborted and the worker is outside, so the call is
      -- granted.
      have hcall : Monitor.call s'.pool.queue (.worker ⟨m, hmN⟩) .take =
          some (s'.pool.queue.move (.worker ⟨m, hmN⟩) (.entering .take)) := by
        have hpos : s'.pool.queue.pos (.worker ⟨m, hmN⟩) = .outside := by
          rw [hlined'.pos]
          exact if_neg (by simp)
        rw [Monitor.call, hlined'.aborted, hpos]
      have htest : within s' (.test ⟨m, hmN⟩) = some { s' with
          pool := { s'.pool.setWorker ⟨m, hmN⟩ .taking with
            queue := s'.pool.queue.move (.worker ⟨m, hmN⟩) (.entering .take) } } := by
        have hw := hloop' ⟨m, hmN⟩ (Nat.le_refl m) hm
        simp [within, ThreadPool.system, ThreadPool.test, hw, hsame.isRunning, hrun, hcall]
      refine ⟨_, reachable_within hreach' htest,
        ⟨hsame.owner, hsame.isRunning, hsame.threads, hsame.calls, hsame.phase⟩,
        ⟨hlined'.aborted, hlined'.items, ?_, fun j _ hj => ?_⟩, fun j hj hlt => ?_⟩
      · rw [← update_lineUp_entering (Nat.zero_le m) hmN, ← hlined'.pos]
        rfl
      · show (s'.pool.setWorker _ _).worker j = _
        rw [ThreadPool.State.setWorker_worker]
        split
        · rfl
        · rename_i hne
          have hjm : (j : Nat) ≠ m := fun heq => hne (Fin.ext heq)
          exact hlined'.taking j (Nat.zero_le _) (by omega)
      · show (s'.pool.setWorker _ _).worker j = _
        rw [ThreadPool.State.setWorker_worker, if_neg]
        · exact hloop' j (by omega) hlt
        · rintro rfl
          exact Nat.not_succ_le_self _ hj

/-! ### The first `Stop` -/

/-- The first `Stop` has joined the threads below `i`, and the workers
of the others are in the line. It is the invariant of the rounds. -/
structure Joining (rest : List Call) (i : Nat) (s : State N C Task cap) : Prop where
  owner : s.pool.owner = stopNext s.threads.length i
  calls : s.calls = rest
  phase : s.phase = .used
  isRunning : s.pool.isRunning = false
  threads : ∀ j, j < s.threads.length → s.threads[j]? = some (decide (i ≤ j))
  lined : Lined i s.threads.length s.pool

/-- The next round: the empty function is put, the worker in the line
takes it and leaves, and its thread is joined. -/
theorem exists_joined (hcap : 0 < cap) {rest : List Call} {i : Nat}
    {s : State (n * calls.count .start) C Task cap}
    (hreach : (system n C Task cap calls).Reachable s) (h : Joining rest i s)
    (hi : i < s.threads.length) :
    ∃ s', (system n C Task cap calls).Reachable s' ∧ Joining rest (i + 1) s' ∧
      s'.threads.length = s.threads.length := by
  have htotal := (reachable_books hreach).total
  have hiN : i < n * calls.count .start := by omega
  obtain ⟨q, hround, hab, hitems, hpos⟩ := exists_round hcap (p := s.pool) (i := ⟨i, hiN⟩)
    (h.owner.trans (if_pos hi)) h.isRunning (h.lined.taking _ (Nat.le_refl i) hi)
    (by rw [h.lined.pos]; exact lineUp_ne_asleep) h.lined.aborted h.lined.items
    (by rw [h.lined.pos]; rfl) (by rw [h.lined.pos]; exact if_pos ⟨Nat.le_refl i, hi⟩)
  -- The worker has left, so its thread can be joined; `threads` still has it
  -- as joinable.
  have hjoin : join { s with
      pool := { s.pool.setWorker ⟨i, hiN⟩ .left with queue := q, owner := .stopJoin i } } =
      some { s with
        pool := { s.pool.setWorker ⟨i, hiN⟩ .left with
          queue := q, owner := stopNext s.threads.length (i + 1) }
        threads := s.threads.set i false
        joined := s.joined ++ [i] } := by
    simp [join, h.threads i hi, hiN, ThreadPool.State.setWorker]
  have hlength : (s.threads.set i false).length = s.threads.length := List.length_set
  -- What `Joining` says at `i` holds again at `i + 1`.
  refine ⟨_, (reachable_round hreach hround).step (e := .join) hjoin,
    ⟨?_, h.calls, h.phase, h.isRunning, fun j hj => ?_, hab, hitems, ?_, fun j hlo hhi => ?_⟩,
    hlength⟩
  · show stopNext _ _ = stopNext (s.threads.set i false).length (i + 1)
    rw [hlength]
  · show (s.threads.set i false)[j]? = _
    rw [List.getElem?_set]
    split
    · rename_i hij
      simp [hij]
    · rename_i hij
      rw [h.threads j (hlength ▸ hj)]
      congr 2
      exact propext (by omega)
  · show q.pos = lineUp (i + 1) (s.threads.set i false).length
    rw [hpos, h.lined.pos, update_lineUp_outside, hlength]
  · show (s.pool.setWorker _ _).worker j = _
    rw [ThreadPool.State.setWorker_worker, if_neg]
    · exact h.lined.taking j (by omega) (hlength ▸ hhi)
    · rintro rfl
      exact Nat.not_succ_le_self _ hlo

/-- The loop of the first `Stop` returns, round by round. The
induction is on the number of rounds that are left. -/
theorem exists_joined_all (hcap : 0 < cap) {rest : List Call} (m : Nat) {i : Nat}
    {s : State (n * calls.count .start) C Task cap}
    (hreach : (system n C Task cap calls).Reachable s) (h : Joining rest i s)
    (hm : i + m = s.threads.length) :
    ∃ s', (system n C Task cap calls).Reachable s' ∧ Joining rest s'.threads.length s' ∧
      s'.threads.length = s.threads.length := by
  induction m generalizing i s with
  | zero =>
      obtain rfl : i = s.threads.length := hm
      exact ⟨s, hreach, h, rfl⟩
  | succ m ih =>
      obtain ⟨s₁, hreach₁, h₁, hlength₁⟩ := exists_joined hcap hreach h (by omega)
      obtain ⟨s', hreach', h', hlength'⟩ := ih hreach₁ h₁ (by omega)
      exact ⟨s', hreach', h', hlength'.trans hlength₁⟩

/-- The owner is between two calls of the first cycle, and no worker
has begun. -/
structure Ready (s : State N C Task cap) : Prop where
  between : Between s
  joinable : ∀ b ∈ s.threads, b = true
  lined : Lined 0 0 s.pool
  loop : ∀ j : Fin N, j < s.threads.length → s.pool.worker j = .loop
  isRunning : s.threads ≠ [] → s.pool.isRunning = true

omit [DecidableEq C] [Fintype C] in
/-- `Stop` is called with the workers in the line. They have tested
the flag before the call, so each of them waits for a task. -/
theorem Ready.joining {rest : List Call} {s s' : State N C Task cap} (h : Ready s)
    (hsame : SameOwner s s') (hlined : Lined 0 s.threads.length s'.pool) :
    Joining rest 0 { s'.stop with made := s'.made ++ [.stop], calls := rest } where
  owner := rfl
  calls := rfl
  phase := hsame.phase.trans h.between.phase
  isRunning := rfl
  threads := by
    intro (j : Nat) (hj : j < s'.threads.length)
    have hall : ∀ b ∈ s'.threads, b = true := by
      rw [hsame.threads]
      exact h.joinable
    show s'.threads[j]? = some (decide (0 ≤ j))
    rw [List.getElem?_eq_getElem hj, hall _ (List.getElem_mem hj)]
    simp
  lined := by
    refine ⟨hlined.aborted, hlined.items, ?_, fun j hlo hhi => ?_⟩
    · show s'.pool.queue.pos = lineUp 0 s'.threads.length
      rw [hlined.pos, hsame.threads]
    · exact hlined.taking j hlo (hsame.threads ▸ hhi)

omit [DecidableEq C] [Fintype C] in
/-- The first `Stop` has joined all threads. -/
theorem Joining.spent {rest : List Call} {s : State N C Task cap}
    (h : Joining rest s.threads.length s) (hpos : 0 < s.threads.length) : Between s ∧ Spent s := by
  have howner : s.pool.owner = .stopped := h.owner.trans (if_neg (Nat.lt_irrefl _))
  refine ⟨⟨by rw [howner]; rfl, h.phase⟩, ⟨?_, h.lined.aborted, h.lined.items, ?_⟩⟩
  · rw [h.threads 0 hpos]
    simp [Nat.ne_of_gt hpos]
  · rw [h.lined.pos]
    rfl

/-- The first `Stop` after a `Start` returns. This is the run in which
all workers come to `take` before the flag is cleared. -/
theorem exists_stopped (hcap : 0 < cap) {rest : List Call}
    {s : State (n * calls.count .start) C Task cap}
    (hreach : (system n C Task cap calls).Reachable s) (h : Ready s) (hne : s.threads ≠ [])
    (hcalls : s.calls = .stop :: rest) :
    ∃ s', (system n C Task cap calls).Reachable s' ∧ Between s' ∧ Spent s' ∧ s'.calls = rest := by
  obtain ⟨s₁, hreach₁, hsame, hlined, -⟩ := exists_lined s.threads.length hreach (h.isRunning hne)
    h.lined (Nat.le_refl _) h.loop
  have hbetween : Between s₁ :=
    ⟨by rw [hsame.owner, h.between.owner], hsame.phase.trans h.between.phase⟩
  have hcall := hbetween.call_stop (hsame.calls.trans hcalls)
  obtain ⟨s', hreach', h', hlength⟩ := exists_joined_all hcap s₁.threads.length
    (hreach₁.step (e := .call) hcall) (h.joining hsame hlined) (Nat.zero_add _)
  have hpos : 0 < s'.threads.length := by
    rw [hlength]
    show 0 < s₁.threads.length
    rw [hsame.threads]
    exact List.length_pos_iff.mpr hne
  obtain ⟨hbetween', hspent⟩ := h'.spent hpos
  exact ⟨s', hreach', hbetween', hspent, h'.calls⟩

/-! ### The calls that lead to a second `Stop` -/

/-- No call comes after a `Stop` that comes after a `Start`, where
`begun` says that a `Start` came in front. With it the induction on
the calls can forget those that were made. -/
def CycleFrom (begun : Prop) (calls : List Call) : Prop :=
  ∀ pre post, calls = pre ++ .stop :: post → begun ∨ .start ∈ pre → post = []

theorem cycleFrom_nil (begun : Prop) : CycleFrom begun [] := by
  intro pre post heq _
  cases pre <;> cases heq

/-- After a `Start`. -/
theorem cycleFrom_start {begun : Prop} {rest : List Call} (h : CycleFrom True rest) :
    CycleFrom begun (.start :: rest) := by
  intro pre post heq _
  cases pre with
  | nil => cases heq
  | cons c pre =>
      cases heq
      exact h pre post rfl (.inl trivial)

/-- After a `Stop` that comes after no `Start`. It joins nothing, and
the rest of the calls may still be a cycle. -/
theorem cycleFrom_stop {begun : Prop} (hbegun : ¬ begun) {rest : List Call}
    (h : CycleFrom begun rest) : CycleFrom begun (.stop :: rest) := by
  intro pre post heq hstart
  cases pre with
  | nil =>
      rcases hstart with hstart | hmem
      · exact absurd hstart hbegun
      · cases hmem
  | cons c pre =>
      cases heq
      refine h pre post rfl (hstart.imp_right fun hmem => ?_)
      rcases List.mem_cons.mp hmem with hc | hmem
      · cases hc
      · exact hmem

/-- After the last `Stop`. -/
theorem cycleFrom_stop_nil (begun : Prop) : CycleFrom begun [.stop] := by
  intro pre post heq _
  cases pre with
  | nil =>
      cases heq
      rfl
  | cons c pre =>
      obtain ⟨-, hnil⟩ := List.cons.inj heq
      simp at hnil

omit [DecidableEq C] [Fintype C] in
/-- A `Start` has returned, and its workers have not begun either. The
threads of an earlier `Start` are still in front of theirs. -/
theorem Ready.spawned {m : Nat} {rest : List Call} {s s' : State N C Task cap} (h : Ready s)
    (hspawned : Spawned m { s.start with calls := rest } s') (hbetween : Between s') :
    Ready s' where
  between := hbetween
  joinable b hb := by
    rw [hspawned.threads] at hb
    rcases List.mem_append.mp hb with hb | hb
    · exact h.joinable b hb
    · exact List.eq_of_mem_replicate hb
  lined := by
    have hqueue : s'.pool.queue = s.pool.queue := hspawned.queue
    refine ⟨?_, ?_, ?_, nofun⟩
    · rw [hqueue, h.lined.aborted]
    · rw [hqueue, h.lined.items]
    · rw [hqueue, h.lined.pos]
  loop j hj := by
    by_cases hold : j < s.threads.length
    · exact (hspawned.old j hold).trans (h.loop j hold)
    · refine hspawned.new j (Nat.le_of_not_lt hold) ?_
      rw [hspawned.threads] at hj
      simpa using hj
  isRunning _ := hspawned.isRunning

omit [DecidableEq C] [Fintype C] in
/-- A `Stop` of a pool on which nothing was started has nothing to
join. -/
theorem Ready.stop {rest : List Call} {s : State N C Task cap} (h : Ready s)
    (hnone : s.threads = []) :
    Ready { s.stop with made := s.made ++ [.stop], calls := rest } := by
  refine { h with between := ⟨?_, h.between.phase⟩, lined := { h.lined with }
                  isRunning := fun hthreads => absurd hnone hthreads }
  show ThreadPoolCycles.between (stopNext s.threads.length 0) = true
  rw [hnone]
  rfl

/-- A pool with workers whose calls are not one cycle comes to a
`join` that throws. The induction is on the calls that are to come. -/
theorem exists_thrown (hcap : 0 < cap) (hn : 0 < n) {rest : List Call}
    {s : State (n * calls.count .start) C Task cap}
    (hreach : (system n C Task cap calls).Reachable s) (h : Ready s) (hcalls : s.calls = rest)
    (hmore : ¬ CycleFrom (s.threads ≠ []) rest) :
    ∃ s', (system n C Task cap calls).Reachable s' ∧ s'.thrown = true := by
  -- By induction on the calls left. A `Start` or a `Stop` that is still
  -- within one cycle leads on; the first call beyond it throws.
  induction rest generalizing s with
  | nil => exact absurd (cycleFrom_nil _) hmore
  | cons c rest ih =>
      cases c with
      | start =>
          obtain ⟨s', hreach', hbetween, hcalls', hspawned⟩ :=
            exists_started hreach h.between hcalls
          have hne : s'.threads ≠ [] := by
            rw [hspawned.threads]
            simp
            omega
          refine ih hreach' (h.spawned hspawned hbetween) hcalls' fun hcycle => hmore ?_
          exact cycleFrom_start (by simpa [hne] using hcycle)
      | stop =>
          -- A `Stop` of a pool without threads joins nothing.
          by_cases hne : s.threads = []
          · have hreach' := hreach.step (e := Event.call) (h.between.call_stop hcalls)
            refine ih hreach' (h.stop hne) rfl fun hcycle => hmore ?_
            exact cycleFrom_stop (not_not.mpr hne) hcycle
          · obtain ⟨s', hreach', hbetween, hspent, hcalls'⟩ :=
              exists_stopped hcap hreach h hne hcalls
            refine throws_of_spent hcap hreach' hbetween hspent hcalls' (.inl ?_)
            rintro rfl
            exact hmore (cycleFrom_stop_nil _)

omit [DecidableEq C] [Fintype C] in
/-- In front of the first call there is no worker, and nothing has
been put. -/
theorem ready_initial : Ready (initial calls : State N C Task cap) where
  between := ⟨rfl, rfl⟩
  joinable := nofun
  lined := by
    refine ⟨rfl, rfl, ?_, nofun⟩
    funext t
    cases t with
    | worker j =>
        rw [lineUp, if_neg (by omega)]
        rfl
    | caller c => rfl
    | owner => rfl
  loop := nofun
  isRunning hne := absurd rfl hne

/-- For every pool with room in its queue and all calls of its owner:
in every state of every schedule, with callers or without, `join` was
only called on joinable threads, every thread was joined exactly once
when the pool is destroyed, no worker is alive after `Stop`, and
`maxThreads` workers are after such a `Start`, exactly where there are
no workers at all, or where no call comes after a `Stop` that comes
after a `Start`.

A `Stop` on a pool that was never started is harmless, and so is a
second `Start` before the `Stop`: it adds threads, and all of them are
joined. -/
theorem cycles_iff (hcap : 0 < cap) (calls : List Call) :
    (∀ s, (system n C Task cap calls).Reachable s → Cycled n s) ↔ n = 0 ∨ OneCycle calls := by
  constructor
  · intro hall
    by_contra hnot
    obtain ⟨hn, hmore⟩ := not_or.mp hnot
    have hthrows : ∃ s, (system n C Task cap calls).Reachable s ∧ s.thrown = true := by
      refine exists_thrown hcap (Nat.pos_of_ne_zero hn) (.init rfl) ready_initial rfl ?_
      intro hcycle
      exact hmore fun pre post heq hmem => hcycle pre post heq (.inr hmem)
    obtain ⟨s, hreach, hthrown⟩ := hthrows
    cases hthrown.symm.trans (hall s hreach).joinable
  · rintro (rfl | hone) s hreach
    · exact cycled_of_zero hreach
    · exact cycled_of_oneCycle hone hreach

/-- The calls of an owner that stops too early, starts twice and
stops. -/
def oneCycle : List Call :=
  [.stop, .start, .start, .stop]

/-- `cycles_iff` for these calls on a pool of two workers. -/
theorem cycles_iff_oneCycle :
    OneCycle oneCycle ∧ ∀ s, (system 2 Unit Nat 1 oneCycle).Reachable s → Cycled 2 s := by
  have hone : OneCycle oneCycle := by
    intro pre post heq hmem
    -- The first `Stop` has no `Start` in front, and the second is the last
    -- call.
    match pre with
    | [] => cases hmem
    | [_] => cases heq
    | [_, _] => cases heq
    | [_, _, _] =>
        cases heq
        rfl
    | _ :: _ :: _ :: _ :: pre => simp [oneCycle] at heq
  exact ⟨hone, (cycles_iff (by decide) oneCycle).mpr (.inr hone)⟩

/-- The calls of an owner that starts a pool again. -/
def twoCycles : List Call :=
  [.start, .stop, .start, .stop]

/-- The worker of the first cycle. -/
def firstWorker : Fin (1 * twoCycles.count .start) :=
  ⟨0, by decide⟩

/-- A pool of one worker: in the first cycle the worker takes the null
task of `Stop` and leaves. In the second `Stop`, the first thread to
join is that worker again. -/
def restart : List (Event (1 * twoCycles.count .start) Unit Nat) :=
  [.call, .spawn, .spawn, .within (.test firstWorker), .call, .within .stopPut,
   .within (.stopSection none), .within (.workerSection firstWorker none),
   .within (.runTask firstWorker), .within (.test firstWorker), .join, .call, .spawn, .spawn, .call,
   .within .stopPut, .within (.stopSection none), .join]

/-- The second `Stop` calls `join` on a thread that is not
joinable. -/
theorem restart_throws :
    ∃ s, (system 1 Unit Nat 1 twoCycles).run (initial twoCycles) restart = some s ∧
      s.thrown = true ∧ ¬ Cycled 1 s := by
  have hrun : ((system 1 Unit Nat 1 twoCycles).run (initial twoCycles) restart).map State.thrown =
      some true := by decide
  obtain ⟨s, hs, hthrown⟩ := Option.map_eq_some_iff.mp hrun
  refine ⟨s, hs, hthrown, fun h => ?_⟩
  cases hthrown.symm.trans h.joinable

end Bigpipe.ThreadPoolCycles
