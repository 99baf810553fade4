import Bigpipe.Base.ThreadPoolCycles
import Bigpipe.Proofs.ThreadPool
import Mathlib.Data.Fintype.Fin

/-!
# `Bigpipe.Proofs.ThreadPoolCycles`: a pool that is started and stopped again

`Stop` joins every thread of `threads_` and removes none, so a thread
that one `Stop` has joined is there for the next one, and for the
`Stop` of the destructor.

The model of one cycle is used as it is. A pool that is used again is
a state of it with the list of `threads_`, the calls that are to come
and the phase of the object around it. Most steps are steps of one
cycle that do not look at `threads_`, and `Frame` says what they leave
alone, so that the invariants here are proved for one such step
instead of eight.

The owner of one cycle goes from stage to stage: unused, running,
stopping, stopped. Each stage says what `threads_` is like, and the
promise `Cycled` can be read off each.

* `Step` and `step_cases`: what a step can do. `Frame`: what the
  workers and the callers cannot.
* `spawn_room`: the model has a name for every thread that `Start`
  spawns.
* `Cycled`: what the calls promise. `OneCycle`: the calls that use a
  pool once.
* `stage_step` and `cycled_of_oneCycle`: where the calls are one
  cycle, the owner goes from stage to stage, and every stage keeps the
  promise.
-/

set_option autoImplicit false

namespace Bigpipe.ThreadPoolCycles

open Bigpipe.Lib
open Bigpipe.ThreadPool (OwnerPc WorkerPc stopNext)

variable {n N : Nat} {C Task : Type} {cap : Nat} {s s' : State N C Task cap}
  {e : Event N C Task} {calls : List Call}

/-! ### What a step can do -/

/-- What a step past `threads_` leaves alone: the flag, the workers
that are not spawned, the workers that have left, and the loop of the
owner. A worker leaves only where the flag is cleared. -/
structure Frame (p p' : ThreadPool.State N C Task cap) : Prop where
  isRunning : p'.isRunning = p.isRunning
  owner : p'.owner = p.owner ∨
    ∃ i, p.owner.stopIndex = some i ∧ p'.owner.stopIndex = some i
  unborn : ∀ j, p'.worker j = .unborn ↔ p.worker j = .unborn
  left : ∀ j, p.worker j = .left → p'.worker j = .left
  stays : p.isRunning = true → ∀ j, p'.worker j = .left → p.worker j = .left

/-- A step that touches neither the flag nor the workers. -/
theorem Frame.of_worker_eq {p p' : ThreadPool.State N C Task cap}
    (hrun : p'.isRunning = p.isRunning) (hworker : p'.worker = p.worker)
    (howner : p'.owner = p.owner ∨
      ∃ i, p.owner.stopIndex = some i ∧ p'.owner.stopIndex = some i) : Frame p p' where
  isRunning := hrun
  owner := howner
  unborn j := by rw [hworker]
  left j h := by rw [hworker, h]
  stays _ j h := by rwa [hworker] at h

/-- A step of a worker inside `RunInLoop`. It leaves the loop only
where the flag is clear, and a worker that has left takes no step. -/
theorem Frame.of_setWorker {p p' : ThreadPool.State N C Task cap} {i : Fin N} {pc : WorkerPc Task}
    (hrun : p'.isRunning = p.isRunning) (howner : p'.owner = p.owner)
    (hworker : p'.worker = (p.setWorker i pc).worker) (hborn : p.worker i ≠ .unborn)
    (hleft : p.worker i ≠ .left) (hpc : pc ≠ .unborn)
    (hstays : pc = .left → p.isRunning = false) : Frame p p' where
  isRunning := hrun
  owner := .inl howner
  unborn j := by
    rw [hworker, ThreadPool.State.setWorker_worker]
    split
    · rename_i hji
      rw [hji]
      exact iff_of_false hpc hborn
    · exact Iff.rfl
  left j h := by
    rw [hworker, ThreadPool.State.setWorker_worker]
    split
    · rename_i hji
      rw [hji] at h
      exact absurd h hleft
    · exact h
  stays hrunning j h := by
    rw [hworker, ThreadPool.State.setWorker_worker] at h
    split at h
    · rw [hstays h] at hrunning
      cases hrunning
    · exact h

/-- The steps of one cycle that go past `threads_`. What is excluded
here is what `Start`, `Stop` and `join` do themselves. -/
theorem frame_of_step [DecidableEq C] [Fintype C] {p p' : ThreadPool.State N C Task cap}
    {e : ThreadPool.Event N C Task} (h : ThreadPool.Step p e p') (hstart : e ≠ .start)
    (hspawn : e ≠ .spawn) (hstop : e ≠ .stop) (hjoin : e ≠ .join) : Frame p p' := by
  cases h with
  | start => exact absurd rfl hstart
  | spawn | started => exact absurd rfl hspawn
  | stop => exact absurd rfl hstop
  | join => exact absurd rfl hjoin
  | @stopPut i q ho => exact .of_worker_eq rfl rfl (.inr ⟨i, by rw [ho]; rfl, rfl⟩)
  | @stopPutDone i q pick r ho => exact .of_worker_eq rfl rfl (.inr ⟨i, by rw [ho]; rfl, rfl⟩)
  | stopWait | takeWait | putTask | callerSection | spurious =>
      exact .of_worker_eq rfl rfl (.inl rfl)
  | take hw => exact .of_setWorker rfl rfl rfl (by simp [hw]) (by simp [hw]) nofun nofun
  | leave hw hr => exact .of_setWorker rfl rfl rfl (by simp [hw]) (by simp [hw]) nofun fun _ => hr
  | takeDone hw => exact .of_setWorker rfl rfl rfl (by simp [hw]) (by simp [hw]) nofun nofun
  | runTask hw => exact .of_setWorker rfl rfl rfl (by simp [hw]) (by simp [hw]) nofun nofun

/-- The steps of a pool: one constructor for each branch of each
event, with the guard of the branch and the state after it. -/
inductive Step (n : Nat) (s : State N C Task cap) : Event N C Task → State N C Task cap → Prop where
  | start {calls : List Call} (hphase : s.phase = .used)
      (hbetween : between s.pool.owner = true) (hcalls : s.calls = .start :: calls) :
      Step n s .call { s.start with made := s.made ++ [.start], calls }
  | stop {calls : List Call} (hphase : s.phase = .used)
      (hbetween : between s.pool.owner = true) (hcalls : s.calls = .stop :: calls) :
      Step n s .call { s.stop with made := s.made ++ [.stop], calls }
  -- `Start` appends a thread for each worker, behind the threads of earlier
  -- cycles.
  | spawn {i : Nat} (ho : s.pool.owner = .starting i) (hi : i < n) (h : s.threads.length < N) :
      Step n s .spawn { s with
        pool := { s.pool.setWorker ⟨s.threads.length, h⟩ .loop with owner := .starting (i + 1) }
        threads := s.threads ++ [true] }
  | started {i : Nat} (ho : s.pool.owner = .starting i) (hi : ¬ i < n) :
      Step n s .spawn { s with pool := { s.pool with owner := .started } }
  | join {i : Nat} (ho : s.pool.owner = .stopJoin i) (hjoinable : s.threads[i]? = some true)
      (hi : i < N) (hw : s.pool.worker ⟨i, hi⟩ = .left) :
      Step n s .join { s with
        pool := { s.pool with owner := stopNext s.threads.length (i + 1) }
        threads := s.threads.set i false
        joined := s.joined ++ [i] }
  -- `join` on a thread that an earlier `Stop` has joined throws.
  | throws {i : Nat} (ho : s.pool.owner = .stopJoin i) (hjoined : s.threads[i]? = some false) :
      Step n s .join { s with thrown := true }
  -- The destructor calls `Stop` on a pool that runs, and leaves another
  -- alone.
  | destroyStop (hphase : s.phase = .used) (hbetween : between s.pool.owner = true)
      (hcalls : s.calls = []) (hrun : s.pool.isRunning = true) :
      Step n s .destroy { s.stop with phase := .destroying }
  | destroyIdle (hphase : s.phase = .used) (hbetween : between s.pool.owner = true)
      (hcalls : s.calls = []) (hrun : s.pool.isRunning = false) :
      Step n s .destroy { s with phase := .destroyed }
  | destroyed (hphase : s.phase = .destroying) (ho : s.pool.owner = .stopped) :
      Step n s .destroyed { s with phase := .destroyed }
  | within {e : ThreadPool.Event N C Task} {pool : ThreadPool.State N C Task cap}
      (hframe : Frame s.pool pool) : Step n s (.within e) { s with pool }

/-- The next call. -/
theorem call_cases (h : call s = some s') : Step n s .call s' := by
  unfold call at h
  split at h
  · rename_i hphase hbetween hcalls
    cases h
    exact .start hphase hbetween hcalls
  · rename_i hphase hbetween hcalls
    cases h
    exact .stop hphase hbetween hcalls
  · cases h

/-- The loop of `Start`: another thread, or the end of the loop. -/
theorem spawn_cases (h : spawn n s = some s') : Step n s .spawn s' := by
  unfold spawn at h
  split at h
  · rename_i i ho
    split at h
    · rename_i hi
      split at h
      · rename_i hroom
        cases h
        exact .spawn ho hi hroom
      · cases h
    · rename_i hi
      cases h
      exact .started ho hi
  · cases h

/-- The `join` in `Stop` returns for a thread that has left its loop
and was not joined before, and throws for one that was. -/
theorem join_cases (h : join s = some s') : Step n s .join s' := by
  unfold join at h
  split at h
  · rename_i i ho
    split at h
    · rename_i hjoinable
      split at h
      · rename_i hi
        split at h
        · rename_i hw
          cases h
          exact .join ho hjoinable hi hw
        · cases h
      · cases h
    · rename_i hjoined
      cases h
      exact .throws ho hjoined
    · cases h
  · cases h

/-- The destructor calls `Stop` where the flag is set, and is through
otherwise. -/
theorem destroy_cases (h : destroy s = some s') : Step n s .destroy s' := by
  unfold destroy at h
  split at h
  · rename_i hphase hbetween hcalls
    split at h
    · rename_i hrun
      cases h
      exact .destroyStop hphase hbetween hcalls hrun
    · rename_i hrun
      cases h
      exact .destroyIdle hphase hbetween hcalls (by simpa using hrun)
  · cases h

/-- A step past `threads_`. -/
theorem within_cases [DecidableEq C] [Fintype C] {e : ThreadPool.Event N C Task}
    (h : within s e = some s') : Step n s (.within e) s' := by
  unfold within at h
  split at h
  · cases h
  · cases h
  · cases h
  · cases h
  · rename_i hstart hspawn hstop hjoin
    obtain ⟨pool, hpool, rfl⟩ := Option.map_eq_some_iff.mp h
    exact .within (frame_of_step (ThreadPool.step_cases hpool) hstart hspawn hstop hjoin)

/-- Every step of the system is one of the steps. -/
theorem step_cases [DecidableEq C] [Fintype C] {s s' : State (n * calls.count .start) C Task cap}
    {e : Event (n * calls.count .start) C Task}
    (h : (system n C Task cap calls).step s e = some s') : Step n s e s' := by
  cases e with
  | call => exact call_cases h
  | spawn => exact spawn_cases h
  | join => exact join_cases h
  | destroy => exact destroy_cases h
  | destroyed =>
      simp only [system, destroyed] at h
      split at h
      · rename_i hphase ho
        cases h
        exact .destroyed hphase ho
      · cases h
  | within e => exact within_cases h

/-! ### The threads that were spawned -/

/-- The threads that the loop of `Start` has still to spawn. -/
def pending (n : Nat) : OwnerPc → Nat
  | .starting i => n - i
  | .idle | .started | .stopPut _ | .stopPutting _ | .stopJoin _ | .stopped => 0

theorem pending_of_between {pc : OwnerPc} (h : between pc = true) : pending n pc = 0 := by
  cases pc <;> first | rfl | cases h

theorem stopIndex_of_between {pc : OwnerPc} (h : between pc = true) : pc.stopIndex = none := by
  cases pc <;> first | rfl | cases h

theorem pending_of_stopIndex {pc : OwnerPc} {i : Nat} (h : pc.stopIndex = some i) :
    pending n pc = 0 := by
  cases pc <;> first | rfl | cases h

theorem pending_stopNext (k i : Nat) : pending n (stopNext k i) = 0 := by
  unfold stopNext
  split <;> rfl

theorem Frame.pending {p p' : ThreadPool.State N C Task cap} (h : Frame p p') :
    pending n p'.owner = pending n p.owner := by
  rcases h.owner with heq | ⟨i, hi, hi'⟩
  · rw [heq]
  · rw [pending_of_stopIndex hi, pending_of_stopIndex hi']

/-- The calls that were made and those to come are all the calls. Each
`Start` that was made has spawned `maxThreads` workers, or has still
to spawn some of them, and the workers that are not unborn are those
of `threads_`. -/
structure Books (n : Nat) (calls : List Call) (s : State N C Task cap) : Prop where
  split : s.made ++ s.calls = calls
  count : s.threads.length + pending n s.pool.owner = n * s.made.count .start
  born : ∀ j : Fin N, s.pool.worker j = .unborn ↔ s.threads.length ≤ j

/-- A thread is spawned: one more of them, and one less to spawn. -/
theorem Books.spawn {i : Nat} (h : Books n calls s) (ho : s.pool.owner = .starting i) (hi : i < n)
    (hroom : s.threads.length < N) :
    Books n calls { s with
      pool := { s.pool.setWorker ⟨s.threads.length, hroom⟩ .loop with owner := .starting (i + 1) }
      threads := s.threads ++ [true] } where
  split := h.split
  count := by
    have hcount := h.count
    rw [ho] at hcount
    show (s.threads ++ [true]).length + (n - (i + 1)) = n * s.made.count .start
    rw [← hcount, List.length_append, List.length_singleton]
    show _ = s.threads.length + (n - i)
    omega
  born j := by
    show (s.pool.setWorker _ _).worker j = _ ↔ (s.threads ++ [true]).length ≤ j
    rw [ThreadPool.State.setWorker_worker, List.length_append, List.length_singleton]
    split
    · rename_i hj
      rw [hj]
      refine iff_of_false nofun ?_
      show ¬ s.threads.length + 1 ≤ s.threads.length
      omega
    · rename_i hj
      have hne : (j : Nat) ≠ s.threads.length := fun heq => hj (Fin.ext heq)
      rw [h.born j]
      omega

/-- The step lemma: every step keeps the books. Only a call moves one
from those to come to those made, and only the loop of `Start`
spawns. -/
theorem books_step (hbooks : Books n calls s) (h : Step n s e s') : Books n calls s' := by
  obtain ⟨hsplit, hcount, hborn⟩ := hbooks
  cases h with
  -- A `Start` promises `n` more threads; each `spawn` turns one promise into
  -- a thread.
  | start hphase hbetween hcalls =>
      refine ⟨by simpa [hcalls] using hsplit, ?_, hborn⟩
      rw [pending_of_between hbetween, Nat.add_zero] at hcount
      show s.threads.length + (n - 0) = n * (s.made ++ [Call.start]).count Call.start
      rw [hcount, Nat.sub_zero, List.count_append, List.count_singleton_self, Nat.mul_succ]
  | stop hphase hbetween hcalls =>
      refine ⟨by simpa [hcalls] using hsplit, ?_, hborn⟩
      rw [pending_of_between hbetween] at hcount
      show s.threads.length + pending n (stopNext _ _) =
        n * (s.made ++ [Call.stop]).count Call.start
      rw [pending_stopNext, hcount, List.count_append]
      rfl
  | spawn ho hi hroom => exact Books.spawn ⟨hsplit, hcount, hborn⟩ ho hi hroom
  -- The loop of `Start` ends at `n`, so no promise is left.
  | @started i ho hi =>
      refine ⟨hsplit, ?_, hborn⟩
      rw [ho] at hcount
      show s.threads.length + 0 = n * s.made.count .start
      rw [← hcount]
      show _ = s.threads.length + (n - i)
      omega
  -- A join marks its thread, and neither the number of threads nor the
  -- promises change.
  | @join i ho hjoinable hi hw =>
      refine ⟨hsplit, ?_, fun j => ?_⟩
      · rw [ho] at hcount
        show (s.threads.set i false).length + pending n (stopNext _ _) = n * s.made.count .start
        rw [pending_stopNext, List.length_set]
        exact hcount
      · rw [List.length_set]
        exact hborn j
  | throws => exact ⟨hsplit, hcount, hborn⟩
  | destroyStop hphase hbetween =>
      refine ⟨hsplit, ?_, hborn⟩
      rw [pending_of_between hbetween] at hcount
      show s.threads.length + pending n (stopNext _ _) = n * s.made.count .start
      rw [pending_stopNext, hcount]
  | destroyIdle => exact ⟨hsplit, hcount, hborn⟩
  | destroyed => exact ⟨hsplit, hcount, hborn⟩
  | within hframe =>
      refine ⟨hsplit, ?_, fun j => (hframe.unborn j).trans (hborn j)⟩
      show s.threads.length + pending n _ = _
      rw [hframe.pending, hcount]

/-- The books are kept in every state of a pool. -/
theorem reachable_books [DecidableEq C] [Fintype C] {s : State (n * calls.count .start) C Task cap}
    (h : (system n C Task cap calls).Reachable s) : Books n calls s := by
  refine h.induct (I := Books n calls) ?_ fun s e s' _ ih hs => books_step ih (step_cases hs)
  rintro s rfl
  exact ⟨rfl, (Nat.mul_zero n).symm, fun j => iff_of_true rfl (Nat.zero_le _)⟩

/-- The threads that were spawned and those that the calls have still
to spawn. -/
theorem Books.total (h : Books n calls s) :
    s.threads.length + pending n s.pool.owner + n * s.calls.count .start =
      n * calls.count .start := by
  rw [h.count, ← Nat.mul_add, ← List.count_append, h.split]

/-- The model has a name for every thread: where the loop of `Start`
has a thread to spawn, there are fewer than all. -/
theorem spawn_room [DecidableEq C] [Fintype C] {s : State (n * calls.count .start) C Task cap}
    (h : (system n C Task cap calls).Reachable s) {i : Nat} (ho : s.pool.owner = .starting i)
    (hi : i < n) : s.threads.length < n * calls.count .start := by
  have htotal := (reachable_books h).total
  rw [ho] at htotal
  have hpending : pending n (.starting i) = n - i := rfl
  omega

/-! ### What the calls promise -/

/-- The worker was spawned and has not left `RunInLoop`. -/
def alive : WorkerPc Task → Bool
  | .unborn | .left => false
  | .loop | .taking | .todo _ => true

/-- The last call is a `Start` that is the first call or follows a
`Stop`. -/
def FreshStart (made : List Call) : Prop :=
  made = [.start] ∨ ∃ pre, made = pre ++ [.stop, .start]

/-- `join` was only called on joinable threads. Once the pool is
destroyed, every thread that was spawned was joined exactly once. No
worker is alive where `Stop` has returned, and `maxThreads` workers
are where such a `Start` has. -/
structure Cycled (n : Nat) (s : State N C Task cap) : Prop where
  joinable : s.thrown = false
  once : s.phase = .destroyed → ∀ i : Fin N, s.pool.worker i ≠ .unborn → s.joined.count i.val = 1
  stopped : s.pool.owner = .stopped → ∀ i, alive (s.pool.worker i) = false
  started : s.pool.owner = .started → FreshStart s.made →
    (Finset.univ.filter fun i => alive (s.pool.worker i) = true).card = n

/-- No call comes after a `Stop` that comes after a `Start`. Several
`Start`s in a row are still one cycle. -/
def OneCycle (calls : List Call) : Prop :=
  ∀ pre post, calls = pre ++ .stop :: post → .start ∈ pre → post = []

/-! ### One cycle -/

/-- Nothing was started. The pool may have been stopped, and
destroyed, but there is no thread to join. -/
structure Unused (s : State N C Task cap) : Prop where
  made : .start ∉ s.made
  threads : s.threads = []
  owner : s.pool.owner = .idle ∨ s.pool.owner = .stopped
  isRunning : s.pool.isRunning = false
  phase : s.phase ≠ .destroying
  joined : s.joined = []

/-- Some `Start` is in progress or has returned, and no `Stop` has
come since. -/
structure Running (s : State N C Task cap) : Prop where
  made : .start ∈ s.made
  owner : (∃ i, s.pool.owner = .starting i) ∨ s.pool.owner = .started
  isRunning : s.pool.isRunning = true
  phase : s.phase = .used
  joinable : ∀ b ∈ s.threads, b = true
  left : ∀ j, s.pool.worker j ≠ .left
  joined : s.joined = []

/-- The last `Stop` has joined the threads below the index, and is
about to join the one at it. The threads from the index on are
joinable, and no other call of the list follows. -/
structure Stopping (i : Nat) (s : State N C Task cap) : Prop where
  owner : s.pool.owner.stopIndex = some i
  calls : s.calls = []
  isRunning : s.pool.isRunning = false
  phase : s.phase ≠ .destroyed
  index : i < s.threads.length
  joinable : ∀ j, i ≤ j → j < s.threads.length → s.threads[j]? = some true
  left : ∀ j : Fin N, j < i → s.pool.worker j = .left
  joined : s.joined = List.range i

/-- The last `Stop` has returned. Each thread has been joined once,
and the pool is not started again. -/
structure Stopped (s : State N C Task cap) : Prop where
  calls : s.calls = []
  owner : s.pool.owner = .stopped
  isRunning : s.pool.isRunning = false
  left : ∀ j : Fin N, j < s.threads.length → s.pool.worker j = .left
  joined : s.joined = List.range s.threads.length

/-- Where the owner is in its only cycle. The stages are passed in
this order, and only the first and the second allow a call. -/
inductive Stage (s : State N C Task cap) : Prop where
  | unused (h : Unused s)
  | running (h : Running s)
  | stopping {i : Nat} (h : Stopping i s)
  | stopped (h : Stopped s)

/-- At the head of the loop of `Stop`: the pool is being stopped where
a thread is left to join, and stopped where none is. -/
theorem Stage.of_stopNext {i : Nat} (hi : i ≤ s.threads.length)
    (howner : s.pool.owner = stopNext s.threads.length i) (hcalls : s.calls = [])
    (hrun : s.pool.isRunning = false) (hphase : s.phase ≠ .destroyed)
    (hjoinable : ∀ j, i ≤ j → j < s.threads.length → s.threads[j]? = some true)
    (hleft : ∀ j : Fin N, j < i → s.pool.worker j = .left) (hjoined : s.joined = List.range i) :
    Stage s := by
  unfold stopNext at howner
  split at howner
  · rename_i hlt
    exact .stopping (i := i) ⟨by rw [howner]; rfl, hcalls, hrun, hphase, hlt, hjoinable, hleft,
      hjoined⟩
  · rename_i hge
    obtain rfl : i = s.threads.length := by omega
    exact .stopped ⟨hcalls, howner, hrun, hleft, hjoined⟩

/-- `Stop` enters its loop over joinable threads, of which none was
joined before. -/
theorem Stage.of_stop (howner : s.pool.owner = stopNext s.threads.length 0) (hcalls : s.calls = [])
    (hrun : s.pool.isRunning = false) (hphase : s.phase ≠ .destroyed)
    (hjoinable : ∀ b ∈ s.threads, b = true) (hjoined : s.joined = []) : Stage s := by
  refine .of_stopNext (Nat.zero_le _) howner hcalls hrun hphase (fun j _ hj => ?_) nofun hjoined
  rw [List.getElem?_eq_getElem hj, hjoinable _ (List.getElem_mem hj)]

/-- In the loop of `Start`, or past it. -/
theorem Stage.running_of_owner (h : Stage s)
    (ho : (∃ i, s.pool.owner = .starting i) ∨ s.pool.owner = .started) : Running s := by
  cases h with
  | unused h =>
      rcases ho with ⟨i, ho⟩ | ho <;> rcases h.owner with ho' | ho' <;> cases ho.symm.trans ho'
  | running h => exact h
  | stopping h =>
      have hindex := h.owner
      rcases ho with ⟨i, ho⟩ | ho <;> rw [ho] at hindex <;> cases hindex
  | stopped h => rcases ho with ⟨i, ho⟩ | ho <;> cases ho.symm.trans h.owner

/-- At the `join` in the loop of `Stop`. -/
theorem Stage.stopping_of_join {i : Nat} (h : Stage s) (ho : s.pool.owner = .stopJoin i) :
    Stopping i s := by
  cases h with
  | unused h => rcases h.owner with ho' | ho' <;> cases ho.symm.trans ho'
  | running h => rcases h.owner with ⟨k, ho'⟩ | ho' <;> cases ho.symm.trans ho'
  | stopping h =>
      have hindex := h.owner
      rw [ho] at hindex
      cases hindex
      exact h
  | stopped h => cases ho.symm.trans h.owner

/-- In a stage, the thread at the `join` is joinable. -/
theorem Stage.joinable {i : Nat} (h : Stage s) (ho : s.pool.owner = .stopJoin i) :
    s.threads[i]? = some true := by
  have hstopping := h.stopping_of_join ho
  exact hstopping.joinable i (Nat.le_refl i) hstopping.index

/-- Where there is a call to make, or the flag is set, `Stop` after a
`Start` is not in progress and has not returned. -/
theorem Stage.unused_or_running (h : Stage s) (hmore : s.calls ≠ [] ∨ s.pool.isRunning = true) :
    Unused s ∨ Running s := by
  cases h with
  | unused h => exact .inl h
  | running h => exact .inr h
  | stopping h =>
      rcases hmore with hcalls | hrun
      · exact absurd h.calls hcalls
      · cases hrun.symm.trans h.isRunning
  | stopped h =>
      rcases hmore with hcalls | hrun
      · exact absurd h.calls hcalls
      · cases hrun.symm.trans h.isRunning

/-- Between two calls with the flag cleared, or where `Stop` has
returned, no cycle is open. -/
theorem Stage.unused_or_stopped (h : Stage s) (hbetween : between s.pool.owner = true)
    (hout : s.pool.isRunning = false ∨ s.pool.owner = .stopped) : Unused s ∨ Stopped s := by
  cases h with
  | unused h => exact .inl h
  | running h =>
      rcases hout with hrun | ho
      · cases hrun.symm.trans h.isRunning
      · rcases h.owner with ⟨i, ho'⟩ | ho' <;> cases ho.symm.trans ho'
  | stopping h => cases (stopIndex_of_between hbetween).symm.trans h.owner
  | stopped h => exact .inr h

/-- A step past `threads_` keeps the stage. The workers may leave in
it only where the flag is cleared, which is not so in the stage
`running`. -/
theorem Stage.frame {pool : ThreadPool.State N C Task cap} (h : Stage s)
    (hframe : Frame s.pool pool) : Stage { s with pool } := by
  cases h with
  -- Within a stage the pool moves its own threads; the frame says which way
  -- the owner can go.
  | unused h =>
      refine .unused { h with owner := ?_, isRunning := hframe.isRunning.trans h.isRunning }
      rcases hframe.owner with heq | ⟨i, hi, -⟩
      · rw [heq]
        exact h.owner
      · rcases h.owner with ho | ho <;> rw [ho] at hi <;> cases hi
  | running h =>
      refine .running { h with
        owner := ?_
        isRunning := hframe.isRunning.trans h.isRunning
        left := fun j hj => h.left j (hframe.stays h.isRunning j hj) }
      rcases hframe.owner with heq | ⟨i, hi, -⟩
      · rw [heq]
        exact h.owner
      · rcases h.owner with ⟨k, ho⟩ | ho <;> rw [ho] at hi <;> cases hi
  -- The owner is inside the round of `Stop`, and the frame keeps it in the
  -- same round.
  | @stopping i h =>
      refine .stopping (i := i) { h with
        owner := ?_
        isRunning := hframe.isRunning.trans h.isRunning
        left := fun j hj => hframe.left j (h.left j hj) }
      rcases hframe.owner with heq | ⟨k, hk, hk'⟩
      · rw [heq]
        exact h.owner
      · cases h.owner.symm.trans hk
        exact hk'
  -- A stopped owner has no round to go on with.
  | stopped h =>
      refine .stopped { h with
        owner := ?_
        isRunning := hframe.isRunning.trans h.isRunning
        left := fun j hj => hframe.left j (h.left j hj) }
      rcases hframe.owner with heq | ⟨i, hi, -⟩
      · exact heq.trans h.owner
      · rw [h.owner] at hi
        cases hi

/-- A `Stop` after a `Start` is the last call. -/
theorem Books.last_of_stop {rest : List Call} (hbooks : Books n calls s) (hone : OneCycle calls)
    (hmade : .start ∈ s.made) (hcalls : s.calls = .stop :: rest) : rest = [] := by
  refine hone s.made rest ?_ hmade
  rw [← hcalls]
  exact hbooks.split.symm

/-- The call of `Start`. -/
theorem Stage.start {rest : List Call} (h : Stage s) (hbooks : Books n calls s)
    (hphase : s.phase = .used) (hcalls : s.calls = .start :: rest) :
    Stage { s.start with made := s.made ++ [.start], calls := rest } := by
  rcases h.unused_or_running (.inl (by rw [hcalls]; nofun)) with h | h
  · refine .running ⟨by simp, .inl ⟨0, rfl⟩, rfl, hphase, ?_, fun j hj => ?_, h.joined⟩
    · simp [State.start, h.threads]
    · -- No thread was spawned, so none is there that has left.
      have hunborn := (hbooks.born j).mpr (by rw [h.threads]; exact Nat.zero_le _)
      exact absurd (hunborn.symm.trans hj) nofun
  · exact .running { h with made := by simp, owner := .inl ⟨0, rfl⟩, isRunning := rfl }

/-- The call of `Stop`. -/
theorem Stage.stop {rest : List Call} (h : Stage s) (hone : OneCycle calls)
    (hbooks : Books n calls s) (hphase : s.phase = .used) (hcalls : s.calls = .stop :: rest) :
    Stage { s.stop with made := s.made ++ [.stop], calls := rest } := by
  rcases h.unused_or_running (.inl (by rw [hcalls]; nofun)) with h | h
  · refine .unused { h with made := by simpa using h.made, owner := .inr ?_, isRunning := rfl }
    show stopNext s.threads.length 0 = .stopped
    rw [h.threads]
    rfl
  · refine .of_stop rfl (hbooks.last_of_stop hone h.made hcalls) rfl ?_ h.joinable h.joined
    show s.phase ≠ .destroyed
    rw [hphase]
    nofun

/-- A round of the loop of `Start`. The new thread is joinable, and
its worker is at the test of its loop. -/
theorem Running.spawn {i : Nat} (h : Running s) (hroom : s.threads.length < N) :
    Running { s with
      pool := { s.pool.setWorker ⟨s.threads.length, hroom⟩ .loop with owner := .starting (i + 1) }
      threads := s.threads ++ [true] } where
  made := h.made
  owner := .inl ⟨i + 1, rfl⟩
  isRunning := h.isRunning
  phase := h.phase
  joinable b hb := by
    rcases List.mem_append.mp hb with hb | hb
    · exact h.joinable b hb
    · exact List.mem_singleton.mp hb
  left j := by
    show (s.pool.setWorker _ _).worker j ≠ .left
    rw [ThreadPool.State.setWorker_worker]
    split
    · nofun
    · exact h.left j
  joined := h.joined

/-- A round of the loop of `Stop`. The join of the last thread ends
it. -/
theorem Stopping.join {i : Nat} (h : Stopping i s) (hi : i < N)
    (hw : s.pool.worker ⟨i, hi⟩ = .left) :
    Stage { s with
      pool := { s.pool with owner := stopNext s.threads.length (i + 1) }
      threads := s.threads.set i false
      joined := s.joined ++ [i] } := by
  have hlength : (s.threads.set i false).length = s.threads.length := List.length_set
  refine .of_stopNext (i := i + 1) ?_ ?_ h.calls h.isRunning h.phase (fun j hij hj => ?_)
    (fun j hj => ?_) ?_
  · show i + 1 ≤ (s.threads.set i false).length
    rw [hlength]
    exact h.index
  · show stopNext _ _ = stopNext (s.threads.set i false).length (i + 1)
    rw [hlength]
  · show (s.threads.set i false)[j]? = some true
    rw [List.getElem?_set_ne (by omega)]
    exact h.joinable j (by omega) (hlength ▸ hj)
  · -- The thread that was joined is the last one that has left.
    by_cases hji : (j : Nat) = i
    · subst hji
      exact hw
    · exact h.left j (by omega)
  · show s.joined ++ [i] = List.range (i + 1)
    rw [h.joined, List.range_succ]

/-- The step lemma: where the calls are one cycle, every step leads
from a stage to a stage. -/
theorem stage_step (hone : OneCycle calls) (hbooks : Books n calls s) (hstage : Stage s)
    (h : Step n s e s') : Stage s' := by
  cases h with
  | within hframe => exact hstage.frame hframe
  | start hphase _ hcalls => exact hstage.start hbooks hphase hcalls
  | stop hphase _ hcalls => exact hstage.stop hone hbooks hphase hcalls
  | spawn ho _ hroom => exact .running ((hstage.running_of_owner (.inl ⟨_, ho⟩)).spawn hroom)
  | started ho => exact .running { hstage.running_of_owner (.inl ⟨_, ho⟩) with owner := .inr rfl }
  | join ho _ hi hw => exact (hstage.stopping_of_join ho).join hi hw
  -- In each stage the thread that `Stop` joins next is joinable.
  | throws ho hjoined => cases hjoined.symm.trans (hstage.joinable ho)
  | destroyStop _ _ hcalls hrun =>
      rcases hstage.unused_or_running (.inr hrun) with h | h
      · cases hrun.symm.trans h.isRunning
      · exact .of_stop rfl hcalls rfl nofun h.joinable h.joined
  -- A flag that is clear between calls is that of a pool never used, or of
  -- one stopped.
  | destroyIdle _ hbetween hcalls hrun =>
      rcases hstage.unused_or_stopped hbetween (.inl hrun) with h | h
      · exact .unused { h with phase := nofun }
      · exact .stopped { h with }
  | destroyed hphase ho =>
      rcases hstage.unused_or_stopped (by rw [ho]; rfl) (.inr ho) with h | h
      · exact absurd hphase h.phase
      · exact .stopped { h with }

/-- Where the calls are one cycle, `join` is called on joinable
threads only. -/
theorem thrown_step (hstage : Stage s) (h : Step n s e s') : s'.thrown = s.thrown := by
  cases h with
  | throws ho hjoined => cases hjoined.symm.trans (hstage.joinable ho)
  | start | stop | spawn | started | join | destroyStop | destroyIdle | destroyed | within => rfl

/-- In one cycle, such a `Start` is the only one. -/
theorem Books.count_of_freshStart (hbooks : Books n calls s) (hone : OneCycle calls)
    (hfresh : FreshStart s.made) : s.made.count .start = 1 := by
  rcases hfresh with hmade | ⟨pre, hmade⟩
  · rw [hmade]
    rfl
  · have hpre : Call.start ∉ pre := by
      intro hmem
      -- The `Stop` would come after a `Start`, and this `Start` after it.
      have hlast := hone pre (.start :: s.calls) (by rw [← hbooks.split, hmade]; simp) hmem
      cases hlast
    rw [hmade, List.count_append, List.count_eq_zero.mpr hpre]
    rfl

/-- A worker that was spawned and has not left is alive. -/
theorem alive_iff (pc : WorkerPc Task) : alive pc = true ↔ pc ≠ .unborn ∧ pc ≠ .left := by
  cases pc <;> simp [alive]

/-- The stages keep what the calls promise: no join throws, each
thread is joined once, and the workers are those of the one
`Start`. -/
theorem Stage.cycled (hstage : Stage s) (hone : OneCycle calls) (hbooks : Books n calls s)
    (hroom : n * calls.count .start ≤ N) (hthrown : s.thrown = false) : Cycled n s where
  joinable := hthrown
  -- A worker that was ever born has a thread, and in a stopped pool each
  -- thread is joined once.
  once hphase i hi := by
    have hspawned : i < s.threads.length := by
      by_contra hge
      exact hi ((hbooks.born i).mpr (Nat.le_of_not_lt hge))
    cases hstage with
    | unused h =>
        rw [h.threads] at hspawned
        cases hspawned
    | running h => cases hphase.symm.trans h.phase
    | stopping h => exact absurd hphase h.phase
    | stopped h =>
        rw [h.joined]
        exact List.count_eq_one_of_mem List.nodup_range (List.mem_range.mpr hspawned)
  stopped ho i := by
    rcases hstage.unused_or_stopped (by rw [ho]; rfl) (.inr ho) with h | h
    · rw [(hbooks.born i).mpr (by rw [h.threads]; exact Nat.zero_le _)]
      rfl
    · by_cases hi : i < s.threads.length
      · rw [h.left i hi]
        rfl
      · rw [(hbooks.born i).mpr (Nat.le_of_not_lt hi)]
        rfl
  started ho hfresh := by
    have h := hstage.running_of_owner (.inr ho)
    have hcount := hbooks.count
    rw [hbooks.count_of_freshStart hone hfresh, Nat.mul_one, ho] at hcount
    have hlength : s.threads.length = n := hcount
    -- One `Start` so far: the workers alive are those whose index is below
    -- `n`.
    have halive : ∀ i : Fin N, alive (s.pool.worker i) = true ↔ i < n := by
      intro i
      rw [alive_iff, and_iff_left (h.left i), ne_eq, hbooks.born i, hlength, Nat.not_le]
    have hle : n ≤ N := by
      refine le_trans ?_ hroom
      rw [← hbooks.total, ho, hlength]
      exact Nat.le_trans (Nat.le_add_right _ _) (Nat.le_add_right _ _)
    simp only [halive, Fin.card_filter_val_lt]
    exact Nat.min_eq_right hle

section Runs

variable [DecidableEq C] [Fintype C] {s : State (n * calls.count .start) C Task cap}

/-- In every state of a pool whose calls are one cycle. -/
theorem reachable_stage (hone : OneCycle calls) (h : (system n C Task cap calls).Reachable s) :
    Stage s ∧ s.thrown = false := by
  refine h.induct (I := fun s => Stage s ∧ s.thrown = false) ?_ ?_
  · rintro s rfl
    exact ⟨.unused ⟨nofun, rfl, .inl rfl, rfl, nofun, rfl⟩, rfl⟩
  · intro s e s' hreach ⟨hstage, hthrown⟩ hs
    have hstep := step_cases hs
    exact ⟨stage_step hone (reachable_books hreach) hstage hstep,
      (thrown_step hstage hstep).trans hthrown⟩

/-- A pool whose calls are one cycle keeps what the calls promise, in
every schedule. -/
theorem cycled_of_oneCycle (hone : OneCycle calls) (h : (system n C Task cap calls).Reachable s) :
    Cycled n s := by
  obtain ⟨hstage, hthrown⟩ := reachable_stage hone h
  exact hstage.cycled hone (reachable_books h) (Nat.le_refl _) hthrown

/-- A pool without workers never throws. It has no thread, so there is
nothing that could be joined twice. -/
theorem thrown_of_zero {s : State (0 * calls.count .start) C Task cap}
    (h : (system 0 C Task cap calls).Reachable s) : s.thrown = false := by
  refine h.induct (I := fun s => s.thrown = false) ?_ ?_
  · rintro s rfl
    rfl
  · intro s e s' hreach hthrown hs
    have hcount := (reachable_books hreach).count
    cases step_cases hs with
    | throws ho hjoined =>
        -- There is no thread to join.
        have hlength : s.threads.length = 0 := by omega
        rw [List.eq_nil_of_length_eq_zero hlength] at hjoined
        cases hjoined
    | start | stop | spawn | started | join | destroyStop | destroyIdle | destroyed | within =>
        exact hthrown

/-- A pool without workers keeps the promise for all calls. -/
theorem cycled_of_zero {s : State (0 * calls.count .start) C Task cap}
    (h : (system 0 C Task cap calls).Reachable s) : Cycled 0 s := by
  have hnone : ∀ i : Fin (0 * calls.count .start), False := by
    intro i
    have hlt := i.isLt
    omega
  refine ⟨thrown_of_zero h, fun _ i => (hnone i).elim, fun _ i => (hnone i).elim, fun _ _ => ?_⟩
  rw [Finset.card_eq_zero, Finset.filter_eq_empty_iff]
  exact fun i => (hnone i).elim

end Runs

end Bigpipe.ThreadPoolCycles
