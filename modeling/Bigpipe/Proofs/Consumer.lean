import Bigpipe.Kafka.Consumer
import Bigpipe.Folly.Compact
import Bigpipe.Proofs.AsyncClient
import Bigpipe.Proofs.RequestMessage
import Bigpipe.Proofs.ThreadPoolTasks

/-!
# `Bigpipe.Proofs.Consumer`: the message that a queued call reads

The task that `AsyncCall` queues refers to the loop variable of
`ConsumeLoop`, which ends with its iteration. A worker that runs the
task later reads a variable that is no more.

Each iteration has a cell of its own, numbered in the order of the
iterations, which is empty before the message is read and after the
iteration has ended. A task is the number of a cell. What `AsyncCall`
was called with is kept beside it, in `called`, and nothing reads that
but the statements. So the question whether a worker reads the right
message is whether the cell still has what `called` has.

The order of the iterations makes the answer simple. One cell is alive
at a time, that of the iteration that `ConsumeLoop` is in, and nobody
writes to it after `AsyncCall`. So a worker reads the right message or
none at all.

* `Step` and `step_cases`: what each event can do.
* `Inv`: the loop variable that is alive is that of the iteration that
  `ConsumeLoop` is in, and every task in the pool refers to a variable
  that `AsyncCall` was called with.
* `readsOwn_iff`: the workers read the messages that `AsyncCall` was
  called with, exactly when each read happens before the end of the
  iteration. `readAfterEnd`: a read after it.
* `sendsOwn_of_inIteration`: then every request is that of the message
  that was queued.
-/

set_option autoImplicit false

namespace Bigpipe.KafkaConsumer

open Bigpipe.Lib
open Bigpipe.AsyncClient (CallPc Gate Outcome)

variable {n : Nat} {folly : Folly} {conf : AsyncClient.Conf} {s s' : State n} {e : Event n}

/-! ### What a step can do -/

/-- The steps of a consumer: one constructor for each branch of each
event, with the guard of the branch and the state after it. -/
inductive Step (folly : Folly) (conf : AsyncClient.Conf) (s : State n) :
    Event n → State n → Prop where
  -- `Start`: the flag first, then the pool, whose workers are born one by
  -- one.
  | start {workers : ThreadPool.State n Unit Nat 20} (hm : s.main = .idle)
      (hw : ThreadPool.start s.workers = some workers) :
      Step folly conf s .start { s with isRunning := true, workers, main := .starting }
  | spawn (hm : s.main = .starting) (ho : s.workers.owner = .started) :
      Step folly conf s .spawn { s with loop := .loop, main := .started }
  -- `Stop`: clear the flag, join the loop, and only then stop the pool.
  | stop (hm : s.main = .started) :
      Step folly conf s .stop { s with isRunning := false, main := .joining }
  | join {workers : ThreadPool.State n Unit Nat 20} (hm : s.main = .joining)
      (hl : s.loop = .left) (hw : ThreadPool.stop s.workers = some workers) :
      Step folly conf s .join { s with workers, main := .stopping }
  -- `ConsumeLoop`: test, consume, parse, call, end of the iteration.
  | test (hl : s.loop = .loop) :
      Step folly conf s .test { s with loop := if s.isRunning then .consuming else .left }
  | eof {fs : FileSystem} (hl : s.loop = .consuming) :
      Step folly conf s (.consume none fs) { s with loop := .left }
  | message {payload : String} {fs : FileSystem} {msg : RequestMessage} (hl : s.loop = .consuming)
      (hread : RequestMessage.fromJSON folly fs payload {} = (.ok true, msg)) :
      Step folly conf s (.consume (some payload) fs) (s.create msg (.calling s.created))
  | malformed {payload : String} {fs : FileSystem} {msg : RequestMessage}
      (hl : s.loop = .consuming)
      (hread : RequestMessage.fromJSON folly fs payload {} = (.ok false, msg)) :
      Step folly conf s (.consume (some payload) fs) (s.create msg (.ending s.created))
  -- `fromJSON` throws outside any `try`, on a thread of its own:
  -- `std::terminate`.
  | throws {payload : String} {fs : FileSystem} {error : String} {msg : RequestMessage}
      (hl : s.loop = .consuming)
      (hread : RequestMessage.fromJSON folly fs payload {} = (.error error, msg)) :
      Step folly conf s (.consume (some payload) fs) { s with ended := some .terminated }
  | asyncCall {reqmsg : Nat} {workers : ThreadPool.State n Unit Nat 20}
      (hl : s.loop = .calling reqmsg) (hr : s.workers.isRunning = true)
      (hw : ThreadPool.putTask s.workers () (some reqmsg) = some workers) :
      Step folly conf s .asyncCall { s with
        workers
        called := Function.update s.called reqmsg (s.cells reqmsg)
        loop := .putting reqmsg }
  -- `AsyncCall` asserts that the pool has been started.
  | notStarted {reqmsg : Nat} (hl : s.loop = .calling reqmsg) (hr : s.workers.isRunning = false) :
      Step folly conf s .asyncCall { s with ended := some .aborted }
  | putWait {reqmsg : Nat} {workers : ThreadPool.State n Unit Nat 20}
      {pick : Option (ThreadPool.Tid n Unit)} (hl : s.loop = .putting reqmsg)
      (hw : ThreadPool.callerSection s.workers () pick = some workers)
      (hpos : workers.queue.pos (.caller ()) ≠ .outside) :
      Step folly conf s (.putSection pick) { s with workers }
  | putDone {reqmsg : Nat} {workers : ThreadPool.State n Unit Nat 20}
      {pick : Option (ThreadPool.Tid n Unit)} (hl : s.loop = .putting reqmsg)
      (hw : ThreadPool.callerSection s.workers () pick = some workers)
      (hpos : workers.queue.pos (.caller ()) = .outside) :
      Step folly conf s (.putSection pick) { s with workers, loop := .ending reqmsg }
  -- The loop variable ends here, whether or not a worker still refers to it.
  | endIteration {reqmsg : Nat} (hl : s.loop = .ending reqmsg) :
      Step folly conf s .endIteration { s with
        cells := Function.update s.cells reqmsg none
        loop := .loop }
  | pool {e : ThreadPool.Event n Unit Nat} {workers : ThreadPool.State n Unit Nat 20}
      (he : inPool e = true)
      (hw : (ThreadPool.system n Unit Nat 20).step s.workers e = some workers) :
      Step folly conf s (.pool e) { s with workers }
  | runTask {i : Fin n} {workers : ThreadPool.State n Unit Nat 20}
      (hret : hasReturned s i = true) (hw : ThreadPool.runTask s.workers i = some workers) :
      Step folly conf s (.runTask i) { s with workers, call := Function.update s.call i none }
  | call {i : Fin n} {reqmsg : Nat} (hw : s.workers.worker i = .todo (some reqmsg))
      (hc : s.call i = none) :
      Step folly conf s (.call i) (s.goOn i (AsyncClient.call conf))
  -- Inside the task: the gates of the retry loop, the reads through the
  -- reference the task captured, and the answer of the attempt.
  | gate {i : Fin n} {pc pc' : CallPc} {g : Gate} (hc : s.call i = some pc)
      (hg : AsyncClient.gate conf pc g = some pc') :
      Step folly conf s (.gate i g) (s.goOn i pc')
  | read {i : Fin n} {reqmsg : Nat} {k : Int} {msg : RequestMessage} {reading : Reading}
      (hw : s.workers.worker i = .todo (some reqmsg)) (hc : s.call i = some (.attempt k))
      (hcell : s.cells reqmsg = some msg) (hr : (s.reading i).read msg = some reading) :
      Step folly conf s (.read i) { s with reading := Function.update s.reading i reading }
  | readEnded {i : Fin n} {reqmsg : Nat} {k : Int}
      (hw : s.workers.worker i = .todo (some reqmsg)) (hc : s.call i = some (.attempt k))
      (hcell : s.cells reqmsg = none) :
      Step folly conf s (.read i) { s with ended := some .undefined }
  | attempt {i : Fin n} {k : Int} {outcome : Outcome} (hc : s.call i = some (.attempt k))
      (hend : (s.reading i).canEnd outcome = true) :
      Step folly conf s (.attempt i outcome)
        (s.goOn i (AsyncClient.attempt conf.retries k (s.reading i).msg outcome).next)

/-- A message of the queue: the end of a partition, a message that is
read, one that is not, or an exception. -/
theorem consume_cases {payload : Option String} {fs : FileSystem}
    (h : consume folly s payload fs = some s') : Step folly conf s (.consume payload fs) s' := by
  unfold consume at h
  split at h
  · rename_i hl
    cases h
    exact .eof hl
  · rename_i payload hl
    split at h
    · rename_i msg hread
      cases h
      exact .message hl hread
    · rename_i msg hread
      cases h
      exact .malformed hl hread
    · rename_i error msg hread
      cases h
      exact .throws hl hread
  · cases h

/-- The call of `AsyncCall`: its assertion, and the call of
`PutTask`. -/
theorem asyncCall_cases (h : asyncCall s = some s') : Step folly conf s .asyncCall s' := by
  unfold asyncCall at h
  split at h
  · rename_i reqmsg hl
    split at h
    · rename_i hr
      obtain ⟨workers, hw, rfl⟩ := Option.map_eq_some_iff.mp h
      exact .asyncCall hl hr hw
    · rename_i hr
      cases h
      exact .notStarted hl (Bool.eq_false_iff.mpr hr)
  · cases h

/-- A lock section of the `put` in `PutTask`, which returns or waits
for a slot. -/
theorem putSection_cases {pick : Option (ThreadPool.Tid n Unit)}
    (h : putSection s pick = some s') : Step folly conf s (.putSection pick) s' := by
  unfold putSection at h
  split at h
  · rename_i reqmsg hl
    obtain ⟨workers, hw, heq⟩ := Option.map_eq_some_iff.mp h
    split at heq
    · rename_i hpos
      cases heq
      exact .putDone hl hw hpos
    · rename_i hpos
      cases heq
      exact .putWait hl hw hpos
  · cases h

/-- A read of the message by a worker. After the end of the iteration
there is nothing to be read. -/
theorem read_cases {i : Fin n} (h : read s i = some s') : Step folly conf s (.read i) s' := by
  unfold read at h
  split at h
  · rename_i reqmsg k hw hc
    split at h
    · rename_i msg hcell
      obtain ⟨reading, hr, rfl⟩ := Option.map_eq_some_iff.mp h
      exact .read hw hc hcell hr
    · rename_i hcell
      cases h
      exact .readEnded hw hc hcell
  · cases h

/-- What an event does is one of the steps. The guard of each function
is a premise of its constructor. -/
theorem step_of_some (h : step folly conf s e = some s') : Step folly conf s e s' := by
  -- Each case reads the guard of one function off its definition. The
  -- branches of `consume`, `asyncCall`, `putSection` and `read` have lemmas
  -- of their own, above.
  cases e with
  | start =>
      simp only [step, start] at h
      split at h
      · rename_i hm
        obtain ⟨workers, hw, rfl⟩ := Option.map_eq_some_iff.mp h
        exact .start hm hw
      · cases h
  | spawn =>
      simp only [step, spawn] at h
      split at h
      · rename_i hm ho
        cases h
        exact .spawn hm ho
      · cases h
  | stop =>
      simp only [step, stop] at h
      split at h
      · rename_i hm
        cases h
        exact .stop hm
      · cases h
  | join =>
      simp only [step, join] at h
      split at h
      · rename_i hm hl
        obtain ⟨workers, hw, rfl⟩ := Option.map_eq_some_iff.mp h
        exact .join hm hl hw
      · cases h
  | test =>
      simp only [step, test] at h
      split at h
      · rename_i hl
        cases h
        exact .test hl
      · cases h
  | endIteration =>
      simp only [step, endIteration] at h
      split at h
      · rename_i reqmsg hl
        cases h
        exact .endIteration hl
      · cases h
  | pool e =>
      simp only [step, poolStep] at h
      obtain ⟨he, hstep⟩ := Option.ite_none_right_eq_some.mp h
      obtain ⟨workers, hw, rfl⟩ := Option.map_eq_some_iff.mp hstep
      exact .pool he hw
  | runTask i =>
      simp only [step, runTask] at h
      obtain ⟨hret, hstep⟩ := Option.ite_none_right_eq_some.mp h
      obtain ⟨workers, hw, rfl⟩ := Option.map_eq_some_iff.mp hstep
      exact .runTask hret hw
  | call i =>
      simp only [step, call] at h
      split at h
      · rename_i reqmsg hw hc
        cases h
        exact .call hw hc
      · cases h
  | gate i g =>
      simp only [step, gate] at h
      split at h
      · rename_i pc hc
        obtain ⟨pc', hg, rfl⟩ := Option.map_eq_some_iff.mp h
        exact .gate hc hg
      · cases h
  | attempt i outcome =>
      simp only [step, attempt] at h
      split at h
      · rename_i k hc
        obtain ⟨hend, heq⟩ := Option.ite_none_right_eq_some.mp h
        cases heq
        exact .attempt hc hend
      · cases h
  | consume payload fs => exact consume_cases h
  | asyncCall => exact asyncCall_cases h
  | putSection pick => exact putSection_cases h
  | read i => exact read_cases h

/-- Every step of the system is one of the steps, before the end. -/
theorem step_cases (h : (system folly conf n).step s e = some s') :
    s.ended = none ∧ Step folly conf s e s' := by
  simp only [system] at h
  split at h
  · cases h
  · rename_i hended
    exact ⟨Option.not_isSome_iff_eq_none.mp hended, step_of_some h⟩

/-! ### The loop variables and the tasks -/

/-- The steps of the pool belong to the pool. Every task in it refers
to a loop variable that `AsyncCall` was called with. The variable that
is alive is that of the iteration that `ConsumeLoop` is in, and it
still has the value that `AsyncCall` was called with. -/
structure Inv (s : State n) : Prop where
  workers : (ThreadPool.system n Unit Nat 20).Reachable s.workers
  handed : ∀ reqmsg ∈ ThreadPool.accepted s.workers + ThreadPool.pending s.workers,
    ∃ msg, s.called reqmsg = some msg
  cells : ∀ reqmsg, (∃ msg, s.cells reqmsg = some msg) ↔ s.loop.reqmsg = some reqmsg
  called : ∀ reqmsg msg msg', s.called reqmsg = some msg → s.cells reqmsg = some msg' → msg = msg'
  fresh : ∀ reqmsg, s.created ≤ reqmsg → s.called reqmsg = none
  created : ∀ reqmsg, s.loop.reqmsg = some reqmsg → reqmsg < s.created
  unborn : s.main = .idle ∨ s.main = .starting → s.loop = .unborn

/-- The invariant where neither the loop variables nor the tasks
change. -/
theorem Inv.congr (hinv : Inv s) (hworkers : (ThreadPool.system n Unit Nat 20).Reachable s'.workers)
    (hhanded : ThreadPool.accepted s'.workers + ThreadPool.pending s'.workers =
      ThreadPool.accepted s.workers + ThreadPool.pending s.workers)
    (hcells : s'.cells = s.cells ∧ s'.created = s.created ∧ s'.called = s.called)
    (hloop : s'.loop.reqmsg = s.loop.reqmsg)
    (hunborn : s'.main = .idle ∨ s'.main = .starting → s'.loop = .unborn) : Inv s' := by
  obtain ⟨hcells, hcreated, hcalled⟩ := hcells
  refine ⟨hworkers, ?_, ?_, ?_, ?_, ?_, hunborn⟩
  · rw [hhanded, hcalled]
    exact hinv.handed
  · rw [hcells, hloop]
    exact hinv.cells
  · rw [hcells, hcalled]
    exact hinv.called
  · rw [hcreated, hcalled]
    exact hinv.fresh
  · rw [hcreated, hloop]
    exact hinv.created

/-- A step of the pool that hands over no task. -/
theorem Inv.pool_step (hinv : Inv s) {e : ThreadPool.Event n Unit Nat}
    (hw : (ThreadPool.system n Unit Nat 20).step s.workers e = some s'.workers)
    (he : e.handed = none)
    (hcells : s'.cells = s.cells ∧ s'.created = s.created ∧ s'.called = s.called)
    (hloop : s'.loop.reqmsg = s.loop.reqmsg)
    (hunborn : s'.main = .idle ∨ s'.main = .starting → s'.loop = .unborn) : Inv s' := by
  refine hinv.congr (hinv.workers.step hw) ?_ hcells hloop hunborn
  have hhanded := ThreadPool.handed_step (ThreadPool.reachable_inv hinv.workers)
    (ThreadPool.step_cases hw)
  rw [he] at hhanded
  exact hhanded.trans (add_zero _)

/-- Once `ConsumeLoop` runs, `Start` has spawned it. -/
theorem Inv.spawned (hinv : Inv s) (hl : s.loop ≠ .unborn) :
    ¬ (s.main = .idle ∨ s.main = .starting) :=
  fun hm => hl (hinv.unborn hm)

/-- No loop variable is alive where `ConsumeLoop` is in no
iteration. -/
theorem Inv.cells_eq_none (hinv : Inv s) {reqmsg : Nat} (h : s.loop.reqmsg ≠ some reqmsg) :
    s.cells reqmsg = none :=
  Option.eq_none_iff_forall_ne_some.mpr fun msg hmsg =>
    h ((hinv.cells reqmsg).mp ⟨msg, hmsg⟩)

/-- A new loop variable. Its number is the count of the messages so
far, so no task can refer to it yet. -/
theorem Inv.create (hinv : Inv s) (hl : s.loop = .consuming) (msg : RequestMessage) {pc : LoopPc}
    (hpc : pc.reqmsg = some s.created) : Inv (s.create msg pc) where
  workers := hinv.workers
  handed := hinv.handed
  cells reqmsg := by
    show (∃ m, Function.update s.cells s.created (some msg) reqmsg = some m) ↔ pc.reqmsg = _
    rw [hpc, Function.update_apply]
    split
    · rename_i heq
      exact iff_of_true ⟨msg, rfl⟩ (by rw [heq])
    · rename_i hne
      refine iff_of_false ?_ fun heq => hne (Option.some.inj heq).symm
      rw [hinv.cells_eq_none (by rw [hl]; exact nofun)]
      exact nofun
  called reqmsg m m' hm hm' := by
    change Function.update s.cells s.created (some msg) reqmsg = some m' at hm'
    rw [Function.update_apply] at hm'
    split at hm'
    · rename_i heq
      -- The new variable is none that `AsyncCall` was called with.
      have hfresh := hinv.fresh s.created (Nat.le_refl _)
      change s.called reqmsg = some m at hm
      rw [← heq, hm] at hfresh
      cases hfresh
    · exact hinv.called reqmsg m m' hm hm'
  fresh reqmsg hle := hinv.fresh reqmsg (Nat.le_of_succ_le hle)
  created reqmsg h := by
    change pc.reqmsg = some reqmsg at h
    rw [hpc] at h
    cases h
    exact Nat.lt_succ_self s.created
  unborn hm := absurd hm (hinv.spawned (by rw [hl]; exact nofun))

/-- `AsyncCall` hands over a task for the loop variable. The task
refers to the variable, and the variable lives until the iteration
ends. -/
theorem Inv.asyncCall (hinv : Inv s) {reqmsg : Nat} {workers : ThreadPool.State n Unit Nat 20}
    (hl : s.loop = .calling reqmsg)
    (hw : ThreadPool.putTask s.workers () (some reqmsg) = some workers) :
    Inv { s with
      workers
      called := Function.update s.called reqmsg (s.cells reqmsg)
      loop := .putting reqmsg } := by
  have hreqmsg : s.loop.reqmsg = some reqmsg := by rw [hl]; rfl
  obtain ⟨msg, hmsg⟩ := (hinv.cells reqmsg).mpr hreqmsg
  have hstep : (ThreadPool.system n Unit Nat 20).step s.workers (.putTask () (some reqmsg))
      = some workers := hw
  have hhanded := ThreadPool.handed_step (ThreadPool.reachable_inv hinv.workers)
    (ThreadPool.step_cases hstep)
  refine ⟨hinv.workers.step hstep, fun k hk => ?_, fun k => ?_, fun k m m' hm hm' => ?_,
    fun k hk => ?_, fun k hk => ?_, fun hm => absurd hm (hinv.spawned (by rw [hl]; exact nofun))⟩
  · show ∃ m, Function.update s.called reqmsg (s.cells reqmsg) k = some m
    rw [Function.update_apply]
    split
    · exact ⟨msg, hmsg⟩
    · rename_i hne
      -- Any other task was handed over before.
      change k ∈ ThreadPool.accepted workers + ThreadPool.pending workers at hk
      rw [hhanded] at hk
      rcases Multiset.mem_add.mp hk with hold | hnew
      · exact hinv.handed k hold
      · exact absurd (Multiset.mem_singleton.mp hnew) hne
  · exact (hinv.cells k).trans (by rw [hreqmsg]; rfl)
  · change Function.update s.called reqmsg (s.cells reqmsg) k = some m at hm
    change s.cells k = some m' at hm'
    rw [Function.update_apply] at hm
    split at hm
    · rename_i heq
      rw [heq, hm] at hm'
      exact Option.some.inj hm'
    · exact hinv.called k m m' hm hm'
  · change s.created ≤ k at hk
    show Function.update s.called reqmsg (s.cells reqmsg) k = none
    have hlt := hinv.created reqmsg hreqmsg
    rw [Function.update_of_ne (by omega)]
    exact hinv.fresh k hk
  · cases hk
    exact hinv.created reqmsg hreqmsg

/-- The end of an iteration. The variable ends, and a task that refers
to it may still be in the queue or in the hands of a worker. -/
theorem Inv.endIteration (hinv : Inv s) {reqmsg : Nat} (hl : s.loop = .ending reqmsg) :
    Inv { s with cells := Function.update s.cells reqmsg none, loop := .loop } := by
  have hnone : ∀ k, Function.update s.cells reqmsg none k = none := by
    intro k
    rw [Function.update_apply]
    split
    · rfl
    · rename_i hne
      refine hinv.cells_eq_none ?_
      rw [hl]
      exact fun heq => hne (Option.some.inj heq).symm
  refine ⟨hinv.workers, hinv.handed, fun k => ?_, fun k m m' hm hm' => ?_, hinv.fresh, nofun,
    fun hm => absurd hm (hinv.spawned (by rw [hl]; exact nofun))⟩
  · show (∃ m, Function.update s.cells reqmsg none k = some m) ↔ _
    rw [hnone]
    exact iff_of_false nofun nofun
  · change Function.update s.cells reqmsg none k = some m' at hm'
    rw [hnone] at hm'
    cases hm'

/-- A step keeps the invariant. Most steps change neither the cells
nor the tasks, and the three that do have lemmas of their own: a new
cell, a task for it, and its end. -/
theorem inv_step (hinv : Inv s) (h : Step folly conf s e s') : Inv s' := by
  cases h with
  | start hm hw =>
      exact hinv.pool_step (e := .start) hw rfl ⟨rfl, rfl, rfl⟩ rfl fun _ => hinv.unborn (.inl hm)
  | spawn hm ho =>
      have hl := hinv.unborn (.inr hm)
      exact hinv.congr hinv.workers rfl ⟨rfl, rfl, rfl⟩ (by rw [hl]; rfl) (by simp)
  | stop hm => exact hinv.congr hinv.workers rfl ⟨rfl, rfl, rfl⟩ rfl (by simp)
  | join hm hl hw => exact hinv.pool_step (e := .stop) hw rfl ⟨rfl, rfl, rfl⟩ rfl (by simp)
  | test hl =>
      -- A loop that tests has been spawned, so `Start` has returned.
      refine hinv.congr hinv.workers rfl ⟨rfl, rfl, rfl⟩ ?_
        fun hm => absurd hm (hinv.spawned (by rw [hl]; exact nofun))
      show (if s.isRunning then LoopPc.consuming else .left).reqmsg = _
      rw [hl]
      split <;> rfl
  | eof hl =>
      exact hinv.congr hinv.workers rfl ⟨rfl, rfl, rfl⟩ (by rw [hl]; rfl)
        fun hm => absurd hm (hinv.spawned (by rw [hl]; exact nofun))
  | message hl => exact hinv.create hl _ rfl
  | malformed hl => exact hinv.create hl _ rfl
  | asyncCall hl hr hw => exact hinv.asyncCall hl hw
  | @putWait reqmsg workers pick hl hw =>
      exact hinv.pool_step (e := .callerSection () pick) hw rfl ⟨rfl, rfl, rfl⟩ rfl hinv.unborn
  | @putDone reqmsg workers pick hl hw hpos =>
      exact hinv.pool_step (e := .callerSection () pick) hw rfl ⟨rfl, rfl, rfl⟩ (by rw [hl]; rfl)
        fun hm => absurd hm (hinv.spawned (by rw [hl]; exact nofun))
  | endIteration hl => exact hinv.endIteration hl
  | @pool e workers he hw =>
      refine hinv.pool_step hw ?_ ⟨rfl, rfl, rfl⟩ rfl hinv.unborn
      -- No event of the pool alone is one of the consumer's own calls.
      cases e <;> first | rfl | cases he
  | @runTask i workers hret hw =>
      exact hinv.pool_step (e := .runTask i) hw rfl ⟨rfl, rfl, rfl⟩ rfl hinv.unborn
  | throws | notStarted | call | gate | read | readEnded | attempt =>
      exact hinv.congr hinv.workers rfl ⟨rfl, rfl, rfl⟩ rfl hinv.unborn

/-- The invariant holds after `Init`. -/
theorem inv_initial (isRunning : Bool) : Inv (initial isRunning : State n) where
  workers := .init rfl
  handed reqmsg h := by
    have hnone : ThreadPool.pending (ThreadPool.initial : ThreadPool.State n Unit Nat 20) = 0 :=
      Finset.sum_eq_zero fun c _ => rfl
    change reqmsg ∈ (0 : Multiset Nat) + ThreadPool.pending ThreadPool.initial at h
    rw [hnone] at h
    cases h
  cells reqmsg := iff_of_false nofun nofun
  called reqmsg m m' hm := nomatch hm
  fresh reqmsg hle := rfl
  created reqmsg h := nomatch h
  unborn h := rfl

/-! ### What the workers read -/

/-- A worker that reads a field of its message reads the message that
`AsyncCall` was called with when it queued the task. The cell that it
reads must still be there, and hold that message. -/
def ReadsOwn (s : State n) : Event n → Prop
  | .read i => ∀ reqmsg, s.workers.worker i = .todo (some reqmsg) →
      ∃ msg, s.called reqmsg = some msg ∧ s.cells reqmsg = some msg
  | _ => True

/-- A worker reads its message while `ConsumeLoop` is still in the
iteration that queued the task. The loop variable lives for that long,
and no longer. -/
def InIteration (s : State n) : Event n → Prop
  | .read i => ∀ reqmsg, s.workers.worker i = .todo (some reqmsg) →
      s.loop.reqmsg = some reqmsg
  | _ => True

/-- The task of a worker reads the message of its `AsyncCall` exactly
in the iteration that queued it. It is a fact about one state with the
invariant, so no induction is needed here. -/
theorem readsOwn_iff_inIteration (hinv : Inv s) (e : Event n) : ReadsOwn s e ↔ InIteration s e := by
  cases e with
  | read i =>
      refine forall_congr' fun reqmsg => imp_congr_right fun hw => ?_
      rw [← hinv.cells]
      constructor
      · intro ⟨msg, _, hcell⟩
        exact ⟨msg, hcell⟩
      · intro ⟨msg, hcell⟩
        -- The worker took a task that was handed over, so by an `AsyncCall`.
        have hmem := ThreadPool.mem_accepted_of_todo hinv.workers hw
        obtain ⟨msg', hcalled⟩ := hinv.handed reqmsg (Multiset.mem_add.mpr (.inl hmem))
        exact ⟨msg, by rw [hcalled, hinv.called reqmsg msg' msg hcalled hcell], hcell⟩
  | _ => exact Iff.rfl

/-- In a run, every read of a worker finds the message that the
`AsyncCall` of its task was called with, exactly when every read
happens before the end of the iteration that made this call. The task
has the loop variable by reference, and the variable ends with the
iteration. -/
theorem readsOwn_iff (folly : Folly) (conf : AsyncClient.Conf) (isRunning : Bool)
    (es : List (Event n)) :
    (system folly conf n).EveryStep ReadsOwn (initial isRunning) es ↔
      (system folly conf n).EveryStep InIteration (initial isRunning) es :=
  System.everyStep_congr (fun _ _ _ hinv hs => inv_step hinv (step_cases hs).2)
    (fun _ e _ hinv _ => readsOwn_iff_inIteration hinv e) es (inv_initial isRunning)

/-! ### What the workers send -/

/-- What an attempt has read so far it has read from `msg`. The fields
that it has still to read are not compared. -/
structure Reading.Agrees (reading : Reading) (msg : RequestMessage) : Prop where
  url : reading.next ≠ .url → reading.msg.url = msg.url
  headers : reading.next = .data ∨ reading.next = .done → reading.msg.headers = msg.headers
  data : reading.next = .done → reading.msg.data = msg.data

/-- Before the first read. -/
theorem Reading.agrees_start (msg : RequestMessage) : ({} : Reading).Agrees msg where
  url h := absurd rfl h
  headers h := by rcases h with h | h <;> cases h
  data h := nomatch h

/-- A read of `msg`. What the attempt has read so far is a part of the
message, field by field. -/
theorem Reading.Agrees.read {reading reading' : Reading} {msg : RequestMessage}
    (h : reading.Agrees msg) (hr : reading.read msg = some reading') : reading'.Agrees msg := by
  unfold Reading.read at hr
  split at hr
  · cases hr
    exact ⟨fun _ => rfl, by simp, nofun⟩
  · rename_i hnext
    cases hr
    exact ⟨fun _ => h.url (by rw [hnext]; exact nofun), fun _ => rfl, nofun⟩
  · rename_i hnext
    cases hr
    exact ⟨fun _ => h.url (by rw [hnext]; exact nofun), fun _ => h.headers (.inl hnext),
      fun _ => rfl⟩
  · cases hr

/-- A worker in a call has a task. -/
def HasTask (s : State n) : Prop :=
  ∀ i, s.call i ≠ none → ∃ reqmsg, s.workers.worker i = .todo (some reqmsg)

/-- A step of the pool that ends no task keeps the tasks of the
workers in a call. -/
theorem HasTask.pool_step (hinv : Inv s) (htask : HasTask s) {e : ThreadPool.Event n Unit Nat}
    (hw : (ThreadPool.system n Unit Nat 20).step s.workers e = some s'.workers)
    (he : ∀ i, e ≠ .runTask i) (hcall : s'.call = s.call) :
    ∀ i, s'.call i ≠ none → s.call i ≠ none ∧ s'.workers.worker i = s.workers.worker i := by
  intro i hi
  rw [hcall] at hi
  obtain ⟨reqmsg, htodo⟩ := htask i hi
  exact ⟨hi, ThreadPool.worker_stays (ThreadPool.reachable_inv hinv.workers)
    (ThreadPool.step_cases hw) (.inr ⟨_, htodo⟩) (he i)⟩

/-- In a step the call of one worker goes on, or the workers that are
in a call after it were so before, with the same tasks. -/
theorem call_cases (hinv : Inv s) (htask : HasTask s) (h : Step folly conf s e s') :
    (∃ i pc, s' = s.goOn i pc ∧ ∃ reqmsg, s.workers.worker i = .todo (some reqmsg)) ∨
    ∀ i, s'.call i ≠ none → s.call i ≠ none ∧ s'.workers.worker i = s.workers.worker i := by
  cases h with
  | start hm hw => exact .inr (htask.pool_step (e := .start) hinv hw nofun rfl)
  | join hm hl hw => exact .inr (htask.pool_step (e := .stop) hinv hw nofun rfl)
  | @putWait reqmsg workers pick hl hw | @putDone reqmsg workers pick hl hw =>
      exact .inr (htask.pool_step (e := .callerSection () pick) hinv hw nofun rfl)
  | @asyncCall reqmsg workers hl hr hw =>
      exact .inr (htask.pool_step (e := .putTask () (some reqmsg)) hinv hw nofun rfl)
  | @pool e workers he hw =>
      refine .inr (htask.pool_step hinv hw (fun i heq => ?_) rfl)
      rw [heq] at he
      cases he
  | @runTask i workers hret hw =>
      -- The worker that ends its task leaves its call; the others keep
      -- theirs.
      refine .inr fun j hj => ?_
      change Function.update s.call i none j ≠ none at hj
      by_cases hji : j = i
      · rw [hji, Function.update_self] at hj
        exact absurd rfl hj
      · rw [Function.update_of_ne hji] at hj
        obtain ⟨reqmsg, htodo⟩ := htask j hj
        have hstep : (ThreadPool.system n Unit Nat 20).step s.workers (.runTask i)
            = some workers := hw
        refine ⟨hj, ThreadPool.worker_stays (ThreadPool.reachable_inv hinv.workers)
          (ThreadPool.step_cases hstep) (.inr ⟨_, htodo⟩) fun heq => ?_⟩
        cases heq
        exact hji rfl
  | call hw hc => exact .inl ⟨_, _, rfl, _, hw⟩
  | gate hc hg => exact .inl ⟨_, _, rfl, htask _ (by rw [hc]; exact nofun)⟩
  | attempt hc hend => exact .inl ⟨_, _, rfl, htask _ (by rw [hc]; exact nofun)⟩
  | spawn | stop | test | eof | message | malformed | throws | notStarted | endIteration | read
    | readEnded => exact .inr fun i hi => ⟨hi, rfl⟩

/-- A worker in a call has a task, and what it has read so far is of
the message that `AsyncCall` was called with. -/
structure Own (s : State n) : Prop where
  task : ∀ i, s.call i ≠ none → ∃ reqmsg, s.workers.worker i = .todo (some reqmsg)
  agrees : ∀ i reqmsg msg, s.call i ≠ none → s.workers.worker i = .todo (some reqmsg) →
    s.called reqmsg = some msg → (s.reading i).Agrees msg

/-- Where no call goes on and no message of a task changes. A cell may
still be assigned or end, as it is not looked at here. -/
theorem Own.congr (hown : Own s)
    (hsame : ∀ i, s'.call i ≠ none → s.call i ≠ none ∧ s'.workers.worker i = s.workers.worker i)
    (hreading : s'.reading = s.reading)
    (hcalled : ∀ i reqmsg msg, s.workers.worker i = .todo (some reqmsg) →
      s'.called reqmsg = some msg → s.called reqmsg = some msg) : Own s' := by
  constructor
  · intro i hi
    obtain ⟨hcall, hworker⟩ := hsame i hi
    rw [hworker]
    exact hown.task i hcall
  · intro i reqmsg msg hi hw hmsg
    obtain ⟨hcall, hworker⟩ := hsame i hi
    rw [hworker] at hw
    rw [hreading]
    exact hown.agrees i reqmsg msg hcall hw (hcalled i reqmsg msg hw hmsg)

/-- Where the call of one worker goes on, with a new attempt or at its
end. -/
theorem Own.goOn (hown : Own s) {i : Fin n} (pc : CallPc)
    (htask : ∃ reqmsg, s.workers.worker i = .todo (some reqmsg)) : Own (s.goOn i pc) := by
  have hcall : ∀ j, j ≠ i → (s.goOn i pc).call j = s.call j := fun j hj =>
    Function.update_of_ne hj _ _
  constructor
  · intro j hj
    by_cases hji : j = i
    · rw [hji]
      exact htask
    · rw [hcall j hji] at hj
      exact hown.task j hj
  · intro j reqmsg msg hj hw hmsg
    show (Function.update s.reading i {} j).Agrees msg
    rw [Function.update_apply]
    split
    · exact Reading.agrees_start msg
    · rename_i hji
      rw [hcall j hji] at hj
      exact hown.agrees j reqmsg msg hj hw hmsg

/-- The message of a task that a worker has is not replaced by the
`AsyncCall` of another. -/
theorem Inv.called_of_asyncCall (hinv : Inv s) {reqmsg : Nat} {i : Fin n} {k : Nat}
    {msg : RequestMessage} (hw : s.workers.worker i = .todo (some k))
    (hmsg : Function.update s.called reqmsg (s.cells reqmsg) k = some msg) :
    s.called k = some msg := by
  rw [Function.update_apply] at hmsg
  split at hmsg
  · rename_i heq
    -- The task was handed over before, with the message that the variable
    -- has.
    obtain ⟨msg', hcalled⟩ := hinv.handed k
      (Multiset.mem_add.mpr (.inl (ThreadPool.mem_accepted_of_todo hinv.workers hw)))
    rw [← heq] at hmsg
    rw [hcalled, hinv.called k msg' msg hcalled hmsg]
  · exact hmsg

/-- A step whose read is of the right message keeps what the workers
have read. -/
theorem own_step (hinv : Inv s) (hown : Own s) (hok : ReadsOwn s e)
    (h : Step folly conf s e s') : Own s' := by
  rcases call_cases hinv hown.task h with ⟨i, pc, hs', htask⟩ | hsame
  · rw [hs']
    exact hown.goOn pc htask
  · cases h with
    | @asyncCall reqmsg workers hl hr hw =>
        exact hown.congr hsame rfl fun i k msg htodo hmsg => hinv.called_of_asyncCall htodo hmsg
    | @read i reqmsg k msg reading hw hc hcell hr =>
        refine ⟨hown.task, fun j k' msg' hj hw' hmsg => ?_⟩
        show (Function.update s.reading i reading j).Agrees msg'
        rw [Function.update_apply]
        split
        · rename_i hji
          -- The worker reads the message that `AsyncCall` was called with.
          subst hji
          obtain ⟨msg'', hcalled, hcell'⟩ := hok k' hw'
          cases hw.symm.trans hw'
          cases hcell.symm.trans hcell'
          cases hcalled.symm.trans hmsg
          exact (hown.agrees j reqmsg msg hj hw hmsg).read hr
        · exact hown.agrees j k' msg' hj hw' hmsg
    | call hw hc => exact hown.goOn _ ⟨_, hw⟩
    | gate hc hg => exact hown.goOn _ (hown.task _ (by rw [hc]; exact nofun))
    | attempt hc hend => exact hown.goOn _ (hown.task _ (by rw [hc]; exact nofun))
    | start | spawn | stop | join | test | eof | message | malformed | throws | notStarted
      | putWait | putDone | endIteration | pool | runTask | readEnded =>
        exact hown.congr hsame rfl fun _ _ _ _ => id

/-- An attempt of a worker sends the request that `CallWithRetry`
builds from the message that `AsyncCall` was called with when it
queued the task. -/
def SendsOwn (conf : AsyncClient.Conf) (s : State n) : Event n → Prop
  | .attempt i outcome => ∀ k request, s.call i = some (.attempt k) →
      (AsyncClient.attempt conf.retries k (s.reading i).msg outcome).request = some request →
      ∃ reqmsg msg, s.workers.worker i = .todo (some reqmsg) ∧ s.called reqmsg = some msg ∧
        request = AsyncClient.httpRequest msg
  | _ => True

/-- A request is made of the URL, the headers and the size of the
data. These are what an attempt reads. -/
theorem Reading.Agrees.httpRequest {reading : Reading} {msg : RequestMessage}
    (h : reading.Agrees msg) (hdone : reading.next = .done) :
    AsyncClient.httpRequest reading.msg = AsyncClient.httpRequest msg := by
  have hurl := h.url (by rw [hdone]; exact nofun)
  have hheaders := h.headers (.inr hdone)
  have hdata := h.data hdone
  unfold AsyncClient.httpRequest AsyncClient.httpHeaders
  rw [hurl, hheaders, hdata]

/-- An attempt that sends a request has read all of its message. -/
theorem next_of_request {reading : Reading} {retries k : Int} {outcome : Outcome}
    {request : AsyncClient.HttpRequest} (hend : reading.canEnd outcome = true)
    (hrequest : (AsyncClient.attempt retries k reading.msg outcome).request = some request) :
    reading.next = .done := by
  cases outcome with
  | refused => cases hrequest
  | thrown => exact of_decide_eq_true hend
  | status code => exact of_decide_eq_true hend

/-- The requests of the workers, from what they have read. A read is
of the cell of the worker's own task, and a cell holds its message
until it ends. -/
theorem sendsOwn_step (hinv : Inv s) (hown : Own s) (h : Step folly conf s e s') :
    SendsOwn conf s e := by
  cases h with
  | @attempt i k outcome hc hend =>
      intro k' request hc' hrequest
      cases hc.symm.trans hc'
      obtain ⟨reqmsg, hw⟩ := hown.task i (by rw [hc]; exact nofun)
      obtain ⟨msg, hmsg⟩ := hinv.handed reqmsg
        (Multiset.mem_add.mpr (.inl (ThreadPool.mem_accepted_of_todo hinv.workers hw)))
      refine ⟨reqmsg, msg, hw, hmsg, ?_⟩
      have hagrees := hown.agrees i reqmsg msg (by rw [hc]; exact nofun) hw hmsg
      rw [AsyncClient.request_of_attempt hrequest]
      exact hagrees.httpRequest (next_of_request hend hrequest)
  | _ => trivial

/-- In a run whose reads all happen before the end of their iteration,
every request is the one that `CallWithRetry` builds from the message
that was queued. -/
theorem sendsOwn_of_inIteration (isRunning : Bool) {es : List (Event n)}
    (h : (system folly conf n).EveryStep InIteration (initial isRunning) es) :
    (system folly conf n).EveryStep (SendsOwn conf) (initial isRunning) es := by
  refine System.EveryStep.mono (I := fun s => Inv s ∧ Own s) ?_ ⟨inv_initial isRunning, ?_⟩ h
  · intro s e s' hI hs hin
    obtain ⟨hinv, hown⟩ := hI
    have hstep := (step_cases hs).2
    have hok := (readsOwn_iff_inIteration hinv e).mpr hin
    exact ⟨⟨inv_step hinv hstep, own_step hinv hown hok hstep⟩, sendsOwn_step hinv hown hstep⟩
  · exact ⟨fun i hi => absurd rfl hi, fun i _ _ hi => absurd rfl hi⟩

/-- A client without retries that has a token bucket. -/
def oneAttempt : AsyncClient.Conf where
  retries := 0
  rateLimit := true
  circuitBreaker := false

/-- The object that a file holds. -/
def payDynamic : Dynamic :=
  .obj [("url", .str "http://localhost/pay"), ("data", .str "x"), ("headers", .obj [])]

/-- The file system with the object in every file. -/
def payFile : FileSystem := fun _ => some (compactFolly.toJson payDynamic)

/-- The message of the object. -/
def payMessage : RequestMessage where
  url := "http://localhost/pay"
  data := "x"

/-- `FromJSON` reads the file. -/
theorem fromJSON_payFile (payload : String) :
    RequestMessage.fromJSON compactFolly payFile payload {} = (.ok true, payMessage) := by
  have hstrings : OfStrings payDynamic := by
    refine .obj (by decide) fun f hf => ?_
    simp only [List.mem_cons, List.not_mem_nil, or_false] at hf
    rcases hf with rfl | rfl | rfl
    · exact .str _
    · exact .str _
    · exact .obj List.nodup_nil nofun
  have hdict : compactFolly.parseJson (payFile.read payload) = .ok payDynamic := by
    rw [show payFile.read payload = compactFolly.toJson payDynamic by
      simp [FileSystem.read, payFile]]
    exact compactFolly_parseJson hstrings
  exact RequestMessage.fromJSON_iff.mpr
    ⟨payDynamic, "http://localhost/pay", "x", [], hdict, rfl, rfl, rfl, nofun, rfl⟩

/-- A message that `FromJSON` reads is consumed. -/
theorem step_message {fs : FileSystem} {payload : String} {msg : RequestMessage}
    (hended : s.ended = none) (hl : s.loop = .consuming)
    (hread : RequestMessage.fromJSON folly fs payload {} = (.ok true, msg)) :
    (system folly conf n).step s (.consume (some payload) fs)
      = some (s.create msg (.calling s.created)) := by
  simp only [system, hended, Option.isSome_none, Bool.false_eq_true, if_false, step, consume, hl,
    hread]

/-- The message of the file is consumed. -/
theorem step_payFile (hended : s.ended = none) (hl : s.loop = .consuming) :
    (system compactFolly conf n).step s (.consume (some "orders") payFile)
      = some (s.create payMessage (.calling s.created)) :=
  step_message hended hl (fromJSON_payFile "orders")

/-- Two workers and the thread in `ConsumeLoop` are spawned. -/
def spawned : List (Event 2) :=
  [.start, .pool .spawn, .pool .spawn, .pool .spawn, .spawn, .test]

/-- The message is queued, the iteration ends, and a worker takes the
task. -/
def queued : List (Event 2) :=
  [.asyncCall, .putSection none, .endIteration, .pool (.test ThreadPool.worker₀),
   .pool (.workerSection ThreadPool.worker₀ none), .call ThreadPool.worker₀,
   .gate ThreadPool.worker₀ .getToken]

/-- The worker reads the loop variable after its end. -/
theorem readAfterEnd :
    ∃ s s', (system compactFolly oneAttempt 2).run (initial false)
        (spawned ++ .consume (some "orders") payFile :: queued) = some s ∧
      (system compactFolly oneAttempt 2).step s (.read ThreadPool.worker₀) = some s' ∧
      s'.ended = some .undefined ∧ ¬ ReadsOwn s (.read ThreadPool.worker₀) := by
  have hspawned : (system compactFolly oneAttempt 2).run (initial false) spawned = some _ := rfl
  refine ⟨_, _, (System.run_append hspawned).trans
    ((System.run_cons (step_payFile rfl rfl)).trans rfl), rfl, rfl, ?_⟩
  intro h
  obtain ⟨msg, -, hcell⟩ := h 0 rfl
  cases hcell

end Bigpipe.KafkaConsumer
