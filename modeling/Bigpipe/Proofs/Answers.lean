import Bigpipe.Proofs.ConsumerReturns
import Bigpipe.Proofs.Delivery
import Bigpipe.Proofs.Workers

/-!
# `Bigpipe.Proofs.Answers`: the calls return, and the messages are answered

A `Call` asks `IsBreak` until it answers false, waits for a token, and
sends requests until one is answered with 200. So a `Call` that does
not return asks for ever or fails for ever. Where no `Call` does,
every message is answered.

What a `Call` waits for is outside of the consumer: the answers of the
breaker, of the bucket and of the server. They are events, and the
executions here are fair to them, so an answer comes where one is
waited for. Which answer it is remains open, and the two that keep a
`Call` where it is are the two ways not to return.

The loops of a `Call` are then gone through one after the other, each
with a rule of its own. In front of `IsBreak` nothing decreases, so
the worker stays there or leaves. In an attempt the fields that are
still to be read decrease. Between attempts nothing decreases again.

* `call_or_own`: only the events of a worker change its `Call`.
* `callsReturn`: a `Call` returns, or its worker stays in front of
  `IsBreak`, or it stays in its attempts.
* `answered_step`: a task ends where a request of it has been answered
  with 200.
* `answersAll`: where no worker stays broken or failing, for every
  message that is consumed a request that `CallWithRetry` builds from
  it is answered with 200 in the end.
-/

set_option autoImplicit false

namespace Bigpipe.KafkaConsumer

open Bigpipe.Lib
open Bigpipe.Lib.System (Execution)
open Bigpipe.AsyncClient (CallPc Gate Outcome)
open Bigpipe.Client (addInt)

variable {n : Nat} {folly : Folly} {conf : AsyncClient.Conf} {s s' : State n} {e : Event n}
  {u : Fin n}

/-! ### The steps of a `Call` -/

/-- The worker that gets an answer in a step: of `IsBreak`, of
`GetToken`, or of the server. -/
def answersTo : Event n → Option (Fin n)
  | .gate i _ | .attempt i _ => some i
  | _ => none

/-- The reads that an attempt has left. A read lowers it, and it is
the rank of the attempt. -/
def Field.left : Field → Nat
  | .url => 3
  | .headers => 2
  | .data => 1
  | .done => 0

/-- A read leaves one less. -/
theorem Reading.left_read {reading reading' : Reading} {msg : RequestMessage}
    (h : reading.read msg = some reading') : reading'.next.left < reading.next.left := by
  unfold Reading.read at h
  split at h <;> rename_i hnext <;> cases h <;> rw [hnext] <;> exact Nat.lt_succ_self _

/-- An attempt that has not read all can read. -/
theorem Reading.exists_read {reading : Reading} (msg : RequestMessage)
    (h : reading.next ≠ .done) : ∃ reading', reading.read msg = some reading' := by
  unfold Reading.read
  split
  · exact ⟨_, rfl⟩
  · exact ⟨_, rfl⟩
  · exact ⟨_, rfl⟩
  · rename_i hdone
    exact absurd hdone h

/-- In every reachable state. -/
theorem reachable_alive (h : (system folly conf n).Reachable s) : Inv s ∧ HasTask s ∧ Alive s := by
  refine h.induct (I := fun s => Inv s ∧ HasTask s ∧ Alive s) ?_ ?_
  · rintro s ⟨isRunning, rfl⟩
    refine ⟨inv_initial isRunning, fun i hi => absurd rfl hi, ?_⟩
    rintro - ⟨i, hi⟩
    simp [initial] at hi
  · intro s e s' _ hI hs
    obtain ⟨hinv, htask, halive⟩ := hI
    have hstep := (step_cases hs).2
    exact ⟨inv_step hinv hstep, hasTask_step hinv htask hstep,
      (workers_of_step htask halive hs).1⟩

/-- A worker in a `Call` that has not returned does not end its
task. -/
theorem not_hasReturned (htask : HasTask s) {pc : CallPc} (hc : s.call u = some pc)
    (hpc : pc ≠ .returned) : hasReturned s u = false := by
  obtain ⟨reqmsg, hw⟩ := htask u (by rw [hc]; nofun)
  simp [hasReturned, hw, hc, hpc]

/-- Only its own events change the `Call` of a worker. What the other
threads do, a spurious wake-up included, leaves it where it is. -/
theorem call_or_own (htask : HasTask s) {pc : CallPc} (hc : s.call u = some pc)
    (hpc : pc ≠ .returned) (h : Step folly conf s e s') :
    e = .read u ∨ answersTo e = some u ∨
      answersTo e ≠ some u ∧ s'.call u = some pc ∧ s'.reading u = s.reading u := by
  by_cases hread : e = .read u
  · exact .inl hread
  by_cases hanswer : answersTo e = some u
  · exact .inr (.inl hanswer)
  refine .inr (.inr ⟨hanswer, ?_⟩)
  -- What another worker does is no change to this one's call or reads.
  have hgoOn : ∀ i pc', i ≠ u →
      (s.goOn i pc').call u = some pc ∧ (s.goOn i pc').reading u = s.reading u :=
    fun i pc' hi => ⟨(Function.update_of_ne (Ne.symm hi) _ _).trans hc,
      Function.update_of_ne (Ne.symm hi) _ _⟩
  cases h with
  | @runTask i workers hret =>
      refine ⟨(Function.update_of_ne ?_ _ _).trans hc, rfl⟩
      rintro rfl
      cases (not_hasReturned htask hc hpc).symm.trans hret
  | call _ hc' =>
      refine hgoOn _ _ ?_
      rintro rfl
      cases hc.symm.trans hc'
  | gate | attempt => exact hgoOn _ _ fun hi => hanswer (by rw [hi]; rfl)
  | @read i =>
      refine ⟨hc, Function.update_of_ne ?_ _ _⟩
      rintro rfl
      exact hread rfl
  | start | spawn | stop | join | test | eof | message | malformed | throws | asyncCall | notStarted
    | putWait | putDone | endIteration | pool | readEnded => exact ⟨hc, rfl⟩

/-- An answer brings the `Call` to its next place. A gate and an
attempt are the two things that a `Call` waits for an answer of. -/
theorem answer_cases {pc : CallPc} (hc : s.call u = some pc) (hanswer : answersTo e = some u)
    (h : Step folly conf s e s') :
    (∃ g pc', e = .gate u g ∧ AsyncClient.gate conf pc g = some pc' ∧ s' = s.goOn u pc') ∨
      ∃ a outcome, pc = .attempt a ∧ e = .attempt u outcome ∧
        s' = s.goOn u (AsyncClient.attempt conf.retries a (s.reading u).msg outcome).next := by
  cases h with
  | gate hc' hg =>
      cases hanswer
      cases hc.symm.trans hc'
      exact .inl ⟨_, _, rfl, hg, rfl⟩
  | attempt hc' =>
      cases hanswer
      cases hc.symm.trans hc'
      exact .inr ⟨_, _, rfl, rfl, rfl⟩
  | _ => cases hanswer

/-- Where the call of a worker goes on, it is there. -/
theorem goOn_call (s : State n) (u : Fin n) (pc : CallPc) : (s.goOn u pc).call u = some pc :=
  Function.update_self _ _ _

/-- A worker leaves a `Call` only after its return. -/
theorem call_stays (htask : HasTask s) (hc : s.call u ≠ none) (hpc : s.call u ≠ some .returned)
    (h : Step folly conf s e s') : s'.call u ≠ none := by
  refine call_ne_none_step h hc ?_
  rintro rfl
  obtain ⟨reqmsg, hw⟩ := htask u hc
  cases h with
  | runTask hret => exact hpc (by simpa [hasReturned, hw] using hret)

/-- A worker reads only in its attempts. -/
theorem call_of_read (h : Step folly conf s (.read u) s') : ∃ a, s.call u = some (.attempt a) := by
  cases h with
  | read _ hc | readEnded _ hc => exact ⟨_, hc⟩

/-- It reads a field of the message, unless the message has ended. -/
theorem read_step (h : Step folly conf s (.read u) s') :
    s'.call = s.call ∧ (s'.reading u).next.left < (s.reading u).next.left ∨ s'.ended ≠ none := by
  cases h with
  | @read _ reqmsg k msg reading hw hc hcell hr =>
      refine .inl ⟨rfl, ?_⟩
      show (Function.update s.reading u reading u).next.left < _
      rw [Function.update_self]
      exact Reading.left_read hr
  | readEnded => exact .inr nofun

/-- In front of `IsBreak` a `Call` stays where the answer is true. It
sleeps for a second and asks again. -/
theorem breaker_step (htask : HasTask s) (hc : s.call u = some .breaker)
    (h : Step folly conf s e s') :
    s'.call u = some .breaker ∧ (answersTo e = some u → e = .gate u (.isBreak true)) ∨
      s'.call u = some .token := by
  rcases call_or_own htask hc nofun h with rfl | hanswer | ⟨hnot, hsame, -⟩
  · obtain ⟨a, hc'⟩ := call_of_read h
    cases hc.symm.trans hc'
  · rcases answer_cases hc hanswer h with ⟨g, pc', rfl, hg, rfl⟩ | ⟨a, -, hpc, -⟩
    · cases g with
      | isBreak isBreak =>
          cases hg
          cases isBreak with
          | true => exact .inl ⟨goOn_call _ _ _, fun _ => rfl⟩
          | false => exact .inr (goOn_call _ _ _)
      | getToken => cases hg
    · cases hpc
  · exact .inl ⟨hsame, fun heq => absurd heq hnot⟩

/-- With its token a `Call` comes to the loop of `CallWithRetry`, or
the assertion fails. -/
theorem token_step (htask : HasTask s) (hc : s.call u = some .token)
    (h : Step folly conf s e s') :
    s'.call u = some .token ∧ answersTo e ≠ some u ∨
      (∃ a, s'.call u = some (.attempt a)) ∨ s'.call u = some .returned ∨ s'.ended ≠ none := by
  rcases call_or_own htask hc nofun h with rfl | hanswer | ⟨hnot, hsame, -⟩
  · obtain ⟨a, hc'⟩ := call_of_read h
    cases hc.symm.trans hc'
  · rcases answer_cases hc hanswer h with ⟨g, pc', rfl, hg, rfl⟩ | ⟨a, -, hpc, -⟩
    · cases g with
      | isBreak => cases hg
      | getToken =>
          cases hg
          refine .inr ?_
          rw [goOn_call, AsyncClient.retry]
          split
          · split
            · exact .inl ⟨_, rfl⟩
            · exact .inr (.inl rfl)
          · exact .inr (.inr (Option.some_ne_none _))
    · cases hpc
  · exact .inl ⟨hsame, hnot⟩

/-- An attempt reads on, and ends in a failure, a return of the
`Call`, or the end of the process. A failure leads to the next
attempt, since the test of the loop does not change. -/
theorem attempt_step (htask : HasTask s) {a : Int} (hc : s.call u = some (.attempt a))
    (h : Step folly conf s e s') :
    s'.call u = some (.attempt a) ∧ (s'.reading u = s.reading u ∧ answersTo e ≠ some u ∨
        (s'.reading u).next.left < (s.reading u).next.left) ∨
      (∃ code, code ≠ 200 ∧ e = .attempt u (.status code)) ∧
        ((∃ a', s'.call u = some (.attempt a')) ∨ s'.call u = some .returned) ∨
      s'.call u = some .returned ∨ s'.ended ≠ none := by
  rcases call_or_own htask hc nofun h with rfl | hanswer | ⟨hnot, hsame, hreading⟩
  -- A read of the message: fewer parts of it are left.
  · rcases read_step h with ⟨hcall, hlt⟩ | hended
    · exact .inl ⟨(congrFun hcall u).trans hc, .inr hlt⟩
    · exact .inr (.inr (.inr hended))
  · rcases answer_cases hc hanswer h with ⟨g, pc', -, hg, -⟩ | ⟨a', outcome, hpc, rfl, rfl⟩
    · cases g <;> cases hg
    · cases hpc
      cases outcome with
      | refused | thrown => exact .inr (.inr (.inr nofun))
      | status code =>
          rw [goOn_call]
          -- An answer other than 200 leads back to the test of the loop.
          by_cases hcode : code = 200
          · refine .inr (.inr (.inl ?_))
            simp [AsyncClient.attempt, hcode]
          · refine .inr (.inl ⟨⟨code, hcode, rfl⟩, ?_⟩)
            simp only [AsyncClient.attempt, if_pos hcode, AsyncClient.retry]
            split
            · exact .inl ⟨_, rfl⟩
            · exact .inr rfl
  · exact .inl ⟨hsame, .inl ⟨hreading, hnot⟩⟩

/-- In its attempts a worker only reads. The rest of an attempt is the
server's, or an exception. -/
theorem read_of_actor (htask : HasTask s) {a : Int} (hc : s.call u = some (.attempt a))
    (h : Step folly conf s e s') (hactor : actor e = some (.worker u)) : e = .read u := by
  obtain ⟨reqmsg, hw⟩ := htask u (by rw [hc]; nofun)
  cases h with
  | pool he hw' =>
      obtain rfl := ThreadPool.runTask_of_actor hw (ThreadPool.step_cases hw') hactor
      cases he
  | runTask hret =>
      cases hactor
      cases (not_hasReturned htask hc nofun).symm.trans hret
  | call _ hc' =>
      cases hactor
      cases hc.symm.trans hc'
  | read | readEnded =>
      cases hactor
      rfl
  | _ => cases hactor

/-! ### A `Call` returns -/

section

variable {x : Execution (system folly conf n)}

/-- From a point on, the worker stays in front of `IsBreak`, which
answers true again and again. It sleeps a second between the answers,
and is in the breaker's hands. -/
def StaysBroken (x : Execution (system folly conf n)) (u : Fin n) (i : Nat) : Prop :=
  ∀ j, i ≤ j → (x.state j).call u = some .breaker ∧
    ∃ k, j ≤ k ∧ x.event k = some (.gate u (.isBreak true))

/-- From a point on, the worker stays in its attempts, which the
server answers with other codes than 200 again and again. The test of
the loop never ends it. -/
def StaysFailing (x : Execution (system folly conf n)) (u : Fin n) (i : Nat) : Prop :=
  ∀ j, i ≤ j → (∃ a, (x.state j).call u = some (.attempt a)) ∧
    ∃ k code, j ≤ k ∧ code ≠ 200 ∧ x.event k = some (.attempt u (.status code))

/-- A `Call` that waits for a token gets one, as the answer to
`GetToken(1)` stays there to come until it does. -/
theorem token_leadsTo (hgoes : ∀ i, (x.state i).ended = none)
    (hanswer : x.WeaklyFair fun e => answersTo e = some u) :
    x.LeadsTo (fun s => s.call u = some .token)
      fun s => (∃ a, s.call u = some (.attempt a)) ∨ s.call u = some .returned := by
  have hstep : ∀ i e, x.event i = some e → (x.state i).call u = some .token →
      (x.state (i + 1)).call u = some .token ∧ answersTo e ≠ some u ∨
        (∃ a, (x.state (i + 1)).call u = some (.attempt a)) ∨
          (x.state (i + 1)).call u = some .returned := by
    intro i e he hc
    rcases token_step (reachable_alive (x.reachable i)).2.1 hc (step_cases (x.steps i e he)).2 with
      hstays | hattempt | hreturned | hended
    · exact .inl hstays
    · exact .inr (.inl hattempt)
    · exact .inr (.inr hreturned)
    · exact absurd (hgoes (i + 1)) hended
  refine hanswer.leadsTo (fun i e he hc => (hstep i e he hc).imp_left And.left)
    (fun i e he hA hc => (hstep i e he hc).resolve_left fun h => h.2 hA) fun i hc => ?_
  exact enabled_of_step (e := .gate u .getToken) (hgoes i) rfl
    (by simp [step, gate, hc, AsyncClient.gate])

/-- A worker that stays in its attempts has one that fails. An attempt
has three fields to read, so it cannot read for ever, and when it has
read them it waits for the server. -/
theorem exists_failing (hgoes : ∀ i, (x.state i).ended = none)
    (hfair : x.WeaklyFair fun e => actor e = some (.worker u))
    (hanswer : x.WeaklyFair fun e => answersTo e = some u) {i : Nat}
    (hattempt : ∀ j, i ≤ j → ∃ a, (x.state j).call u = some (.attempt a)) :
    ∃ k code, i ≤ k ∧ code ≠ 200 ∧ x.event k = some (.attempt u (.status code)) := by
  by_contra hnever
  have hstep : ∀ j e, i ≤ j → x.event j = some e →
      (x.state (j + 1)).reading u = (x.state j).reading u ∧ answersTo e ≠ some u ∨
        ((x.state (j + 1)).reading u).next.left < ((x.state j).reading u).next.left := by
    intro j e hij he
    obtain ⟨a, hc⟩ := hattempt j hij
    have htask := (reachable_alive (x.reachable j)).2.1
    rcases attempt_step htask hc (step_cases (x.steps j e he)).2 with
      ⟨-, hreads⟩ | ⟨⟨code, hcode, rfl⟩, -⟩ | hreturned | hended
    · exact hreads
    · exact absurd ⟨j, code, hij, hcode, he⟩ hnever
    · obtain ⟨a', hc'⟩ := hattempt (j + 1) (Nat.le_succ_of_le hij)
      cases hc'.symm.trans hreturned
    · exact absurd (hgoes (j + 1)) hended
  -- The attempt reads no more in the end.
  obtain ⟨j, hij, hsame⟩ := Execution.stable_of_rank (x := x) (fun s => s.reading u)
    (fun reading => reading.next.left) (i := i)
    fun j e hij he => (hstep j e hij he).imp_left And.left
  have hnot : ∀ k e, j ≤ k → x.event k = some e →
      (x.state (k + 1)).reading u = (x.state k).reading u ∧ answersTo e ≠ some u := by
    intro k e hjk he
    refine (hstep k e (hij.trans hjk) he).resolve_right fun hlt => ?_
    rw [hsame k hjk, hsame (k + 1) (Nat.le_succ_of_le hjk)] at hlt
    exact Nat.lt_irrefl _ hlt
  by_cases hdone : ((x.state j).reading u).next = .done
  · -- The request is sent, and the server answers.
    obtain ⟨k, e, hjk, hA, he⟩ := hanswer j fun k hjk => by
      obtain ⟨a, hc⟩ := hattempt k (hij.trans hjk)
      refine enabled_of_step (e := .attempt u (.status 200)) (hgoes k) rfl ?_
      have hend : ((x.state k).reading u).canEnd (.status 200) = true := by
        rw [hsame k hjk]
        exact decide_eq_true hdone
      simp [step, attempt, hc, hend]
    exact (hnot k e hjk he).2 hA
  · -- There is a field to read.
    obtain ⟨k, e, hjk, hactor, he⟩ := hfair j fun k hjk => by
      obtain ⟨a, hc⟩ := hattempt k (hij.trans hjk)
      obtain ⟨reqmsg, hw⟩ := (reachable_alive (x.reachable k)).2.1 u
        (by rw [hc]; exact Option.some_ne_none _)
      refine enabled_of_step (e := .read u) (hgoes k) rfl ?_
      rw [← hsame k hjk] at hdone
      simp only [step, read, hw, hc]
      split
      · rename_i msg hcell
        obtain ⟨reading, hr⟩ := Reading.exists_read msg hdone
        rw [hr]
        rfl
      · rfl
    obtain ⟨a, hc⟩ := hattempt k (hij.trans hjk)
    have hcases := (step_cases (x.steps k e he)).2
    obtain rfl := read_of_actor (reachable_alive (x.reachable k)).2.1 hc hcases hactor
    rcases read_step hcases with ⟨-, hlt⟩ | hended
    · rw [(hnot k _ hjk he).1] at hlt
      exact Nat.lt_irrefl _ hlt
    · exact hended (hgoes (k + 1))

/-- Where the process goes on, a `Call` returns, or its worker stays
broken or failing. The three places of a `Call` are passed in order,
and the worker comes back to none of them. -/
theorem call_cases_of_goes (hgoes : ∀ i, (x.state i).ended = none)
    (hfair : x.WeaklyFair fun e => actor e = some (.worker u))
    (hanswer : x.WeaklyFair fun e => answersTo e = some u) {i : Nat}
    (hcall : (x.state i).call u ≠ none) :
    (∃ j, i ≤ j ∧ (x.state j).call u = some .returned) ∨ StaysBroken x u i ∨
      ∃ j, i ≤ j ∧ StaysFailing x u j := by
  by_cases hreturns : ∃ j, i ≤ j ∧ (x.state j).call u = some .returned
  · exact .inl hreturns
  have hnot : ∀ j, i ≤ j → (x.state j).call u ≠ some .returned := fun j hij h =>
    hreturns ⟨j, hij, h⟩
  refine .inr ?_
  by_cases hattempts : ∃ j, i ≤ j ∧ ∃ a, (x.state j).call u = some (.attempt a)
  · -- The worker is in its attempts from there on.
    obtain ⟨j, hij, hattempt⟩ := hattempts
    have hstays : ∀ k, j ≤ k → ∃ a, (x.state k).call u = some (.attempt a) := by
      intro k hjk
      refine Execution.always_from (x := x) (P := fun s => ∃ a, s.call u = some (.attempt a))
        hattempt (fun l e hjl he ⟨a, hc⟩ => ?_) hjk
      have hreturned := hnot (l + 1) (hij.trans (Nat.le_succ_of_le hjl))
      rcases attempt_step (reachable_alive (x.reachable l)).2.1 hc
        (step_cases (x.steps l e he)).2 with ⟨hc', -⟩ | ⟨-, hc'⟩ | hc' | hended
      · exact ⟨a, hc'⟩
      · exact hc'.resolve_right hreturned
      · exact absurd hc' hreturned
      · exact absurd (hgoes (l + 1)) hended
    exact .inr ⟨j, hij, fun k hjk => ⟨hstays k hjk,
      exists_failing hgoes hfair hanswer fun l hkl => hstays l (hjk.trans hkl)⟩⟩
  · -- The worker never has a token, so it is in front of `IsBreak`.
    have hbreaker : ∀ j, i ≤ j → (x.state j).call u = some .breaker := by
      intro j hij
      have hne : (x.state j).call u ≠ none := by
        refine Execution.always_from (x := x) (P := fun s => s.call u ≠ none) hcall
          (fun l e hil he hc => ?_) hij
        exact call_stays (reachable_alive (x.reachable l)).2.1 hc (hnot l hil)
          (step_cases (x.steps l e he)).2
      obtain ⟨pc, hpc⟩ := Option.ne_none_iff_exists'.mp hne
      have halive := (reachable_alive (x.reachable j)).2.2 (hgoes j)
      cases pc with
      | breaker => exact hpc
      | token =>
          obtain ⟨k, hjk, hattempt | hreturned⟩ := token_leadsTo hgoes hanswer j hpc
          · exact absurd ⟨k, hij.trans hjk, hattempt⟩ hattempts
          · exact absurd hreturned (hnot k (hij.trans hjk))
      | attempt a => exact absurd ⟨j, hij, a, hpc⟩ hattempts
      | returned => exact absurd hpc (hnot j hij)
      | thrown => exact absurd ⟨u, .inl hpc⟩ halive
      | aborted => exact absurd ⟨u, .inr hpc⟩ halive
    refine .inl fun j hij => ⟨hbreaker j hij, ?_⟩
    obtain ⟨k, e, hjk, hA, he⟩ := hanswer j fun k hjk =>
      enabled_of_step (e := .gate u (.isBreak true)) (hgoes k) rfl
        (by simp [step, gate, hbreaker k (hij.trans hjk), AsyncClient.gate])
    rcases breaker_step (reachable_alive (x.reachable k)).2.1 (hbreaker k (hij.trans hjk))
      (step_cases (x.steps k e he)).2 with ⟨-, htrue⟩ | htoken
    · exact ⟨k, hjk, by rw [he, htrue hA]⟩
    · cases (hbreaker (k + 1) (hij.trans (Nat.le_succ_of_le hjk))).symm.trans htoken

end

/-- In every execution of a consumer in which a worker that stays able
to run runs in the end, and gets an answer in the end where it waits
for one, every `Call` of the worker returns, or the process ends, or
the worker stays in front of `IsBreak`, which answers true for ever,
or it stays in its attempts, which the server answers with other codes
than 200 for ever.

The number of retries does not appear: `CallWithRetry` does not count
them. -/
theorem callsReturn (x : Execution (system folly conf n))
    (hfair : x.WeaklyFair fun e => actor e = some (.worker u))
    (hanswer : x.WeaklyFair fun e => answersTo e = some u) {i : Nat}
    (hcall : (x.state i).call u ≠ none) :
    (∃ j, i ≤ j ∧ ((x.state j).call u = some .returned ∨ (x.state j).ended ≠ none)) ∨
      StaysBroken x u i ∨ ∃ j, i ≤ j ∧ StaysFailing x u j := by
  by_cases hends : ∃ j, (x.state j).ended ≠ none
  · obtain ⟨j, hj⟩ := hends
    exact .inl ⟨max i j, Nat.le_max_left i j, .inr (ended_always (Nat.le_max_right i j) hj)⟩
  have hgoes : ∀ j, (x.state j).ended = none := fun j => by
    by_contra hended
    exact hends ⟨j, hended⟩
  exact (call_cases_of_goes hgoes hfair hanswer hcall).imp_left fun ⟨j, hij, hreturned⟩ =>
    ⟨j, hij, .inl hreturned⟩

/-! ### A task ends with a 200 -/

/-- A task that is executed is one whose `Call` has returned. The
other steps leave the list of the executed tasks as it is. -/
theorem executed_cases (h : Step folly conf s e s') :
    s'.workers.executed = s.workers.executed ∨
      ∃ i task, s.workers.worker i = .todo task ∧ hasReturned s i = true ∧
        s'.workers.executed = s.workers.executed ++ task.toList := by
  -- The list of executed tasks grows in `runTask` alone.
  have hpool : ∀ {e : ThreadPool.Event n Unit Nat} {workers : ThreadPool.State n Unit Nat 20},
      (ThreadPool.system n Unit Nat 20).step s.workers e = some workers → (∀ i, e ≠ .runTask i) →
      workers.executed = s.workers.executed := by
    intro e workers hw hne
    cases ThreadPool.step_cases hw with
    | runTask => exact absurd rfl (hne _)
    | _ => rfl
  cases h with
  | start _ hw => exact .inl (hpool (e := .start) hw nofun)
  | join _ _ hw => exact .inl (hpool (e := .stop) hw nofun)
  | @asyncCall reqmsg workers hl hr hw =>
      exact .inl (hpool (e := .putTask () (some reqmsg)) hw nofun)
  | @putWait reqmsg workers pick hl hw | @putDone reqmsg workers pick hl hw =>
      exact .inl (hpool (e := .callerSection () pick) hw nofun)
  | @pool e workers he hw =>
      refine .inl (hpool hw fun i heq => ?_)
      subst heq
      cases he
  | @runTask i workers hret hw =>
      have hstep : (ThreadPool.system n Unit Nat 20).step s.workers (.runTask i)
          = some workers := hw
      cases ThreadPool.step_cases hstep with
      | runTask htodo => exact .inr ⟨i, _, htodo, hret, rfl⟩
  | spawn | stop | test | eof | message | malformed | throws | notStarted | endIteration | call
    | gate | read | readEnded | attempt => exact .inl rfl

/-- Where the loop of `CallWithRetry` is entered, a `Call` returns by
a 200. It is entered unless `retries + 1` is 0. -/
theorem returned_cases (hretries : addInt conf.retries 1 ≠ 0) (h : Step folly conf s e s')
    (hc : s'.call u = some .returned) :
    s.call u = some .returned ∨ e = .attempt u (.status 200) := by
  -- Only the worker that steps has its call moved on.
  have hgoOn : ∀ i pc, (s.goOn i pc).call u = some .returned →
      s.call u = some .returned ∨ i = u ∧ pc = .returned := by
    intro i pc hi
    by_cases hiu : i = u
    · subst hiu
      rw [goOn_call] at hi
      exact .inr ⟨rfl, Option.some.inj hi⟩
    · exact .inl ((Function.update_of_ne (Ne.symm hiu) _ _).symm.trans hi)
  -- `retries + 1` is not 0, so the test of the loop never ends it.
  have hretry : ∀ i, AsyncClient.retry conf.retries i ≠ .returned := fun i hi => by
    rw [AsyncClient.retry, if_pos hretries] at hi
    cases hi
  cases h with
  | @runTask i =>
      change Function.update s.call i none u = some .returned at hc
      rw [Function.update_apply] at hc
      split at hc
      · cases hc
      · exact .inl hc
  | call =>
      rcases hgoOn _ _ hc with hold | ⟨-, hpc⟩
      · exact .inl hold
      · unfold AsyncClient.call at hpc
        split at hpc <;> cases hpc
  -- A gate ends at the token or at the first attempt.
  | @gate i pc pc' g _ hg =>
      rcases hgoOn _ _ hc with hold | ⟨-, rfl⟩
      · exact .inl hold
      · unfold AsyncClient.gate at hg
        split at hg
        · split at hg <;> cases hg
        · split at hg
          · exact absurd (Option.some.inj hg) (hretry 0)
          · cases hg
        · cases hg
  | @attempt i k outcome =>
      rcases hgoOn _ _ hc with hold | ⟨rfl, hpc⟩
      · exact .inl hold
      · cases outcome with
        | refused | thrown => cases hpc
        | status code =>
            by_cases hcode : code = 200
            · exact .inr (by rw [hcode])
            · simp only [AsyncClient.attempt, if_pos hcode] at hpc
              exact absurd hpc (hretry _)
  | start | spawn | stop | join | test | eof | message | malformed | throws | asyncCall | notStarted
    | putWait | putDone | endIteration | pool | read | readEnded => exact .inl hc

/-- The tasks that are executed, or whose `Call` has returned, have
`P`. It is carried along an execution with a `P` that grows. -/
structure Answered (P : Nat → Prop) (s : State n) : Prop where
  executed : ∀ reqmsg ∈ s.workers.executed, P reqmsg
  returned : ∀ i reqmsg, s.call i = some .returned → s.workers.worker i = .todo (some reqmsg) →
    P reqmsg

/-- A step keeps it where it makes `P` true of the task that gets a
200. -/
theorem answered_step {P Q : Nat → Prop} (hretries : addInt conf.retries 1 ≠ 0) (hinv : Inv s)
    (htask : HasTask s) (h : Step folly conf s e s') (hPQ : ∀ reqmsg, P reqmsg → Q reqmsg)
    (hnew : ∀ i reqmsg, e = .attempt i (.status 200) →
      s.workers.worker i = .todo (some reqmsg) → Q reqmsg)
    (hanswered : Answered P s) : Answered Q s' := by
  refine ⟨fun reqmsg hmem => ?_, fun i reqmsg hc hw => ?_⟩
  · rcases executed_cases h with hsame | ⟨i, task, hw, hret, happend⟩
    · rw [hsame] at hmem
      exact hPQ _ (hanswered.executed _ hmem)
    · rw [happend] at hmem
      rcases List.mem_append.mp hmem with hold | hlast
      · exact hPQ _ (hanswered.executed _ hold)
      · obtain rfl := Option.mem_toList.mp hlast
        refine hPQ _ (hanswered.returned i _ ?_ hw)
        simpa [hasReturned, hw] using hret
  · have hw' : s.workers.worker i = .todo (some reqmsg) := by
      rcases call_cases hinv htask h with ⟨j, pc, rfl, -⟩ | hsame
      · exact hw
      · exact (hsame i (by rw [hc]; exact Option.some_ne_none _)).2.symm.trans hw
    rcases returned_cases hretries h hc with hreturned | hsuccess
    · exact hPQ _ (hanswered.returned i _ hreturned hw')
    · exact hnew i _ hsuccess hw'

/-- The message of a task stays the one that `AsyncCall` was called
with. -/
theorem called_step (hinv : Inv s) (h : Step folly conf s e s') {reqmsg : Nat}
    {msg : RequestMessage} (hcalled : s.called reqmsg = some msg) :
    s'.called reqmsg = some msg := by
  cases h with
  | @asyncCall k workers hl =>
      show Function.update s.called k (s.cells k) reqmsg = some msg
      rw [Function.update_apply]
      split
      · rename_i heq
        subst heq
        obtain ⟨msg', hcell⟩ := (hinv.cells reqmsg).mpr (by rw [hl]; rfl)
        rw [hcell, hinv.called reqmsg msg msg' hcalled hcell]
      · exact hcalled
  | start | spawn | stop | join | test | eof | message | malformed | throws | notStarted | putWait
    | putDone | endIteration | pool | runTask | call | gate | read | readEnded | attempt =>
      exact hcalled

/-! ### Every message is answered -/

/-- In this step the server answers with 200 a request that
`CallWithRetry` builds from the message: a `POST` to its URL with its
headers and the length of its data, and without a body. -/
def Succeeds (x : Execution (system folly conf n)) (msg : RequestMessage) (k : Nat) : Prop :=
  ∃ i a, x.event k = some (.attempt i (.status 200)) ∧
    (x.state k).call i = some (.attempt a) ∧
    (AsyncClient.attempt conf.retries a ((x.state k).reading i).msg (.status 200)).request =
      some (AsyncClient.httpRequest msg)

section

variable {x : Execution (system folly conf n)}

theorem called_always {i j : Nat} (hij : i ≤ j) {reqmsg : Nat} {msg : RequestMessage}
    (hcalled : (x.state i).called reqmsg = some msg) : (x.state j).called reqmsg = some msg :=
  Execution.always_from (x := x) (P := fun s => s.called reqmsg = some msg) hcalled
    (fun k e _ he hk => called_step (reachable_alive (x.reachable k)).1
      (step_cases (x.steps k e he)).2 hk) hij

/-- What has been executed up to a point has got a 200 before it. This
is the step lemma of `Answered`, carried along the execution. -/
theorem answered_of_execution (hretries : addInt conf.retries 1 ≠ 0) (j : Nat) :
    Answered (fun reqmsg => ∃ k, k < j ∧ ∃ i, x.event k = some (.attempt i (.status 200)) ∧
      (x.state k).workers.worker i = .todo (some reqmsg)) (x.state j) := by
  induction j with
  | zero =>
      obtain ⟨isRunning, hinit⟩ := x.init
      rw [hinit]
      exact ⟨nofun, nofun⟩
  | succ j ih =>
      cases he : x.event j with
      | none =>
          rw [x.stays j he]
          exact ⟨fun r hr => (ih.executed r hr).imp fun k hk => ⟨Nat.lt_succ_of_lt hk.1, hk.2⟩,
            fun i r hc hw => (ih.returned i r hc hw).imp fun k hk =>
              ⟨Nat.lt_succ_of_lt hk.1, hk.2⟩⟩
      | some e =>
          obtain ⟨hinv, htask, -⟩ := reachable_alive (x.reachable j)
          refine answered_step hretries hinv htask (step_cases (x.steps j e he)).2
            (fun r hr => hr.imp fun k hk => ⟨Nat.lt_succ_of_lt hk.1, hk.2⟩) ?_ ih
          rintro i reqmsg rfl hw
          exact ⟨j, Nat.lt_succ_self j, i, he, hw⟩

/-- The request that got the 200 was built from the message of the
task. -/
theorem succeeds_of_task {k : Nat} {i : Fin n} {reqmsg : Nat}
    (he : x.event k = some (.attempt i (.status 200)))
    (hw : (x.state k).workers.worker i = .todo (some reqmsg)) :
    ∃ msg, (x.state k).called reqmsg = some msg ∧ Succeeds x msg k := by
  obtain ⟨hinv, hown⟩ := reachable_own (x.reachable k)
  obtain ⟨hended, hstep⟩ := step_cases (x.steps k _ he)
  obtain ⟨a, hc⟩ : ∃ a, (x.state k).call i = some (.attempt a) := by
    generalize x.state (k + 1) = s' at hstep
    cases hstep with
    | attempt hc => exact ⟨_, hc⟩
  obtain ⟨reqmsg', msg, hw', hcalled, hrequest⟩ :=
    sendsOwn_step hinv (hown hended) hstep a _ hc rfl
  cases hw.symm.trans hw'
  exact ⟨msg, hcalled, i, a, he, hc, congrArg some hrequest⟩

/-- `ConsumeLoop` calls `AsyncCall` with the message that it has
read. -/
theorem calling_leadsTo_called (hgoes : ∀ i, (x.state i).ended = none)
    (hfair : x.WeaklyFair fun e => actor e = some (.caller ())) (reqmsg : Nat)
    (msg : RequestMessage) :
    x.LeadsTo (fun s => s.loop = .calling reqmsg ∧ s.cells reqmsg = some msg)
      fun s => s.called reqmsg = some msg := by
  -- The call of `asyncCall` is the loop's own next step; until then the cell
  -- keeps the message.
  have hstep : ∀ i e, x.event i = some e →
      (x.state i).loop = .calling reqmsg ∧ (x.state i).cells reqmsg = some msg →
      ((x.state (i + 1)).loop = .calling reqmsg ∧ (x.state (i + 1)).cells reqmsg = some msg) ∧
          actor e ≠ some (.caller ()) ∨
        (x.state (i + 1)).called reqmsg = some msg := by
    intro i e he ⟨hl, hcell⟩
    have hended := hgoes (i + 1)
    have hcases := (step_cases (x.steps i e he)).2
    generalize x.state (i + 1) = s' at hended hcases ⊢
    cases hcases with
    | spawn hm =>
        cases hl.symm.trans ((reachable_alive (x.reachable i)).1.unborn (.inr hm))
    | test hl' | eof hl' | message hl' | malformed hl' | putWait hl' | putDone hl'
    | endIteration hl' => cases hl.symm.trans hl'
    -- An ended process is not on the way.
    | throws | notStarted | readEnded => cases hended
    | @asyncCall reqmsg' _ hl' =>
        cases hl.symm.trans hl'
        refine .inr ?_
        show Function.update (x.state i).called reqmsg ((x.state i).cells reqmsg) reqmsg = _
        rw [Function.update_self, hcell]
    | @pool e' workers he' =>
        refine .inl ⟨⟨hl, hcell⟩, fun hactor => ?_⟩
        cases e' with
        | callerSection => cases he'
        | _ => cases hactor
    | _ => exact .inl ⟨⟨hl, hcell⟩, nofun⟩
  refine hfair.leadsTo (fun i e he hi => (hstep i e he hi).imp_left And.left)
    (fun i e he hactor hi => (hstep i e he hi).resolve_left fun h => h.2 hactor) fun i hi => ?_
  exact enabled_loop (x.reachable i) (hgoes i) (.inr (.inl ⟨reqmsg, hi.1⟩))

/-- Where the process goes on, a message that is consumed is answered
after that. -/
theorem exists_succeeds (hn : 0 < n) (hretries : addInt conf.retries 1 ≠ 0)
    (hgoes : ∀ i, (x.state i).ended = none)
    (hfair : ∀ t, x.WeaklyFair fun e => actor e = some t)
    (hanswer : ∀ u, x.WeaklyFair fun e => answersTo e = some u)
    (hbreaker : ∀ u i, ¬ StaysBroken x u i) (hserver : ∀ u i, ¬ StaysFailing x u i)
    (hstop : ∀ i, x.event i ≠ some .stop) {i : Nat} {payload : String} {fs : FileSystem}
    {msg : RequestMessage} (he : x.event i = some (.consume (some payload) fs))
    (hread : RequestMessage.fromJSON folly fs payload {} = (.ok true, msg)) :
    ∃ k, i < k ∧ Succeeds x msg k := by
  have hcall : ∀ u, x.LeadsTo (fun s => s.call u ≠ none)
      fun s => s.call u = some .returned ∨ s.ended ≠ none := by
    intro u k hk
    rcases call_cases_of_goes hgoes (hfair (.worker u)) (hanswer u) hk with
      ⟨j, hkj, hreturned⟩ | hbroken | ⟨j, -, hfailing⟩
    · exact ⟨j, hkj, .inl hreturned⟩
    · exact absurd hbroken (hbreaker u k)
    · exact absurd hfailing (hserver u j)
  have hcreated : (x.state (i + 1)).loop = .calling (x.state i).created ∧
      (x.state (i + 1)).cells (x.state i).created = some msg := by
    have hcases := (step_cases (x.steps i _ he)).2
    generalize x.state (i + 1) = s' at hcases ⊢
    cases hcases with
    | message _ hread' =>
        cases hread.symm.trans hread'
        exact ⟨rfl, Function.update_self _ _ _⟩
    | malformed _ hread' | throws _ hread' => cases hread.symm.trans hread'
  obtain ⟨j₁, h₁, hcalled⟩ :=
    calling_leadsTo_called hgoes (hfair (.caller ())) _ msg (i + 1) hcreated
  obtain ⟨j₂, h₂, hexecuted⟩ := called_leadsTo_executed hn hgoes hfair hcall hstop j₁
  -- The task is executed, so it has got its 200.
  obtain ⟨k, hkj, u, hk, hw⟩ := (answered_of_execution hretries j₂).executed _
    (hexecuted _ (by rw [hcalled]; nofun))
  obtain ⟨msg', hcalled', hsucceeds⟩ := succeeds_of_task hk hw
  cases (called_always hkj.le hcalled').symm.trans (called_always h₂ hcalled)
  refine ⟨k, ?_, hsucceeds⟩
  -- And not before the message was there.
  by_contra hle
  have hfresh := (reachable_alive (x.reachable i)).1.fresh _ (Nat.le_refl _)
  cases hfresh.symm.trans (called_always (Nat.le_of_not_lt hle) hcalled')

end

/-- In every execution of a consumer with workers in which every
thread that stays able to run runs in the end, every worker that waits
for an answer gets one in the end, no worker stays in front of
`IsBreak` or in failing attempts for ever, and `Stop` is not called:
for every message that `ConsumeLoop` consumes and `FromJSON` reads,
the server answers with 200, after that, a request that
`CallWithRetry` builds from the message, or the process ends.

That request is a `POST` to the URL of the message, with its headers,
the size of its data in `Content-Length`, and an empty body. -/
theorem answersAll (hn : 0 < n) (hretries : addInt conf.retries 1 ≠ 0)
    (x : Execution (system folly conf n))
    (hfair : ∀ t, x.WeaklyFair fun e => actor e = some t)
    (hanswer : ∀ u, x.WeaklyFair fun e => answersTo e = some u)
    (hbreaker : ∀ u i, ¬ StaysBroken x u i) (hserver : ∀ u i, ¬ StaysFailing x u i)
    (hstop : ∀ i, x.event i ≠ some .stop) {i : Nat} {payload : String} {fs : FileSystem}
    {msg : RequestMessage} (he : x.event i = some (.consume (some payload) fs))
    (hread : RequestMessage.fromJSON folly fs payload {} = (.ok true, msg)) :
    ∃ k, i < k ∧ (Succeeds x msg k ∨ (x.state k).ended ≠ none) := by
  by_cases hends : ∃ j, (x.state j).ended ≠ none
  · obtain ⟨j, hj⟩ := hends
    exact ⟨max (i + 1) j, Nat.le_max_left _ _, .inr (ended_always (Nat.le_max_right _ j) hj)⟩
  have hgoes : ∀ j, (x.state j).ended = none := fun j => by
    by_contra hended
    exact hends ⟨j, hended⟩
  obtain ⟨k, hik, hsucceeds⟩ :=
    exists_succeeds hn hretries hgoes hfair hanswer hbreaker hserver hstop he hread
  exact ⟨k, hik, .inl hsucceeds⟩

/-! ### One message -/

/-- Outside of `Call` a worker waits for no answer. -/
theorem not_enabled_answer (hc : s.call u = none) :
    ¬ (system folly conf n).Enabled (fun e => answersTo e = some u) s := by
  rintro ⟨e, hanswer, hsome⟩
  obtain ⟨s', hs'⟩ := Option.isSome_iff_exists.mp hsome
  cases (step_cases hs').2 with
  | gate hc' | attempt hc' =>
      cases hanswer
      cases hc.symm.trans hc'
  | _ => cases hanswer

/-- The run `calledOnce` comes to rest outside of `Call`. -/
theorem calledOnce_run :
    ∃ s : State 2, (system compactFolly oneAttempt 2).run (initial false) calledOnce = some s ∧
      s.main = .started ∧ s.loop = .consuming ∧ (∀ u, s.call u = none) ∧
      ∀ t, ThreadPool.able s.workers t = false := by
  obtain ⟨s, s₁, s₂, hspawned, -, -, hanswered, -, -, -, hresting, hrest⟩ :=
    answered_run (fromJSON_payFile "orders")
  have hcalled := (System.run_append hspawned).trans hanswered
  exact ⟨s₂, (System.run_append hcalled).trans hresting, hrest⟩

/-- The execution that takes the steps of `calledOnce` and then
stays. -/
def calledOnceExecution : Execution (system compactFolly oneAttempt 2) :=
  Execution.ofRun (initial false) ⟨false, rfl⟩ calledOnce (by
    obtain ⟨s, hrun, -⟩ := calledOnce_run
    rw [hrun]
    rfl)

/-- It is fair to the threads and to the answers, and no worker stays
in a `Call`. -/
theorem calledOnceExecution_fair :
    (∀ t, calledOnceExecution.WeaklyFair fun e => actor e = some t) ∧
      (∀ u, calledOnceExecution.WeaklyFair fun e => answersTo e = some u) ∧
      ∀ u i, ∃ j, i ≤ j ∧ (calledOnceExecution.state j).call u = none := by
  obtain ⟨s, hrun, hmain, hloop, hcall, hable⟩ := calledOnce_run
  have hsome := Option.isSome_of_eq_some hrun
  refine ⟨fun t => Execution.weaklyFair_ofRun hsome hrun
      (not_enabled_of_rest (.inl hmain) (.inl hloop) hcall hable t),
    fun u => Execution.weaklyFair_ofRun hsome hrun (not_enabled_answer (hcall u)), fun u i =>
      ⟨max i calledOnce.length, Nat.le_max_left _ _, ?_⟩⟩
  have hlast : calledOnceExecution.state (max i calledOnce.length) = s :=
    Execution.ofRun_last hsome hrun (Nat.le_max_right _ _)
  rw [hlast, hcall u]

/-- `callsReturn` where the worker has the message and waits for a
token. -/
theorem callsReturn_calledOnce :
    (calledOnceExecution.state 12).call ThreadPool.worker₀ = some .token ∧
      ((∃ j, 12 ≤ j ∧ ((calledOnceExecution.state j).call ThreadPool.worker₀ = some .returned ∨
          (calledOnceExecution.state j).ended ≠ none)) ∨
        StaysBroken calledOnceExecution ThreadPool.worker₀ 12 ∨
          ∃ j, 12 ≤ j ∧ StaysFailing calledOnceExecution ThreadPool.worker₀ j) := by
  obtain ⟨hfair, hanswer, -⟩ := calledOnceExecution_fair
  obtain ⟨s, hspawned, hended, hloop, s₀, hrun, hcall⟩ : ∃ s : State 2,
      (system compactFolly oneAttempt 2).run (initial false) spawned = some s ∧ s.ended = none ∧
      s.loop = .consuming ∧
      ∃ s₀, (system compactFolly oneAttempt 2).run (s.create payMessage (.calling s.created))
          (answered.take 5) = some s₀ ∧ s₀.call ThreadPool.worker₀ = some .token :=
    ⟨_, rfl, rfl, rfl, _, rfl, rfl⟩
  have hstate : calledOnceExecution.state 12 = s₀ := Execution.ofRun_state _
    ((System.run_append hspawned).trans ((System.run_cons (step_payFile hended hloop)).trans hrun))
  have htoken : (calledOnceExecution.state 12).call ThreadPool.worker₀ = some .token := by
    rw [hstate, hcall]
  exact ⟨htoken, callsReturn calledOnceExecution (hfair _) (hanswer _) (by rw [htoken]; nofun)⟩

/-- `answersAll` where the message of the file is consumed. -/
theorem answersAll_calledOnce :
    calledOnceExecution.event 6 = some (.consume (some "orders") payFile) ∧
      ∃ k, 6 < k ∧ (Succeeds calledOnceExecution payMessage k ∨
        (calledOnceExecution.state k).ended ≠ none) := by
  obtain ⟨hfair, hanswer, hover⟩ := calledOnceExecution_fair
  refine ⟨rfl, answersAll Nat.zero_lt_two (by decide) calledOnceExecution hfair hanswer
    (fun u i hbroken => ?_) (fun u i hfailing => ?_) (fun i heq => ?_) rfl
    (fromJSON_payFile "orders")⟩
  · obtain ⟨j, hij, hnone⟩ := hover u i
    cases hnone.symm.trans (hbroken j hij).1
  · obtain ⟨j, hij, hnone⟩ := hover u i
    obtain ⟨a, hattempt⟩ := (hfailing j hij).1
    cases hnone.symm.trans hattempt
  · refine absurd (List.mem_of_getElem? heq) ?_
    simp [calledOnce, spawned, answered, resting]

end Bigpipe.KafkaConsumer
