import Bigpipe.Lib.Parties
import Bigpipe.Proofs.PartitionOrder
import Mathlib.Algebra.Order.Group.Multiset

/-!
# `Bigpipe.Proofs.Requests`: what becomes of the requests

A request that comes in is made into a message. The message is with
the handler until the request is answered. With the answer it is
refused, or it is in the channel on its way to the Kafka client.

The count is one of multisets, as two clients may send the same
request. The handlers answer in an order of their own, so nothing can
be said about the order in which the requests came in. From the answer
on there is an order, and the law of the pipeline takes over.

* `received_step`: a step keeps the count of the messages, answered or
  with a handler.
* `requestsAccounted`: in a run, each message with a topic is in one
  of these places, and as often as it came in.
-/

set_option autoImplicit false

namespace Bigpipe.Main

open Bigpipe.Lib
open Bigpipe.Acceptor (Answer HandlerPc receive success overloaded requestFile topicAcl)
open Bigpipe.KafkaProducer (BuiltFrom)

variable {lib : Libraries} {topics : Topics} {H : Type} {cap : Nat} {s s' : State H cap}
  {e : Event H}

/-- The message that is made of the request of a step. -/
def received (lib : Libraries) (_ : State H cap) : Event H → List RequestMessage
  | .request _ fs headers body => [(receive lib.folly fs headers body).1]
  | _ => []

/-- The messages of the requests that were answered. -/
def State.answered (s : State H cap) : List RequestMessage :=
  s.answers.map Answer.reqmsg

/-- The messages of the requests that were answered, but not with
errno 0. -/
def State.refused (s : State H cap) : List RequestMessage :=
  (s.answers.filter fun answer => !answer.isSuccess).map Answer.reqmsg

/-- The message that a handler has. -/
def inHand (pc : HandlerPc) : Multiset RequestMessage :=
  (pc.reqmsg.toList : List RequestMessage)

/-- The messages that the handlers have. -/
def State.inHand [Fintype H] (s : State H cap) : Multiset RequestMessage :=
  ∑ h, Main.inHand (s.handler h)

/-- The requests that were answered are acknowledged or refused. -/
theorem answered_eq (s : State H cap) :
    (s.answered : Multiset RequestMessage) = s.acked + s.refused := by
  have hperm := (List.filter_append_perm Answer.isSuccess s.answers).map Answer.reqmsg
  rw [List.map_append] at hperm
  exact (Multiset.coe_eq_coe.mpr hperm).symm

variable [DecidableEq H] [Fintype H]

/-- A handler that moves to `pc` changes what it has itself. -/
theorem inHand_setHandler (s : State H cap) (h : H) (pc : HandlerPc) :
    (s.setHandler h pc).inHand + Main.inHand (s.handler h) = s.inHand + Main.inHand pc :=
  sum_move Main.inHand s.handler h pc

/-- The messages that came in are with a handler, or their requests
are answered. -/
def Accounted (p : State H cap × List RequestMessage) : Prop :=
  (p.2 : Multiset RequestMessage) = p.1.answered + p.1.inHand

/-- The answer takes the message out of the hands of its handler, and
counts it as answered. The sum of the two stays. -/
theorem answered_answer {k : H} {reqmsg : RequestMessage} {resp : List CallResp}
    (hh : (s.handler k).reqmsg = some reqmsg) (status : CallResp) :
    ((s.answer k reqmsg resp status).answered : Multiset RequestMessage) +
        (s.answer k reqmsg resp status).inHand = s.answered + s.inHand := by
  have hmove := inHand_setHandler s k .idle
  rw [Main.inHand, hh] at hmove
  change (s.setHandler k .idle).inHand + {reqmsg} = s.inHand + 0 at hmove
  rw [add_zero] at hmove
  have hanswered : ((s.answer k reqmsg resp status).answered : Multiset RequestMessage) =
      s.answered + {reqmsg} := by
    show ((List.map Answer.reqmsg (s.answers ++ [_]) : List _) : Multiset RequestMessage) = _
    rw [List.map_append]
    rfl
  rw [hanswered, ← hmove]
  show (s.answered : Multiset RequestMessage) + {reqmsg} + (s.setHandler k .idle).inHand = _
  rw [add_assoc]
  exact congrArg _ (add_comm _ _)

/-- A step keeps the count: what a request brings in is in hand, and
what is answered was in hand before. -/
theorem received_step (h : Step lib s e s') :
    (s'.answered : Multiset RequestMessage) + s'.inHand =
      s.answered + s.inHand + (received lib s e : List RequestMessage) := by
  cases h with
  | @request k fs headers body q hm hh hq =>
      have hmove := inHand_setHandler s k (.checking (receive lib.folly fs headers body).1
        (receive lib.folly fs headers body).2)
      rw [hh] at hmove
      change _ + 0 = s.inHand + {(receive lib.folly fs headers body).1} at hmove
      rw [add_zero] at hmove
      show (s.answered : Multiset RequestMessage) + (s.setHandler k _).inHand = _
      rw [hmove, ← add_assoc]
      rfl
  | @full k q pick reqmsg resp hh hq =>
      exact (answered_answer (by rw [hh]; rfl) overloaded).trans (add_zero _).symm
  | @putDone k q pick reqmsg resp r hh hq =>
      exact (answered_answer (by rw [hh]; rfl) success).trans (add_zero _).symm
  -- A handler that goes on keeps its message.
  | @free k q pick reqmsg resp hh hq =>
      have hmove := inHand_setHandler s k (.free reqmsg resp)
      rw [hh] at hmove
      exact (congrArg _ (add_right_cancel hmove)).trans (add_zero _).symm
  | @put k q reqmsg resp hh hq =>
      have hmove := inHand_setHandler s k (.putting reqmsg resp)
      rw [hh] at hmove
      exact (congrArg _ (add_right_cancel hmove)).trans (add_zero _).symm
  | _ => exact (add_zero _).symm

/-- A step counts what comes in. -/
theorem accounted_step {p p' : State H cap × List RequestMessage} (h : Accounted p)
    (hs : ((system lib topics H cap).logged (received lib)).step p e = some p') :
    Accounted p' := by
  obtain ⟨hstep, hlog⟩ := System.logged_step_iff.mp hs
  have hcount := received_step (step_cases hstep).2
  show (p'.2 : Multiset RequestMessage) = _
  rw [hlog, ← Multiset.coe_add, hcount]
  exact congrArg (· + (received lib p.1 e : Multiset RequestMessage)) h

/-- In every run, the messages with a topic that came in are, each as
often as it came in, in one of these places: it was passed to
`produce`, `Pushing` holds it, it is in the channel, its request was
answered but not with errno 0, or it is with a handler.

A message without a topic is in one of them too, or it was dropped by
`Pushing`. It is left out of the count on both sides. -/
theorem requestsAccounted (isRunning : Bool) {es : List (Event H)} {requests : List RequestMessage}
    (h : ((system lib topics H cap).logged (received lib)).run (initial topics isRunning, []) es
      = some (s, requests)) :
    ∃ sent, List.Forall₂ (BuiltFrom lib topics) sent s.produced ∧
      (requests.filter hasTopic : Multiset RequestMessage) =
        sent + ((s.pushing.held.toList ++ s.taskchan.data.items).filter hasTopic : List _) +
          s.refused.filter hasTopic + s.inHand.filter fun m => hasTopic m = true := by
  -- By induction on the run: what came in is what is answered and what is in
  -- hand.
  have hreach : (system lib topics H cap).Reachable s ∧ Accounted (s, requests) := by
    refine System.run_induct (I := fun p : State H cap × List RequestMessage =>
      (system lib topics H cap).Reachable p.1 ∧ Accounted p) ?_ ⟨.init ⟨isRunning, rfl⟩, ?_⟩ h
    · intro p e p' _ ⟨hreach, hcount⟩ hs
      exact ⟨hreach.step (System.logged_step_iff.mp hs).1, accounted_step hcount hs⟩
    · show (0 : Multiset RequestMessage) = 0 + ∑ k : H, 0
      rw [Finset.sum_const_zero, add_zero]
  obtain ⟨hreach, hcount⟩ := hreach
  obtain ⟨sent, hsent, heq⟩ := conservedOn_of_reachable hreach
  refine ⟨sent, hsent, ?_⟩
  -- The answered messages with a topic are sent, held or queued, by the
  -- conservation law.
  have hacked : (s.acked.filter hasTopic : Multiset RequestMessage) =
      sent + ((s.pushing.held.toList ++ s.taskchan.data.items).filter hasTopic : List _) := by
    rw [Multiset.coe_add]
    exact congrArg _ heq.symm
  have hcount' : (requests : Multiset RequestMessage) = s.acked + s.refused + s.inHand := by
    rw [← answered_eq]
    exact hcount
  calc (requests.filter hasTopic : Multiset RequestMessage)
      = (requests : Multiset RequestMessage).filter fun m => hasTopic m = true := by
        rw [Multiset.filter_coe]
        simp
    _ = (s.acked.filter hasTopic : Multiset RequestMessage) + s.refused.filter hasTopic +
          s.inHand.filter fun m => hasTopic m = true := by
        rw [hcount', Multiset.filter_add, Multiset.filter_add, Multiset.filter_coe,
          Multiset.filter_coe]
        simp
    _ = _ := by rw [hacked]

/-- One request comes in. -/
theorem oneRequest_received (lib : Libraries) (topics : Topics) (fs : FileSystem)
    (headers : UnorderedMap String) (body : String) :
    ∃ s : State Unit 20, ((system lib topics Unit 20).logged (received lib)).run
        (initial topics false, []) (oneRequest fs headers body) =
      some (s, [(receive lib.folly fs headers body).1]) :=
  ⟨_, rfl⟩

/-- `requestsAccounted` after one request, whose message is in the
channel. -/
theorem requestsAccounted_oneRequest :
    ∃ s : State Unit 20,
      ((system compactLibraries oneTopic Unit 20).logged (received compactLibraries)).run
          (initial oneTopic false, []) (oneRequest (requestFile topicAcl) ∅ "request.json") =
        some (s, [payment]) ∧
      ∃ sent, List.Forall₂ (BuiltFrom compactLibraries oneTopic) sent s.produced ∧
        (([payment].filter hasTopic : List RequestMessage) : Multiset RequestMessage) =
          sent + ((s.pushing.held.toList ++ s.taskchan.data.items).filter hasTopic : List _) +
            s.refused.filter hasTopic + s.inHand.filter fun m => hasTopic m = true := by
  obtain ⟨s, hrun⟩ := oneRequest_received compactLibraries oneTopic (requestFile topicAcl) ∅
    "request.json"
  rw [show compactLibraries.folly = compactFolly from rfl, Acceptor.receive_topicFile] at hrun
  exact ⟨s, hrun, requestsAccounted false hrun⟩

end Bigpipe.Main
