import Bigpipe.Proofs.Main

/-!
# `Bigpipe.Proofs.Conservation`: acknowledged messages before `Stop`

`Pushing` skips a message without a topic, because `Stop` sends an
empty message to make it look at `IsRunning`. The topic of a request
is optional, so a request without one is acknowledged and then
skipped.

The law is about three places in a row. What was passed to `produce`,
what `Pushing` holds, and what is in the channel are together the
acknowledged messages in their order. The acknowledged messages are
read off the answers that were given so far.

* `nothingLost_iff`: a run loses no acknowledged message before `Stop`
  exactly when `Pushing` never takes a message without a topic before
  `Stop`.
* `requestWithoutTopic`: a run that loses one.
* `nothingLost_of_topics`: no message is lost when every request has a
  topic.
-/

set_option autoImplicit false

namespace Bigpipe.Main

open Bigpipe.Lib
open Bigpipe.Acceptor (HandlerPc success receive noTopicAcl requestFile receive_noTopicFile)

variable {lib : Libraries} {topics : Topics} {H : Type} {cap : Nat} [DecidableEq H] [Fintype H]
  {s s' : State H cap} {e : Event H}

/-! ### Acknowledged messages -/

/-- Before `Stop`, the messages passed to `produce` so far, followed
by the one that `Pushing` holds and the channel, are the messages
whose handler put them in the channel and answered errno 0, in the
order of the `put`s. -/
def NothingLost (lib : Libraries) (topics : Topics) (s : State H cap) : Prop :=
  s.main.beforeStop = true →
    ∃ sent, List.Forall₂ (KafkaProducer.BuiltFrom lib topics) sent s.produced ∧
      sent ++ s.pushing.held.toList ++ s.taskchan.data.items = s.acked

/-- Before `Stop`, `Pushing` goes on with a message that has no topic.
From `Stop` on, messages may be left in the channel in any case. -/
def LosesMessage (s : State H cap) (e : Event H) : Prop :=
  s.main.beforeStop = true ∧ Drops s e

/-- The step lemma: from a state in which nothing is lost, a step
keeps it so exactly when it does not lose a message. A message moves
from one of the three places to the next, and the step of `Pushing`
with a message without a topic moves it out of all of them. -/
theorem nothingLost_step (hinv : Inv topics s) (hcrashed : s.crashed = false)
    (hlaw : NothingLost lib topics s) (h : Step lib s e s') :
    NothingLost lib topics s' ↔ ¬ LosesMessage s e := by
  cases hstop : s.main.beforeStop with
  | false =>
      -- `Stop` has been called, and nothing is promised any more.
      refine iff_of_true (fun hstop' => ?_) fun hloses => ?_
      · rw [beforeStop_of_step h hstop'] at hstop
        cases hstop
      · rw [hloses.1] at hstop
        cases hstop
  | true =>
      obtain ⟨move, hmove, hdrop, hinject⟩ := pipeline_step hinv hcrashed h
      have hne : move ≠ .inject := by
        intro heq
        rw [hinject heq] at hstop
        cases hstop
      have hconserved : Pipeline.Conserved (KafkaProducer.BuiltFrom lib topics) (pipeline s) :=
        hlaw hstop
      have hlaw' := Pipeline.conserved_step hconserved hmove hne
      rw [ne_eq, hdrop] at hlaw'
      cases hstop' : s'.main.beforeStop with
      | true =>
          constructor
          · intro hnew hloses
            exact hlaw'.mp (hnew hstop') hloses.2
          · intro hok _
            exact hlaw'.mpr fun hdrops => hok ⟨hstop, hdrops⟩
      | false =>
          -- The step is the call of `Stop`.
          refine iff_of_true (fun hnew => ?_) fun hloses => ?_
          · rw [hstop'] at hnew
            cases hnew
          · cases h with
            | skip | crash | produce =>
                rw [show s.main.beforeStop = false from hstop'] at hstop
                cases hstop
            | _ => exact hloses.2

/-- A run loses no acknowledged message before `Stop` exactly when no
step of it, before `Stop`, is that of `Pushing` with a message that
has no topic.

The condition is on the message that `Pushing` holds, so it can be
read off the requests: see `nothingLost_of_topics`. -/
theorem nothingLost_iff (lib : Libraries) (topics : Topics) (isRunning : Bool)
    (es : List (Event H)) :
    (system lib topics H cap).Always (NothingLost lib topics) (initial topics isRunning) es ↔
      (system lib topics H cap).EveryStep (fun s e => ¬ LosesMessage s e)
        (initial topics isRunning) es := by
  refine System.always_iff_everyStep (I := Inv topics) (fun s e s' hinv h => ?_)
    (fun s e s' hinv hlaw h => ?_) es (inv_initial isRunning) ?_
  · exact inv_step hinv (step_cases h).2
  · exact nothingLost_step hinv (step_cases h).1 hlaw (step_cases h).2
  · exact fun _ => ⟨[], .nil, rfl⟩

/-! ### Requests that all have a topic -/

/-- The request of the event, if it is one, has a topic. -/
def Event.CarriesTopic (lib : Libraries) : Event H → Prop
  | .request _ fs headers body => (receive lib.folly fs headers body).1.topic ≠ ""
  | _ => True

/-- The messages of the handlers and the acknowledged messages have
topics. -/
structure Topical (s : State H cap) : Prop where
  handler : ∀ h reqmsg, (s.handler h).reqmsg = some reqmsg → reqmsg.topic ≠ ""
  acked : ∀ reqmsg ∈ s.acked, reqmsg.topic ≠ ""

omit [Fintype H] in
/-- The messages of the handlers after one of them moved to a message
with a topic. -/
theorem Topical.setHandler (htop : Topical s) {h : H} {pc : HandlerPc}
    (hpc : ∀ reqmsg, pc.reqmsg = some reqmsg → reqmsg.topic ≠ "") (k : H)
    (reqmsg : RequestMessage) (hk : ((s.setHandler h pc).handler k).reqmsg = some reqmsg) :
    reqmsg.topic ≠ "" := by
  rw [State.setHandler_handler] at hk
  split at hk
  · exact hpc reqmsg hk
  · exact htop.handler k reqmsg hk

/-- A step keeps the topics when its request has one. Only a request
brings in a message; the others move the messages that are there. -/
theorem topical_step (hinv : Inv topics s) (htop : Topical s) (he : e.CarriesTopic lib)
    (h : Step lib s e s') : Topical s' := by
  cases h with
  | request hm hh hq =>
      refine ⟨htop.setHandler fun reqmsg heq => ?_, htop.acked⟩
      cases heq
      exact he
  | @full k q pick reqmsg resp hh hq =>
      have hresp : ∀ status ∈ resp, status.errcode ≠ 0 := hinv.errcode (by rw [hh]; rfl)
      refine ⟨htop.setHandler nofun, fun m hm => htop.acked m ?_⟩
      rw [← acked_answer_overloaded k hresp]
      exact hm
  | @free k q pick reqmsg resp hh hq | @put k q reqmsg resp hh hq =>
      have htopic := htop.handler k reqmsg (by rw [hh]; rfl)
      refine ⟨htop.setHandler fun m heq => ?_, htop.acked⟩
      cases heq
      exact htopic
  | @putDone k q pick reqmsg resp r hh hq =>
      have htopic := htop.handler k reqmsg (by rw [hh]; rfl)
      have hresp : ∀ status ∈ resp, status.errcode ≠ 0 := hinv.errcode (by rw [hh]; rfl)
      refine ⟨htop.setHandler nofun, fun m hm => ?_⟩
      have hm' : m ∈ (s.answer k reqmsg resp success).acked := hm
      rw [acked_answer_success k hresp] at hm'
      rcases List.mem_append.mp hm' with hold | hnew
      · exact htop.acked m hold
      · cases List.mem_singleton.mp hnew
        exact htopic
  | _ => exact ⟨htop.handler, htop.acked⟩

/-- A run whose requests all have topics loses no acknowledged message
before `Stop`. -/
theorem nothingLost_of_topics {isRunning : Bool} {es : List (Event H)}
    (hes : ∀ e ∈ es, e.CarriesTopic lib)
    (hrun : (system lib topics H cap).run (initial topics isRunning) es = some s) :
    NothingLost lib topics s := by
  intro hstop
  have hinit : (system lib topics H cap).Reachable (initial topics isRunning) :=
    .init ⟨isRunning, rfl⟩
  have hreach := hinit.run hrun
  have htop : Inv topics s ∧ Topical s := by
    refine System.run_induct (I := fun s => Inv topics s ∧ Topical s) ?_
      ⟨inv_initial isRunning, nofun, nofun⟩ hrun
    intro s e s' he ⟨hinv, htop⟩ hstep
    have hstep := (step_cases hstep).2
    exact ⟨inv_step hinv hstep, topical_step hinv htop (hes e he) hstep⟩
  exact (conservedOn_of_reachable hreach).conserved (known_of_reachable hreach hstop)
    fun x hx => hasTopic_iff.mpr (htop.2.acked x hx)

/-! ### A request without a topic -/

/-- The start, and one request that is put in the channel. -/
def oneRequest (fs : FileSystem) (headers : UnorderedMap String) (body : String) :
    List (Event Unit) :=
  [.start, .setRunning, .serve, .request () fs headers body, .fullSection () none, .put (),
   .putSection () none]

/-- After `oneRequest`, `Pushing` takes the message of the request. -/
theorem oneRequest_taken (lib : Libraries) (topics : Topics) (fs : FileSystem)
    (headers : UnorderedMap String) (body : String) :
    ∃ s, (system lib topics Unit 20).run (initial topics false)
        (oneRequest fs headers body ++ [.test, .takeSection none]) = some s ∧
      s.pushing = .taken (receive lib.folly fs headers body).1 ∧
      s.main = .serving ∧ s.crashed = false ∧ s.produced = [] ∧ s.taskchan.data.items = [] :=
  ⟨_, rfl, rfl, rfl, rfl, rfl, rfl⟩

/-- Other libraries, where no message has a key to hash. -/
def compactLibraries : Libraries where
  folly := compactFolly
  hash _ := 0

/-- The topic `test` with one partition. -/
def oneTopic : Topics := AList.insert "test" { partitions := 1 } ∅

/-- A client sends a request without a topic. It is acknowledged, and
`Pushing` takes its message for the exit notification. -/
theorem requestWithoutTopic :
    ∃ s, (system compactLibraries oneTopic Unit 20).run (initial oneTopic false)
        (oneRequest (requestFile noTopicAcl) ∅ "request.json" ++ [.test, .takeSection none] ++
          [.push 0 false]) = some s ∧
      ¬ NothingLost compactLibraries oneTopic s := by
  obtain ⟨s, hrun, htaken, hmain, hcrashed, hproduced, hempty⟩ :=
    oneRequest_taken compactLibraries oneTopic (requestFile noTopicAcl) ∅ "request.json"
  rw [show compactLibraries.folly = compactFolly from rfl, receive_noTopicFile] at htaken
  have hinit : (system compactLibraries oneTopic Unit 20).Reachable (initial oneTopic false) :=
    .init ⟨false, rfl⟩
  have hstop : s.main.beforeStop = true := by
    rw [hmain]
    rfl
  have hstep : (system compactLibraries oneTopic Unit 20).step s (.push 0 false) =
      some { s with pushing := .loop } := by
    simp only [system, hcrashed, pushTaken, htaken, KafkaProducer.push_of_empty]
    rfl
  refine ⟨_, (System.run_append hrun).trans (System.run_singleton hstep), fun hlaw => ?_⟩
  -- The message was acknowledged, and now it is nowhere.
  have hacked := known_of_reachable (hinit.run hrun) hstop _
    (List.mem_append_left _ (by rw [pipeline, htaken]; exact List.mem_cons_self))
  obtain ⟨sent, hsent, heq⟩ := hlaw hstop
  have hsent' : List.Forall₂ (KafkaProducer.BuiltFrom compactLibraries oneTopic) sent [] := by
    rw [← hproduced]
    exact hsent
  have hnone : s.acked = [] := by
    rw [show s.acked = _ from heq.symm, hempty]
    cases hsent'
    rfl
  rw [show (pipeline s).accepted = [] from hnone] at hacked
  cases hacked

end Bigpipe.Main
