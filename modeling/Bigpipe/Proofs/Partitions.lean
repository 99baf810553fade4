import Bigpipe.Proofs.Config
import Bigpipe.Proofs.Conservation

/-!
# `Bigpipe.Proofs.Partitions`: the partition counts that `Pushing` divides by

`Pushing` looks the topic of a message up in the configured topics
with `operator[]`. The topic comes from the request, and nothing
checks it against the configuration, so the lookup may insert a topic
without partitions.

The lookup is the only place where the topics can change, and the
division the only place where the number matters. So the log of
divisors has one entry for each message that `Pushing` goes on with,
and a step keeps the topics and adds a positive entry exactly where
its message has a topic that is configured with partitions, or none.

* `survives_iff`: in a run, every division is by at least 1 and the
  topics stay those of the configuration exactly when `Pushing` goes
  on with no message of a topic that is not configured with
  partitions.
* `unconfiguredTopic`: a run in which a request changes the configured
  topics.
-/

set_option autoImplicit false

namespace Bigpipe.Main

open Bigpipe.Lib
open Bigpipe.Acceptor (receive topicAcl requestFile receive_topicFile)
open Bigpipe.Config (ordersConfig ordersFile)
open Bigpipe.KafkaProducer (Configured)

variable {lib : Libraries} {topics : Topics} {H : Type} {cap : Nat} [DecidableEq H] [Fintype H]
  {s s' : State H cap} {e : Event H}

/-- What the step calls `CalcPartition` with. A message without a
topic is skipped before. -/
def divisors (s : State H cap) : Event H → List Int32
  | .push _ _ =>
    match s.pushing with
    | .taken reqmsg =>
      if reqmsg.topic = "" then [] else [(s.topics.index reqmsg.topic).1.partitions]
    | _ => []
  | _ => []

/-- The topics are those of the configuration, and every call of
`CalcPartition` so far was with at least one partition, so none of
them divided by 0. -/
def Survives (config : Config) (run : State H cap × List Int32) : Prop :=
  run.1.topics = config.kafkaTopics ∧ ∀ partitions ∈ run.2, 1 ≤ partitions

/-- A step of `Pushing` goes on with a message that has no topic, or
one that is configured with at least one partition. -/
def SendsConfigured (config : Config) (run : State H cap × List Int32) (e : Event H) : Prop :=
  ∀ rd throws reqmsg, e = .push rd throws → run.1.pushing = .taken reqmsg →
    reqmsg.topic = "" ∨ Configured config.kafkaTopics reqmsg

/-- Only the rest of the loop body of `Pushing` looks topics up. -/
theorem topics_of_step (h : Step lib s e s') (he : ∀ rd throws, e ≠ .push rd throws) :
    s'.topics = s.topics := by
  cases h with
  | skip | crash | produce => exact absurd rfl (he _ _)
  | _ => rfl

omit [DecidableEq H] [Fintype H] in
/-- The topics after the loop body of `Pushing`. `operator[]` inserts
the topic of the message where it is missing, before anything is
sent. -/
theorem topics_of_push {rd : UInt32} {throws : Bool} (h : pushTaken lib s rd throws = some s') :
    ∃ reqmsg, s.pushing = .taken reqmsg ∧
      s'.topics =
        if reqmsg.topic = "" then s.topics else (s.topics.index reqmsg.topic).2 := by
  unfold pushTaken at h
  split at h
  · rename_i reqmsg hp
    refine ⟨reqmsg, hp, ?_⟩
    by_cases htopic : reqmsg.topic = ""
    · rw [KafkaProducer.push_of_empty htopic] at h
      cases h
      rw [if_pos htopic]
    · rw [if_neg htopic]
      rw [KafkaProducer.push_of_topic htopic] at h
      -- The map is indexed before the partition is computed, so every outcome
      -- after it leaves the same map.
      cases hpartition : KafkaProducer.calcPartition lib rd
          (s.topics.index reqmsg.topic).1.partitions reqmsg.partitionKey with
      | none =>
          rw [hpartition] at h
          cases h
          rfl
      | some partition =>
          rw [hpartition] at h
          cases throws with
          | true =>
              cases h
              rfl
          | false =>
              cases h
              rfl
  · cases h

/-- A lookup that divides by at least 1 and inserts nothing finds a
configured topic. An inserted topic has no partitions, so one half of
the statement would have been enough. -/
theorem index_iff {reqmsg : RequestMessage} (htopic : reqmsg.topic ≠ "") :
    (topics.index reqmsg.topic).2 = topics ∧ 1 ≤ (topics.index reqmsg.topic).1.partitions ↔
      Configured topics reqmsg := by
  have hone : ∀ x : Int32, 1 ≤ x ↔ 0 < x := by
    intro x
    rw [Int32.le_iff_toInt_le, Int32.lt_iff_toInt_lt]
    exact Iff.rfl
  unfold Configured Topics.index
  cases hattr : topics.lookup reqmsg.topic with
  | some attr =>
      constructor
      · intro h
        exact ⟨htopic, attr, rfl, (hone attr.partitions).mp h.2⟩
      · intro h
        obtain ⟨-, attr', heq, hpos⟩ := h
        cases heq
        exact ⟨rfl, (hone attr.partitions).mpr hpos⟩
  -- `operator[]` inserts a topic with 0 partitions.
  | none =>
      refine iff_of_false (fun h => ?_) fun h => ?_
      · have hzero : ¬ (1 : Int32) ≤ 0 := by decide
        exact hzero h.2
      · obtain ⟨-, attr, heq, -⟩ := h
        cases heq

omit [DecidableEq H] [Fintype H] in
/-- A step of `Pushing` keeps the topics and divides by at least 1
exactly when the message that it goes on with has no topic, or one
that is configured with at least one partition. -/
theorem survives_push {config : Config} {run run' : State H cap × List Int32} {rd : UInt32}
    {throws : Bool} (hrun : Survives config run)
    (hpush : pushTaken lib run.1 rd throws = some run'.1)
    (hlog' : run'.2 = run.2 ++ divisors run.1 (.push rd throws)) :
    Survives config run' ↔ SendsConfigured config run (.push rd throws) := by
  obtain ⟨htopics, hlog⟩ := hrun
  obtain ⟨reqmsg, hp, htopics'⟩ := topics_of_push hpush
  unfold Survives SendsConfigured
  rw [hlog']
  rw [htopics] at htopics'
  -- `Push` drops a message without a topic before it reads the map.
  by_cases htopic : reqmsg.topic = ""
  · rw [if_pos htopic] at htopics'
    refine iff_of_true ⟨htopics', ?_⟩ fun _ _ m _ hm => ?_
    · simpa [divisors, hp, htopic] using hlog
    · cases hp.symm.trans hm
      exact .inl htopic
  · rw [if_neg htopic] at htopics'
    have hdivisors : divisors run.1 (.push rd throws : Event H) =
        [(config.kafkaTopics.index reqmsg.topic).1.partitions] := by
      simp only [divisors, hp, htopic, if_false, htopics]
    rw [htopics', hdivisors]
    constructor
    -- The divisor of this message is the last of the log.
    · intro h _ _ m _ hm
      obtain ⟨hkept, hall⟩ := h
      cases hp.symm.trans hm
      refine .inr ((index_iff htopic).mp ⟨hkept, hall _ ?_⟩)
      exact List.mem_append_right _ List.mem_cons_self
    · intro hsends
      have hconf := (hsends rd throws reqmsg rfl hp).resolve_left htopic
      obtain ⟨hkept, hone⟩ := (index_iff htopic).mpr hconf
      refine ⟨hkept, fun partitions hmem => ?_⟩
      rcases List.mem_append.mp hmem with hold | hnew
      · exact hlog partitions hold
      · rw [List.mem_singleton.mp hnew]
        exact hone

omit [DecidableEq H] [Fintype H] in
/-- The other steps divide by nothing. -/
theorem divisors_of_ne {e : Event H} (he : ∀ rd throws, e ≠ .push rd throws) (s : State H cap) :
    divisors s e = [] := by
  cases e with
  | push rd throws => exact absurd rfl (he rd throws)
  | _ => rfl

/-- The step lemma: from a state with the configured topics, a step
keeps them and divides by at least 1 exactly when it sends a message
to a configured topic, or none. -/
theorem survives_step {config : Config} {run run' : State H cap × List Int32}
    (hrun : Survives config run)
    (h : ((system lib config.kafkaTopics H cap).logged divisors).step run e = some run') :
    Survives config run' ↔ SendsConfigured config run e := by
  obtain ⟨hstep, hlog'⟩ := System.logged_step_iff.mp h
  by_cases he : ∃ rd throws, e = .push rd throws
  · obtain ⟨rd, throws, rfl⟩ := he
    have hpush : pushTaken lib run.1 rd throws = some run'.1 := by
      have hcrashed := (step_cases hstep).1
      simpa [system, hcrashed] using hstep
    exact survives_push hrun hpush hlog'
  · have hne : ∀ rd throws, e ≠ .push rd throws := fun rd throws heq => he ⟨rd, throws, heq⟩
    rw [divisors_of_ne hne, List.append_nil] at hlog'
    refine iff_of_true ⟨?_, ?_⟩ fun rd throws _ heq => absurd heq (hne rd throws)
    · rw [topics_of_step (step_cases hstep).2 hne]
      exact hrun.1
    · rw [hlog']
      exact hrun.2

/-- For every configuration, in a run of the process with its topics:
`Pushing` calls `CalcPartition` with at least one partition every
time, and leaves the configured topics as they are, exactly when every
message that it goes on with has no topic or one that is configured
with at least one partition. -/
theorem survives_iff (lib : Libraries) (config : Config) (isRunning : Bool)
    (es : List (Event H)) :
    ((system lib config.kafkaTopics H cap).logged divisors).Always (Survives config)
        (initial config.kafkaTopics isRunning, []) es ↔
      ((system lib config.kafkaTopics H cap).logged divisors).EveryStep (SendsConfigured config)
        (initial config.kafkaTopics isRunning, []) es := by
  refine System.always_iff_everyStep (I := fun _ => True) (fun _ _ _ _ _ => trivial)
    (fun run e run' _ hrun h => survives_step hrun h) es trivial ⟨rfl, nofun⟩

/-- A client sends a request with the topic `test` to a process with
the topic `orders`. The lookup inserts `test` into the configuration,
and the division by its partitions traps. -/
theorem unconfiguredTopic :
    Config.parseConfig compactFolly compactConversions ordersFile "bigpipe.json" =
        .ok (some ordersConfig) ∧
      ∃ run, ((system compactLibraries ordersConfig.kafkaTopics Unit 20).logged divisors).run
          (initial ordersConfig.kafkaTopics false, [])
          (oneRequest (requestFile topicAcl) ∅ "request.json" ++ [.test, .takeSection none] ++
            [.push 0 false]) = some run ∧
        run.1.crashed = true ∧ ¬ Survives ordersConfig run := by
  obtain ⟨s, hrun, htaken, -, hcrashed, -, -⟩ :=
    oneRequest_taken compactLibraries ordersConfig.kafkaTopics (requestFile topicAcl) ∅
      "request.json"
  rw [show compactLibraries.folly = compactFolly from rfl, receive_topicFile] at htaken
  have hinit : (system compactLibraries ordersConfig.kafkaTopics Unit 20).Reachable
      (initial ordersConfig.kafkaTopics false) := .init ⟨false, rfl⟩
  have htopics := (reachable_inv (hinit.run hrun)).topics hcrashed
  have hstep : (system compactLibraries ordersConfig.kafkaTopics Unit 20).step s (.push 0 false) =
      some { s with topics := (ordersConfig.kafkaTopics.index "test").2, crashed := true } := by
    simp only [system, hcrashed, pushTaken, htaken, htopics]
    rfl
  obtain ⟨log, hlog⟩ := System.exists_logged_run divisors
    ((System.run_append hrun).trans (System.run_singleton hstep)) []
  refine ⟨Config.parseConfig_ordersFile, _, hlog, rfl, fun hsurvives => ?_⟩
  -- The topic was not configured, and now it is.
  have hkept : (ordersConfig.kafkaTopics.index "test").2 = ordersConfig.kafkaTopics := hsurvives.1
  have hlookup := congrArg (AList.lookup "test") hkept
  exact absurd hlookup (by decide)

end Bigpipe.Main
