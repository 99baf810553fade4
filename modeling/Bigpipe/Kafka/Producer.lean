import Bigpipe.Proto.Messages

/-!
# `Bigpipe.Kafka.Producer`: what the producer makes of a message

`KafkaProducer::CalcPartition` and the body of the loop of
`KafkaProducer::Pushing`, of `kafka/producer.hpp`.
`std::hash<std::string>` is a parameter, and so is the number that
`std::random_device` draws. A division that traps ends the process.

The configured topics are a `std::unordered_map` that the loop reads
with `operator[]`, which inserts a missing topic with no partitions.
The remainder by 0 that follows is a trap of the processor and no
exception, so nothing in the program could catch it. A message without
a topic is skipped without a word: it is how `Stop` gets the thread
out of `take`, and it is also what a request without a topic comes to.
-/

set_option autoImplicit false

namespace Bigpipe

/-- `KafkaTopicAttr`. A value that `operator[]` inserts has no
partitions. -/
structure KafkaTopicAttr where
  partitions : Int32 := 0
  deriving DecidableEq, Repr

/-- `Config::Kafka_topics`. -/
abbrev Topics := UnorderedMap KafkaTopicAttr

/-- `operator[]`: the value of the key, and the map after it. A key
that is missing is in the map afterwards. -/
def Topics.index (topics : Topics) (topic : String) : KafkaTopicAttr × Topics :=
  match topics.lookup topic with
  | some attr => (attr, topics)
  | none => ({}, topics.insert topic {})

/-- What the program uses from other libraries. -/
structure Libraries where
  folly : Folly
  /-- `std::hash<std::string>`. -/
  hash : String → UInt64

/-- What is passed to `kafkaClient->produce`: the topic, the partition
that `CalcPartition` has chosen, and the text of the message. -/
structure MessageBuilder where
  topic : String
  partition : Int32
  payload : String
  deriving DecidableEq, Repr

namespace KafkaProducer

/-- `CalcPartition`, where `random_device` draws `rd`. It is `none`
where the remainder traps: by zero, or of the least `int` by -1. An
empty key gives the remainder of two `unsigned int`s. Any other key is
hashed, and the remainder of the narrowed hash may be negative. -/
def calcPartition (lib : Libraries) (rd : UInt32) (partitions : Int32) (partitionKey : String) :
    Option Int32 :=
  if partitionKey = "" then
    if partitions.toUInt32 = 0 then none
    else some (rd % partitions.toUInt32).toInt32
  else
    -- The hash is narrowed to an `int`, and the remainder is signed.
    let hash := (lib.hash partitionKey).toUInt32.toInt32
    if partitions = 0 ∨ hash = Int32.minValue ∧ partitions = -1 then none
    else some (hash % partitions)

/-- How the body of the loop of `Pushing` ends, after `take`. In the
last two cases it has indexed the map of the topics with the topic of
the message, which may have added an entry. -/
inductive Pushed where
  /-- `continue` on the empty topic. -/
  | skipped
  /-- `CalcPartition` trapped. -/
  | trapped (topics : Topics)
  /-- The message that is passed to `produce`. -/
  | message (topics : Topics) (builder : MessageBuilder)

/-- The body of the loop of `Pushing`, after `take`. The payload is
what `ToJSON` prints of the message, which leaves out the partition
key. -/
def push (lib : Libraries) (rd : UInt32) (topics : Topics) (reqmsg : RequestMessage) : Pushed :=
  let topic := reqmsg.topic
  if topic = "" then .skipped
  else
    -- `operator[]` on the shared configuration.
    let (attr, topics) := topics.index topic
    match calcPartition lib rd attr.partitions reqmsg.partitionKey with
    | none => .trapped topics
    | some partition => .message topics ⟨topic, partition, reqmsg.toJSON lib.folly⟩

/-- Where a thread is in `Pushing`. The flag is tested in front of
`take` only, so a thread that sleeps there needs a message to see it
cleared. -/
inductive PushingPc where
  /-- Not spawned yet. -/
  | unborn
  /-- At the test of `IsRunning`. -/
  | loop
  /-- In `taskchan->take()`. -/
  | taking
  /-- It has taken the message. -/
  | taken (reqmsg : RequestMessage)
  /-- It left the loop, and the thread has ended. -/
  | left

/-- The message that the thread holds. -/
def PushingPc.held : PushingPc → Option RequestMessage
  | .taken reqmsg => some reqmsg
  | .unborn | .loop | .taking | .left => none

/-- `produce` was given what the loop builds from the message, with
the configured topics and some draw of `random_device`. For a message
with a key the draw does not matter. -/
structure BuiltFrom (lib : Libraries) (topics : Topics) (reqmsg : RequestMessage)
    (builder : MessageBuilder) : Prop where
  topic : builder.topic = reqmsg.topic
  partition : ∃ rd attr, topics.lookup reqmsg.topic = some attr ∧
    calcPartition lib rd attr.partitions reqmsg.partitionKey = some builder.partition
  payload : builder.payload = reqmsg.toJSON lib.folly

variable {lib : Libraries} {rd : UInt32} {topics : Topics} {reqmsg : RequestMessage}

/-- A topic without partitions traps. -/
theorem calcPartition_zero (partitionKey : String) :
    calcPartition lib rd 0 partitionKey = none := by
  unfold calcPartition
  split
  · rfl
  · simp

/-- A topic with partitions has one for every key. The remainder by a
number above 0 is defined, for an `int` as for an unsigned one. -/
theorem exists_calcPartition {partitions : Int32} (h : 0 < partitions) (partitionKey : String) :
    ∃ partition, calcPartition lib rd partitions partitionKey = some partition := by
  have hzero : partitions ≠ 0 := by
    rintro rfl
    exact absurd h (by decide)
  have hneg : partitions ≠ -1 := by
    rintro rfl
    exact absurd h (by decide)
  have hunsigned : partitions.toUInt32 ≠ 0 := by
    intro heq
    exact hzero (congrArg Int32.ofUInt32 heq)
  unfold calcPartition
  by_cases hkey : partitionKey = ""
  · rw [if_pos hkey, if_neg hunsigned]
    exact ⟨_, rfl⟩
  · simp only [hkey, hzero, hneg, and_false, or_self, if_false]
    exact ⟨_, rfl⟩

/-- The body skips a message without a topic. -/
theorem push_of_empty (h : reqmsg.topic = "") : push lib rd topics reqmsg = .skipped := by
  simp only [push, h, if_true]

/-- The body sends any other message to a partition, or traps. -/
theorem push_of_topic (h : reqmsg.topic ≠ "") :
    push lib rd topics reqmsg =
      match calcPartition lib rd (topics.index reqmsg.topic).1.partitions reqmsg.partitionKey with
      | none => .trapped (topics.index reqmsg.topic).2
      | some partition => .message (topics.index reqmsg.topic).2
          ⟨reqmsg.topic, partition, reqmsg.toJSON lib.folly⟩ := by
  simp only [push, h, if_false]

/-- The body skips exactly the messages without a topic. -/
theorem push_eq_skipped_iff : push lib rd topics reqmsg = .skipped ↔ reqmsg.topic = "" := by
  by_cases h : reqmsg.topic = ""
  · exact iff_of_true (push_of_empty h) h
  · refine iff_of_false ?_ h
    rw [push_of_topic h]
    split <;> nofun

/-- A topic that is found with a partition is one of the map.
`operator[]` inserts a missing topic without partitions, which traps.
So the map never changes while the process goes on. -/
theorem lookup_of_calcPartition {topic partitionKey : String} {partition : Int32}
    (h : calcPartition lib rd (topics.index topic).1.partitions partitionKey = some partition) :
    ∃ attr, topics.lookup topic = some attr ∧ topics.index topic = (attr, topics) := by
  unfold Topics.index at h ⊢
  cases hattr : topics.lookup topic with
  | some attr => exact ⟨attr, rfl, rfl⟩
  | none =>
      -- The topic was just inserted without partitions.
      rw [hattr, calcPartition_zero] at h
      cases h

/-- The body passes on what it builds from the message, and leaves the
topics as they were. -/
theorem push_message {topics' : Topics} {builder : MessageBuilder}
    (h : push lib rd topics reqmsg = .message topics' builder) :
    topics' = topics ∧ reqmsg.topic ≠ "" ∧ BuiltFrom lib topics reqmsg builder := by
  have htopic : reqmsg.topic ≠ "" := by
    intro hempty
    rw [push_of_empty hempty] at h
    cases h
  rw [push_of_topic htopic] at h
  split at h
  · cases h
  · rename_i partition hpartition
    obtain ⟨attr, hattr, hindex⟩ := lookup_of_calcPartition hpartition
    cases h
    rw [hindex] at hpartition
    exact ⟨by rw [hindex], htopic, rfl, ⟨rd, attr, hattr, hpartition⟩, rfl⟩

/-- The message has a topic that is configured with partitions. Such a
message is passed on whatever its key is, and whatever is drawn. -/
def Configured (topics : Topics) (reqmsg : RequestMessage) : Prop :=
  reqmsg.topic ≠ "" ∧ ∃ attr, topics.lookup reqmsg.topic = some attr ∧ 0 < attr.partitions

/-- The body passes on every message with a configured topic. -/
theorem Configured.push (h : Configured topics reqmsg) (lib : Libraries) (rd : UInt32) :
    ∃ builder, push lib rd topics reqmsg = .message topics builder := by
  obtain ⟨htopic, attr, hattr, hpos⟩ := h
  obtain ⟨partition, hpartition⟩ : ∃ partition,
      calcPartition lib rd attr.partitions reqmsg.partitionKey = some partition :=
    exists_calcPartition hpos reqmsg.partitionKey
  have hindex : topics.index reqmsg.topic = (attr, topics) := by rw [Topics.index, hattr]
  rw [push_of_topic htopic, hindex, hpartition]
  exact ⟨_, rfl⟩

end KafkaProducer

end Bigpipe
