import CePubsub.Laws.Bounds
import CePubsub.Laws.FilterRender
import CePubsub.Live

/-!
# Who hears what is broadcast

A live subscription hears the stream its topic's owner broadcasts on, as both make the name of the
stream from the topic's and the owner's, and no other stream has it: a topic's name has no `@` in it.

The owner makes the dead-letter topic's name from its topic's and broadcasts there without a check; the
consumer's name is checked. A topic whose name is within four bytes of the limit is dead-lettered
where nobody can subscribe (`unheard_dead_letters`), and `dead_letters_heard_iff` is when somebody can.
-/

namespace CePubsub

/-! ## Names -/

theorem deadLetterTopic_eq (topic : String) : deadLetterTopic topic = topic ++ ".dlq" := rfl

/-- The suffix adds four bytes to the name. -/
theorem size_deadLetterTopic (topic : String) :
    (deadLetterTopic topic).utf8ByteSize = topic.utf8ByteSize + 4 := by
  rw [deadLetterTopic_eq, String.utf8ByteSize_append]
  rfl

/-- **The dead-letter topic of a topic is one exactly if the topic's name leaves room for it.** -/
theorem deadLetterTopic_valid_iff {topic : String} (valid : validateTopic topic = .ok ()) :
    validateTopic (deadLetterTopic topic) = .ok () ↔ topic.utf8ByteSize ≤ 196 := by
  obtain ⟨some, -, plain⟩ := validateTopic_ok_iff.mp valid
  have size := size_deadLetterTopic topic
  rw [validateTopic_ok_iff, size]
  constructor
  · rintro ⟨-, short, -⟩
    omega
  · intro room
    refine ⟨fun empty => ?_, by omega, fun c mem => ?_⟩
    · rw [empty] at size
      cases size
    · rw [deadLetterTopic_eq, String.toList_append] at mem
      rcases List.mem_append.mp mem with inside | last
      · exact plain c inside
      · have ending : ".dlq".toList.all topicChar = true := by decide
        exact List.all_eq_true.mp ending c last

theorem streamName_eq (topic owner : String) :
    streamName topic owner = "ce-pubsub.live." ++ topic ++ "@" ++ owner := rfl

/-- **A stream has one topic's and one owner's name**, whatever the owner's is. -/
theorem streamName_inj {topic topic' owner owner' : String} (plain : '@' ∉ topic.toList)
    (plain' : '@' ∉ topic'.toList) (same : streamName topic owner = streamName topic' owner') :
    topic = topic' ∧ owner = owner' := by
  have texts := congrArg String.toList same
  simp only [streamName_eq, String.toList_append, List.append_assoc] at texts
  obtain ⟨topics, owners⟩ := Text.append_cons_inj plain plain' (List.append_cancel_left texts)
  exact ⟨String.toList_inj.mp topics, String.toList_inj.mp owners⟩

/-- No valid name contains the separator of `stream_name`. -/
theorem unseparated_of_valid {topic : String} (valid : validateTopic topic = .ok ()) :
    '@' ∉ topic.toList := fun mem =>
  absurd ((validateTopic_ok_iff.mp valid).2.2 '@' mem) (by decide)

/-- Nor does its dead-letter topic. -/
theorem unseparated_deadLetter {topic : String} (plain : '@' ∉ topic.toList) :
    '@' ∉ (deadLetterTopic topic).toList := by
  rw [deadLetterTopic_eq, String.toList_append]
  exact fun mem => (List.mem_append.mp mem).elim plain (by decide)

/-- Two topics never share a dead-letter topic. -/
theorem deadLetterTopic_inj {topic topic' : String}
    (same : deadLetterTopic topic = deadLetterTopic topic') :
    topic = topic' := by
  have texts := congrArg String.toList same
  rw [deadLetterTopic_eq, deadLetterTopic_eq, String.toList_append, String.toList_append] at texts
  exact String.toList_inj.mp (List.append_cancel_right texts)

/-! ## Streams -/

/-- A valid name is subscribed to under the name of its stream. -/
theorem PubSub.subscribe_of_valid {opens : String → Except String Unit} {topic owner : String}
    (valid : validateTopic topic = .ok ()) (opened : opens (streamName topic owner) = .ok ()) :
    subscribe opens topic owner = .ok { stream := streamName topic owner, filter := .any } := by
  simp only [subscribe, valid, opened, bind, Except.bind, Except.mapError]

/-- An invalid name is refused before any stream is opened. -/
theorem PubSub.subscribe_of_invalid {topic why : String} (invalid : validateTopic topic = .error why)
    (opens : String → Except String Unit) (owner : String) :
    subscribe opens topic owner = .error why := by
  simp only [subscribe, invalid, bind, Except.bind]

namespace Subscription

variable {sub : Subscription} {msg : Message} {rest : List Message}

/-- The shortcut for an empty filter skips nothing the filter does not. -/
theorem recv_cons (sub : Subscription) (msg : Message) (rest : List Message) :
    sub.recv (msg :: rest) = if sub.filter.matches msg then some (msg, rest) else sub.recv rest := by
  rw [recv]
  cases empty : sub.filter.isEmpty with
  | true => rw [AttributeFilter.matches_of_isEmpty empty msg, Bool.or_true]
  | false => rw [Bool.false_or]

/-- **What is received** is the first message still to come that matches. -/
theorem recv_eq_some_iff {ms : List Message} :
    sub.recv ms = some (msg, rest) ↔ ∃ skipped, ms = skipped ++ msg :: rest ∧
      (∀ m ∈ skipped, sub.filter.matches m = false) ∧ sub.filter.matches msg = true := by
  induction ms with
  | nil => exact iff_of_false (by rintro ⟨⟩) fun ⟨skipped, is, _⟩ => by cases skipped <;> cases is
  | cons m ms ih =>
    rw [recv_cons]
    cases hit : sub.filter.matches m with
    | true =>
      rw [if_pos rfl, Option.some.injEq, Prod.mk.injEq]
      constructor
      · rintro ⟨rfl, rfl⟩
        exact ⟨[], rfl, List.forall_mem_nil _, hit⟩
      · rintro ⟨skipped, is, missed, -⟩
        cases skipped with
        | nil => exact List.cons.inj is
        | cons first skipped =>
          obtain ⟨rfl, -⟩ := List.cons.inj is
          cases hit.symm.trans (missed m List.mem_cons_self)
    | false =>
      rw [if_neg Bool.false_ne_true, ih]
      constructor
      · rintro ⟨skipped, rfl, missed, matched⟩
        exact ⟨m :: skipped, rfl, List.forall_mem_cons.mpr ⟨hit, missed⟩, matched⟩
      · rintro ⟨skipped, is, missed, matched⟩
        cases skipped with
        | nil =>
          obtain ⟨rfl, -⟩ := List.cons.inj is
          cases hit.symm.trans matched
        | cons first skipped =>
          exact ⟨skipped, (List.cons.inj is).2, (List.forall_mem_cons.mp missed).2, matched⟩

end Subscription

namespace Topic

/-- The messages routed from the log, if their stream opens and they go through. -/
def routed (t : Topic) (node : Answers) (cursors : List Nat) : List Message :=
  if node.deadLetterStream then (cursors.filterMap t.writer.get).filter node.deadLetter else []

/-- Routing publishes on the stream of the dead-letter topic, and on no other. -/
theorem streams_routeDeadLetters (t : Topic) (node : Answers) (cursors : List Nat) (name : String) :
    (t.routeDeadLetters node cursors).streams.getD name [] = t.streams.getD name [] ++
      if name = streamName (deadLetterTopic t.topic) t.nodeId then t.routed node cursors else [] := by
  rw [routeDeadLetters, routed]
  split
  · exact t.streams_broadcasts _ _ _
  · rw [ite_self, List.append_nil]

end Topic

/-- The dead-letter topic is one that can be subscribed to, and whoever subscribes to it of the owner's
hears what the owner routes, and nobody on another stream does. -/
def DeadLettersHeard (topic : String) : Prop :=
  validateTopic (deadLetterTopic topic) = .ok () ∧
  ∀ (opens : String → Except String Unit) (t : Topic), t.topic = topic →
    opens (streamName (deadLetterTopic topic) t.nodeId) = .ok () →
    ∃ sub, PubSub.subscribe opens (deadLetterTopic topic) t.nodeId = .ok sub ∧
      ∀ node cursors name, (t.routeDeadLetters node cursors).streams.getD name [] =
        t.streams.getD name [] ++ if name = sub.stream then t.routed node cursors else []

/-- **The dead letters of a topic can be heard exactly if its name is no longer than 196 bytes**; and of
two topics, or two owners, no stream has the live name of both, or the dead-letter name. -/
theorem dead_letters_heard_iff {topic : String} (valid : validateTopic topic = .ok ()) :
    (DeadLettersHeard topic ↔ topic.utf8ByteSize ≤ 196) ∧
    ∀ topic' owner owner', validateTopic topic' = .ok () → (topic, owner) ≠ (topic', owner') →
      streamName (deadLetterTopic topic) owner ≠ streamName (deadLetterTopic topic') owner' ∧
      streamName topic owner ≠ streamName topic' owner' := by
  refine ⟨⟨fun heard => (deadLetterTopic_valid_iff valid).mp heard.1, fun room => ?_⟩, ?_⟩
  · have validDead := (deadLetterTopic_valid_iff valid).mpr room
    refine ⟨validDead, fun opens t is opened => ?_⟩
    refine ⟨_, PubSub.subscribe_of_valid validDead opened, fun node cursors name => ?_⟩
    rw [t.streams_routeDeadLetters, is]
  · intro topic' owner owner' valid' differ
    have plain := unseparated_of_valid valid
    have plain' := unseparated_of_valid valid'
    constructor
    · intro same
      obtain ⟨topics, rfl⟩ :=
        streamName_inj (unseparated_deadLetter plain) (unseparated_deadLetter plain') same
      exact differ (by rw [deadLetterTopic_inj topics])
    · intro same
      obtain ⟨rfl, rfl⟩ := streamName_inj plain plain' same
      exact differ rfl

theorem dead_letters_heard_iff_orders : DeadLettersHeard "orders" := by
  have valid : validateTopic "orders" = .ok () := by decide
  exact (dead_letters_heard_iff valid).1.mpr (by decide)

/-- A topic name of `n` bytes. -/
private def longName (n : Nat) : String := .ofList (List.replicate n 'a')

private theorem size_longName (n : Nat) : (longName n).utf8ByteSize = n := by
  rw [longName, Text.utf8ByteSize_ofList, List.map_replicate, List.sum_replicate_nat]
  exact Nat.mul_one n

/-- It is valid up to 200 bytes. -/
private theorem longName_valid {n : Nat} (pos : 0 < n) (short : n ≤ 200) :
    validateTopic (longName n) = .ok () := by
  refine validateTopic_ok_iff.mpr ⟨fun empty => ?_, (size_longName n).trans_le short, fun c mem => ?_⟩
  · have size := size_longName n
    rw [empty] at size
    exact Nat.ne_of_lt pos size
  · rw [longName, String.toList_ofList] at mem
    rw [List.eq_of_mem_replicate mem]
    rfl

/-- From 197 bytes on its dead-letter topic is refused as too long. -/
private theorem deadLetters_refused {n : Nat} (long : 196 < n) :
    validateTopic (deadLetterTopic (longName n)) = .error s!"topic name too long ({n + 4} > 200)" := by
  have size : (deadLetterTopic (longName n)).utf8ByteSize = n + 4 := by
    rw [size_deadLetterTopic, size_longName]
  have some : ¬ (deadLetterTopic (longName n)).isEmpty = true := by
    intro empty
    rw [String.isEmpty_iff.mp empty] at size
    cases size
  rw [validateTopic, if_neg some, size, if_pos (by omega)]

/-- **Dead letters nobody can hear**: a name of 197 bytes is a topic's, and what the topic dead-letters
is published, and no consumer can subscribe to it. -/
theorem unheard_dead_letters :
    validateTopic (longName 197) = .ok () ∧ ¬ DeadLettersHeard (longName 197) ∧
    ∀ opens owner, PubSub.subscribe opens (deadLetterTopic (longName 197)) owner =
      .error "topic name too long (201 > 200)" := by
  have refused := deadLetters_refused (show 196 < 197 by decide)
  refine ⟨longName_valid (by decide) (by decide), fun heard => ?_, PubSub.subscribe_of_invalid refused⟩
  cases heard.1.symm.trans refused

end CePubsub
