import CePubsub.Laws.Registry
import CePubsub.Laws.Wire

/-!
# What the owner keeps is bounded

Three ways lead into the log, and each makes its own checks: the owner's `publish` on the payload
only, since it attaches nothing; `publish_with` on the payload and the options; the ingest path on the
request it decoded, hex and all. `Message.Bounded` is what they have in common, and every message of
the log has it. One way leads into the registry, which checks the policy, the name and the number of
subscriptions before it proposes; nothing else changes a policy or adds a name.
-/

namespace CePubsub

/-- Within the limits a publisher is held to. -/
structure Message.Bounded (m : Message) : Prop where
  payload : ∃ payload, m.data = .ok payload ∧ payload.length ≤ maxPayloadBytes
  attributes : m.attributes.size ≤ maxAttributes
  each : ∀ k v : String, m.attributes[k]? = some v →
    k ≠ "" ∧ k.utf8ByteSize ≤ maxAttributeLen ∧ v.utf8ByteSize ≤ maxAttributeLen
  orderingKey : ∀ k, m.orderingKey = some k → k.utf8ByteSize ≤ maxAttributeLen

/-- Within the limits a subscriber is held to. -/
structure SubRegistry.Bounded (r : SubRegistry) : Prop where
  count : r.len ≤ maxSubscriptions
  names : ∀ name s, r.get name = some s → validateTopic name = .ok ()
  policies : ∀ name s, r.get name = some s → s.policy.validate = .ok ()

/-! ## The checks -/

/-- What a topic's name must be, and a subscription's. -/
theorem validateTopic_ok_iff {topic : String} :
    validateTopic topic = .ok () ↔
      topic ≠ "" ∧ topic.utf8ByteSize ≤ 200 ∧ ∀ c ∈ topic.toList, topicChar c = true := by
  unfold validateTopic
  split
  · next empty => exact iff_of_false (by rintro ⟨⟩) fun h => h.1 (String.isEmpty_iff.mp empty)
  · next some =>
    split
    · next long => exact iff_of_false (by rintro ⟨⟩) fun h => Nat.not_le_of_lt long h.2.1
    · next short =>
      rw [← List.all_eq_true]
      split
      · next plain =>
        refine iff_of_true rfl ⟨fun empty => some (String.isEmpty_iff.mpr empty), ?_, plain⟩
        exact Nat.le_of_not_lt short
      · next other => exact iff_of_false (by rintro ⟨⟩) fun h => other h.2.2

/-- An accepted payload is within the limit. -/
theorem length_of_validatePayload {payload : Bytes} (valid : validatePayload payload = .ok ()) :
    payload.length ≤ maxPayloadBytes := by
  unfold validatePayload at valid
  split at valid
  · cases valid
  · next small => exact Nat.le_of_not_lt small

/-- What passes its check one by one passes it throughout. -/
theorem forall_of_forM {α : Type} {check : α → Except String Unit} {l : List α}
    (passed : l.forM check = .ok ()) : ∀ x ∈ l, check x = .ok () := by
  induction l with
  | nil => exact fun _ mem => absurd mem List.not_mem_nil
  | cons y l ih =>
    simp only [List.forM, bind, Except.bind] at passed
    cases first : check y with
    | error e =>
      rw [first] at passed
      cases passed
    | ok u =>
      rw [first] at passed
      intro x mem
      rcases List.mem_cons.mp mem with rfl | mem
      · exact first
      · exact ih passed x mem

/-- An accepted attribute has a name, and both its strings are within the limit. -/
theorem validateAttribute_ok {k v : String} (valid : validateAttribute (k, v) = .ok ()) :
    k ≠ "" ∧ k.utf8ByteSize ≤ maxAttributeLen ∧ v.utf8ByteSize ≤ maxAttributeLen := by
  rw [validateAttribute] at valid
  split at valid
  · cases valid
  · next nonempty =>
    split at valid
    · cases valid
    · next key =>
      split at valid
      · cases valid
      · next value =>
        refine ⟨fun empty => nonempty ?_, Nat.le_of_not_lt key, Nat.le_of_not_lt value⟩
        rw [empty]
        rfl

/-- Accepted attributes are few enough, and each of them is within its limits. -/
theorem validateAttributes_ok {attrs : BTreeMap String String}
    (valid : validateAttributes attrs = .ok ()) :
    attrs.size ≤ maxAttributes ∧ ∀ k v : String, attrs[k]? = some v →
      k ≠ "" ∧ k.utf8ByteSize ≤ maxAttributeLen ∧ v.utf8ByteSize ≤ maxAttributeLen := by
  unfold validateAttributes at valid
  split at valid
  · cases valid
  · next few =>
    refine ⟨Nat.le_of_not_lt few, fun k v found => ?_⟩
    exact validateAttribute_ok (forall_of_forM valid (k, v)
      (Std.ExtTreeMap.mem_toList_iff_getElem?_eq_some.mpr found))

/-- An accepted ordering key is within the limit of an attribute. -/
theorem size_of_orderingKey {key : Option String} (short : orderingKeyTooLong key = none) {k : String}
    (is : key = some k) : k.utf8ByteSize ≤ maxAttributeLen := by
  subst is
  simp only [orderingKeyTooLong, Option.bind_some] at short
  split at short
  · cases short
  · next le => exact Nat.le_of_not_lt le

/-- A message of checked parts is within limits, whoever publishes it and wherever it is stamped. -/
theorem Message.bounded_of_checks {payload : Bytes} {attrs : BTreeMap String String}
    {key : Option String} (validPayload : validatePayload payload = .ok ())
    (validAttributes : validateAttributes attrs = .ok ()) (short : orderingKeyTooLong key = none)
    (cursor : Nat) (publisher : String) (now : Nat) (authenticated : Bool) :
    Message.Bounded { (Message.new cursor publisher payload now).authenticated authenticated with
      orderingKey := key
      attributes := attrs } := by
  obtain ⟨few, each⟩ := validateAttributes_ok validAttributes
  refine ⟨?_, few, each, fun k is => size_of_orderingKey short is⟩
  exact ⟨payload, Hex.decode_encode payload, length_of_validatePayload validPayload⟩

/-- The limits do not look at the cursor. -/
theorem Message.Bounded.restamp {m : Message} (h : m.Bounded) (cursor : Nat) :
    Message.Bounded { m with cursor } :=
  ⟨h.payload, h.attributes, h.each, h.orderingKey⟩

/-! ## The log -/

/-- Every retained message is within the limits. -/
def TopicLog.Bounded (l : TopicLog) : Prop := ∀ m ∈ l.messages, m.Bounded

/-- A message within the limits may be appended. -/
theorem TopicLog.Bounded.append {l : TopicLog} (h : l.Bounded) {m : Message} (bounded : m.Bounded) :
    (l.apply (.append m)).Bounded := by
  intro x mem
  rcases List.mem_append.mp mem with old | new
  · exact h x old
  · rw [List.mem_singleton.mp new]
    exact bounded.restamp _

/-- A prune keeps fewer messages, all of them within the limits. -/
theorem TopicLog.Bounded.pruneTo {l : TopicLog} (h : l.Bounded) (upTo : Nat) :
    (l.apply (.pruneTo upTo)).Bounded :=
  fun x mem => h x (List.mem_of_mem_filter mem)

namespace Topic

variable {Link : Type} (host : Host Link)

/-- Nothing, or one append of a message within limits. -/
def WritesBounded (t t' : Topic) : Prop :=
  t'.writer = t.writer ∨ ∃ msg : Message, msg.Bounded ∧ t'.writer = t.writer.apply (.append msg)

/-- A call that writes only within the limits leaves the log within them. -/
theorem WritesBounded.writer_bounded {t t' : Topic} (h : WritesBounded t t')
    (bounded : t.writer.Bounded) : t'.writer.Bounded := by
  rcases h with same | ⟨msg, within, appended⟩
  · rwa [same]
  · rw [appended]
    exact bounded.append within

/-- The append of a message within the limits. -/
theorem appendAndFanout_writesBounded (t : Topic) (node : Answers) {msg : Message}
    (within : msg.Bounded) : WritesBounded t (t.appendAndFanout node msg).2 := by
  rcases t.appendAndFanout_cases node msg with ⟨e, failed⟩ | ⟨t', appended, is⟩
  · rw [failed]
    exact .inl rfl
  · rw [appended]
    exact .inr ⟨msg, within, is.writer⟩

/-- `publish` checks the payload first. -/
theorem publish_writesBounded (t : Topic) (node : Answers) (payload : Bytes) (now : Nat) :
    WritesBounded t (t.publish node payload now).2 := by
  rw [publish]
  cases valid : validatePayload payload with
  | error e => exact .inl rfl
  | ok u =>
    have nothing : validateAttributes ∅ = .ok () := rfl
    have unordered : orderingKeyTooLong none = none := rfl
    exact t.appendAndFanout_writesBounded node
      (Message.bounded_of_checks valid nothing unordered 0 t.nodeId now true)

/-- `publish_with` checks payload, attributes and ordering key first. -/
theorem publishWith_writesBounded (t : Topic) (node : Answers) (payload : Bytes)
    (opts : PublishOptions) (now : Nat) :
    WritesBounded t (t.publishWith node payload opts now).2 := by
  rw [publishWith]
  cases validPayload : validatePayload payload with
  | error e => exact .inl rfl
  | ok u =>
    cases validOptions : opts.validate with
    | error e => exact .inl rfl
    | ok u =>
      refine t.appendAndFanout_writesBounded node ?_
      rw [PublishOptions.validate] at validOptions
      cases short : orderingKeyTooLong opts.orderingKey with
      | some n =>
        rw [short] at validOptions
        cases validOptions
      | none =>
        rw [short] at validOptions
        exact Message.bounded_of_checks validPayload validOptions short 0 t.nodeId now true

/-- A remote publish is checked as the owner's own is. -/
theorem handleIngest_writesBounded (t : Topic) (node : Answers) (token : Nat)
    (payloadHex publisher : String) (now : Nat) :
    WritesBounded t (t.handleIngest host node token payloadHex publisher now).2 := by
  rcases handleIngest_cases host t node token payloadHex publisher now with
    ⟨cache, left⟩ | ⟨req, msg, t', cache, -, checked, is, left⟩
  · rw [left]
    exact .inl rfl
  · rw [left]
    obtain ⟨short, attributes, payload, -, valid, rfl⟩ := ingestMessage_ok checked
    exact .inr ⟨_, Message.bounded_of_checks valid attributes short 0 publisher now _, is.writer⟩

/-! ## The registry -/

/-- Below the capacity there is room for a new subscription. -/
theorem room_of_atCapacity {r : SubRegistry} {name : String} (room : r.atCapacity name = false)
    (absent : name ∉ r.subs) : r.subs.size < maxSubscriptions := by
  have new : r.subs.contains name = false := by
    rwa [← Bool.not_eq_true, Std.ExtTreeMap.contains_iff_mem]
  simp only [SubRegistry.atCapacity, new, Bool.not_false, Bool.true_and, decide_eq_false_iff_not] at room
  exact Nat.lt_of_not_le room

/-- One operation adds at most one name, and that with room for it and its own check. -/
theorem Effect.names_bounded {t : Topic} {now : Nat} {req : ControlRequest} {op : SubOp}
    (effect : Effect t now req op) (bounded : t.subs.Bounded) :
    (t.subs.apply op).len ≤ maxSubscriptions ∧
      ∀ name s, (t.subs.apply op).get name = some s → validateTopic name = .ok () := by
  have modified : ∀ n (f : SubscriptionState → SubscriptionState),
      SubRegistry.len { subs := t.subs.subs.modify n f } ≤ maxSubscriptions ∧
        ∀ name s, SubRegistry.get { subs := t.subs.subs.modify n f } name = some s →
          validateTopic name = .ok () := by
    intro n f
    refine ⟨?_, fun name s found => ?_⟩
    · rw [SubRegistry.len, Std.ExtTreeMap.size_modify]
      exact bounded.count
    · rcases SubRegistry.of_get_modify found with ⟨-, before, there, -⟩ | ⟨-, there⟩
      · exact bounded.names name before there
      · exact bounded.names name s there
  cases effect with
  | @create n policy grant valid validName room =>
    refine ⟨?_, fun name s found => ?_⟩
    · rw [SubRegistry.len, SubRegistry.apply, Std.ExtTreeMap.size_insert]
      split
      · exact bounded.count
      · next absent => exact room_of_atCapacity room absent
    · rcases SubRegistry.of_get_create found with ⟨rfl, -⟩ | ⟨rfl, -⟩ | ⟨-, there⟩
      · exact validName
      · exact validName
      · exact bounded.names name s there
  | @delete n =>
    refine ⟨?_, fun name s found => ?_⟩
    · exact Nat.le_trans Std.ExtTreeMap.size_erase_le bounded.count
    · exact bounded.names name s (SubRegistry.of_get_delete found).2
  | lease plan =>
    obtain ⟨-, leased, dead, newAcked, -, rfl, -⟩ := SubRegistry.planned_of_planLease plan
    exact modified _ _
  | ack there => exact modified _ _
  | nack there => exact modified _ _

/-- **A control request keeps the registry within its limits.** -/
theorem Serves.subs_bounded {t t' : Topic} {node : Answers} {now : Nat} {req : ControlRequest}
    (h : Serves t node now req t') (bounded : t.subs.Bounded) : t'.subs.Bounded := by
  have policies : ∀ name s, t'.subs.get name = some s → s.policy.validate = .ok () := by
    intro name s found
    cases h.became found with
    | same before => exact bounded.policies name s before
    | created _ valid _ => exact valid
    | recreated _ valid _ => exact valid
    | leased _ before planned _ =>
      rw [planned.policy_eq]
      exact bounded.policies name _ before
    | acked _ _ before =>
      rw [SubscriptionState.ack_policy]
      exact bounded.policies name _ before
    | @nacked s cursor grant _ before => exact bounded.policies name s before
  cases h with
  | nothing => exact bounded
  | proposed effect commit untouched subs =>
    obtain ⟨count, names⟩ := effect.names_bounded bounded
    rw [← subs] at count names
    exact ⟨count, names, policies⟩

/-! ## The owner -/

/-- Everything the owner keeps is within limits. -/
structure Bounded (t : Topic) : Prop where
  writer : t.writer.Bounded
  subs : t.subs.Bounded

/-- A new topic has neither messages nor subscriptions. -/
theorem bounded_create (nodeId topic : String) : Topic.Bounded { nodeId, topic } where
  writer m mem := absurd mem List.not_mem_nil
  subs := by
    refine ⟨Nat.zero_le _, ?_, ?_⟩ <;> (rintro name s ⟨⟩)

/-- No entry point leaves the bounds, whatever its arguments are. -/
theorem bounded_step {t : Topic} (h : t.Bounded) (i : Input) : (t.step host i).Bounded := by
  have subs : (t.step host i).subs.Bounded := by
    rcases t.step_cases host i with ⟨-, same, -⟩ | ⟨_, _, _, _, _, -, -, -, serves⟩
    · exact same ▸ h.subs
    · exact serves.subs_bounded h.subs
  refine ⟨?_, subs⟩
  cases i with
  | publish node payload now => exact (t.publish_writesBounded node payload now).writer_bounded h.writer
  | publishWith node payload opts now =>
    exact (t.publishWith_writesBounded node payload opts now).writer_bounded h.writer
  | ingest node token payloadHex publisher now =>
    exact (handleIngest_writesBounded host t node token payloadHex publisher now).writer_bounded h.writer
  | pruneTo node upTo =>
    rw [step, pruneTo]
    cases node.commitLog with
    | error e => exact h.writer
    | ok u => exact h.writer.pruneTo upTo
  | control node payloadHex requester now =>
    rcases handleControl_serves host t node payloadHex requester now with same | ⟨_, -, -, serves⟩
    · rw [step, same]
      exact h.writer
    · rw [step, serves.untouched.writer]
      exact h.writer
  | requirePublishCap require => exact h.writer
  | acceptRoot root =>
    rw [step, acceptRoot]
    cases parseNodeId root with
    | error e => exact h.writer
    | ok id =>
      simp only [bind, Except.bind]
      split <;> exact h.writer

/-- **Whatever is sent to an owner, what it keeps is within limits**: after every run of publishes,
ingest requests and control requests, among prunes and the owner's own settings, every message of the
log has a payload that decodes, and the number and the lengths of its parts are bounded; the registry
is no larger than its limit, and its names and policies are valid. -/
theorem bounded_of_run (nodeId topic : String) (t : Topic) (new : Topic.create nodeId topic = .ok t)
    (inputs : List Input) :
    (∀ m ∈ (Run.run (Topic.step host) t inputs).writer.messages,
      (∃ payload, m.data = .ok payload ∧ payload.length ≤ maxPayloadBytes) ∧
      m.attributes.size ≤ maxAttributes ∧
      (∀ k v : String, m.attributes[k]? = some v → k ≠ "" ∧ k.utf8ByteSize ≤ maxAttributeLen ∧
        v.utf8ByteSize ≤ maxAttributeLen) ∧
      ∀ k, m.orderingKey = some k → k.utf8ByteSize ≤ maxAttributeLen) ∧
    (Run.run (Topic.step host) t inputs).subs.len ≤ maxSubscriptions ∧
    ∀ name s, (Run.run (Topic.step host) t inputs).subs.get name = some s →
      validateTopic name = .ok () ∧ s.policy.validate = .ok () := by
  have start : t.Bounded := eq_of_create new ▸ bounded_create nodeId topic
  have bounded := Run.run_invariant (P := Bounded) (fun _ i h => bounded_step host h i) start inputs
  refine ⟨fun m mem => ?_, bounded.subs.count, fun name s found => ?_⟩
  · have within := bounded.writer m mem
    exact ⟨within.payload, within.attributes, within.each, within.orderingKey⟩
  · exact ⟨bounded.subs.names name s found, bounded.subs.policies name s found⟩

section

open Orders

/-- A request with an ordering key. -/
private def keyedRequest : IngestRequest := ⟨"6869", none, none, some "eu", ∅⟩

private theorem decode_keyed :
    IngestRequest.decodeHex Host.compact.serde (Hex.encode keyedRequest.encode) = .ok keyedRequest := by
  refine (IngestRequest.decodeHex_encode (Host.compact_reads_ingest keyedRequest) nofun).mpr ?_
  rw [IngestRequest.length_encode]
  decide

/-- The owner publishes with an attribute, another node publishes, and a third subscribes. -/
private def settingUp : List Input :=
  [.publishWith {} [104, 105] { attributes := ({} : BTreeMap String String).insert "region" "eu" } 11,
    .ingest {} 4 (Hex.encode keyedRequest.encode) "bb" 12,
      .control {} (Hex.encode subscribing.encode) "cc" 13]

/-- The topic after a publish with options. -/
private def optioned : Topic :=
  (publishWith orders {} [104, 105]
    { attributes := ({} : BTreeMap String String).insert "region" "eu" } 11).2

/-- The topic after a remote publish under a key as well. -/
private def ingested : Topic := (optioned.serveIngest Host.compact {} 4 keyedRequest "bb" 12).2

/-- The topic after the subscription is created as well. -/
private def setUp : Topic := (ingested.serveControl {} 13 subscribing).2

private theorem run_settingUp : Run.run (Topic.step Host.compact) orders settingUp = setUp := by
  have published : Topic.step Host.compact orders
      (.publishWith {} [104, 105] { attributes := ({} : BTreeMap String String).insert "region" "eu" } 11) =
        optioned := rfl
  have served : Topic.step Host.compact optioned (.ingest {} 4 (Hex.encode keyedRequest.encode) "bb" 12) =
      ingested := by
    rw [Topic.step, handleIngest_of_decoded decode_keyed, ingested]
  have asked : Topic.step Host.compact ingested (.control {} (Hex.encode subscribing.encode) "cc" 13) =
      setUp := by
    rw [step_control_encode (small size_subscribing) (Host.compact_reads subscribing) (by decide), setUp]
  rw [settingUp, Run.run_cons, published, Run.run_cons, served, Run.run_cons, asked, Run.run_nil]

/-- What an owner keeps that was published to by itself and by another node, and setUp to. -/
theorem bounded_of_run_published :
    setUp.writer.messages.length = 2 ∧ setUp.subs.names = ["jobs"] ∧
    (∀ m ∈ setUp.writer.messages, m.attributes.size ≤ maxAttributes ∧
      ∀ k, m.orderingKey = some k → k.utf8ByteSize ≤ maxAttributeLen) ∧
    ∀ s, setUp.subs.get "jobs" = some s → s.policy.validate = .ok () := by
  have bounded := bounded_of_run Host.compact "aa" "orders" _ created settingUp
  rw [run_settingUp] at bounded
  obtain ⟨messages, -, policies⟩ := bounded
  refine ⟨by decide, by decide, fun m mem => ?_, fun s found => (policies "jobs" s found).2⟩
  obtain ⟨-, attributes, -, key⟩ := messages m mem
  exact ⟨attributes, key⟩

end

end Topic

end CePubsub
