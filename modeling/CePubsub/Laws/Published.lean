import CePubsub.Laws.EndToEnd
import CePubsub.Laws.Remote

/-!
# What is published is what is delivered

A message is in the journal from its publishing on, and nothing else gets its cursor. Whatever leaves the
owner, leased, live or dead-lettered, is in the journal (`Genuine`). So in a mesh a cursor a publisher was
given names its message for everybody, if nobody else uses the key it published under
(`Mesh.Carries.published`, `Mesh.Sequential.everywhere`).
-/

namespace CePubsub

variable {Link : Type} {host : Host Link}

namespace Broker

/-- What was broadcast was published. -/
structure Genuine (b : Broker) : Prop where
  live : ∀ m ∈ b.live, m ∈ b.log.entries
  dead : ∀ m ∈ b.dead, m ∈ b.log.entries

variable {b : Broker}

theorem mem_of_get {c : Nat} {m : Message} (found : b.log.get c = some m) : m ∈ b.log.entries := by
  rw [Journal.get] at found
  split at found
  · exact List.mem_of_getElem? found
  · cases found

theorem mem_of_messages {cursors : List Nat} {m : Message} (mem : m ∈ b.messages cursors) :
    m ∈ b.log.entries := by
  obtain ⟨c, -, found⟩ := List.mem_filterMap.mp mem
  exact mem_of_get found

/-- Nothing but the subscriptions changes, and what is dead-lettered was published. -/
structure Routes (b b' : Broker) : Prop where
  log : b'.log = b.log
  live : b'.live = b.live
  dead : ∀ m ∈ b'.dead, m ∈ b.dead ∨ m ∈ b.log.entries

theorem Routes.refl (b : Broker) : Routes b b := ⟨rfl, rfl, fun _ => .inl⟩

theorem commit_routes (node : Answers) (what : String) (subs : BTreeMap String Sub) :
    Routes b (b.commit node what { b with subs }).2 := by
  rw [commit]
  cases node.commitSubs with
  | error e => exact .refl b
  | ok u => exact ⟨rfl, rfl, fun _ => .inl⟩

theorem pull_routes (node : Answers) (name : String) (s : Sub) (maxMessages now : Nat) :
    Routes b (b.pull node name s maxMessages now).2 := by
  rw [pull]
  split
  · exact .refl b
  · cases node.commitSubs with
    | error e => exact .refl b
    | ok u =>
      refine ⟨rfl, rfl, fun m mem => ?_⟩
      simp only at mem
      split at mem
      · exact (List.mem_append.mp mem).imp_right fun routed => mem_of_messages (List.mem_filter.mp routed).1
      · exact .inl mem

/-- What a control request leaves. -/
theorem control_routes (b : Broker) (node : Answers) (now : Nat) (req : ControlRequest) :
    Routes b (b.control node now req).2 := by
  cases req with
  | highCursor grant => exact .refl b
  | listSubscriptions grant => exact .refl b
  | deleteSubscription name grant => exact commit_routes node "delete" _
  | createSubscription name policy grant =>
    rw [control]
    cases policy.validate with
    | error e => exact .refl b
    | ok u =>
      cases validateTopic name with
      | error e => exact .refl b
      | ok u =>
        simp only
        split
        · exact .refl b
        · exact commit_routes node "create" _
  | pull name maxMessages grant =>
    rw [control]
    cases b.subs[name]? with
    | none => exact .refl b
    | some s => exact pull_routes node name s maxMessages now
  | ack name cursor grant =>
    rw [control]
    cases b.subs[name]? with
    | none => exact .refl b
    | some s => exact commit_routes node "ack" _
  | nack name cursor grant =>
    rw [control]
    cases b.subs[name]? with
    | none => exact .refl b
    | some s => exact commit_routes node "nack" _

/-- **Nothing leaves the journal.** -/
theorem entries_step (b : Broker) (c : Call) : b.log.entries <+: (b.step c).log.entries := by
  rw [step]
  cases c with
  | publish node msg =>
    rw [serve]
    cases node.commitLog with
    | error e => exact List.prefix_rfl
    | ok u => exact List.prefix_append _ _
  | prune node upTo =>
    rw [serve]
    cases node.commitLog <;> exact List.prefix_rfl
  | control node now req => rw [serve, (b.control_routes node now req).log]

theorem entries_run (b : Broker) (calls : List Call) :
    b.log.entries <+: (Run.run step b calls).log.entries :=
  Run.run_invariant (P := fun b' : Broker => b.log.entries <+: b'.log.entries)
    (fun b' c grown => grown.trans (b'.entries_step c)) List.prefix_rfl calls

theorem Genuine.step (h : Genuine b) (c : Call) : Genuine (b.step c) := by
  rw [Broker.step]
  cases c with
  | publish node msg =>
    rw [serve]
    cases node.commitLog with
    | error e => exact h
    | ok u =>
      refine ⟨fun m mem => ?_, fun m mem => List.mem_append_left _ (h.dead m mem)⟩
      simp only at mem
      split at mem
      · rcases List.mem_append.mp mem with before | last
        · exact List.mem_append_left _ (h.live m before)
        · exact List.mem_append_right _ last
      · exact List.mem_append_left _ (h.live m mem)
  | prune node upTo =>
    rw [serve]
    cases node.commitLog with
    | error e => exact h
    | ok u => exact ⟨h.live, h.dead⟩
  | control node now req =>
    have routes := b.control_routes node now req
    rw [serve]
    refine ⟨fun m mem => ?_, fun m mem => ?_⟩
    · rw [routes.log]
      exact h.live m (routes.live ▸ mem)
    · rw [routes.log]
      exact (routes.dead m mem).elim (h.dead m) id

theorem genuine_after (calls : List Call) : Genuine (after calls) :=
  Run.run_invariant (fun _ c h => h.step c) ⟨List.forall_mem_nil _, List.forall_mem_nil _⟩ calls

/-- What is found under a cursor carries it. -/
theorem cursor_of_get (numbered : Journal.Numbered Message.cursor 0 b.log.entries) {c : Nat} {m : Message}
    (found : b.log.get c = some m) : m.cursor = c := by
  rw [Journal.get] at found
  split at found
  · have := numbered.getElem? found
    omega
  · cases found

/-- The journal at a place of a mesh's history, and later. -/
theorem entries_grow (t : Topic) {past past' : List MeshEvent} (grown : past <+: past') :
    (after (t.calls host (inputs past))).log.entries <+:
      (after (t.calls host (inputs past'))).log.entries := by
  obtain ⟨more, rfl⟩ := grown
  rw [inputs, inputs, List.filterMap_append, Topic.calls_append, after_append]
  exact entries_run _ _

end Broker

/-! ## From a cursor to its message -/

/-- What a call to publish that gave a cursor put in the journal. -/
theorem Broker.mem_of_published {b : Broker} {node : Answers} {msg : Message} {c : Nat}
    (accepted : (b.serve (.publish node msg)).1 = .published (.ok c)) :
    { msg with cursor := c } ∈ (b.step (.publish node msg)).log.entries := by
  rw [Broker.step]
  rw [serve] at accepted ⊢
  cases commits : node.commitLog with
  | error e =>
    rw [commits] at accepted
    cases accepted
  | ok u =>
    rw [commits] at accepted
    cases accepted
    exact List.mem_append_right _ List.mem_cons_self

/-- **The message a cursor was given to** is the one a request under the key asked for. -/
theorem Landed.message {nodeId topic : String} {t : Topic} (new : Topic.create nodeId topic = .ok t)
    {key : String} {c : Nat} {is : List Input} (h : Landed host t key c is) :
    ∃ node token payloadHex publisher now req authenticated msg,
      Input.ingest node token payloadHex publisher now ∈ is ∧
      IngestRequest.decodeHex host.serde payloadHex = .ok req ∧ Topic.dedupKey req token = key ∧
      Topic.ingestMessage host req publisher authenticated now = .ok msg ∧
      { msg with cursor := c } ∈ (Broker.after (t.calls host is)).log.entries := by
  obtain ⟨before, rest, node, token, now, payloadHex, publisher, req, msg, rfl, decoded, same, comes,
    accepted⟩ := h.place
  obtain ⟨req', msg', is, decoded', checked⟩ := publish_of_call comes
  cases decoded.symm.trans decoded'
  cases is
  have stands := (owner_is_broker host new before).1
  rw [(stands.serve _).1] at accepted
  refine ⟨node, token, payloadHex, publisher, now, req, _, msg,
    List.mem_append_right _ List.mem_cons_self, decoded, same, checked, ?_⟩
  rw [Topic.calls_append, Broker.after_append, Topic.calls, comes, Run.run_append]
  exact (Broker.entries_run _ _).subset (Broker.mem_of_published accepted)

/-- What a request's message holds. -/
theorem fields_of_ingestMessage {req : IngestRequest} {publisher : String} {authenticated : Bool}
    {now : Nat} {msg : Message} {payload : Bytes}
    (checked : Topic.ingestMessage host req publisher authenticated now = .ok msg)
    (payloadHex : req.payloadHex = Hex.encode payload) :
    msg.publisher = publisher ∧ msg.payloadHex = Hex.encode payload ∧
      msg.orderingKey = req.orderingKey ∧ msg.attributes = req.attributes := by
  obtain ⟨-, -, decoded, is, -, rfl⟩ := Topic.ingestMessage_ok checked
  rw [payloadHex, Hex.decode_encode] at is
  obtain rfl := Except.ok.inj is
  exact ⟨rfl, rfl, rfl, rfl⟩

/-- An ingest request the owner was put was sent to its ingest topic, under its token. -/
theorem Mesh.Sequential.sent {t : Topic} {m : Mesh} (h : m.Sequential host t) {node : Answers}
    {token now : Nat} {payloadHex publisher : String}
    (mem : Input.ingest node token payloadHex publisher now ∈ inputs m.past) :
    ∃ r, (sents m.past)[token]? = some r ∧ r.topic = ingestTopic t.topic ∧
      payloadHex = Hex.encode r.body ∧ publisher = r.sender := by
  obtain ⟨e, there, input⟩ := List.mem_filterMap.mp mem
  obtain ⟨past, later, split⟩ := List.append_of_mem there
  have history := h.history
  rw [split] at history
  have holds := history.at
  cases e with
  | sent r => cases input
  | own i reply =>
    cases input
    cases holds.1
  | served token' i reply =>
    cases input
    obtain ⟨⟨r, place, becomes⟩, -⟩ := holds
    have same := Mesh.sents_of_split split place
    rcases becomes.input with ⟨mine, _, _, is⟩ | ⟨-, _, _, is⟩
    · cases is
      exact ⟨r, same, mine, rfl, rfl⟩
    · cases is

/-! ## Everywhere -/

/-- A publish that returns was accepted. -/
theorem PubSub.reply_of_publish {serde : Serde} {request : Bytes → Except String Bytes} {topic : String}
    {payload : Bytes} {grant idempotencyKey : Option String} {opts : PublishOptions} {c : Nat}
    (returned : publishToWith serde request topic payload grant opts idempotencyKey = .ok c) :
    ∃ bytes, request (IngestRequest.encode
        ⟨Hex.encode payload, grant, idempotencyKey, opts.orderingKey, opts.attributes⟩) = .ok bytes ∧
      serde.ingestReply bytes = .ok (.accepted c) := by
  simp only [publishToWith, bind, Except.bind] at returned
  cases sends : publishRequest topic payload grant opts idempotencyKey with
  | error e =>
    rw [sends] at returned
    cases returned
  | ok req =>
    obtain ⟨-, -, is⟩ := PubSub.checks_of_publishRequest sends
    rw [sends, is] at returned
    simp only at returned
    cases asked : request (IngestRequest.encode
        ⟨Hex.encode payload, grant, idempotencyKey, opts.orderingKey, opts.attributes⟩) with
    | error e =>
      rw [asked] at returned
      cases returned
    | ok bytes =>
      refine ⟨bytes, rfl, ?_⟩
      rw [asked] at returned
      simp only [Except.mapError, IngestReply.decode] at returned
      cases read : serde.ingestReply bytes with
      | error e =>
        rw [read] at returned
        cases returned
      | ok reply =>
        rw [read] at returned
        cases reply with
        | accepted c' =>
          cases returned
          rfl
        | rejected why => cases returned

/-- What a pull hands out was published. -/
theorem Broker.mem_of_pulled {b : Broker} {node : Answers} {now maxMessages : Nat} {name : String}
    {grant : Option String} {leased : List LeasedMessage}
    (replied : (b.control node now (.pull name maxMessages grant)).1 = .pulled leased) :
    ∀ l ∈ leased, l.message ∈ b.log.entries := by
  rw [control] at replied
  cases found : b.subs[name]? with
  | none =>
    rw [found] at replied
    cases replied
  | some s =>
    rw [found] at replied
    simp only [pull] at replied
    split at replied
    · cases replied
      exact List.forall_mem_nil _
    · cases commits : node.commitSubs with
      | error e =>
        rw [commits] at replied
        cases replied
      | ok u =>
        rw [commits] at replied
        cases replied
        intro l mem
        obtain ⟨c, -, is⟩ := List.mem_filterMap.mp mem
        obtain ⟨m, there, rfl⟩ := Option.map_eq_some_iff.mp is
        exact mem_of_get there

/-- What is decoded of a request's own hex is the request. -/
theorem IngestRequest.eq_of_decodeHex {serde : Serde} {req req' : IngestRequest}
    (lossless : serde.ingestRequest req.encode = .ok req)
    (decoded : decodeHex serde (Hex.encode req.encode) = .ok req') : req' = req := by
  rw [decodeHex] at decoded
  split at decoded
  · cases decoded
  · rw [Hex.decode_encode] at decoded
    simp only [decode, bind, Except.bind, lossless] at decoded
    split at decoded
    · cases decoded
    · split at decoded
      · cases decoded
      · split at decoded
        · split at decoded <;> cases decoded
          rfl
        · cases decoded
          rfl

/-- **A publish that returns** was accepted, at some place, for the request it sent. -/
theorem Mesh.Carries.accepted {m m' : Mesh} {t : Topic} {sender : String}
    {request : String → Bytes → Except String Bytes} (carries : Carries m m' sender request)
    (grown : m.past <+: m'.past) (sequential : m'.Sequential host t) {serde : Serde} {topic : String}
    {req : IngestRequest} (asks : host.serde.ingestRequest req.encode = .ok req)
    (reads : ∀ reply : IngestReply, serde.ingestReply reply.encode = .ok reply) {bytes : Bytes} {c : Nat}
    (asked : request (ingestTopic topic) req.encode = .ok bytes)
    (read : serde.ingestReply bytes = .ok (.accepted c)) :
    ∃ past later token node now,
      inputs m'.past = past ++ .ingest node token (Hex.encode req.encode) sender now :: later ∧
      (sents m'.past)[token]? = some { topic := ingestTopic topic, sender, body := req.encode } ∧
      IngestRequest.decodeHex host.serde (Hex.encode req.encode) = .ok req ∧
      (Run.run (Topic.step host) t past).reply host
        (.ingest node token (Hex.encode req.encode) sender now) = .ingested (.accepted c) := by
  obtain ⟨mid, token, i, given, later, split, wire, sent, becomes, replied⟩ :=
    carries.served grown sequential asked
  rcases becomes.input with ⟨-, node, now, rfl⟩ | ⟨wrong, -⟩
  · rw [replied] at wire
    have accepted : ((Run.run (Topic.step host) t (inputs (m.past ++ mid))).handleIngest host node token
        (Hex.encode req.encode) sender now).1 = .accepted c := by
      have same := reads ((Run.run (Topic.step host) t (inputs (m.past ++ mid))).handleIngest host node
        token (Hex.encode req.encode) sender now).1
      rw [Option.some.inj wire, read] at same
      exact (Except.ok.inj same).symm
    refine ⟨inputs (m.past ++ mid), inputs later, token, node, now, ?_, sent, ?_, ?_⟩
    · rw [split, inputs, List.filterMap_append]
      rfl
    · cases decoded : IngestRequest.decodeHex host.serde (Hex.encode req.encode) with
      | error e =>
        rw [Topic.handleIngest, decoded] at accepted
        cases accepted
      | ok req' => rw [IngestRequest.eq_of_decodeHex asks decoded]
    · rw [Topic.reply, accepted]
  · exact absurd wrong (ingestTopic_ne_controlTopic _ _)

variable (host) in
/-- The keys a request was sent under are this request's alone: whatever was sent under one of them was
sent by the same node, and asks for the same message. -/
def OwnKey (sent : List Sent) (topic sender : String) (req : IngestRequest) : Prop :=
  ∀ token token' r req', sent[token]? = some { topic := ingestTopic topic, sender, body := req.encode } →
    sent[token']? = some r → r.topic = ingestTopic topic →
    IngestRequest.decodeHex host.serde (Hex.encode r.body) = .ok req' →
    Topic.dedupKey req' token' = Topic.dedupKey req token →
    r.sender = sender ∧ req'.payloadHex = req.payloadHex ∧ req'.orderingKey = req.orderingKey ∧
      req'.attributes = req.attributes

/-- **A publish that returned** was given the cursor of a message published under its key. -/
theorem Mesh.Carries.landed {nodeId topic sender : String} {t : Topic} {start m : Mesh}
    (made : Topic.create nodeId topic = .ok t) (sequential : m.Sequential host t)
    {request : String → Bytes → Except String Bytes} {serde : Serde} {payload : Bytes}
    {grant idempotencyKey : Option String} {opts : PublishOptions} {c : Nat}
    (ownerReads : ∀ req : IngestRequest, host.serde.ingestRequest req.encode = .ok req)
    (reads : ∀ reply : IngestReply, serde.ingestReply reply.encode = .ok reply)
    (carries : Carries start m sender request) (grown : start.past <+: m.past)
    (published : PubSub.publishToWith serde (request (ingestTopic topic)) topic payload grant opts
      idempotencyKey = .ok c) :
    let req : IngestRequest := ⟨Hex.encode payload, grant, idempotencyKey, opts.orderingKey,
      opts.attributes⟩
    ∃ token, (sents m.past)[token]? = some { topic := ingestTopic topic, sender, body := req.encode } ∧
      Landed host t (Topic.dedupKey req token) c (inputs m.past) := by
  obtain ⟨bytes, asked, read⟩ := PubSub.reply_of_publish published
  obtain ⟨past, later, token, node, now, split, sent, decoded, accepted⟩ :=
    carries.accepted grown sequential (ownerReads _) reads asked read
  have landed := (landed_of_accepted made past decoded accepted).append later
  rw [List.append_assoc, List.singleton_append, ← split] at landed
  exact ⟨token, sent, landed⟩

/-- **A publish that returned a cursor** put its message in the journal under it, or an earlier sending of
the same message did. -/
theorem Mesh.Carries.published {nodeId topic sender : String} {t : Topic} {m : Mesh}
    (made : Topic.create nodeId topic = .ok t) (sequential : m.Sequential host t)
    {request : String → Bytes → Except String Bytes} {serde : Serde} {payload : Bytes}
    {grant idempotencyKey : Option String} {opts : PublishOptions} {c : Nat}
    (ownerReads : ∀ req : IngestRequest, host.serde.ingestRequest req.encode = .ok req)
    (reads : ∀ reply : IngestReply, serde.ingestReply reply.encode = .ok reply)
    {start : Mesh} (carries : Carries start m sender request) (grown : start.past <+: m.past)
    (published : PubSub.publishToWith serde (request (ingestTopic topic)) topic payload grant opts
      idempotencyKey = .ok c)
    (own : OwnKey host (sents m.past) topic sender
      ⟨Hex.encode payload, grant, idempotencyKey, opts.orderingKey, opts.attributes⟩) :
    ∃ msg : Message, msg.cursor = c ∧ msg.publisher = sender ∧ msg.data = .ok payload ∧
      msg.orderingKey = opts.orderingKey ∧ msg.attributes = opts.attributes ∧
      msg ∈ (Broker.after (t.calls host (inputs m.past))).log.entries := by
  have named : t.topic = topic := by rw [Topic.eq_of_create made]
  obtain ⟨token, sent, landed⟩ := carries.landed made sequential ownerReads reads grown published
  -- the message of this cursor is that of a request under this key, and so of this one
  obtain ⟨node', token', payloadHex', publisher', now', req', authenticated, msg, mem, decoded', same,
    checked, journaled⟩ := landed.message made
  obtain ⟨r, there, mine, rfl, rfl⟩ := sequential.sent mem
  rw [named] at mine
  obtain ⟨sender_eq, payload_eq, key_eq, attributes_eq⟩ :=
    own token token' r req' sent there mine decoded' same
  obtain ⟨publisher, payloadHex, orderingKey, attributes⟩ := fields_of_ingestMessage checked payload_eq
  refine ⟨{ msg with cursor := c }, rfl, publisher.trans sender_eq, ?_, orderingKey.trans key_eq,
    attributes.trans attributes_eq, journaled⟩
  rw [Message.data, payloadHex, Hex.decode_encode]

/-- Whatever turns up under the cursor a publish returned, in the log, in a lease at any node, live or as a
dead letter, is the message it put in the journal. -/
theorem Mesh.Sequential.everywhere {nodeId topic : String} {t : Topic} {start m : Mesh}
    (made : Topic.create nodeId topic = .ok t) (sequential : m.Sequential host t)
    (ownerReads : ∀ req : ControlRequest, host.serde.controlRequest req.encode = .ok req)
    (grown : start.past <+: m.past) {msg : Message}
    (journaled : msg ∈ (Broker.after (t.calls host (inputs m.past))).log.entries) :
    (∀ found, m.inner.topic.writer.get msg.cursor = some found → found = msg) ∧
      (∀ leaser ch name maxMessages grant msgs,
        (∀ reply : ControlReply, ch.serde.controlReply reply.encode = .ok reply) →
        Carries start m leaser ch.request → PubSub.lease ch topic name maxMessages grant = .ok msgs →
        ∀ l ∈ msgs, l.message.cursor = msg.cursor → l.message = msg) ∧
      ∀ stream ∈ [streamName topic nodeId, streamName (deadLetterTopic topic) nodeId],
        ∀ heard ∈ m.inner.topic.streams.getD stream [], heard.cursor = msg.cursor → heard = msg := by
  have named : t.topic = topic ∧ t.nodeId = nodeId := by
    rw [Topic.eq_of_create made]
    exact ⟨rfl, rfl⟩
  have stands := (owner_is_broker host made (inputs m.past)).1
  rw [← sequential.topic] at stands
  have numbered := stands.log.numbered
  have genuine := Broker.genuine_after (t.calls host (inputs m.past))
  have unique : ∀ found ∈ (Broker.after (t.calls host (inputs m.past))).log.entries,
      found.cursor = msg.cursor → found = msg :=
    fun found mem same => numbered.eq_of_pos journaled mem same
  refine ⟨fun found there => ?_, ?_, fun stream mem heard => ?_⟩
  · rw [stands.log.get] at there
    exact unique found (Broker.mem_of_get there) (Broker.cursor_of_get numbered there)
  · intro leaser ch name maxMessages grant msgs reads carried leased l mem same
    obtain ⟨mid, e, later, node, now, split, -, -, answered⟩ := carried.control grown sequential
      (ownerReads _) reads (PubSub.pulled_of_lease leased) nofun
    have stands' := (owner_is_broker host made (inputs (start.past ++ mid))).1
    rw [(stands'.serve _).1] at answered
    have pulled := Broker.mem_of_pulled (Answer.controlled.inj answered) l mem
    have before : start.past ++ mid <+: m.past := split ▸ List.prefix_append _ _
    exact unique l.message ((Broker.entries_grow t before).subset pulled) same
  · obtain ⟨topic_eq, nodeId_eq⟩ := t.run_named host (inputs m.past)
    rw [← sequential.topic, named.1] at topic_eq
    rw [← sequential.topic, named.2] at nodeId_eq
    rcases List.mem_cons.mp mem with rfl | other
    · rw [← topic_eq, ← nodeId_eq, stands.live]
      exact unique heard ∘ genuine.live heard
    · obtain rfl := List.mem_singleton.mp other
      rw [← topic_eq, ← nodeId_eq, stands.dead]
      exact unique heard ∘ genuine.dead heard

/-! ### A greeting -/

namespace Greeting

/-- A topic's handles, as its owner creates it. -/
def post : TopicInner :=
  (TopicInner.serve { topic := { nodeId := "aa", topic := "orders" }, strongCount := 1, held := 1 }
    .ingest).serve .control

def start : Mesh := { inner := post }

theorem valid : validateTopic "orders" = .ok () := by decide

theorem new : TopicInner.createTopic "aa" "orders" = .ok post := by
  rw [TopicInner.createTopic, Topic.create_of_valid valid]
  rfl

end Greeting

end CePubsub
