import CePubsub.Laws.Log
import CePubsub.Laws.Wire

/-!
# What one call of the owner does

The owner as a machine: its inputs are the calls it makes and the requests it is sent, each with the
time and with how the calls outside turn out. One law for each input says what it may change: a
publish and an ingest request touch the log and never the registry; a prune drops from the log;
a control request touches the registry, by one operation that `Effect` lists, and never the log.
-/

namespace CePubsub

/-- What the owner does, or is asked to. -/
inductive Input where
  | publish (node : Answers) (payload : Bytes) (now : Nat)
  | publishWith (node : Answers) (payload : Bytes) (opts : PublishOptions) (now : Nat)
  | pruneTo (node : Answers) (upTo : Nat)
  | ingest (node : Answers) (token : Nat) (payloadHex publisher : String) (now : Nat)
  | control (node : Answers) (payloadHex requester : String) (now : Nat)
  | requirePublishCap (require : Bool)
  | acceptRoot (root : String)

namespace Topic

variable {Link : Type} (host : Host Link)

/-- The state an input leaves. -/
def step (t : Topic) : Input → Topic
  | .publish node payload now => (t.publish node payload now).2
  | .publishWith node payload opts now => (t.publishWith node payload opts now).2
  | .pruneTo node upTo => (t.pruneTo node upTo).2
  | .ingest node token payloadHex publisher now =>
    (t.handleIngest host node token payloadHex publisher now).2
  | .control node payloadHex requester now => (t.handleControl host node payloadHex requester now).2
  | .requirePublishCap require => t.requirePublishCap require
  | .acceptRoot root => (t.acceptRoot root).toOption.getD t

/-- A topic begins with an empty log and an empty registry. -/
theorem eq_of_create {nodeId topic : String} {t : Topic} (new : Topic.create nodeId topic = .ok t) :
    t = { nodeId, topic } := by
  simp only [create, bind, Except.bind] at new
  cases valid : validateTopic topic with
  | error e => simp only [valid, reduceCtorEq] at new
  | ok u =>
    simp only [valid, Except.ok.injEq] at new
    exact new.symm

/-- A topic is created under every valid name. -/
theorem create_of_valid {topic : String} (valid : validateTopic topic = .ok ()) (nodeId : String) :
    Topic.create nodeId topic = .ok { nodeId, topic } := by
  simp only [create, valid, bind, Except.bind]

/-- The operation a control request applies to the registry, once admitted. -/
inductive Effect (t : Topic) (now : Nat) : ControlRequest → SubOp → Prop
  | create {name policy grant} : policy.validate = .ok () → validateTopic name = .ok () →
      t.subs.atCapacity name = false →
      Effect t now (.createSubscription name policy grant) (.create name policy)
  | delete {name grant} : Effect t now (.deleteSubscription name grant) (.delete name)
  | lease {name maxMessages grant op out} :
      t.subs.planLease name t.writer.highCursor t.writer.floor now maxMessages = some (op, out) →
      Effect t now (.pull name maxMessages grant) op
  | ack {name cursor grant} : (t.subs.get name).isSome →
      Effect t now (.ack name cursor grant) (.ack name cursor)
  | nack {name cursor grant} : (t.subs.get name).isSome →
      Effect t now (.nack name cursor grant) (.nack name cursor)

/-- Everything but the registry and the streams is as it was. -/
structure Untouched (t t' : Topic) : Prop where
  nodeId : t'.nodeId = t.nodeId
  topic : t'.topic = t.topic
  writer : t'.writer = t.writer
  acceptedRoots : t'.acceptedRoots = t.acceptedRoots
  requireCap : t'.requireCap = t.requireCap
  dedup : t'.dedup = t.dedup

theorem Untouched.refl (t : Topic) : Untouched t t := ⟨rfl, rfl, rfl, rfl, rfl, rfl⟩

/-- Two changes that touch nothing of the topic. -/
theorem Untouched.trans {t u v : Topic} (h : Untouched t u) (k : Untouched u v) : Untouched t v :=
  ⟨k.nodeId.trans h.nodeId, k.topic.trans h.topic, k.writer.trans h.writer,
    k.acceptedRoots.trans h.acceptedRoots, k.requireCap.trans h.requireCap, k.dedup.trans h.dedup⟩

/-- Broadcasting touches the live stream only. -/
theorem broadcasts (t : Topic) (stream : String) (ms : List Message) :
    Untouched t (ms.foldl (·.broadcast stream) t) ∧
      (ms.foldl (·.broadcast stream) t).subs = t.subs := by
  induction ms generalizing t with
  | nil => exact ⟨.refl t, rfl⟩
  | cons m ms ih =>
    obtain ⟨untouched, subs⟩ := ih (t.broadcast stream m)
    exact ⟨.trans (u := t.broadcast stream m) ⟨rfl, rfl, rfl, rfl, rfl, rfl⟩ untouched, subs⟩

/-- What is broadcast on one stream is added to it, and to no other. -/
theorem streams_broadcasts (t : Topic) (stream name : String) (ms : List Message) :
    (ms.foldl (·.broadcast stream) t).streams.getD name [] =
      t.streams.getD name [] ++ if name = stream then ms else [] := by
  induction ms generalizing t with
  | nil => rw [List.foldl_nil, ite_self, List.append_nil]
  | cons m ms ih =>
    rw [List.foldl_cons, ih, broadcast, Std.ExtTreeMap.getD_insert]
    by_cases same : name = stream
    · subst same
      rw [if_pos Std.ReflCmp.compare_self, if_pos rfl, if_pos rfl, List.append_assoc]
      rfl
    · rw [if_neg fun eq => same (Std.compare_eq_iff_eq.mp eq).symm, if_neg same, if_neg same]

/-- Routing dead letters touches the live stream only. -/
theorem routeDeadLetters_frame (t : Topic) (node : Answers) (cursors : List Nat) :
    Untouched t (t.routeDeadLetters node cursors) ∧
      (t.routeDeadLetters node cursors).subs = t.subs := by
  rw [routeDeadLetters]
  split
  · exact t.broadcasts _ _
  · exact ⟨.refl t, rfl⟩

/-- What a control request does to the owner: nothing, or one operation on the registry. -/
inductive Serves (t : Topic) (node : Answers) (now : Nat) (req : ControlRequest) : Topic → Prop
  | nothing : Serves t node now req t
  | proposed {op t'} : Effect t now req op → node.commitSubs = .ok () → Untouched t t' →
      t'.subs = t.subs.apply op → Serves t node now req t'

/-- A proposed operation is served with the effect it has. -/
theorem proposeSubs_serves {t : Topic} {node : Answers} {now : Nat} {req : ControlRequest} {op : SubOp}
    (what : String) (effect : Effect t now req op) :
    Serves t node now req (t.proposeSubs node what op).2 := by
  rw [proposeSubs]
  cases commit : node.commitSubs with
  | ok u => exact .proposed effect commit ⟨rfl, rfl, rfl, rfl, rfl, rfl⟩ rfl
  | error e => exact .nothing

/-- A pull that plans nothing leaves the owner as it was. -/
theorem handleLease_of_unplanned {t : Topic} {name : String} {maxMessages now : Nat} (node : Answers)
    (plan : t.subs.planLease name t.writer.highCursor t.writer.floor now maxMessages = none) :
    (t.handleLease node name maxMessages now).2 = t := by
  rw [handleLease, plan]
  split <;> rfl

/-- So does one whose proposal does not commit. -/
theorem handleLease_of_uncommitted {t : Topic} {node : Answers} {e : String}
    (commit : node.commitSubs = .error e) (name : String) (maxMessages now : Nat) :
    (t.handleLease node name maxMessages now).2 = t := by
  rw [handleLease, commit]
  split
  · rfl
  · split <;> rfl

/-- **A pull whose plan commits** is answered what the plan leases, and its operation is applied. -/
theorem handleLease_of_planned {t : Topic} {node : Answers} {name : String} {maxMessages now : Nat}
    {op : SubOp} {out : LeaseOutcome}
    (plan : t.subs.planLease name t.writer.highCursor t.writer.floor now maxMessages = some (op, out))
    (commit : node.commitSubs = .ok ()) :
    ∃ t', t.handleLease node name maxMessages now = (.pulled (t.resolve out.leased), t') ∧
      Untouched t t' ∧ t'.subs = t.subs.apply op := by
  obtain ⟨s, there, -⟩ := Option.bind_eq_some_iff.mp plan
  have found : t.subs.get name = some s := there
  have applied : Untouched t { t with subs := t.subs.apply op } := ⟨rfl, rfl, rfl, rfl, rfl, rfl⟩
  -- routing dead letters broadcasts them and leaves the log alone
  have same : ∀ t' : Topic, t'.writer = t.writer → t'.resolve out.leased = t.resolve out.leased := by
    intro t' same
    rw [resolve, resolve, same]
  rw [handleLease, if_neg (by rw [found]; exact Bool.false_ne_true), plan, commit]
  simp only
  split
  · exact ⟨_, congrArg (·, _) (congrArg ControlReply.pulled (same _ rfl)), applied, rfl⟩
  · obtain ⟨untouched, subs⟩ :=
      routeDeadLetters_frame { t with subs := t.subs.apply op } node out.deadLettered
    exact ⟨_, congrArg (·, _) (congrArg ControlReply.pulled (same _ untouched.writer)),
      applied.trans untouched, subs⟩

/-- A pull is served with the plan it commits. -/
theorem handleLease_serves (t : Topic) (node : Answers) (name : String) (maxMessages now : Nat)
    (grant : Option String) :
    Serves t node now (.pull name maxMessages grant) (t.handleLease node name maxMessages now).2 := by
  cases plan : t.subs.planLease name t.writer.highCursor t.writer.floor now maxMessages with
  | none =>
    rw [handleLease_of_unplanned node plan]
    exact .nothing
  | some planned =>
    obtain ⟨op, out⟩ := planned
    cases commit : node.commitSubs with
    | error e =>
      rw [handleLease_of_uncommitted commit]
      exact .nothing
    | ok u =>
      obtain ⟨t', pulled, untouched, subs⟩ := handleLease_of_planned plan commit
      rw [pulled]
      exact .proposed (.lease plan) commit untouched subs

/-- **What an admitted control request does**: nothing, or the operation it asks for. -/
theorem serveControl_serves (t : Topic) (node : Answers) (now : Nat) (req : ControlRequest) :
    Serves t node now req (t.serveControl node now req).2 := by
  cases req with
  | highCursor grant => exact .nothing
  | createSubscription name policy grant =>
    simp only [serveControl]
    cases validPolicy : policy.validate with
    | error e => exact .nothing
    | ok u =>
      cases validName : validateTopic name with
      | error e => exact .nothing
      | ok u =>
        cases full : t.subs.atCapacity name with
        | true => exact .nothing
        | false => exact proposeSubs_serves "create" (.create validPolicy validName full)
  | deleteSubscription name grant => exact proposeSubs_serves "delete" .delete
  | listSubscriptions grant => exact .nothing
  | pull name maxMessages grant => exact t.handleLease_serves node name maxMessages now grant
  | ack name cursor grant =>
    simp only [serveControl]
    cases found : t.subs.get name with
    | none => exact .nothing
    | some s => exact proposeSubs_serves "ack" (.ack (found ▸ rfl))
  | nack name cursor grant =>
    simp only [serveControl]
    cases found : t.subs.get name with
    | none => exact .nothing
    | some s => exact proposeSubs_serves "nack" (.nack (found ▸ rfl))

/-- A request other than for the high cursor is served if it is admitted. -/
theorem handleControl_of_decoded {host : Host Link} {t : Topic} {node : Answers}
    {payloadHex requester : String} {now : Nat} {req : ControlRequest}
    (decoded : decodeControl host payloadHex = .ok req) (other : ∀ grant, req ≠ .highCursor grant) :
    t.handleControl host node payloadHex requester now =
      match t.gate host node requester abilitySubscribe req.grant now with
      | .error why => (.rejected why, t)
      | .ok () => t.serveControl node now req := by
  rw [handleControl, decoded]
  cases req with
  | highCursor grant => exact absurd rfl (other grant)
  | createSubscription | deleteSubscription | listSubscriptions | pull | ack | nack => rfl

/-- **What a control message does**: nothing, or what the request it carries asks for, if the request
is admitted. -/
theorem handleControl_serves (t : Topic) (node : Answers) (payloadHex requester : String) (now : Nat) :
    (t.handleControl host node payloadHex requester now).2 = t ∨
      ∃ req, decodeControl host payloadHex = .ok req ∧
        t.gate host node requester abilitySubscribe req.grant now = .ok () ∧
        Serves t node now req (t.handleControl host node payloadHex requester now).2 := by
  cases decoded : decodeControl host payloadHex with
  | error why => exact .inl (by rw [handleControl, decoded])
  | ok req =>
    by_cases high : ∃ grant, req = .highCursor grant
    · obtain ⟨grant, rfl⟩ := high
      exact .inl (by rw [handleControl, decoded])
    · rw [handleControl_of_decoded decoded fun grant eq => high ⟨grant, eq⟩]
      cases admitted : t.gate host node requester abilitySubscribe req.grant now with
      | error why => exact .inl rfl
      | ok u => exact .inr ⟨req, rfl, admitted, t.serveControl_serves node now req⟩

/-- A gate that is open lets everything through. -/
theorem gate_of_ungated {t : Topic} (ungated : t.requireCap = false) (node : Answers)
    (requester ability : String) (grant : Option String) (now : Nat) :
    t.gate host node requester ability grant now = .ok () := by
  simp only [gate, ungated, Bool.false_eq_true, if_false]

/-- A request small enough, read back as it was written, is served on an open topic. -/
theorem handleControl_encode {host : Host Link} {t : Topic} {node : Answers} {req : ControlRequest}
    {requester : String} {now : Nat} (small : req.encode.length ≤ maxControlBodyBytes)
    (lossless : host.serde.controlRequest req.encode = .ok req) (ungated : t.requireCap = false) :
    t.handleControl host node (Hex.encode req.encode) requester now = t.serveControl node now req := by
  have decoded := decodeControl_encode small lossless
  by_cases high : ∃ grant, req = .highCursor grant
  · obtain ⟨grant, rfl⟩ := high
    rw [handleControl, decoded]
    rfl
  · rw [handleControl_of_decoded decoded fun grant eq => high ⟨grant, eq⟩,
      gate_of_ungated host ungated]

/-- A request in its own encoding is served as that request. -/
theorem step_control_encode {host : Host Link} {t : Topic} {node : Answers} {req : ControlRequest}
    {requester : String} {now : Nat} (small : req.encode.length ≤ maxControlBodyBytes)
    (lossless : host.serde.controlRequest req.encode = .ok req) (ungated : t.requireCap = false) :
    t.step host (.control node (Hex.encode req.encode) requester now) =
      (t.serveControl node now req).2 := by
  rw [step, handleControl_encode small lossless ungated]

/-! ## What appends to the log -/

/-- One append to the log, and nothing else but a broadcast. -/
structure Appended (t : Topic) (msg : Message) (t' : Topic) : Prop where
  nodeId : t'.nodeId = t.nodeId
  topic : t'.topic = t.topic
  writer : t'.writer = t.writer.apply (.append msg)
  subs : t'.subs = t.subs
  acceptedRoots : t'.acceptedRoots = t.acceptedRoots
  requireCap : t'.requireCap = t.requireCap
  dedup : t'.dedup = t.dedup

/-- Appending commits under the cursor it read, or leaves everything as it was. -/
theorem appendAndFanout_cases (t : Topic) (node : Answers) (msg : Message) :
    (∃ e, t.appendAndFanout node msg = (.error e, t)) ∨
      ∃ t', t.appendAndFanout node msg = (.ok t.writer.nextCursor, t') ∧ Appended t msg t' := by
  rw [appendAndFanout]
  cases node.commitLog with
  | error e => exact .inl ⟨_, rfl⟩
  | ok u =>
    refine .inr ⟨_, rfl, ?_⟩
    split <;> exact ⟨rfl, rfl, rfl, rfl, rfl, rfl, rfl⟩

/-- An ingest request is rejected with everything as it was, or admitted, checked and appended. -/
theorem applyIngest_cases (t : Topic) (node : Answers) (req : IngestRequest) (publisher : String)
    (now : Nat) :
    (∃ why, t.applyIngest host node req publisher now = (.error why, t)) ∨
      ∃ msg t', t.applyIngest host node req publisher now = (.ok t.writer.nextCursor, t') ∧
        t.gate host node publisher abilityPublish req.grant now = .ok () ∧
        ingestMessage host req publisher t.requireCap now = .ok msg ∧ Appended t msg t' := by
  rw [applyIngest]
  cases admitted : t.gate host node publisher abilityPublish req.grant now with
  | error why => exact .inl ⟨why, rfl⟩
  | ok u =>
    cases checked : ingestMessage host req publisher t.requireCap now with
    | error why => exact .inl ⟨why, rfl⟩
    | ok msg =>
      simp only
      rcases t.appendAndFanout_cases node msg with ⟨e, failed⟩ | ⟨t', appended, is⟩
      · rw [failed]
        exact .inl ⟨_, rfl⟩
      · rw [appended]
        exact .inr ⟨msg, t', rfl, trivial, rfl, is⟩

/-- What a request that passes its checks has passed, and the message it asks for. -/
theorem ingestMessage_ok {host : Host Link} {req : IngestRequest} {publisher : String}
    {authenticated : Bool} {now : Nat} {msg : Message}
    (checked : ingestMessage host req publisher authenticated now = .ok msg) :
    orderingKeyTooLong req.orderingKey = none ∧ validateAttributes req.attributes = .ok () ∧
      ∃ payload, Hex.decode req.payloadHex = .ok payload ∧ validatePayload payload = .ok () ∧
        msg = { (Message.new 0 publisher payload now).authenticated authenticated with
          orderingKey := req.orderingKey
          attributes := req.attributes } := by
  simp only [ingestMessage, bind, Except.bind] at checked
  cases key : orderingKeyTooLong req.orderingKey with
  | some n =>
    rw [key] at checked
    cases checked
  | none =>
    rw [key] at checked
    cases attributes : validateAttributes req.attributes with
    | error e =>
      rw [attributes] at checked
      cases checked
    | ok u =>
      rw [attributes] at checked
      cases decoded : Hex.decode req.payloadHex with
      | error e =>
        rw [decoded] at checked
        cases checked
      | ok payload =>
        rw [decoded] at checked
        simp only [Except.mapError] at checked
        cases valid : validatePayload payload with
        | error e =>
          rw [valid] at checked
          cases checked
        | ok u =>
          rw [valid] at checked
          cases checked
          exact ⟨rfl, rfl, payload, rfl, valid, rfl⟩

/-- The log an operation leaves is no shorter, counting what was pruned. -/
theorem highCursor_apply_le (s : TopicLog) (op : LogOp) : s.highCursor ≤ (s.apply op).highCursor := by
  cases op with
  | append m =>
    simp only [TopicLog.highCursor, TopicLog.apply, List.length_append]
    omega
  | pruneTo upTo =>
    simp only [TopicLog.highCursor, TopicLog.apply]
    have := List.length_filter_le (fun m : Message => decide (m.cursor > upTo)) s.messages
    omega

/-- What a request the cache knows is answered. -/
def seenAnswer : Seen → IngestReply
  | .cursor c => .accepted c
  | .handled => .rejected "duplicate request"

/-- A remote publish that decodes is served as that request. -/
theorem handleIngest_of_decoded {host : Host Link} {payloadHex : String} {req : IngestRequest}
    (decoded : IngestRequest.decodeHex host.serde payloadHex = .ok req) (t : Topic) (node : Answers)
    (token : Nat) (publisher : String) (now : Nat) :
    t.handleIngest host node token payloadHex publisher now =
      t.serveIngest host node token req publisher now := by
  rw [handleIngest, decoded]

/-- A request whose key the cache knows is answered from it. -/
theorem handleIngest_of_seen {host : Host Link} {t : Topic} {token : Nat} {payloadHex : String}
    {now : Nat} {req : IngestRequest} {seen : Seen} {cache : IdempotencyCache} (node : Answers)
    (publisher : String) (decoded : IngestRequest.decodeHex host.serde payloadHex = .ok req)
    (hit : t.dedup.get (dedupKey req token) now = (some seen, cache)) :
    t.handleIngest host node token payloadHex publisher now =
      (seenAnswer seen, { t with dedup := cache }) := by
  rw [handleIngest_of_decoded decoded, serveIngest, hit]
  cases seen <;> rfl

/-- **A request whose key the cache does not know** is rejected and recorded so, or admitted, checked,
appended and recorded with its cursor. -/
theorem handleIngest_of_unseen {host : Host Link} {t : Topic} {token : Nat} {payloadHex : String}
    {now : Nat} {req : IngestRequest} {cache : IdempotencyCache} (node : Answers) (publisher : String)
    (decoded : IngestRequest.decodeHex host.serde payloadHex = .ok req)
    (missed : t.dedup.get (dedupKey req token) now = (none, cache)) :
    (∃ why, t.handleIngest host node token payloadHex publisher now =
      (.rejected why, { t with dedup := cache.insert (dedupKey req token) .handled now })) ∨
    ∃ msg t', t.handleIngest host node token payloadHex publisher now =
        (.accepted t.writer.nextCursor, { t' with
          dedup := cache.insert (dedupKey req token) (.cursor t.writer.nextCursor) now }) ∧
      t.gate host node publisher abilityPublish req.grant now = .ok () ∧
      ingestMessage host req publisher t.requireCap now = .ok msg ∧
      Appended { t with dedup := cache } msg t' := by
  rw [handleIngest_of_decoded decoded, serveIngest, missed]
  simp only
  rcases applyIngest_cases host { t with dedup := cache } node req publisher now with
    ⟨why, rejected⟩ | ⟨msg, t', appended, admitted, checked, is⟩
  · rw [rejected]
    exact .inl ⟨why, rfl⟩
  · rw [appended]
    refine .inr ⟨msg, t', ?_, admitted, checked, is⟩
    simp only [seenOf, is.dedup]

/-! ## What each input leaves alone -/

/-- An append never lowers the high cursor. -/
theorem Appended.highCursor_le {t t' : Topic} {msg : Message} (h : Appended t msg t') :
    t.highCursor ≤ t'.highCursor := by
  rw [highCursor, highCursor, h.writer]
  exact highCursor_apply_le _ _

/-- Nothing, or one append. -/
inductive Writes (t : Topic) : Topic → Prop
  | nothing : Writes t t
  | appended {msg t'} : Appended t msg t' → Writes t t'

/-- Appending writes the message or nothing. -/
theorem appendAndFanout_writes (t : Topic) (node : Answers) (msg : Message) :
    Writes t (t.appendAndFanout node msg).2 := by
  rcases t.appendAndFanout_cases node msg with ⟨e, failed⟩ | ⟨t', appended, is⟩
  · rw [failed]
    exact .nothing
  · rw [appended]
    exact .appended is

/-- A publish writes one message or nothing. -/
theorem publish_writes (t : Topic) (node : Answers) (payload : Bytes) (now : Nat) :
    Writes t (t.publish node payload now).2 := by
  rw [publish]
  cases validatePayload payload with
  | error e => exact .nothing
  | ok u => exact t.appendAndFanout_writes node _

/-- So does one with options. -/
theorem publishWith_writes (t : Topic) (node : Answers) (payload : Bytes) (opts : PublishOptions)
    (now : Nat) : Writes t (t.publishWith node payload opts now).2 := by
  rw [publishWith]
  cases validatePayload payload with
  | error e => exact .nothing
  | ok u =>
    cases opts.validate with
    | error e => exact .nothing
    | ok u => exact t.appendAndFanout_writes node _

/-- The topic's name and registry are as they were, and its high cursor no lower. -/
structure Advances (t t' : Topic) : Prop where
  topic : t'.topic = t.topic
  subs : t'.subs = t.subs
  high : t.highCursor ≤ t'.highCursor

theorem Advances.refl (t : Topic) : Advances t t := ⟨rfl, rfl, Nat.le_refl _⟩

/-- What writes a message advances the log. -/
theorem Writes.advances {t t' : Topic} (h : Writes t t') : Advances t t' := by
  cases h with
  | nothing => exact .refl t
  | appended is => exact ⟨is.topic, is.subs, is.highCursor_le⟩

/-- The owner's own publishes leave the ingest cache alone. -/
theorem Writes.dedup {t t' : Topic} (h : Writes t t') : t'.dedup = t.dedup := by
  cases h with
  | nothing => rfl
  | appended is => exact is.dedup

/-- What an ingest request leaves: the topic it found, or the topic with the message of the request
appended, in either case with another cache. -/
theorem handleIngest_cases (t : Topic) (node : Answers) (token : Nat) (payloadHex publisher : String)
    (now : Nat) :
    (∃ cache, (t.handleIngest host node token payloadHex publisher now).2 =
      { t with dedup := cache }) ∨
    ∃ req msg t' cache, IngestRequest.decodeHex host.serde payloadHex = .ok req ∧
      ingestMessage host req publisher t.requireCap now = .ok msg ∧ Appended t msg t' ∧
      (t.handleIngest host node token payloadHex publisher now).2 = { t' with dedup := cache } := by
  cases decoded : IngestRequest.decodeHex host.serde payloadHex with
  | error e =>
    rw [handleIngest, decoded]
    exact .inl ⟨t.dedup, rfl⟩
  | ok req =>
    cases looked : t.dedup.get (dedupKey req token) now with
    | mk hit cache =>
      cases hit with
      | some seen =>
        rw [handleIngest_of_seen node publisher decoded looked]
        exact .inl ⟨cache, rfl⟩
      | none =>
        rcases handleIngest_of_unseen node publisher decoded looked with
          ⟨why, rejected⟩ | ⟨msg, t', accepted, -, checked, is⟩
        · rw [rejected]
          exact .inl ⟨_, rfl⟩
        · rw [accepted]
          have kept : Appended t msg { t' with dedup := t.dedup } :=
            ⟨is.nodeId, is.topic, is.writer, is.subs, is.acceptedRoots, is.requireCap, rfl⟩
          exact .inr ⟨req, msg, _, _, rfl, checked, kept, rfl⟩

/-- An ingest request writes to the log, or not, and to the cache. -/
theorem handleIngest_writes (t : Topic) (node : Answers) (token : Nat)
    (payloadHex publisher : String) (now : Nat) :
    ∃ t' cache, (t.handleIngest host node token payloadHex publisher now).2 =
      { t' with dedup := cache } ∧ Writes t t' := by
  rcases handleIngest_cases host t node token payloadHex publisher now with
    ⟨cache, left⟩ | ⟨req, msg, t', cache, -, -, is, left⟩
  · exact ⟨t, cache, left, .nothing⟩
  · exact ⟨t', cache, left, .appended is⟩

/-- A remote publish never takes the log back. -/
theorem handleIngest_advances (t : Topic) (node : Answers) (token : Nat)
    (payloadHex publisher : String) (now : Nat) :
    Advances t (t.handleIngest host node token payloadHex publisher now).2 := by
  obtain ⟨t', cache, left, writes⟩ :=
    handleIngest_writes host t node token payloadHex publisher now
  have advances := writes.advances
  rw [left]
  exact ⟨advances.topic, advances.subs, advances.high⟩

/-- **Only a control request touches the registry, and no input lowers the high cursor.** -/
theorem step_cases (t : Topic) (i : Input) :
    Advances t (t.step host i) ∨
      ∃ node payloadHex requester now req, i = .control node payloadHex requester now ∧
        decodeControl host payloadHex = .ok req ∧
        t.gate host node requester abilitySubscribe req.grant now = .ok () ∧
        Serves t node now req (t.step host i) := by
  cases i with
  | publish node payload now => exact .inl (t.publish_writes node payload now).advances
  | publishWith node payload opts now => exact .inl (t.publishWith_writes node payload opts now).advances
  | pruneTo node upTo =>
    refine .inl ?_
    rw [step, pruneTo]
    cases node.commitLog with
    | error e => exact .refl t
    | ok u => exact ⟨rfl, rfl, highCursor_apply_le _ _⟩
  | ingest node token payloadHex publisher now =>
    exact .inl (handleIngest_advances host t node token payloadHex publisher now)
  | control node payloadHex requester now =>
    rcases handleControl_serves host t node payloadHex requester now with
      same | ⟨req, decoded, admitted, serves⟩
    · refine .inl ?_
      rw [step, same]
      exact .refl t
    · exact .inr ⟨node, payloadHex, requester, now, req, rfl, decoded, admitted, serves⟩
  | requirePublishCap require => exact .inl ⟨rfl, rfl, Nat.le_refl _⟩
  | acceptRoot root =>
    refine .inl ?_
    rw [step, acceptRoot]
    cases parseNodeId root with
    | error e => exact .refl t
    | ok id =>
      simp only [bind, Except.bind]
      split <;> exact ⟨rfl, rfl, Nat.le_refl _⟩

/-- The log after it is the same or one append longer. -/
theorem Writes.writer {t t' : Topic} (h : Writes t t') :
    t'.writer = t.writer ∨ ∃ msg, t'.writer = t.writer.apply (.append msg) := by
  cases h with
  | nothing => exact .inl rfl
  | @appended msg _ is => exact .inr ⟨msg, is.writer⟩

/-- A control request changes the registry only. -/
theorem Serves.untouched {t t' : Topic} {node : Answers} {now : Nat} {req : ControlRequest}
    (h : Serves t node now req t') : Untouched t t' := by
  cases h with
  | nothing => exact Untouched.refl t
  | proposed _ _ untouched _ => exact untouched

/-- **What an input does to the log**: nothing, one append, or one prune. -/
theorem step_writer (t : Topic) (i : Input) :
    (t.step host i).writer = t.writer ∨
      (∃ msg, (t.step host i).writer = t.writer.apply (.append msg)) ∨
      ∃ node upTo, i = .pruneTo node upTo ∧ node.commitLog = .ok () ∧
        (t.step host i).writer = t.writer.apply (.pruneTo upTo) := by
  cases i with
  | publish node payload now => exact (t.publish_writes node payload now).writer.imp_right .inl
  | publishWith node payload opts now =>
    exact (t.publishWith_writes node payload opts now).writer.imp_right .inl
  | pruneTo node upTo =>
    cases commit : node.commitLog with
    | error e =>
      rw [step, pruneTo, commit]
      exact .inl rfl
    | ok u =>
      rw [step, pruneTo, commit]
      exact .inr (.inr ⟨node, upTo, rfl, commit, rfl⟩)
  | ingest node token payloadHex publisher now =>
    obtain ⟨t', cache, left, writes⟩ :=
      handleIngest_writes host t node token payloadHex publisher now
    rw [step, left]
    exact writes.writer.imp_right .inl
  | control node payloadHex requester now =>
    rcases handleControl_serves host t node payloadHex requester now with same | ⟨_, -, -, serves⟩
    · rw [step, same]
      exact .inl rfl
    · exact .inl serves.untouched.writer
  | requirePublishCap require => exact .inl rfl
  | acceptRoot root =>
    rw [step, acceptRoot]
    cases parseNodeId root with
    | error e => exact .inl rfl
    | ok id =>
      simp only [bind, Except.bind]
      split <;> exact .inl rfl

/-- The log is one a run of operations leads to. -/
def Logged (t : Topic) : Prop := ∃ ops, t.writer = TopicLog.replay ops

/-- Every input writes the log by its own operations. -/
theorem logged_step {t : Topic} (h : t.Logged) (i : Input) : (t.step host i).Logged := by
  obtain ⟨ops, eq⟩ := h
  have applied : ∀ op, t.writer.apply op = TopicLog.replay (ops ++ [op]) := by
    intro op
    rw [eq, TopicLog.replay_concat]
  rcases step_writer host t i with same | ⟨msg, appended⟩ | ⟨node, upTo, -, -, pruned⟩
  · exact ⟨ops, same.trans eq⟩
  · exact ⟨_, appended.trans (applied _)⟩
  · exact ⟨_, pruned.trans (applied _)⟩

/-- Only an ingest request touches the de-duplication cache. -/
theorem step_dedup (t : Topic) {i : Input}
    (other : ∀ node token payloadHex publisher now, i ≠ .ingest node token payloadHex publisher now) :
    (t.step host i).dedup = t.dedup := by
  cases i with
  | publish node payload now => exact (t.publish_writes node payload now).dedup
  | publishWith node payload opts now => exact (t.publishWith_writes node payload opts now).dedup
  | pruneTo node upTo =>
    rw [step, pruneTo]
    cases node.commitLog <;> rfl
  | ingest node token payloadHex publisher now => exact absurd rfl (other _ _ _ _ _)
  | control node payloadHex requester now =>
    rcases handleControl_serves host t node payloadHex requester now with same | ⟨_, -, -, serves⟩
    · rw [step, same]
    · exact serves.untouched.dedup
  | requirePublishCap require => rfl
  | acceptRoot root =>
    rw [step, acceptRoot]
    cases parseNodeId root with
    | error e => rfl
    | ok id =>
      simp only [bind, Except.bind]
      split <;> rfl

end Topic

/-! ## A topic to run on

Node `aa` owns the topic `orders`, and node `bb` asks for a subscription to it. -/

namespace Orders

/-- The topic at its creation. -/
def orders : Topic := { nodeId := "aa", topic := "orders" }

theorem created : Topic.create "aa" "orders" = .ok orders := Topic.create_of_valid (by decide) "aa"

/-- The request that creates the subscription. -/
def subscribing : ControlRequest := .createSubscription "jobs" {} none

/-- A pull of the subscription. -/
def pulling (maxMessages : Nat) : ControlRequest := .pull "jobs" maxMessages none

/-- An ack to the subscription. -/
def acking (cursor : Nat) : ControlRequest := .ack "jobs" cursor none

/-- The consumer sends a request. -/
def asks (req : ControlRequest) (now : Nat) : Input := .control {} (Hex.encode req.encode) "bb" now

/-- A request of this size is within the bound the owner puts on it. -/
theorem small {req : ControlRequest} (size : req.toJson.size ≤ maxControlBodyBytes) :
    req.encode.length ≤ maxControlBodyBytes := by
  rwa [ControlRequest.length_encode]

theorem size_subscribing : subscribing.toJson.size ≤ maxControlBodyBytes := by decide +kernel

/-- A request about `jobs` that holds one number. -/
theorem size_numbered {tag field : String} {n : Nat}
    (names : Json.quotedSize tag + Json.quotedSize field ≤ 100) (within : n ≤ u64Max) :
    (Json.obj [(tag, .obj [("name", .str "jobs"), (field, .num n), grantField none])]).size ≤
      maxControlBodyBytes := by
  have digits : (Json.num n).size ≤ 80 :=
    Json.size_num_le (k := 20) (by decide) (Nat.lt_of_le_of_lt within (by decide))
  have name : Json.fieldSize ("name", .str "jobs") = 13 := by decide
  have grant : Json.fieldSize (grantField none) = 12 := by decide
  have bound : 1000 ≤ maxControlBodyBytes := by decide
  simp only [Json.fieldSize] at name grant
  simp only [Json.size_obj, Json.fieldSize, List.map_cons, List.map_nil, List.sum_cons, List.sum_nil,
    List.length_cons, List.length_nil]
  omega

/-- A pull is within the limit, whatever it asks for. -/
theorem size_pulling {maxMessages : Nat} (within : maxMessages ≤ u64Max) :
    (pulling maxMessages).toJson.size ≤ maxControlBodyBytes := size_numbered (by decide) within

/-- So is an ack of any cursor. -/
theorem size_acking {cursor : Nat} (within : cursor ≤ u64Max) :
    (acking cursor).toJson.size ≤ maxControlBodyBytes := size_numbered (by decide) within

/-- The owner reads the request. -/
theorem decode_asks {req : ControlRequest} (size : req.toJson.size ≤ maxControlBodyBytes) :
    Topic.decodeControl Host.compact (Hex.encode req.encode) = .ok req :=
  Topic.decodeControl_encode (small size) (Host.compact_reads req)

/-- It serves the request, while anybody may ask. -/
theorem step_asks {t : Topic} {req : ControlRequest} (size : req.toJson.size ≤ maxControlBodyBytes)
    (ungated : t.requireCap = false) (now : Nat) :
    t.step Host.compact (asks req now) = (t.serveControl {} now req).2 :=
  Topic.step_control_encode (small size) (Host.compact_reads req) ungated

/-- The topic with its subscription, and with its first message. -/
def subscribed : Topic := (orders.serveControl {} 10 subscribing).2

/-- The topic with one message under the subscription. -/
def published : Topic := (subscribed.publish {} [104, 105] 11).2

theorem step_subscribing : orders.step Host.compact (asks subscribing 10) = subscribed :=
  step_asks size_subscribing rfl 10

theorem step_publishing : subscribed.step Host.compact (.publish {} [104, 105] 11) = published := by
  rw [Topic.step, published]

end Orders

end CePubsub
