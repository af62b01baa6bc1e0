import CePubsub.Laws.Admission
import CePubsub.Laws.Gated
import CePubsub.Laws.Leasing
import CePubsub.Laws.Replayed
import CePubsub.Traffic

/-!
# What a request comes to

A publish, an ingest request and a pull, each by what it changes of the topic and replies, in terms that
do not mention the steps it takes: `Publishes` for an append, `step_of_missed` for a request the cache does
not know, `carryOut` for a lease once it is planned. What the gate says depends on little of the topic
(`SameGate`), and what a plan comes to does not change while the log grows (`carryOut_grows`).
-/

namespace CePubsub

variable {Link : Type} {host : Host Link}

/-- What a publish of the program's is checked for, and the message it makes. -/
def Input.offer (nodeId : String) : Input → Option (Except String Unit × Message)
  | .publish _ payload now =>
    some (validatePayload payload, (Message.new 0 nodeId payload now).authenticated true)
  | .publishWith _ payload opts now =>
    some (do validatePayload payload; opts.validate,
      { (Message.new 0 nodeId payload now).authenticated true with
        orderingKey := opts.orderingKey
        attributes := opts.attributes })
  | _ => none

namespace Topic

/-- Two topics with the same gate. -/
structure SameGate (t t' : Topic) : Prop where
  nodeId : t'.nodeId = t.nodeId
  topic : t'.topic = t.topic
  acceptedRoots : t'.acceptedRoots = t.acceptedRoots
  requireCap : t'.requireCap = t.requireCap

theorem SameGate.refl (t : Topic) : SameGate t t := ⟨rfl, rfl, rfl, rfl⟩

theorem SameGate.trans {t u v : Topic} (h : SameGate t u) (k : SameGate u v) : SameGate t v :=
  ⟨k.nodeId.trans h.nodeId, k.topic.trans h.topic, k.acceptedRoots.trans h.acceptedRoots,
    k.requireCap.trans h.requireCap⟩

theorem SameGate.symm {t u : Topic} (h : SameGate t u) : SameGate u t :=
  ⟨h.nodeId.symm, h.topic.symm, h.acceptedRoots.symm, h.requireCap.symm⟩

/-- The cache has no part in it, -/
theorem SameGate.withDedup {t u : Topic} (h : SameGate t u) (dedup : IdempotencyCache) :
    SameGate t { u with dedup } := ⟨h.nodeId, h.topic, h.acceptedRoots, h.requireCap⟩

/-- nor have the registry and the streams. -/
theorem Untouched.sameGate {t u : Topic} (h : Untouched t u) : SameGate t u :=
  ⟨h.nodeId, h.topic, h.acceptedRoots, h.requireCap⟩

/-- The gate looks at nothing else. -/
theorem SameGate.gate {t t' : Topic} (same : SameGate t t') (node : Answers) (requester ability : String)
    (grant : Option String) (now : Nat) :
    t'.gate host node requester ability grant now = t.gate host node requester ability grant now :=
  have alike : ({ t' with writer := t.writer } : Topic).Alike t :=
    ⟨same.nodeId, same.topic, same.acceptedRoots, same.requireCap, rfl⟩
  gate_alike alike rfl requester ability grant now

variable (host) in
/-- **What a grant is checked for**, in turn. -/
theorem gate_of_grant {t : Topic} (gated : t.requireCap = true) (node : Answers)
    (requester ability token : String) (now : Nat) :
    t.gate host node requester ability (some token) now =
      match parseNodeId requester, parseNodeId t.nodeId, fetchRevoked node with
      | .error e, _, _ => .error s!"bad publisher node id: {e}"
      | .ok _, .error e, _ => .error s!"bad owner node id: {e}"
      | .ok _, .ok _, .error e => .error s!"cannot verify revocation (fail-closed): {e}"
      | .ok requester, .ok selfId, .ok revoked =>
        verifyLink host.iam selfId t.acceptedRoots [] now requester ability t.topic token
          fun issuer nonce => revoked.any fun (i, n) => decide (i = issuer ∧ n = nonce) := by
  rw [gate, if_pos gated]
  simp only [authorize, bind, Except.bind, Except.mapError]
  cases parseNodeId requester with
  | error e => rfl
  | ok requester =>
    cases parseNodeId t.nodeId with
    | error e => rfl
    | ok selfId => cases fetchRevoked node <;> rfl

/-- Without a grant a gated topic turns everybody away. -/
theorem gate_of_none {t : Topic} (gated : t.requireCap = true) (node : Answers)
    (requester ability : String) (now : Nat) :
    t.gate host node requester ability none now =
      .error s!"topic requires a {ability} capability but none was presented" := by
  rw [gate, if_pos gated]

/-- What has gone out on the topic's live stream. -/
def liveMessages (t : Topic) : List Message := t.streams.getD (streamName t.topic t.nodeId) []

/-! ## Publishing -/

/-- A message is appended under the next cursor, and broadcast if the stream is up. -/
structure Publishes (node : Answers) (msg : Message) (t t' : Topic) : Prop where
  gate : SameGate t t'
  writer : t'.writer = t.writer.apply (.append msg)
  subs : t'.subs = t.subs
  dedup : t'.dedup = t.dedup
  live : t'.liveMessages =
    t.liveMessages ++ if node.live then [{ msg with cursor := t.writer.nextCursor }] else []
  dead : t'.deadLetters = t.deadLetters

/-- A broadcast on the live stream adds its message there, -/
theorem liveMessages_broadcast (t : Topic) (msg : Message) :
    (t.broadcast (streamName t.topic t.nodeId) msg).liveMessages = t.liveMessages ++ [msg] := by
  have heard := t.streams_broadcasts (streamName t.topic t.nodeId) (streamName t.topic t.nodeId) [msg]
  rw [if_pos rfl] at heard
  exact heard

/-- and not to the dead letters. -/
theorem deadLetters_broadcast (t : Topic) (msg : Message) :
    (t.broadcast (streamName t.topic t.nodeId) msg).deadLetters = t.deadLetters := by
  have heard := t.streams_broadcasts (streamName t.topic t.nodeId)
    (streamName (deadLetterTopic t.topic) t.nodeId) [msg]
  rw [if_neg (Broker.Represents.streams_differ _ _).symm, List.append_nil] at heard
  exact heard

/-- An append that commits. -/
theorem publishes_appendAndFanout (t : Topic) {node : Answers} (msg : Message)
    (commits : node.commitLog = .ok ()) :
    (t.appendAndFanout node msg).1 = .ok t.writer.nextCursor ∧
      Publishes node msg t (t.appendAndFanout node msg).2 := by
  rw [appendAndFanout, commits]
  refine ⟨rfl, ?_⟩
  cases up : node.live with
  | false =>
    refine ⟨⟨rfl, rfl, rfl, rfl⟩, rfl, rfl, rfl, ?_, rfl⟩
    rw [up]
    exact (List.append_nil _).symm
  | true =>
    refine ⟨⟨rfl, rfl, rfl, rfl⟩, rfl, rfl, rfl, ?_, ?_⟩
    · rw [up]
      exact liveMessages_broadcast { t with writer := _ } _
    · exact deadLetters_broadcast { t with writer := _ } _

/-- An append that does not. -/
theorem appendAndFanout_failed (t : Topic) {node : Answers} {e : String} (msg : Message)
    (fails : node.commitLog = .error e) :
    t.appendAndFanout node msg = (.error s!"durable append: {e}", t) := by
  rw [appendAndFanout, fails]

variable (host) in
/-- **What the program publishes**, if it passes its checks, is appended. -/
theorem step_of_offer {t : Topic} {i : Input} {msg : Message}
    (offers : i.offer t.nodeId = some (.ok (), msg)) :
    t.step host i = (t.appendAndFanout i.node msg).2 ∧
      t.reply host i = .published (t.appendAndFanout i.node msg).1 := by
  cases i with
  | publish node payload now =>
    obtain ⟨valid, rfl⟩ := Prod.mk.inj (Option.some.inj offers)
    rw [step, reply, publish, valid]
    exact ⟨rfl, rfl⟩
  | publishWith node payload opts now =>
    obtain ⟨valid, rfl⟩ := Prod.mk.inj (Option.some.inj offers)
    simp only [bind, Except.bind] at valid
    rw [step, reply, publishWith]
    cases sized : validatePayload payload with
    | error e =>
      rw [sized] at valid
      cases valid
    | ok u =>
      rw [sized] at valid
      simp only at valid
      rw [valid]
      exact ⟨rfl, rfl⟩
  | pruneTo | ingest | control | requirePublishCap | acceptRoot => cases offers

variable (host) in
/-- And if it does not, nothing. -/
theorem step_of_refused {t : Topic} {i : Input} {msg : Message} {e : String}
    (offers : i.offer t.nodeId = some (.error e, msg)) :
    t.step host i = t ∧ t.reply host i = .published (.error e) := by
  cases i with
  | publish node payload now =>
    obtain ⟨invalid, -⟩ := Prod.mk.inj (Option.some.inj offers)
    rw [step, reply, publish, invalid]
    exact ⟨rfl, rfl⟩
  | publishWith node payload opts now =>
    obtain ⟨invalid, -⟩ := Prod.mk.inj (Option.some.inj offers)
    simp only [bind, Except.bind] at invalid
    rw [step, reply, publishWith]
    cases sized : validatePayload payload with
    | error e =>
      rw [sized] at invalid
      cases invalid
      exact ⟨rfl, rfl⟩
    | ok u =>
      rw [sized] at invalid
      simp only at invalid
      rw [invalid]
      exact ⟨rfl, rfl⟩
  | pruneTo | ingest | control | requirePublishCap | acceptRoot => cases offers

variable (host) in
/-- The call of a publish that passes its checks, -/
theorem call_of_offer {t : Topic} {i : Input} {msg : Message}
    (offers : i.offer t.nodeId = some (.ok (), msg)) : t.call host i = some (.publish i.node msg) := by
  cases i with
  | publish node payload now =>
    obtain ⟨valid, rfl⟩ := Prod.mk.inj (Option.some.inj offers)
    rw [call, valid]
    rfl
  | publishWith node payload opts now =>
    obtain ⟨valid, rfl⟩ := Prod.mk.inj (Option.some.inj offers)
    simp only [bind, Except.bind] at valid
    rw [call]
    cases sized : validatePayload payload with
    | error e =>
      rw [sized] at valid
      cases valid
    | ok u =>
      rw [sized] at valid
      simp only at valid
      rw [valid]
      rfl
  | pruneTo | ingest | control | requirePublishCap | acceptRoot => cases offers

variable (host) in
/-- and of one that does not: none. -/
theorem call_of_refused {t : Topic} {i : Input} {msg : Message} {e : String}
    (offers : i.offer t.nodeId = some (.error e, msg)) : t.call host i = none := by
  cases i with
  | publish node payload now =>
    obtain ⟨invalid, -⟩ := Prod.mk.inj (Option.some.inj offers)
    rw [call, invalid]
  | publishWith node payload opts now =>
    obtain ⟨invalid, -⟩ := Prod.mk.inj (Option.some.inj offers)
    simp only [bind, Except.bind] at invalid
    rw [call]
    cases sized : validatePayload payload with
    | error e => rfl
    | ok u =>
      rw [sized] at invalid
      simp only at invalid
      rw [invalid]
  | pruneTo | ingest | control | requirePublishCap | acceptRoot => cases offers

/-! ## Ingest requests -/

/-- What an ingest call keeps of its request. -/
structure Decodes (host : Host Link) (i : Input) (token : Nat) (c : IngestCall) : Prop where
  input : ∃ node payloadHex, i = .ingest node token payloadHex c.publisher c.now ∧
    IngestRequest.decodeHex host.serde payloadHex = .ok c.req
  key : c.key = dedupKey c.req token

/-- **A request the cache does not know** is applied, and its outcome recorded. -/
theorem step_of_missed {t : Topic} {i : Input} {token : Nat} {c : IngestCall} {cache : IdempotencyCache}
    (decodes : Decodes host i token c) (missed : t.dedup.get c.key c.now = (none, cache)) :
    let result := { t with dedup := cache }.applyIngest host i.node c.req c.publisher c.now
    t.reply host i = .ingested (Serving.replyOf result.1) ∧
      t.step host i = { result.2 with dedup := result.2.dedup.insert c.key (seenOf result.1) c.now } := by
  obtain ⟨node, payloadHex, rfl, decoded⟩ := decodes.input
  rw [decodes.key] at missed
  rw [reply, step, handleIngest_of_decoded decoded, serveIngest, missed, decodes.key]
  simp only [Input.node]
  generalize applyIngest host { t with dedup := cache } node c.req c.publisher c.now = result
  obtain ⟨outcome, t'⟩ := result
  cases outcome <;> exact ⟨rfl, rfl⟩

section Applied

variable {u : Topic} {node : Answers} {c : IngestCall} {msg : Message} {why e : String}

/-- A request that is not admitted. -/
theorem applyIngest_of_gate
    (refused : u.gate host node c.publisher abilityPublish c.req.grant c.now = .error why) :
    u.applyIngest host node c.req c.publisher c.now = (.error why, u) := by
  rw [Serving.applyIngest_eq, refused]

/-- One that does not pass its checks. -/
theorem applyIngest_of_check
    (admits : u.gate host node c.publisher abilityPublish c.req.grant c.now = .ok ())
    (bad : ingestMessage host c.req c.publisher u.requireCap c.now = .error why) :
    u.applyIngest host node c.req c.publisher c.now = (.error why, u) := by
  rw [Serving.applyIngest_eq, admits]
  simp only [Serving.admitted, bad]

/-- One whose message does not commit. -/
theorem applyIngest_of_failed
    (admits : u.gate host node c.publisher abilityPublish c.req.grant c.now = .ok ())
    (made : ingestMessage host c.req c.publisher u.requireCap c.now = .ok msg)
    (fails : node.commitLog = .error e) :
    u.applyIngest host node c.req c.publisher c.now =
      ((.error s!"durable append: {e}" : Except String Nat).mapError fun e => s!"append failed: {e}", u) := by
  rw [Serving.applyIngest_eq, admits]
  simp only [Serving.admitted, made, appendAndFanout_failed u msg fails]

/-- One whose message does. -/
theorem applyIngest_of_commit
    (admits : u.gate host node c.publisher abilityPublish c.req.grant c.now = .ok ())
    (made : ingestMessage host c.req c.publisher u.requireCap c.now = .ok msg)
    (commits : node.commitLog = .ok ()) :
    u.applyIngest host node c.req c.publisher c.now =
      (.ok u.writer.nextCursor, (u.appendAndFanout node msg).2) := by
  rw [Serving.applyIngest_eq, admits]
  simp only [Serving.admitted, made, (publishes_appendAndFanout u msg commits).1, Except.mapError]

end Applied

/-- What a request the cache does not know commits to the log. -/
theorem commits_of_missed {t : Topic} {i : Input} {token : Nat} {c : IngestCall} {cache : IdempotencyCache}
    (decodes : Decodes host i token c) (missed : t.dedup.get c.key c.now = (none, cache)) :
    (t.call host i).bind t.commits =
      match t.gate host i.node c.publisher abilityPublish c.req.grant c.now with
      | .error _ => none
      | .ok () =>
        match ingestMessage host c.req c.publisher t.requireCap c.now with
        | .error _ => none
        | .ok msg => t.commits (.publish i.node msg) := by
  obtain ⟨node, payloadHex, rfl, decoded⟩ := decodes.input
  rw [decodes.key] at missed
  simp only [call, decoded, missed, Input.node]
  cases t.gate host node c.publisher abilityPublish c.req.grant c.now with
  | error why => rfl
  | ok u =>
    simp only
    cases ingestMessage host c.req c.publisher t.requireCap c.now <;> rfl

/-- A request that is rejected, and not from the cache, commits nothing. -/
theorem commits_of_rejected {t : Topic} {i : Input} {token : Nat} {c : IngestCall}
    {cache : IdempotencyCache} {why : String} (decodes : Decodes host i token c)
    (missed : t.dedup.get c.key c.now = (none, cache))
    (rejected : ({ t with dedup := cache }.applyIngest host i.node c.req c.publisher c.now).1 =
      .error why) :
    (t.call host i).bind t.commits = none := by
  rw [commits_of_missed decodes missed]
  rw [Serving.applyIngest_eq] at rejected
  have admits : ({ t with dedup := cache } : Topic).gate host i.node c.publisher abilityPublish c.req.grant
      c.now = t.gate host i.node c.publisher abilityPublish c.req.grant c.now := rfl
  rw [admits] at rejected
  cases gate : t.gate host i.node c.publisher abilityPublish c.req.grant c.now with
  | error why => rfl
  | ok u =>
    rw [gate] at rejected
    simp only [Serving.admitted] at rejected ⊢
    cases checked : ingestMessage host c.req c.publisher t.requireCap c.now with
    | error why => rfl
    | ok msg =>
      rw [checked] at rejected
      simp only [commits] at rejected ⊢
      cases commits : i.node.commitLog with
      | error e => rfl
      | ok u =>
        rw [(publishes_appendAndFanout _ msg commits).1] at rejected
        cases rejected

/-! ## Leases -/

/-- What carrying out a plan comes to, with the log as it is: the reply, the registry, the letters. -/
structure LeaseEffect where
  reply : ControlReply
  subs : SubRegistry
  letters : List Message

/-- Without a plan there is nothing to hand out. A plan that commits changes the registry, and sends
its dead letters. -/
def carryOut (t : Topic) (node : Answers) : Option (SubOp × LeaseOutcome) → LeaseEffect
  | none => ⟨.pulled [], t.subs, []⟩
  | some (op, out) =>
    match node.commitSubs with
    | .error e => ⟨.rejected s!"lease failed: {e}", t.subs, []⟩
    | .ok () => ⟨.pulled (t.resolve out.leased), t.subs.apply op, t.routed node out.deadLettered⟩

/-- One input's effect on what a control request may change. -/
structure CarriesOut (effect : LeaseEffect) (t t' : Topic) : Prop where
  untouched : Untouched t t'
  subs : t'.subs = effect.subs
  live : t'.liveMessages = t.liveMessages
  dead : t'.deadLetters = t.deadLetters ++ effect.letters

/-- Dead letters go out on the stream of their topic. -/
theorem streams_route (t : Topic) (node : Answers) (cursors : List Nat) :
    (t.routeDeadLetters node cursors).liveMessages = t.liveMessages ∧
      (t.routeDeadLetters node cursors).deadLetters = t.deadLetters ++ t.routed node cursors := by
  obtain ⟨untouched, -⟩ := t.routeDeadLetters_frame node cursors
  rw [liveMessages, deadLetters, untouched.topic, untouched.nodeId, streams_routeDeadLetters,
    streams_routeDeadLetters, if_neg (Broker.Represents.streams_differ _ _), if_pos rfl]
  exact ⟨List.append_nil _, rfl⟩

/-- No cursors are no letters. -/
theorem routed_nil (t : Topic) (node : Answers) : t.routed node [] = [] := by
  rw [routed]
  split <;> rfl

/-- The topic a lease leaves that dead-letters these cursors, if any. -/
theorem routes_letters (t : Topic) (node : Answers) (cursors : List Nat) :
    let u := if cursors.isEmpty then t else t.routeDeadLetters node cursors
    Untouched t u ∧ u.subs = t.subs ∧ u.liveMessages = t.liveMessages ∧
      u.deadLetters = t.deadLetters ++ t.routed node cursors := by
  simp only
  split
  · next none =>
    rw [List.isEmpty_iff.mp none, routed_nil, List.append_nil]
    exact ⟨.refl t, rfl, rfl, rfl⟩
  · obtain ⟨untouched, subs⟩ := t.routeDeadLetters_frame node cursors
    obtain ⟨live, dead⟩ := t.streams_route node cursors
    exact ⟨untouched, subs, live, dead⟩

/-- **A pull carries its plan out.** -/
theorem handleLease_carriesOut {t : Topic} {name : String} (there : (t.subs.get name).isNone = false)
    (node : Answers) (maxMessages now : Nat) :
    let effect := t.carryOut node
      (t.subs.planLease name t.writer.highCursor t.writer.floor now maxMessages)
    (t.handleLease node name maxMessages now).1 = effect.reply ∧
      CarriesOut effect t (t.handleLease node name maxMessages now).2 := by
  have idle : ∀ reply, CarriesOut ⟨reply, t.subs, []⟩ t t :=
    fun _ => ⟨.refl t, rfl, rfl, (List.append_nil _).symm⟩
  rw [handleLease, if_neg (by rw [there]; exact Bool.false_ne_true)]
  cases t.subs.planLease name t.writer.highCursor t.writer.floor now maxMessages with
  | none => exact ⟨rfl, idle _⟩
  | some planned =>
    obtain ⟨op, out⟩ := planned
    simp only [carryOut]
    cases node.commitSubs with
    | error e => exact ⟨rfl, idle _⟩
    | ok u =>
      have applied : Untouched t { t with subs := t.subs.apply op } := ⟨rfl, rfl, rfl, rfl, rfl, rfl⟩
      obtain ⟨untouched, subs, live, dead⟩ :=
        routes_letters { t with subs := t.subs.apply op } node out.deadLettered
      refine ⟨?_, applied.trans untouched, subs, live, dead⟩
      simp only
      rw [resolve, resolve, untouched.writer]

end Topic

/-- A log the owner appended to. -/
structure TopicLog.Grows (s s' : TopicLog) : Prop where
  high : s.highCursor ≤ s'.highCursor
  get : ∀ c, c ≤ s.highCursor → s'.get c = s.get c

theorem TopicLog.Grows.refl (s : TopicLog) : Grows s s := ⟨Nat.le_refl _, fun _ _ => rfl⟩

/-- An append leaves every cursor below it. -/
theorem TopicLog.grows_append (s : TopicLog) (m : Message) : Grows s (s.apply (.append m)) where
  high := Topic.highCursor_apply_le s (.append m)
  get c le := by
    have longer : (s.apply (.append m)).highCursor = s.highCursor + 1 := by
      simp only [highCursor, apply, List.length_append, List.length_singleton]
      omega
    have inside : s.highCursor = s.floor + s.messages.length := rfl
    rw [TopicLog.get, TopicLog.get, longer, show (s.apply (.append m)).floor = s.floor from rfl]
    by_cases low : c ≤ s.floor
    · rw [if_pos (.inl low), if_pos (.inl low)]
    · rw [if_neg (by omega), if_neg (by omega)]
      exact List.getElem?_append_left (by omega)

/-- An outcome of a log with this high cursor. -/
def LeaseOutcome.Within (high : Nat) (out : LeaseOutcome) : Prop :=
  (∀ x ∈ out.leased, x.1 ≤ high) ∧ ∀ c ∈ out.deadLettered, c ≤ high

/-- A plan names no cursor past the high one. -/
theorem SubRegistry.within_of_planLease {r : SubRegistry} {name : String} {high floor now maxMessages : Nat}
    {op : SubOp} {out : LeaseOutcome}
    (plan : r.planLease name high floor now maxMessages = some (op, out)) : out.Within high := by
  obtain ⟨s, leased, dead, newAcked, -, -, planned⟩ := planned_of_planLease plan
  exact ⟨fun x mem => (planned.of_leased x mem).2.1, fun c mem => (planned.of_dead c mem).2.1⟩

namespace Topic

variable {t t' : Topic} {out : LeaseOutcome}

/-- What was leased is resolved alike, -/
theorem resolve_grows (grows : t.writer.Grows t'.writer) (within : out.Within t.writer.highCursor) :
    t'.resolve out.leased = t.resolve out.leased := by
  refine List.filterMap_congr ?_
  rintro ⟨c, attempt⟩ mem
  simp only [grows.get c (within.1 _ mem)]

/-- and what was buried is sent alike. -/
theorem routed_grows (grows : t.writer.Grows t'.writer) (within : out.Within t.writer.highCursor)
    (node : Answers) : t'.routed node out.deadLettered = t.routed node out.deadLettered := by
  rw [routed, routed, List.filterMap_congr fun c mem => grows.get c (within.2 c mem)]

/-- What a plan comes to does not change while the log grows. -/
theorem carryOut_grows (subs : t'.subs = t.subs) (grows : t.writer.Grows t'.writer) (node : Answers)
    {plan : Option (SubOp × LeaseOutcome)}
    (within : ∀ op out, plan = some (op, out) → out.Within t.writer.highCursor) :
    t'.carryOut node plan = t.carryOut node plan := by
  cases plan with
  | none => rw [carryOut, carryOut, subs]
  | some planned =>
    obtain ⟨op, out⟩ := planned
    have within := within op out rfl
    rw [carryOut, carryOut, subs, resolve_grows grows within, routed_grows grows within]

end Topic

end CePubsub
