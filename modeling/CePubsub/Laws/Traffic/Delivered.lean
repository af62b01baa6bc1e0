import CePubsub.Laws.Live
import CePubsub.Laws.Traffic.Linear

/-!
# What is published is what is delivered, and what is replayed

A publish returns while others are under way. Where the run was not disturbed, the cursor it returns names
its message for everybody from then on: in the log, in a lease at any node, on the streams, and in what
another node pulls afterwards.
-/

namespace CePubsub

variable {Link : Type} {host : Host Link}

/-- A node's requests between two states of the traffic: what one brings back was given as the reply to
it, and it was sent after the first. -/
def Traffic.Carries (s s' : Traffic) (sender : String) (request : String → Bytes → Except String Bytes) :
    Prop :=
  ∀ dest body bytes, request dest body = .ok bytes → ∃ token i reply,
    .served token i reply ∈ s'.past ∧ reply.wire = some bytes ∧
    (sents s.past).length ≤ token ∧ (sents s'.past)[token]? = some { topic := dest, sender, body }

namespace Traffic

variable {t : Topic} {s s' : Traffic} {m m' : Mesh} {unheard unheard' : List Message}
  {due due' : Option MeshEvent}

/-- What has happened is in the mesh that shows it. -/
theorem Shows.subset (h : Shows host t s m unheard due) : s.past ⊆ m.past := fun _ mem =>
  h.past.subset (List.mem_append_left _ mem)

/-- What a node is brought, it is brought of the meshes. -/
theorem Carries.shown {sender : String} {request : String → Bytes → Except String Bytes}
    (carries : Carries s s' sender request) (h : Shows host t s m unheard due)
    (h' : Shows host t s' m' unheard' due') : Mesh.Carries m m' sender request := by
  intro dest body bytes returned
  obtain ⟨token, i, reply, mem, wire, new, sent⟩ := carries dest body bytes returned
  obtain ⟨past, later, split⟩ := List.append_of_mem (h'.subset mem)
  rw [← h.sents] at new
  rw [← h'.sents] at sent
  exact ⟨past, token, i, reply, later, split, wire, new, sent⟩

/-- What has gone out of the two streams has gone out of the mesh's. -/
theorem Shows.heard (h : Shows host t s m unheard due) {nodeId topic : String}
    (new : Topic.create nodeId topic = .ok t) {stream : String}
    (mem : stream ∈ [streamName topic nodeId, streamName (deadLetterTopic topic) nodeId]) :
    s.topic.streams.getD stream [] ⊆ m.inner.topic.streams.getD stream [] := by
  have made := Topic.eq_of_create new
  have topic_eq : s.topic.topic = topic := by rw [h.named, made]
  have nodeId_eq : s.topic.nodeId = nodeId := by
    rw [← h.gate.nodeId, h.sequential.topic, (t.run_named host _).2, made]
  have live := h.live
  have dead := h.dead
  rw [Topic.liveMessages, Topic.liveMessages, h.gate.topic, h.gate.nodeId, topic_eq, nodeId_eq] at live
  rw [Topic.deadLetters, Topic.deadLetters, h.gate.topic, h.gate.nodeId, topic_eq, nodeId_eq] at dead
  rcases List.mem_cons.mp mem with rfl | other
  · rw [live]
    exact List.subset_append_left _ _
  · obtain rfl := List.mem_singleton.mp other
    rw [dead]
    exact List.subset_append_left _ _

end Traffic

/-- **What is published is what is delivered.** In an undisturbed run, where a publish has returned a cursor,
under a key that is its own, whatever turns up under that cursor, in the log, in a lease at any
node, or with a subscriber, live or as a dead letter, is one message: the one that was published. -/
theorem published_everywhere {nodeId topic sender : String} {t : Topic}
    (new : Topic.create nodeId topic = .ok t) (acts : List TrafficAct)
    (undisturbed : Run.Along (Traffic.step host) Traffic.Undisturbed { serving := { topic := t } } acts)
    {request : String → Bytes → Except String Bytes} {serde : Serde} {payload : Bytes}
    {grant idempotencyKey : Option String} {opts : PublishOptions} {c : Nat}
    (ownerReads : ∀ req : IngestRequest, host.serde.ingestRequest req.encode = .ok req)
    (ownerReadsControl : ∀ req : ControlRequest, host.serde.controlRequest req.encode = .ok req)
    (reads : ∀ reply : IngestReply, serde.ingestReply reply.encode = .ok reply)
    (carried : Traffic.Carries { serving := { topic := t } }
      (Run.run (Traffic.step host) { serving := { topic := t } } acts) sender request)
    (published : PubSub.publishToWith serde (request (ingestTopic topic)) topic payload grant opts
      idempotencyKey = .ok c)
    (own : OwnKey host (sents (Run.run (Traffic.step host) { serving := { topic := t } } acts).past) topic
      sender ⟨Hex.encode payload, grant, idempotencyKey, opts.orderingKey, opts.attributes⟩) :
    ∃ msg : Message, msg.cursor = c ∧ msg.publisher = sender ∧ msg.data = .ok payload ∧
      msg.orderingKey = opts.orderingKey ∧ msg.attributes = opts.attributes ∧
      (∀ found, (Run.run (Traffic.step host) { serving := { topic := t } } acts).topic.writer.get c =
        some found → found = msg) ∧
      (∀ leaser ch name maxMessages leaseGrant msgs,
        (∀ reply : ControlReply, ch.serde.controlReply reply.encode = .ok reply) →
        Traffic.Carries { serving := { topic := t } }
          (Run.run (Traffic.step host) { serving := { topic := t } } acts) leaser ch.request →
        PubSub.lease ch topic name maxMessages leaseGrant = .ok msgs →
        ∀ l ∈ msgs, l.message.cursor = c → l.message = msg) ∧
      ∀ sub : Subscription,
        sub.stream ∈ [streamName topic nodeId, streamName (deadLetterTopic topic) nodeId] →
        ∀ coming heard rest,
          coming ⊆ (Run.run (Traffic.step host) { serving := { topic := t } } acts).topic.streams.getD
            sub.stream [] →
          sub.recv coming = some (heard, rest) → heard.cursor = c → heard = msg := by
  obtain ⟨m, ⟨unheard, due, shows⟩, -⟩ :=
    Traffic.shows_run { topic := t, strongCount := 1, held := 1 } undisturbed
  have first : Traffic.Shows host t _ _ _ _ := Traffic.shows_new { topic := t, strongCount := 1, held := 1 }
  generalize Run.run (Traffic.step host) { serving := { topic := t } } acts = s at *
  have brought := carried.shown first shows
  have grown : Mesh.past { inner := { topic := t, strongCount := 1, held := 1 } } <+: m.past :=
    List.nil_prefix
  rw [← shows.sents] at own
  obtain ⟨msg, rfl, publisher, data, orderingKey, attributes, journaled⟩ :=
    brought.published new shows.sequential ownerReads reads grown published own
  obtain ⟨found, leased, heard⟩ := shows.sequential.everywhere new ownerReadsControl grown journaled
  refine ⟨msg, rfl, publisher, data, orderingKey, attributes, ?_, ?_, ?_⟩
  · rw [← shows.writer]
    exact found
  · intro leaser ch name maxMessages leaseGrant msgs leaseReads leaseCarried
    exact leased leaser ch name maxMessages leaseGrant msgs leaseReads (leaseCarried.shown first shows)
  · intro sub mem coming m rest broadcast received
    obtain ⟨skipped, rfl, -, -⟩ := Subscription.recv_eq_some_iff.mp received
    exact heard sub.stream mem m
      (shows.heard new mem (broadcast (List.mem_append_right _ List.mem_cons_self)))

namespace Greeting

/-- The greeting node's way to the owner. -/
def request : String → Bytes → Except String Bytes := Mesh.bringing asked (IngestReply.accepted 2).encode

/-- It brings back the reply the greeting was given. -/
theorem carries : Traffic.Carries quiet (Run.run (Traffic.step Host.compact) quiet crowd) "cc" request := by
  intro dest body bytes returned
  rw [request, Mesh.bringing] at returned
  split at returned
  · next is =>
    obtain ⟨rfl, rfl⟩ := is
    cases returned
    rw [past_crowd]
    exact ⟨0, brought 7, _, List.mem_of_getElem? (i := 2) rfl, rfl, Nat.le_refl _, rfl⟩
  · cases returned

/-- The call returns the cursor in it. -/
theorem published : PubSub.publishToWith .compact (request (ingestTopic "orders")) "orders" [104, 105]
    none {} none = .ok 2 := by
  have sends : PubSub.publishRequest "orders" [104, 105] none {} none = .ok greeting := by
    simp only [PubSub.publishRequest, valid, show validatePayload [104, 105] = .ok () by decide,
      show PublishOptions.validate {} = .ok () by decide, bind, Except.bind]
    rfl
  have brought : request (ingestTopic "orders") greeting.encode = .ok (IngestReply.accepted 2).encode := by
    rw [request, Mesh.bringing]
    exact if_pos ⟨rfl, rfl⟩
  simp only [PubSub.publishToWith, sends, brought, bind, Except.bind, Except.mapError, IngestReply.decode,
    IngestReply.read_encode]

/-- Nobody else publishes under its key. -/
theorem own : OwnKey Host.compact (sents (Run.run (Traffic.step Host.compact) quiet crowd).past) "orders" "cc"
    ⟨Hex.encode [104, 105], none, none, none, ∅⟩ := by
  intro token token' r req' _ there _ read _
  have one : sents (Run.run (Traffic.step Host.compact) quiet crowd).past = [asked] := by
    rw [past_crowd]
    rfl
  rw [one, List.getElem?_singleton] at there
  split at there
  · cases there
    rw [IngestRequest.eq_of_decodeHex (Host.compact_reads_ingest greeting) read]
    exact ⟨rfl, rfl, rfl, rfl⟩
  · cases there

end Greeting

open Greeting in
/-- The greeting's node was told the second cursor; the owner's own publish, made meanwhile, has the first. -/
theorem published_everywhere_crowd :
    ∃ first second, (Run.run (Traffic.step Host.compact) quiet crowd).topic.writer.get 1 = some first ∧
      first.publisher = "aa" ∧
      (Run.run (Traffic.step Host.compact) quiet crowd).topic.writer.get 2 = some second ∧
      second.publisher = "cc" ∧ second.data = .ok [104, 105] := by
  obtain ⟨msg, -, publisher, data, -, -, found, -⟩ := published_everywhere (topic_of_createTopic new) crowd
    undisturbed_crowd Host.compact_reads_ingest Host.compact_reads IngestReply.read_encode carries
      published own
  have writer : (Run.run (Traffic.step Host.compact) quiet crowd).topic.writer = answered.topic.writer := by
    rw [run_crowd]
    rfl
  rw [show ({ serving := { topic := post.topic } } : Traffic) = quiet from rfl, writer] at found
  obtain ⟨second, there⟩ := Option.isSome_iff_exists.mp
    (show (answered.topic.writer.get 2).isSome = true from rfl)
  obtain rfl := found second there
  rw [writer]
  exact ⟨_, second, rfl, rfl, there, publisher, data⟩

/-- **What is published is what is replayed.** In an undisturbed run, where a publish has returned a cursor,
under a key that is its own, every other node that pulls the topic afterwards finds the message it
published under that cursor, and nothing else: if the pull converged and did not start past the cursor,
the message is in the page, or the page was cut short of it, or it was pruned. -/
theorem published_pulled {nodeId topic publisher puller : String} {t : Topic}
    (new : Topic.create nodeId topic = .ok t) (other : nodeId ≠ puller)
    (before during : List TrafficAct)
    (undisturbed : Run.Along (Traffic.step host) Traffic.Undisturbed { serving := { topic := t } }
      (before ++ during))
    {request pullRequest : String → Bytes → Except String Bytes}
    {serde pullSerde : Serde} {payload : Bytes} {grant idempotencyKey : Option String}
    {opts : PublishOptions} {c after limit : Nat} {applied : Shown Nat} {remote : Remote} {r : Replay}
    (ownerReads : ∀ req : IngestRequest, host.serde.ingestRequest req.encode = .ok req)
    (ownerReadsControl : ∀ req : ControlRequest, host.serde.controlRequest req.encode = .ok req)
    (reads : ∀ reply : IngestReply, serde.ingestReply reply.encode = .ok reply)
    (pullReads : ∀ reply : ControlReply, pullSerde.controlReply reply.encode = .ok reply)
    (carried : Traffic.Carries { serving := { topic := t } }
      (Run.run (Traffic.step host) { serving := { topic := t } } before) publisher request)
    (published : PubSub.publishToWith serde (request (ingestTopic topic)) topic payload grant opts
      idempotencyKey = .ok c)
    (own : OwnKey host (sents (Run.run (Traffic.step host) { serving := { topic := t } } before).past) topic
      publisher ⟨Hex.encode payload, grant, idempotencyKey, opts.orderingKey, opts.attributes⟩)
    (pullCarried : Traffic.Carries (Run.run (Traffic.step host) { serving := { topic := t } } before)
      (Run.run (Traffic.step host) { serving := { topic := t } } (before ++ during)) puller pullRequest)
    (asks : remote.request = pullRequest (controlTopic topic)) (forward : applied.Forward)
    (replica : remote.reader =
      .ok (.of (Run.run (Traffic.step host) { serving := { topic := t } } (before ++ during)).ops applied))
    (pulled : PubSub.pullLimited pullSerde puller topic nodeId remote after limit = .ok r) :
    ∃ msg : Message, msg.cursor = c ∧ msg.publisher = publisher ∧ msg.data = .ok payload ∧
      msg.orderingKey = opts.orderingKey ∧ msg.attributes = opts.attributes ∧
      (∀ found ∈ r.messages, found.cursor = c → found = msg) ∧
      (r.converged = true → after < c →
        msg ∈ r.messages ∨ c ≤ r.floor ∨ (r.truncated = true ∧ r.next < c)) := by
  obtain ⟨m', ⟨unheard', due', shows'⟩, beginnings⟩ :=
    Traffic.shows_run { topic := t, strongCount := 1, held := 1 } undisturbed
  obtain ⟨m, grown, unheard, due, shows⟩ := beginnings before (List.prefix_append _ _)
  have first : Traffic.Shows host t _ _ _ _ := Traffic.shows_new { topic := t, strongCount := 1, held := 1 }
  generalize Run.run (Traffic.step host) { serving := { topic := t } } before = s at *
  generalize Run.run (Traffic.step host) { serving := { topic := t } } (before ++ during) = s' at *
  rw [← shows.sents] at own
  obtain ⟨msg, rfl, sender, data, orderingKey, attributes, journaled⟩ :=
    (carried.shown first shows).published new shows.sequential ownerReads reads List.nil_prefix published
    own
  rw [← shows'.ops] at replica
  exact ⟨msg, rfl, sender, data, orderingKey, attributes,
    (pullCarried.shown shows shows').pulled new other shows'.sequential grown ownerReadsControl pullReads
    asks
      forward replica pulled journaled⟩

section

open Greeting TopicLog

/-- Another node asks for the high cursor. -/
private def askedHigh : Sent :=
  { topic := controlTopic "orders", sender := "bb", body := (ControlRequest.highCursor none).encode }

/-- The owner prunes its remark, and a node asks for the high cursor. -/
private def later : List TrafficAct :=
  [.own 3 (.pruneTo {} 1), .send askedHigh, .control { token := 1, now := 10 }]

/-- The traffic when the owner has pruned and the question is sent. -/
private def pruned (s : Traffic) : Traffic :=
  { s.change Host.compact (.pruneTo {} 1) [.pruneTo 1] with
    past := s.past ++ [.own (.pruneTo {} 1) (.pruned (.ok ()))] ++ [.sent askedHigh] }

/-- The owner reads the question, -/
private theorem read_high : Topic.decodeControl Host.compact (Hex.encode askedHigh.body) =
    .ok (.highCursor none) := by
  refine Topic.decodeControl_encode ?_ (Host.compact_reads _)
  rw [ControlRequest.length_encode]
  decide +kernel

/-- The traffic after the node was told. -/
private def told (s : Traffic) : Traffic :=
  { pruned s with handled := (s.handled.seen 1 10).2 }.conclude 1
    (.control {} (Hex.encode askedHigh.body) "bb" 10)
    (pruned s).topic (.high 2)

/-- and tells the node. -/
private theorem run_later : Run.run (Traffic.step Host.compact) quiet (crowd ++ later) =
    told (Run.run (Traffic.step Host.compact) quiet crowd) := by
  have idle : (Run.run (Traffic.step Host.compact) quiet crowd).control = none := by rw [run_crowd]; rfl
  have named : (Run.run (Traffic.step Host.compact) quiet crowd).topic.topic = "orders" := by
    rw [run_crowd]; rfl
  have fresh : ((Run.run (Traffic.step Host.compact) quiet crowd).handled.seen 1 10).1 = false := by
    rw [run_crowd]; decide
  have high : (pruned (Run.run (Traffic.step Host.compact) quiet crowd)).topic.writer.highCursor = 2 := by
    rw [run_crowd]; rfl
  have past := past_crowd
  rw [Run.run_append, later, Run.run_cons, Run.run_cons, Run.run_cons, Run.run_nil]
  generalize Run.run (Traffic.step Host.compact) quiet crowd = s at *
  have before : Traffic.step Host.compact (Traffic.step Host.compact s (.own 3 (.pruneTo {} 1)))
      (.send askedHigh) = pruned s :=
    rfl
  have shown : (pruned s).shows .control { token := 1, now := 10 } = some askedHigh := by
    rw [Traffic.shows]
    refine Option.filter_eq_some_iff.mpr ⟨?_, ?_⟩
    · rw [show (pruned s).past = s.past ++ _ ++ _ from rfl, past]
      rfl
    · rw [show (pruned s).topic.topic = s.topic.topic from rfl, named]
      decide
  have idle' : (pruned s).control = none := idle
  have fresh' : (pruned s).handled.seen 1 10 = (false, (s.handled.seen 1 10).2) := Prod.ext fresh rfl
  rw [before, Traffic.step, Traffic.controlled_of_high idle' shown fresh' read_high]
  rw [show ({ pruned s with handled := _ } : Traffic).topic.writer.highCursor = 2 from high]
  rfl

/-- The node's way to the owner, -/
private def askHigh : String → Bytes → Except String Bytes :=
  Mesh.bringing askedHigh (ControlReply.high 2).encode

/-- which brings back what it was told. -/
private theorem carries_high : Traffic.Carries (Run.run (Traffic.step Host.compact) quiet crowd)
    (Run.run (Traffic.step Host.compact) quiet (crowd ++ later)) "bb" askHigh := by
  have past : (Run.run (Traffic.step Host.compact) quiet (crowd ++ later)).past =
      (Run.run (Traffic.step Host.compact) quiet crowd).past ++
        [.own (.pruneTo {} 1) (.pruned (.ok ()))] ++ [.sent askedHigh] ++
        [.served 1 (.control {} (Hex.encode askedHigh.body) "bb" 10) (.controlled (.high 2))] := by
    rw [run_later]
    rfl
  intro dest body bytes returned
  rw [askHigh, Mesh.bringing] at returned
  split at returned
  · next is =>
    obtain ⟨rfl, rfl⟩ := is
    cases returned
    rw [past, past_crowd]
    exact ⟨1, _, _, List.mem_append_right _ List.mem_cons_self, rfl, Nat.le_refl _, rfl⟩
  · cases returned

/-- What the owner committed by then, and a reader that shows it all. -/
private def committed : List LogOp := (Run.run (Traffic.step Host.compact) quiet (crowd ++ later)).ops

/-- A reader that shows everything from the first look on. -/
private def upToDate (ops : List LogOp) : Shown Nat where
  polls := []
  last := ops.length
  again := ops.length
  read := ops.length

/-- It converges, if what it shows reaches the target, -/
private theorem converged_upToDate {ops : List LogOp} {outcome : Except String Nat} {target : Nat}
    (known : outcome = .ok target) (reached : target ≤ (replay ops).highCursor) :
    PubSub.convergeTo (.of ops (upToDate ops)) outcome.toOption = true := by
  rw [known, Except.toOption, PubSub.convergeTo, PubSub.awaitHigh_iff]
  refine ⟨_, List.mem_append_right _ List.mem_cons_self, ?_⟩
  simp only [Shown.of, upToDate, List.take_length]
  exact reached

/-- and reads it all. -/
private theorem read_upToDate (ops : List LogOp) : (Shown.of ops (upToDate ops)).read = replay ops := by
  simp only [Shown.of, upToDate, List.take_length]

/-- What the pull reads outside. -/
private def highRemote : Remote where
  reader := .ok (.of committed (upToDate committed))
  fresh := .error "not the owner"
  request := askHigh (controlTopic "orders")

/-- The node hears the high cursor. -/
private theorem fetched_high : PubSub.fetchHighCursor .compact "bb" "aa" highRemote = .ok 2 := by
  have fits : ControlReply.decode Serde.compact (ControlReply.high 2).encode = .ok (.high 2) := by
    refine (ControlReply.decode_encode (ControlReply.read_encode _)).mpr ?_
    rw [ControlReply.Fits]
    decide
  have brought : highRemote.request (ControlRequest.highCursor none).encode =
      .ok (ControlReply.high 2).encode := by
    simp only [highRemote, askHigh, Mesh.bringing]
    exact if_pos ⟨rfl, rfl⟩
  rw [PubSub.fetchHighCursor, if_neg (by decide)]
  simp only [brought, Except.mapError, bind, Except.bind, fits]

/-- The log is the remark, the greeting and the prune. -/
private theorem log_committed : (replay committed).highCursor = 2 ∧ (replay committed).floor = 1 ∧
    ((replay committed).since 0).length = 1 := by
  rw [committed, run_later, run_crowd]
  exact ⟨rfl, rfl, rfl⟩

/-- The prune comes while the control worker is idle. -/
private theorem undisturbed_later :
    Run.Along (Traffic.step Host.compact) Traffic.Undisturbed quiet (crowd ++ later) := by
  have idle : (Run.run (Traffic.step Host.compact) quiet crowd).control = none := by rw [run_crowd]; rfl
  refine Run.along_append.mpr ⟨undisturbed_crowd, ?_⟩
  generalize Run.run (Traffic.step Host.compact) quiet crowd = s at *
  refine ⟨fun c under => ?_, trivial, trivial, trivial⟩
  rw [idle] at under
  cases under

/-- The owner prunes its own remark, and a node pulls once it has heard the owner's high cursor. -/
theorem published_pulled_crowd :
    ∃ r msg, PubSub.pullLimited .compact "bb" "orders" "aa" highRemote 0 10 = .ok r ∧ r.converged = true ∧
      r.floor = 1 ∧ msg ∈ r.messages ∧ msg.cursor = 2 ∧ msg.publisher = "cc" ∧ msg.data = .ok [104, 105] := by
  have forward : (upToDate committed).Forward := ⟨nofun, Nat.le_refl _, Nat.le_refl _, .nil⟩
  have replica : highRemote.reader = .ok (.of
      (Run.run (Traffic.step Host.compact) quiet (crowd ++ later)).ops (upToDate committed)) := rfl
  have pulled : PubSub.pullLimited .compact "bb" "orders" "aa" highRemote 0 10 = _ :=
    PubSub.pullLimited_of_reader valid rfl
  obtain ⟨high, floor, one⟩ := log_committed
  obtain ⟨msg, cursor, publisher, data, -, -, -, shown⟩ := published_pulled (topic_of_createTopic new)
    (by decide) crowd later undisturbed_later Host.compact_reads_ingest Host.compact_reads
    IngestReply.read_encode
    ControlReply.read_encode carries published own carries_high rfl forward replica pulled
  have converged := converged_upToDate fetched_high (Nat.le_of_eq high.symm)
  rw [read_upToDate, converged] at pulled shown
  generalize replay committed = log at pulled shown floor one
  generalize (PubSub.fetchHighCursor .compact "bb" "aa" highRemote).toOption = target at pulled shown
  rcases shown rfl Nat.zero_lt_two with there | pruned | ⟨cut, -⟩
  · exact ⟨_, msg, pulled, rfl, floor, there, cursor, publisher, data⟩
  · have below : 2 ≤ log.floor := pruned
    rw [floor] at below
    exact absurd below (by decide)
  · have full : (log.since 0).length > PubSub.pageLimit 10 := of_decide_eq_true cut
    rw [one] at full
    exact absurd full (by decide)

end

end CePubsub
