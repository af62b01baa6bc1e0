import CePubsub.Laws.Delivery
import CePubsub.Laws.Mesh

/-!
# What the ends of the mesh can rely on

The calls of the two sides, publisher and consumer, put through the mesh: a call returns what the node
brings back for its request, and that is a reply the owner gave under the request's own token (`Carries`).

Once an ack has returned, no lease asked for afterwards returns its cursor (`acked_not_leased`).
-/

namespace CePubsub

variable {Link : Type} {host : Host Link}

/-- A node's requests between two states of a mesh: what one brings back was given as the reply to it,
and it was sent after the first. -/
def Mesh.Carries (m m' : Mesh) (sender : String) (request : String → Bytes → Except String Bytes) : Prop :=
  ∀ dest body bytes, request dest body = .ok bytes → ∃ past token i reply later,
    m'.past = past ++ .served token i reply :: later ∧ reply.wire = some bytes ∧
    (sents m.past).length ≤ token ∧ (sents m'.past)[token]? = some { topic := dest, sender, body }

/-! ## Names -/

/-- The two mesh topics of topics are apart. -/
theorem ingestTopic_ne_controlTopic (topic topic' : String) : ingestTopic topic ≠ controlTopic topic' := by
  intro same
  have texts := congrArg String.toList same
  have ingest : (ingestTopic topic).toList = "ce-pubsub.".toList ++
      'i' :: ("ngest.".toList ++ topic.toList) := by
    rw [show ingestTopic topic = "ce-pubsub.ingest." ++ topic from rfl, String.toList_append]
    rfl
  have control : (controlTopic topic').toList = "ce-pubsub.".toList ++
      'c' :: ("tl.".toList ++ topic'.toList) := by
    rw [show controlTopic topic' = "ce-pubsub.ctl." ++ topic' from rfl, String.toList_append]
    rfl
  rw [ingest, control] at texts
  have heads := List.append_cancel_left texts
  cases heads

/-! ## A request and its reply -/

namespace Mesh

/-- A worker only adds to what has happened. -/
theorem past_serve (worker : Worker) (m : Mesh) (f : Frame) : m.past <+: (m.serve host worker f).past :=
  List.prefix_append _ _

/-- However many frames it is shown. -/
theorem past_serves (worker : Worker) (m : Mesh) (frames : List Frame) :
    m.past <+: (frames.foldl (serve host worker) m).past := by
  induction frames generalizing m with
  | nil => exact List.prefix_rfl
  | cons f frames ih => exact (past_serve worker m f).trans (ih _)

/-- Nothing that happened is taken back. -/
theorem past_step (m : Mesh) (act : MeshStep) : m.past <+: (m.step host act).past := by
  cases act with
  | send r => exact List.prefix_append _ _
  | own i =>
    rw [step]
    split
    · exact List.prefix_append _ _
    · exact List.prefix_rfl
  | clone | drop | release => exact List.prefix_rfl
  | poll worker deliveries =>
    rw [step, poll]
    split
    · exact past_serves worker m _
    · exact List.prefix_rfl

/-- What has happened is never taken back. -/
theorem past_run (m : Mesh) (steps : List MeshStep) : m.past <+: (Run.run (step host) m steps).past :=
  Run.run_invariant (P := fun m' : Mesh => m.past <+: m'.past)
    (fun _ act grown => grown.trans (past_step _ act)) List.prefix_rfl steps

/-- What was sent keeps its place. -/
theorem sents_of_split {whole past later : List MeshEvent} (split : whole = past ++ later) {token : Nat}
    {r : Sent} (there : (sents past)[token]? = some r) : (sents whole)[token]? = some r := by
  have inside := (List.getElem?_eq_some_iff.mp there).1
  rw [split, sents, List.filterMap_append]
  exact (List.getElem?_append_left inside).trans there

/-- **What a request brings back** is the reply to the input that was made of it, at a place after its
sending. -/
theorem Carries.served {m m' : Mesh} {t : Topic} {sender : String}
    {request : String → Bytes → Except String Bytes} (carries : Carries m m' sender request)
    (grown : m.past <+: m'.past) (sequential : m'.Sequential host t) {dest : String} {body bytes : Bytes}
    (returned : request dest body = .ok bytes) :
    ∃ mid token i reply later, m'.past = m.past ++ mid ++ .served token i reply :: later ∧
      reply.wire = some bytes ∧ (sents m'.past)[token]? = some { topic := dest, sender, body } ∧
      (Sent.mk dest sender body true).Becomes t.topic token i ∧
      reply = (Run.run (Topic.step host) t (inputs (m.past ++ mid))).reply host i := by
  obtain ⟨past, token, i, reply, later, split, wire, after, sent⟩ := carries dest body bytes returned
  have history := sequential.history
  rw [split] at history
  obtain ⟨⟨r, there, becomes⟩, replied⟩ := history.at
  have before : past <+: m'.past := split ▸ List.prefix_append _ _
  have inside : token < (sents past).length := (List.getElem?_eq_some_iff.mp there).1
  obtain rfl := Option.some.inj ((sents_of_split split there).symm.trans sent)
  rcases List.prefix_or_prefix_of_prefix before grown with early | ⟨mid, rfl⟩
  · have short := (early.filterMap MeshEvent.sent?).length_le
    exact absurd (Nat.lt_of_lt_of_le inside short) (Nat.not_lt_of_le after)
  · exact ⟨mid, token, i, reply, later, split, wire, sent, becomes, replied⟩

/-- What was brought between two states was brought between an earlier and a later one. -/
theorem Carries.widen {start m m' later : Mesh} {sender : String}
    {request : String → Bytes → Except String Bytes} (carries : Carries m m' sender request)
    (before : start.past <+: m.past) (after : m'.past <+: later.past) :
    Carries start later sender request := by
  intro dest body bytes returned
  obtain ⟨past, token, i, reply, rest, split, wire, new, sent⟩ := carries dest body bytes returned
  obtain ⟨more, whole⟩ := after
  refine ⟨past, token, i, reply, rest ++ more, ?_, wire, ?_, sents_of_split whole.symm sent⟩
  · rw [← whole, split, List.append_assoc, List.cons_append]
  · exact (before.filterMap MeshEvent.sent?).length_le.trans new

end Mesh

/-! ## An undisturbed request -/

namespace Mesh

/-- The request sent last is found under the next token. -/
theorem sents_send (m : Mesh) (r : Sent) : (sents (m.past ++ [.sent r]))[(sents m.past).length]? =
    some r := by
  rw [sents_concat]
  exact List.getElem?_concat_length

/-- A node sends a request, and a worker of the owner's finds it in its inbox. -/
def ask (m : Mesh) (worker : Worker) (r : Sent) (now : Nat) : List MeshStep :=
  [.send r, .poll worker [{ token := (sents m.past).length, now }]]

/-- **A request that is shown to the owner's worker at once** is served and replied to. -/
theorem run_ask {m : Mesh} {worker : Worker} {r : Sent} {now : Nat} {i : Input}
    (up : m.inner.working worker = true) (on : m.inner.shutdown = false)
    (input : m.inner.input worker (r.frame { token := (sents m.past).length, now }) =
      some ((sents m.past).length, i)) :
    Run.run (step host) m (m.ask worker r now) =
      { inner := TopicInner.frame host worker m.inner (r.frame { token := (sents m.past).length, now })
        past := m.past ++ [.sent r] ++
          [.served (sents m.past).length i (m.inner.topic.reply host i)] } := by
  have shows : (Mesh.mk m.inner (m.past ++ [.sent r])).frame { token := (sents m.past).length, now } =
      some (r.frame { token := (sents m.past).length, now }) := by
    rw [frame, sents_send, Option.map_some]
  rw [ask, Run.run_cons, Run.run_cons, Run.run_nil, step, step, poll, if_pos (by rw [up, on]; rfl),
    List.filterMap_cons, shows, List.filterMap_nil, List.foldl_cons, List.foldl_nil, serve, input]
  rfl

/-- A remote publish that is asked of the topic is an input of it. -/
theorem input_ingest {s : TopicInner} {r : Sent} (mine : r.topic = ingestTopic s.topic.topic)
    (asks : r.asks = true) (token now : Nat) :
    s.input .ingest (r.frame { token, now }) =
      some (token, .ingest {} token (Hex.encode r.body) r.sender now) := by
  rw [TopicInner.input, Sent.frame, asks]
  exact if_pos mine

/-- A control request, on an open topic. -/
def control (m : Mesh) (req : ControlRequest) (sender : String) : Sent where
  topic := controlTopic m.inner.topic.topic
  sender
  body := req.encode

/-- What it leaves. -/
def asked (m : Mesh) (req : ControlRequest) (sender : String) (now : Nat) : Mesh where
  inner :=
    { m.inner with
      handled := (m.inner.handled.seen (sents m.past).length now).2
      topic := (m.inner.topic.serveControl {} now req).2 }
  past := m.past ++ [.sent (m.control req sender)] ++
    [.served (sents m.past).length (.control {} (Hex.encode req.encode) sender now)
      (.controlled (m.inner.topic.serveControl {} now req).1)]

/-- A control request that is shown to the owner at once. -/
def asking (m : Mesh) (req : ControlRequest) (sender : String) (now : Nat) : List MeshStep :=
  m.ask .control (m.control req sender) now

/-- The run of a control request that is served at once. -/
theorem run_asking {m : Mesh} {req : ControlRequest}
    (up : m.inner.working .control = true) (on : m.inner.shutdown = false)
    (ungated : m.inner.topic.requireCap = false) (small : req.encode.length ≤ maxControlBodyBytes)
    (lossless : host.serde.controlRequest req.encode = .ok req) (sender : String) (now : Nat)
    (fresh : (m.inner.handled.seen (sents m.past).length now).1 = false) :
    Run.run (step host) m (m.asking req sender now) = m.asked req sender now := by
  have replied : m.inner.topic.handleControl host {} (Hex.encode req.encode) sender now =
      m.inner.topic.serveControl {} now req := Topic.handleControl_encode small lossless ungated
  have input : m.inner.input .control
      ((m.control req sender).frame { token := (sents m.past).length, now }) =
        some ((sents m.past).length, .control {} (Hex.encode req.encode) sender now) :=
    if_pos ⟨rfl, fresh⟩
  rw [asking, run_ask up on input, asked, Topic.reply, replied, TopicInner.frame, TopicInner.controlFrame]
  rcases seen : m.inner.handled.seen (sents m.past).length now with ⟨hit, handled⟩
  obtain rfl : hit = false := by rw [← fresh, seen]
  simp only [control, Sent.frame, ne_eq, not_true_eq_false, if_false, if_true, seen, replied]

/-- An ingest request. -/
def ingest (m : Mesh) (req : IngestRequest) (sender : String) : Sent where
  topic := ingestTopic m.inner.topic.topic
  sender
  body := req.encode

variable (host) in
/-- What it leaves. -/
def ingested (m : Mesh) (req : IngestRequest) (sender : String) (now : Nat) : Mesh where
  inner :=
    { m.inner with
      topic := (m.inner.topic.serveIngest host {} (sents m.past).length req sender now).2 }
  past := m.past ++ [.sent (m.ingest req sender)] ++
    [.served (sents m.past).length (.ingest {} (sents m.past).length (Hex.encode req.encode) sender now)
      (.ingested (m.inner.topic.serveIngest host {} (sents m.past).length req sender now).1)]

/-- The run of a remote publish that is served at once. -/
theorem run_ingested {m : Mesh} {req : IngestRequest}
    (up : m.inner.working .ingest = true) (on : m.inner.shutdown = false)
    (decoded : IngestRequest.decodeHex host.serde (Hex.encode req.encode) = .ok req) (sender : String)
    (now : Nat) :
    Run.run (step host) m (m.ask .ingest (m.ingest req sender) now) = m.ingested host req sender now := by
  have served : m.inner.topic.handleIngest host {} (sents m.past).length
    (Hex.encode req.encode) sender now =
      m.inner.topic.serveIngest host {} (sents m.past).length req sender now :=
    Topic.handleIngest_of_decoded decoded _ _ _ _ _
  have input := input_ingest (s := m.inner) (r := m.ingest req sender) rfl rfl (sents m.past).length now
  rw [run_ask up on input, ingested, TopicInner.frame, TopicInner.ingestFrame, Topic.reply]
  simp only [ingest, Sent.frame, ne_eq, not_true_eq_false, if_false, if_true, served]

/-- A node that is brought the reply to one request. -/
def bringing (r : Sent) (reply : Bytes) (dest : String) (body : Bytes) : Except String Bytes :=
  if dest = r.topic ∧ body = r.body then .ok reply else .error "timed out"

/-- The reply of the run is one a node can be brought. -/
theorem carries_bringing {m m' : Mesh} {r : Sent} {i : Input} {reply : Reply} {bytes : Bytes}
    (asks : r.asks = true) (wire : reply.wire = some bytes)
    (past : m'.past = m.past ++ [.sent r] ++ [.served (sents m.past).length i reply]) :
    Carries m m' r.sender (bringing r bytes) := by
  intro dest body bytes' returned
  rw [bringing] at returned
  split at returned
  · next asked =>
    obtain ⟨rfl, rfl⟩ := asked
    cases returned
    refine ⟨_, _, _, _, [], past, wire, Nat.le_refl _, ?_⟩
    rw [← asks]
    exact sents_of_split past (sents_send m r)
  · cases returned

end Mesh

namespace PubSub

variable {ch : Channel} {topic : String}

/-- A control request that returns was replied to with what it returns. -/
theorem reply_of_control {req : ControlRequest} {reply : ControlReply}
    (returned : control ch topic req = .ok reply) :
    ∃ bytes, ch.request (controlTopic topic) req.encode = .ok bytes ∧
      ControlReply.decode ch.serde bytes = .ok reply := by
  simp only [control, bind, Except.bind] at returned
  cases asked : ch.request (controlTopic topic) req.encode with
  | error e =>
    rw [asked] at returned
    cases returned
  | ok bytes =>
    rw [asked] at returned
    exact ⟨bytes, rfl, returned⟩

/-- A call that returns had an `Ok` for its reply. -/
theorem ok_of_controlOk {req : ControlRequest} (returned : controlOk ch topic req = .ok ()) :
    control ch topic req = .ok .ok := by
  simp only [controlOk, bind, Except.bind] at returned
  cases replied : control ch topic req with
  | error e =>
    rw [replied] at returned
    cases returned
  | ok reply =>
    rw [replied] at returned
    cases reply with
    | ok => rfl
    | high | subscriptions | pulled | rejected => cases returned

/-- An ack that returns had an `Ok` for its reply. -/
theorem ok_of_ack {sub : String} {cursor : Nat} {grant : Option String}
    (returned : ack ch topic sub cursor grant = .ok ()) :
    control ch topic (.ack sub cursor grant) = .ok .ok := by
  simp only [ack, bind, Except.bind] at returned
  split at returned
  · cases returned
  · exact ok_of_controlOk returned

/-- A lease that returns had a batch for its reply. -/
theorem pulled_of_lease {sub : String} {maxMessages : Nat} {grant : Option String}
    {msgs : List LeasedMessage} (returned : lease ch topic sub maxMessages grant = .ok msgs) :
    control ch topic (.pull sub maxMessages grant) = .ok (.pulled msgs) := by
  simp only [lease, bind, Except.bind] at returned
  split at returned
  · cases returned
  · cases replied : control ch topic (.pull sub maxMessages grant) with
    | error e =>
      rw [replied] at returned
      cases returned
    | ok reply =>
      rw [replied] at returned
      cases reply with
      | pulled leased =>
        cases returned
        rfl
      | ok | high | subscriptions | rejected => cases returned

end PubSub

namespace Topic

/-- A control message comes to a call of the request it carries. -/
theorem decoded_of_call {t : Topic} {node : Answers} {payloadHex requester : String} {now : Nat} {c : Call}
    (comes : t.call host (.control node payloadHex requester now) = some c) :
    ∃ req, decodeControl host payloadHex = .ok req ∧ c = .control node now req := by
  rw [call] at comes
  cases decoded : decodeControl host payloadHex with
  | error why =>
    rw [decoded] at comes
    cases comes
  | ok req =>
    refine ⟨req, rfl, ?_⟩
    rw [decoded] at comes
    cases req with
    | highCursor grant =>
      cases comes
      rfl
    | createSubscription | deleteSubscription | listSubscriptions | pull | ack | nack =>
      simp only at comes
      split at comes <;> cases comes
      rfl

/-- What is decoded of a request's own bytes is the request. -/
theorem eq_of_decoded {req req' : ControlRequest}
    (lossless : host.serde.controlRequest req.encode = .ok req)
    (decoded : decodeControl host (Hex.encode req.encode) = .ok req') : req' = req := by
  rw [decodeControl, Hex.decode_encode] at decoded
  simp only [ControlRequest.decode] at decoded
  split at decoded
  · cases decoded
  · rw [lossless] at decoded
    cases decoded
    rfl

/-- A control request that is not turned away is a call, and is answered as one. -/
theorem call_of_reply {t : Topic} {node : Answers} {req : ControlRequest} {requester : String} {now : Nat}
    {reply : ControlReply} (lossless : host.serde.controlRequest req.encode = .ok req)
    (replied : t.reply host (.control node (Hex.encode req.encode) requester now) = .controlled reply)
    (accepted : ∀ why, reply ≠ .rejected why) :
    t.call host (.control node (Hex.encode req.encode) requester now) = some (.control node now req) ∧
      (t.serve (.control node now req)).1 = .controlled reply := by
  cases comes : t.call host (.control node (Hex.encode req.encode) requester now) with
  | none =>
    have rejects := control_of_no_call comes
    rw [replied] at rejects
    cases reply with
    | rejected why => exact absurd rfl (accepted why)
    | ok | high | subscriptions | pulled => exact rejects.elim
  | some c =>
    obtain ⟨req', decoded, rfl⟩ := decoded_of_call comes
    obtain rfl := eq_of_decoded lossless decoded
    have answered := replied.symm.trans (step_of_some host comes).1
    exact ⟨rfl, congrArg Answer.controlled (Reply.controlled.inj answered).symm⟩

end Topic

/-- An exchange is one of an input. -/
theorem Topic.call_of_exchange {t : Topic} {is : List Input} {e : Exchange}
    (mem : e ∈ t.exchanges host is) : ∃ i ∈ is, ∃ t' : Topic, t'.call host i = some e.call := by
  induction is generalizing t with
  | nil => cases mem
  | cons i is ih =>
    rw [exchanges] at mem
    rcases List.mem_append.mp mem with first | later
    · obtain ⟨c, comes, rfl⟩ := List.mem_map.mp first
      exact ⟨i, List.mem_cons_self, t, Option.mem_toList.mp comes⟩
    · obtain ⟨j, inside, comes⟩ := ih later
      exact ⟨j, List.mem_cons_of_mem i inside, comes⟩

/-! ## Acknowledged is acknowledged -/

namespace Mesh

/-- **A control request that returns** was a call, at a place after its sending, and returns what that
was answered. -/
theorem Carries.control {m m' : Mesh} {t : Topic} {sender : String} {ch : Channel}
    (carries : Carries m m' sender ch.request) (grown : m.past <+: m'.past)
    (sequential : m'.Sequential host t) {req : ControlRequest}
    (asks : host.serde.controlRequest req.encode = .ok req)
    (reads : ∀ reply : ControlReply, ch.serde.controlReply reply.encode = .ok reply)
    {topic : String} {reply : ControlReply} (returned : PubSub.control ch topic req = .ok reply)
    (accepted : ∀ why, reply ≠ .rejected why) :
    ∃ mid e later node now, m'.past = m.past ++ mid ++ e :: later ∧
      e.input? = some (.control node (Hex.encode req.encode) sender now) ∧
      (Run.run (Topic.step host) t (inputs (m.past ++ mid))).call host
        (.control node (Hex.encode req.encode) sender now) = some (.control node now req) ∧
      ((Run.run (Topic.step host) t (inputs (m.past ++ mid))).serve (.control node now req)).1 =
        .controlled reply := by
  obtain ⟨bytes, asked, decoded⟩ := PubSub.reply_of_control returned
  obtain ⟨mid, token, i, given, later, split, wire, -, becomes, replied⟩ :=
    carries.served grown sequential asked
  rcases becomes.input with ⟨wrong, -⟩ | ⟨-, node, now, rfl⟩
  · exact absurd wrong.symm (ingestTopic_ne_controlTopic _ _)
  refine ⟨mid, _, later, node, now, split, rfl, ?_⟩
  rw [Topic.reply] at replied
  rw [replied] at wire
  obtain rfl := Option.some.inj wire
  rw [ControlReply.decode] at decoded
  split at decoded
  · cases decoded
  · rw [reads] at decoded
    refine Topic.call_of_reply asks ?_ accepted
    rw [Topic.reply, Except.ok.inj decoded]

end Mesh

/-- The exchanges up to an event that is a call. -/
theorem exchanges_event {t : Topic} {past later : List MeshEvent} {e : MeshEvent} {i : Input} {c : Call}
    (input : e.input? = some i) (comes : (Run.run (Topic.step host) t (inputs past)).call host i = some c) :
    ∃ rest, t.exchanges host (inputs (past ++ e :: later)) = t.exchanges host (inputs past) ++
      ⟨c, ((Run.run (Topic.step host) t (inputs past)).serve c).1⟩ :: rest := by
  rw [inputs, List.filterMap_append, List.filterMap_cons, input, Topic.exchanges_append,
    Topic.exchanges]
  refine ⟨((Run.run (Topic.step host) t (inputs past)).step host i).exchanges host
    (later.filterMap MeshEvent.input?), ?_⟩
  rw [show past.filterMap MeshEvent.input? = inputs past from rfl, comes]
  rfl

/-- A longer past has at least the exchanges of the shorter. -/
theorem exchanges_grow (t : Topic) {past past' : List MeshEvent} (grown : past <+: past') :
    t.exchanges host (inputs past) <+: t.exchanges host (inputs past') := by
  obtain ⟨more, rfl⟩ := grown
  rw [inputs, inputs, List.filterMap_append, Topic.exchanges_append]
  exact List.prefix_append _ _

/-- Where no subscription was deleted since, nothing is left out. -/
theorem Exchange.since_append {name : String} {es more : List Exchange}
    (kept : ∀ e ∈ more, e.deletes name = false) : since name (es ++ more) = since name es ++ more := by
  induction more using List.reverseRecOn with
  | nil => rw [List.append_nil, List.append_nil]
  | append_singleton more e ih =>
    obtain ⟨before, last⟩ := List.forall_mem_append.mp kept
    rw [← List.append_assoc, since_kept (last e List.mem_cons_self), ih before,
      List.append_assoc]

/-- **What was acked is in no batch**, while the subscription is not deleted. -/
theorem Broker.acked_not_pulled {b : Broker} {name : String} {es : List Exchange} (known : b.Knows es)
    (numbered : Journal.Numbered Message.cursor 0 b.log.entries) {x now maxMessages : Nat}
    (acked : ∃ e ∈ Exchange.since name es, e.acks name x = true) {node : Answers} {grant : Option String}
    {leased : List LeasedMessage}
    (replied : (b.control node now (.pull name maxMessages grant)).1 = .pulled leased) :
    ∀ l ∈ leased, l.message.cursor ≠ x := by
  have told := known name
  have becomes : Becomes b name _ _ := control_becomes numbered node now (.pull name maxMessages grant)
  rw [replied] at becomes
  suffices x ∉ leased.map (·.message.cursor) by
    intro l mem same
    exact this (List.mem_map.mpr ⟨l, mem, same⟩)
  generalize (b.control node now (.pull name maxMessages grant)).2.subs[name]? = left at becomes
  cases becomes with
  | quiet silent =>
    intro mem
    have lends := silent.lends x
    rw [Exchange.lends, if_pos ⟨rfl, mem⟩] at lends
    cases lends
  | pulled found handed =>
    rw [found] at told
    obtain ⟨e, mem, acks⟩ := acked
    have settled := told.queue.acked e mem x acks
    rw [handed]
    exact fun given => LeaseQueue.not_mem_offered_of_settled settled (LeaseQueue.offered_of_mem_taken given)

variable (host) in
/-- The calls of the owner in a mesh's history, with what they were answered. -/
def Mesh.exchanges (t : Topic) (m : Mesh) : List Exchange := t.exchanges host (inputs m.past)

/-- An acknowledgement stays among what is since, if no subscription is deleted later. -/
theorem Exchange.acked_since {name : String} {x : Nat} {start middle es whole : List Exchange}
    {e : Exchange} (begins : start <+: middle) (goes : ∃ rest, es = middle ++ e :: rest)
    (ends : es <+: whole) (kept : ∀ e ∈ whole.drop start.length, e.deletes name = false)
    (acks : e.acks name x = true) : ∃ e ∈ since name es, e.acks name x = true := by
  obtain ⟨more, rfl⟩ := begins
  obtain ⟨rest, rfl⟩ := goes
  obtain ⟨later, rfl⟩ := ends
  rw [List.append_assoc, List.append_assoc, List.drop_left] at kept
  refine ⟨e, ?_, acks⟩
  rw [List.append_assoc, since_append fun e mem => kept e (List.append_assoc .. ▸
    List.mem_append_left later mem)]
  exact List.mem_append_right _ (List.mem_append_right _ List.mem_cons_self)

/-- **Acknowledged is acknowledged.** Once an ack has returned at some node, no lease of the subscription
asked for afterwards, at that node or another, returns the cursor, unless the subscription is deleted in
between: whatever the mesh loses, repeats and reorders, whatever else the owner is asked, and whatever
the owner's clock does. -/
theorem acked_not_leased {nodeId topic : String} {inner : TopicInner}
    (new : TopicInner.createTopic nodeId topic = .ok inner) (before during after : List MeshStep)
    {acker leaser name : String} {ackCh leaseCh : Channel} {x maxMessages : Nat}
    {ackGrant leaseGrant : Option String} {msgs : List LeasedMessage}
    (ownerReads : ∀ req : ControlRequest, host.serde.controlRequest req.encode = .ok req)
    (ackReads : ∀ reply : ControlReply, ackCh.serde.controlReply reply.encode = .ok reply)
    (leaseReads : ∀ reply : ControlReply, leaseCh.serde.controlReply reply.encode = .ok reply)
    (ackCarried : Mesh.Carries (Run.run (Mesh.step host) { inner } before)
      (Run.run (Mesh.step host) { inner } (before ++ during)) acker ackCh.request)
    (acked : PubSub.ack ackCh topic name x ackGrant = .ok ())
    (leaseCarried : Mesh.Carries (Run.run (Mesh.step host) { inner } (before ++ during))
      (Run.run (Mesh.step host) { inner } (before ++ during ++ after)) leaser leaseCh.request)
    (leased : PubSub.lease leaseCh topic name maxMessages leaseGrant = .ok msgs)
    (kept : ∀ e ∈ ((Run.run (Mesh.step host) { inner } (before ++ during ++ after)).exchanges host
        inner.topic).drop
        ((Run.run (Mesh.step host) { inner } before).exchanges host inner.topic).length,
      e.deletes name = false) :
    ∀ l ∈ msgs, l.message.cursor ≠ x := by
  have made := topic_of_createTopic new
  have runs : ∀ steps, (Run.run (Mesh.step host) { inner } steps).Sequential host inner.topic :=
    fun steps => (Mesh.sequential_new inner).run steps
  have first : (Run.run (Mesh.step host) { inner } before).past <+:
      (Run.run (Mesh.step host) { inner } (before ++ during)).past := by
    rw [Run.run_append]
    exact Mesh.past_run _ during
  have second : (Run.run (Mesh.step host) { inner } (before ++ during)).past <+:
      (Run.run (Mesh.step host) { inner } (before ++ during ++ after)).past := by
    rw [Run.run_append _ _ (before ++ during)]
    exact Mesh.past_run _ after
  obtain ⟨mid, e, later, node, now, split, input, comes, answered⟩ :=
    ackCarried.control first (runs _) (ownerReads _) ackReads (PubSub.ok_of_ack acked) nofun
  obtain ⟨mid', e', later', node', now', split', input', comes', answered'⟩ :=
    leaseCarried.control second (runs _) (ownerReads _) leaseReads (PubSub.pulled_of_lease leased) nofun
  generalize Run.run (Mesh.step host) { inner } before = m at *
  generalize Run.run (Mesh.step host) { inner } (before ++ during) = m' at *
  generalize Run.run (Mesh.step host) { inner } (before ++ during ++ after) = m'' at *
  -- the ack is among the exchanges before the lease, and after those that may have deleted
  obtain ⟨rest, acking⟩ := exchanges_event input comes
  rw [← split, answered] at acking
  have grows : inner.topic.exchanges host (inputs m'.past) <+:
      inner.topic.exchanges host (inputs (m'.past ++ mid')) :=
    exchanges_grow inner.topic (List.prefix_append m'.past mid')
  obtain ⟨more, leasing⟩ := grows
  have there : ∃ rest, inner.topic.exchanges host (inputs (m'.past ++ mid')) =
      inner.topic.exchanges host (inputs (m.past ++ mid)) ++
        ⟨.control node now (.ack name x ackGrant), .controlled .ok⟩ :: rest := by
    refine ⟨rest ++ more, ?_⟩
    rw [← leasing, acking, List.append_assoc, List.cons_append]
  have acks : Exchange.acks name x ⟨.control node now (.ack name x ackGrant), .controlled .ok⟩ = true :=
    decide_eq_true ⟨rfl, rfl⟩
  have ends : m'.past ++ mid' <+: m''.past := split' ▸ List.prefix_append _ _
  have since := Exchange.acked_since (exchanges_grow inner.topic (List.prefix_append m.past mid)) there
    (exchanges_grow inner.topic ends) kept acks
  have stands := (owner_is_broker host made (inputs (m'.past ++ mid'))).1
  have replied := (stands.serve (.control node' now' (.pull name maxMessages leaseGrant))).1
  rw [answered'] at replied
  have known : (Broker.after (inner.topic.calls host (inputs (m'.past ++ mid')))).Knows
      (inner.topic.exchanges host (inputs (m'.past ++ mid'))) := Broker.knows_run made _
  exact Broker.acked_not_pulled known stands.log.numbered since (Answer.controlled.inj replied).symm

/-! ### An undisturbed consumer -/

/-- A channel on which one request is replied to. -/
def Channel.bringing (topic sender : String) (req : ControlRequest) (reply : ControlReply) : Channel where
  request := Mesh.bringing { topic := controlTopic topic, sender, body := req.encode } reply.encode
  serde := .compact
  debug _ := ""

/-- The run of a control request carries its reply. -/
theorem Mesh.carries_asked (m : Mesh) (req : ControlRequest) (sender : String) (now : Nat) :
    Mesh.Carries m (m.asked req sender now) sender
      (Channel.bringing m.inner.topic.topic sender req
        (m.inner.topic.serveControl {} now req).1).request :=
  Mesh.carries_bringing rfl rfl rfl

section Bringing

variable {topic : String} (valid : validateTopic topic = .ok ()) (sender : String)

/-- A node reads the reply it is brought. -/
theorem control_bringing (topic sender : String) {req : ControlRequest} {reply : ControlReply}
    (fits : reply.Fits) : PubSub.control (.bringing topic sender req reply) topic req = .ok reply := by
  simp only [PubSub.control, Channel.bringing, Mesh.bringing, and_self, if_true, bind, Except.bind,
    Except.mapError]
  exact (ControlReply.decode_encode reply.read_encode).mpr fits

include valid

/-- An ack whose reply is brought returns. -/
theorem ack_bringing (name : String) (cursor : Nat) (grant : Option String) :
    PubSub.ack (.bringing topic sender (.ack name cursor grant) .ok) topic name cursor grant = .ok () := by
  have control : PubSub.control (.bringing topic sender (.ack name cursor grant) .ok) topic
      (.ack name cursor grant) = .ok .ok :=
    control_bringing topic sender (by rw [ControlReply.Fits]; decide +kernel)
  simp only [PubSub.ack, PubSub.controlOk, valid, control, bind, Except.bind]

/-- A lease whose batch is brought returns the batch. -/
theorem lease_bringing (name : String) (maxMessages : Nat) (grant : Option String)
    {msgs : List LeasedMessage} (fits : (ControlReply.pulled msgs).Fits) :
    PubSub.lease (.bringing topic sender (.pull name maxMessages grant) (.pulled msgs)) topic name
      maxMessages grant = .ok msgs := by
  have control : PubSub.control (.bringing topic sender (.pull name maxMessages grant) (.pulled msgs))
      topic (.pull name maxMessages grant) = .ok (.pulled msgs) := control_bringing topic sender fits
  simp only [PubSub.lease, valid, control, bind, Except.bind]

end Bringing

namespace Jobs

open Orders

/-- A topic's handles, as its owner creates it. -/
def handles : TopicInner :=
  (TopicInner.serve { topic := { nodeId := "aa", topic := "orders" }, strongCount := 1, held := 1 }
    .ingest).serve .control

/-- The owner publishes twice. -/
def filling : List MeshStep := [.own (.publish {} [104, 105] 5), .own (.publish {} [104, 106] 6)]

/-- The mesh once the owner has published twice, and once there is a subscription. -/
def filled : Mesh := Run.run (Mesh.step Host.compact) { inner := handles } filling

def opened : Mesh := filled.asked subscribing "bb" 10

theorem valid : validateTopic "orders" = .ok () := by decide

theorem new : TopicInner.createTopic "aa" "orders" = .ok handles := by
  rw [TopicInner.createTopic, Topic.create_of_valid valid]
  rfl

/-- The run up to the subscription. -/
theorem run_opening : Run.run (Mesh.step Host.compact) { inner := handles }
    (filling ++ filled.asking subscribing "bb" 10) = opened := by
  rw [Run.run_append]
  exact Mesh.run_asking rfl rfl (by decide) (small size_subscribing) (Host.compact_reads _) "bb" 10
    (by decide)

/-- The only call a control request comes to is the request itself. -/
theorem call_asked {t : Topic} {req : ControlRequest} {sender : String} {now : Nat} {c : Call}
    (comes : t.call Host.compact (.control {} (Hex.encode req.encode) sender now) = some c) :
    c = .control {} now req := by
  obtain ⟨req', decoded, rfl⟩ := Topic.decoded_of_call comes
  rw [Topic.eq_of_decoded (Host.compact_reads req) decoded]

/-- The request is the next input. -/
theorem inputs_asked (m : Mesh) (req : ControlRequest) (sender : String) (now : Nat) :
    inputs (m.asked req sender now).past =
      inputs m.past ++ [.control {} (Hex.encode req.encode) sender now] := by
  rw [Mesh.asked, inputs_concat, inputs_concat, MeshEvent.input?, MeshEvent.input?, Option.toList,
    List.append_nil, Option.toList]

/-- The inputs up to the subscription. -/
theorem inputs_opened : inputs opened.past = [.publish {} [104, 105] 5, .publish {} [104, 106] 6,
    .control {} (Hex.encode subscribing.encode) "bb" 10] := by
  rw [opened, inputs_asked]
  rfl

/-- The mesh once a consumer has acked the first message, and once it has leased the rest. -/
def acked : Mesh := opened.asked (acking 1) "bb" 12

def leased : Mesh := acked.asked (pulling 10) "bb" 14

/-- The run of the ack. -/
theorem run_acking : Run.run (Mesh.step Host.compact) opened (opened.asking (acking 1) "bb" 12) = acked :=
  Mesh.run_asking rfl rfl (by decide) (small (size_acking (by decide))) (Host.compact_reads _) "bb" 12
    (by decide)

/-- The run of the lease. -/
theorem run_leasing : Run.run (Mesh.step Host.compact) acked (acked.asking (pulling 10) "bb" 14) = leased :=
  Mesh.run_asking rfl rfl (by decide) (small (size_pulling (by decide))) (Host.compact_reads _) "bb" 14
    (by decide)

/-- Nothing in the run deletes the subscription. -/
theorem kept {e : Exchange} (mem : e ∈ leased.exchanges Host.compact handles.topic) :
    e.deletes "jobs" = false := by
  obtain ⟨i, asked, t, comes⟩ := Topic.call_of_exchange mem
  obtain ⟨call, answer⟩ := e
  rw [leased, inputs_asked, acked, inputs_asked, inputs_opened] at asked
  simp only [List.mem_append, List.mem_cons, List.not_mem_nil, or_false, or_assoc] at asked
  rcases asked with rfl | rfl | rfl | rfl | rfl
  · cases comes
    rfl
  · cases comes
    rfl
  · obtain rfl := call_asked comes
    rfl
  · obtain rfl := call_asked comes
    rfl
  · obtain rfl := call_asked comes
    rfl

end Jobs

open Jobs Orders in
/-- Two messages, of which a consumer acks the first and leases the rest. -/
theorem acked_not_leased_jobs :
    ∃ leaseCh msgs, Mesh.Carries acked leased "bb" leaseCh.request ∧
      PubSub.lease leaseCh "orders" "jobs" 10 none = .ok msgs ∧ msgs.length = 1 ∧
      ∀ l ∈ msgs, l.message.cursor ≠ 1 := by
  have runAcked : Run.run (Mesh.step Host.compact) { inner := handles }
      (filling ++ filled.asking subscribing "bb" 10 ++ opened.asking (acking 1) "bb" 12) = acked := by
    rw [Run.run_append, run_opening, run_acking]
  have runLeased : Run.run (Mesh.step Host.compact) { inner := handles }
      (filling ++ filled.asking subscribing "bb" 10 ++ opened.asking (acking 1) "bb" 12 ++
        acked.asking (pulling 10) "bb" 14) = leased := by
    rw [Run.run_append, runAcked, run_leasing]
  have acks : (opened.inner.topic.serveControl {} 12 (acking 1)).1 = .ok := by decide
  have leases : ∃ msgs, (acked.inner.topic.serveControl {} 14 (pulling 10)).1 = .pulled msgs ∧
      msgs.length = 1 := ⟨_, rfl, rfl⟩
  have fits : (acked.inner.topic.serveControl {} 14 (pulling 10)).1.Fits := by
    rw [ControlReply.Fits]
    decide +kernel
  have ackCarried : Mesh.Carries opened acked "bb" _ := Mesh.carries_asked opened (acking 1) "bb" 12
  have leaseCarried : Mesh.Carries acked leased "bb" _ := Mesh.carries_asked acked (pulling 10) "bb" 14
  obtain ⟨msgs, replied, one⟩ := leases
  rw [acks] at ackCarried
  rw [replied] at leaseCarried fits
  rw [show opened.inner.topic.topic = "orders" from rfl] at ackCarried
  rw [show acked.inner.topic.topic = "orders" from rfl] at leaseCarried
  have ackReturns := ack_bringing valid "bb" "jobs" 1 none
  have leaseReturns := lease_bringing valid "bb" "jobs" 10 none fits
  refine ⟨_, msgs, leaseCarried, leaseReturns, one, ?_⟩
  rw [← run_opening, ← runAcked] at ackCarried
  rw [← runAcked, ← runLeased] at leaseCarried
  refine acked_not_leased new (filling ++ filled.asking subscribing "bb" 10)
    (opened.asking (acking 1) "bb" 12)
    (acked.asking (pulling 10) "bb" 14) Host.compact_reads ControlReply.read_encode ControlReply.read_encode
    ackCarried ackReturns leaseCarried leaseReturns fun e mem => ?_
  rw [runLeased] at mem
  exact kept (List.mem_of_mem_drop mem)

end CePubsub
