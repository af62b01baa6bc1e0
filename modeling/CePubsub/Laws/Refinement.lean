import CePubsub.Laws.Broker
import CePubsub.Laws.Codec
import CePubsub.Laws.Owner
import CePubsub.Lib.Run

/-!
# Every run of the owner is a run of the broker

What the owner is asked to do passes checks before it is a call: the size of a payload, the cache of the
requests already handled, the reading of a request, the gate. `Topic.call` is the call an input comes
to, if it comes to one. An input that does not leaves log, registry and streams as they were; one that
does is served as the call, and its reply says what the broker answers (`owner_is_broker`).
-/

namespace CePubsub

variable {Link : Type} (host : Host Link)

/-- What the owner replies to an input. -/
inductive Reply where
  | published (outcome : Except String Nat)
  | pruned (outcome : Except String Unit)
  | ingested (reply : IngestReply)
  | controlled (reply : ControlReply)
  | set (outcome : Except String Unit)

namespace Topic

/-- The call an input comes to, if it passes the checks. -/
def call (t : Topic) : Input → Option Call
  | .publish node payload now =>
    match validatePayload payload with
    | .error _ => none
    | .ok () => some (.publish node ((Message.new 0 t.nodeId payload now).authenticated true))
  | .publishWith node payload opts now =>
    match validatePayload payload, opts.validate with
    | .ok (), .ok () =>
      some (.publish node
        { (Message.new 0 t.nodeId payload now).authenticated true with
          orderingKey := opts.orderingKey
          attributes := opts.attributes })
    | _, _ => none
  | .pruneTo node upTo => some (.prune node upTo)
  | .ingest node token payloadHex publisher now =>
    match IngestRequest.decodeHex host.serde payloadHex with
    | .error _ => none
    | .ok req =>
      match (t.dedup.get (dedupKey req token) now).1 with
      | some _ => none
      | none =>
        match t.gate host node publisher abilityPublish req.grant now with
        | .error _ => none
        | .ok () =>
          match ingestMessage host req publisher t.requireCap now with
          | .error _ => none
          | .ok msg => some (.publish node msg)
  | .control node payloadHex requester now =>
    match decodeControl host payloadHex with
    | .error _ => none
    | .ok (.highCursor grant) => some (.control node now (.highCursor grant))
    | .ok req =>
      match t.gate host node requester abilitySubscribe req.grant now with
      | .error _ => none
      | .ok () => some (.control node now req)
  | .requirePublishCap _ => none
  | .acceptRoot _ => none

/-- What the entry point answers. -/
def reply (t : Topic) : Input → Reply
  | .publish node payload now => .published (t.publish node payload now).1
  | .publishWith node payload opts now => .published (t.publishWith node payload opts now).1
  | .pruneTo node upTo => .pruned (t.pruneTo node upTo).1
  | .ingest node token payloadHex publisher now =>
    .ingested (t.handleIngest host node token payloadHex publisher now).1
  | .control node payloadHex requester now =>
    .controlled (t.handleControl host node payloadHex requester now).1
  | .requirePublishCap _ => .set (.ok ())
  | .acceptRoot root => .set ((t.acceptRoot root).map fun _ => ())

end Topic

/-- The reply to an input that an answer makes. -/
def Input.reply : Input → Answer → Reply
  | .ingest .., .published (.ok c) => .ingested (.accepted c)
  | .ingest .., .published (.error e) => .ingested (.rejected s!"append failed: {e}")
  | _, .published outcome => .published outcome
  | _, .pruned outcome => .pruned outcome
  | _, .controlled reply => .controlled reply

namespace Topic

/-- Two topics with the same log, registry and streams. -/
structure Agrees (t t' : Topic) : Prop where
  nodeId : t'.nodeId = t.nodeId
  topic : t'.topic = t.topic
  writer : t'.writer = t.writer
  subs : t'.subs = t.subs
  streams : t'.streams = t.streams

theorem Agrees.refl (t : Topic) : Agrees t t := ⟨rfl, rfl, rfl, rfl, rfl⟩

/-- Appending does not look at the cache. -/
theorem appendAndFanout_dedup (t : Topic) (node : Answers) (msg : Message) (dedup : IdempotencyCache) :
    { t with dedup }.appendAndFanout node msg =
      ((t.appendAndFanout node msg).1, { (t.appendAndFanout node msg).2 with dedup }) := by
  rw [appendAndFanout, appendAndFanout]
  cases node.commitLog with
  | error e => rfl
  | ok u => cases node.live <;> rfl

/-- A remote publish is the call it comes to, or leaves the topic as it was. -/
theorem ingest_of_call (t : Topic) (node : Answers) (token : Nat) (payloadHex publisher : String)
    (now : Nat) :
    match t.call host (.ingest node token payloadHex publisher now) with
    | none => Agrees t (t.handleIngest host node token payloadHex publisher now).2
    | some c =>
      Reply.ingested (t.handleIngest host node token payloadHex publisher now).1 =
          Input.reply (.ingest node token payloadHex publisher now) (t.serve c).1 ∧
        Agrees (t.serve c).2 (t.handleIngest host node token payloadHex publisher now).2 := by
  rw [call, handleIngest]
  cases IngestRequest.decodeHex host.serde payloadHex with
  | error e => exact .refl t
  | ok req =>
    simp only [serveIngest]
    rcases t.dedup.get (dedupKey req token) now with ⟨_ | seen, cache⟩
    · have admits : ({ t with dedup := cache } : Topic).gate host node publisher abilityPublish req.grant
          now = t.gate host node publisher abilityPublish req.grant now := rfl
      simp only [applyIngest, admits]
      cases t.gate host node publisher abilityPublish req.grant now with
      | error why => exact ⟨rfl, rfl, rfl, rfl, rfl⟩
      | ok u =>
        cases ingestMessage host req publisher t.requireCap now with
        | error why => exact ⟨rfl, rfl, rfl, rfl, rfl⟩
        | ok msg =>
          simp only [appendAndFanout_dedup, serve]
          rcases t.appendAndFanout node msg with ⟨_ | c, t'⟩
          · exact ⟨rfl, rfl, rfl, rfl, rfl, rfl⟩
          · exact ⟨rfl, rfl, rfl, rfl, rfl, rfl⟩
    · cases seen <;> exact ⟨rfl, rfl, rfl, rfl, rfl⟩

/-- What an input that comes to no call leaves, and one that does. -/
theorem step_of_call (t : Topic) (i : Input) :
    match t.call host i with
    | none => Agrees t (t.step host i)
    | some c => t.reply host i = i.reply (t.serve c).1 ∧ Agrees (t.serve c).2 (t.step host i) := by
  cases i with
  | publish node payload now =>
    simp only [call, reply, step, publish]
    cases validatePayload payload with
    | error e => exact .refl t
    | ok u => exact ⟨rfl, .refl _⟩
  | publishWith node payload opts now =>
    simp only [call, reply, step, publishWith]
    cases validatePayload payload with
    | error e => exact .refl t
    | ok u =>
      cases opts.validate with
      | error e => exact .refl t
      | ok u => exact ⟨rfl, .refl _⟩
  | pruneTo node upTo => exact ⟨rfl, .refl _⟩
  | ingest node token payloadHex publisher now =>
    exact t.ingest_of_call host node token payloadHex publisher now
  | control node payloadHex requester now =>
    simp only [call, reply, step, handleControl]
    cases decodeControl host payloadHex with
    | error why => exact .refl t
    | ok req =>
      cases req with
      | highCursor grant => exact ⟨rfl, .refl t⟩
      | createSubscription | deleteSubscription | listSubscriptions | pull | ack | nack =>
        simp only
        cases t.gate host node requester abilitySubscribe _ now with
        | error why => exact .refl t
        | ok u => exact ⟨rfl, .refl _⟩
  | requirePublishCap require => exact ⟨rfl, rfl, rfl, rfl, rfl⟩
  | acceptRoot root =>
    simp only [call, step, acceptRoot]
    cases parseNodeId root with
    | error e => exact .refl t
    | ok id =>
      simp only [bind, Except.bind]
      split <;> exact ⟨rfl, rfl, rfl, rfl, rfl⟩

/-- An input that comes to a call answers and does what the call does. -/
theorem step_of_some {t : Topic} {i : Input} {c : Call} (comes : t.call host i = some c) :
    t.reply host i = i.reply (t.serve c).1 ∧ Agrees (t.serve c).2 (t.step host i) := by
  have stepped := t.step_of_call host i
  rwa [comes] at stepped

/-- An input that comes to no call changes nothing the broker has. -/
theorem step_of_none {t : Topic} {i : Input} (comes : t.call host i = none) :
    Agrees t (t.step host i) := by
  have stepped := t.step_of_call host i
  rwa [comes] at stepped

/-- A request that is decoded comes to a call on an open topic. -/
theorem call_control {t : Topic} {payloadHex : String} {req : ControlRequest}
    (decoded : decodeControl host payloadHex = .ok req) (ungated : t.requireCap = false)
    (node : Answers) (requester : String) (now : Nat) :
    t.call host (.control node payloadHex requester now) = some (.control node now req) := by
  rw [call, decoded]
  cases req <;> simp only [gate_of_ungated host ungated]

/-- The calls a run of inputs comes to. -/
def calls (t : Topic) : List Input → List Call
  | [] => []
  | i :: is => (t.call host i).toList ++ (t.step host i).calls is

/-- The calls of a run in two parts. -/
theorem calls_append (t : Topic) (is js : List Input) :
    t.calls host (is ++ js) = t.calls host is ++ (Run.run (step host) t is).calls host js := by
  induction is generalizing t with
  | nil => rfl
  | cons i is ih => rw [List.cons_append, calls, calls, ih, List.append_assoc, Run.run_cons]

end Topic

namespace Broker

/-- What a call leaves. -/
noncomputable def step (b : Broker) (c : Call) : Broker := (b.serve c).2

/-- The broker after a run of calls. -/
noncomputable def after (calls : List Call) : Broker := Run.run step {} calls

/-- The broker after two runs of calls. -/
theorem after_append (calls more : List Call) : after (calls ++ more) = Run.run step (after calls) more :=
  Run.run_append step {} calls more

variable {host}

/-- Topics that agree represent the same broker. -/
theorem Represents.agrees {t t' : Topic} {b : Broker} (h : Represents t b) (same : Topic.Agrees t t') :
    Represents t' b := by
  refine ⟨same.writer ▸ h.log, same.subs ▸ h.subs, ?_, ?_⟩
  · rw [same.streams, same.topic, same.nodeId, h.live]
  · rw [same.streams, same.topic, same.nodeId, h.dead]

/-- **One input of the owner** is at most one call of the broker. -/
theorem Represents.step {t : Topic} {b : Broker} (h : Represents t b) (i : Input) :
    Represents (t.step host i) (Run.run Broker.step b (t.call host i).toList) := by
  cases comes : t.call host i with
  | none => exact h.agrees (Topic.step_of_none host comes)
  | some c => exact (h.serve c).2.agrees (Topic.step_of_some host comes).2

/-- A whole run of the topic is a run of the broker. -/
theorem Represents.run {t : Topic} {b : Broker} (h : Represents t b) (is : List Input) :
    Represents (Run.run (Topic.step host) t is) (Run.run Broker.step b (t.calls host is)) := by
  induction is generalizing t b with
  | nil => exact h
  | cons i is ih =>
    rw [Topic.calls, Run.run_append, Run.run_cons]
    exact ih (h.step i)

end Broker

/-- **The owner is a broker.** In every run of the owner, whatever it is sent and however the calls
outside turn out, the log is the journal of what was published, and every reply to an input that passes
the owner's checks is what the broker answers there. -/
theorem owner_is_broker {nodeId topic : String} {t : Topic} (new : Topic.create nodeId topic = .ok t)
    (is : List Input) :
    Broker.Represents (Run.run (Topic.step host) t is) (Broker.after (t.calls host is)) ∧
      ∀ i c, (Run.run (Topic.step host) t is).call host i = some c →
        (Run.run (Topic.step host) t is).reply host i =
          i.reply ((Broker.after (t.calls host is)).serve c).1 := by
  have stands : Broker.Represents (Run.run (Topic.step host) t is) (Broker.after (t.calls host is)) :=
    (Broker.Represents.new new).run is
  refine ⟨stands, fun i c comes => ?_⟩
  rw [(Topic.step_of_some host comes).1, (stands.serve c).1]

end CePubsub
