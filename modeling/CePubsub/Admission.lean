import CePubsub.Topic
import Mathlib.Logic.Function.Basic

/-!
# Publishes and ingest requests in flight (`lib.rs`)

`publish`, `publish_with` and `handle_ingest` as the owner takes them, a step at a time: any number of
calls, and between any two steps of one the steps of the others, a prune, a switch of the gate or a
new root. A step is what a call does without letting another in: it looks its key up, reads the gate,
asks for the revocation set, reads the roots and verifies, reads the next cursor, proposes, broadcasts,
records its outcome.

`origins` is kept for the laws: for every append, in order, the call that made it and on whose account.
A call taken alone is `Topic.handleIngest`.
-/

namespace CePubsub

/-- What an ingest call keeps of its request. -/
structure IngestCall where
  req : IngestRequest
  publisher : String
  now : Nat
  key : String

/-- What a grant was verified with. -/
structure Admission where
  token : String
  requester : NodeId
  selfId : NodeId
  roots : List NodeId
  revoked : List (NodeId × Nat)

/-- The check of a grant for publishing on a topic, in the call it was presented in. -/
def Admission.verify {Link : Type} (host : Host Link) (topic : String) (c : IngestCall) (a : Admission) :
    Except String Unit :=
  verifyLink host.iam a.selfId a.roots [] c.now a.requester abilityPublish topic a.token
    fun issuer nonce => a.revoked.any fun (i, n) => decide (i = issuer ∧ n = nonce)

/-- On whose account a message is appended: the owner's, or an ingest call's, with what it read of the
gate and the grant it verified. -/
inductive Author where
  | owner
  | ingest (call : IngestCall) (gate : Bool) (admission : Option Admission)

/-- Where a call has got to. -/
inductive CallPhase where
  | gate (c : IngestCall)
  | revocation (c : IngestCall) (token : String)
  | roots (c : IngestCall) (token : String) (requester selfId : NodeId) (revoked : List (NodeId × Nat))
  | checked (who : Author) (msg : Message)
  | stamped (who : Author) (msg : Message)
  | appended (who : Author) (msg : Message)
  | outcome (c : IngestCall) (result : Except String Nat)
  | replied (reply : IngestReply)
  | returned (result : Except String Nat)

/-- The append a message came with: the call that made it, and its author. -/
structure Origin where
  call : Nat
  who : Author

/-- The topic, the calls on it, and where its messages came from. -/
structure Serving where
  topic : Topic
  calls : Nat → Option CallPhase := fun _ => none
  origins : List Origin := []

/-- A call is made or takes its next step, or the owner changes the topic in between. -/
inductive ServingAct where
  | ingest (call token : Nat) (payloadHex publisher : String) (now : Nat)
  | publish (call : Nat) (payload : Bytes) (now : Nat)
  | publishWith (call : Nat) (payload : Bytes) (opts : PublishOptions) (now : Nat)
  | next (call : Nat) (node : Answers)
  | pruneTo (node : Answers) (upTo : Nat)
  | requirePublishCap (require : Bool)
  | acceptRoot (root : String)

namespace Serving

variable {Link : Type} (host : Host Link)

def enter (s : Serving) (call : Nat) (phase : CallPhase) : Serving :=
  { s with calls := Function.update s.calls call (some phase) }

/-- A request arrives: it is decoded, and its key looked up. -/
def arrive (s : Serving) (call token : Nat) (payloadHex publisher : String) (now : Nat) : Serving :=
  match IngestRequest.decodeHex host.serde payloadHex with
  | .error e => s.enter call (.replied (.rejected s!"bad request: {e}"))
  | .ok req =>
    let key := Topic.dedupKey req token
    match s.topic.dedup.get key now with
    | (some (.cursor c), cache) =>
      { s with topic := { s.topic with dedup := cache } }.enter call (.replied (.accepted c))
    | (some .handled, cache) =>
      { s with topic := { s.topic with dedup := cache } }.enter call
        (.replied (.rejected "duplicate request"))
    | (none, cache) =>
      { s with topic := { s.topic with dedup := cache } }.enter call
        (.gate { req, publisher, now, key })

/-- The checks made of an admitted request. -/
def check (c : IngestCall) (gate : Bool) (admission : Option Admission) : CallPhase :=
  match Topic.ingestMessage host c.req c.publisher admission.isSome c.now with
  | .error why => .outcome c (.error why)
  | .ok msg => .checked (.ingest c gate admission) msg

/-- The call learns how its append turned out. -/
def settle (who : Author) (result : Except String Nat) : CallPhase :=
  match who with
  | .owner => .returned result
  | .ingest c _ _ => .outcome c (result.mapError fun e => s!"append failed: {e}")

def replyOf : Except String Nat → IngestReply
  | .ok c => .accepted c
  | .error why => .rejected why

/-- The gate is read: open, or a grant is asked for. -/
def readGate (s : Serving) (call : Nat) (c : IngestCall) : Serving :=
  if s.topic.requireCap then
    match c.req.grant with
    | none => s.enter call (.outcome c
        (.error s!"topic requires a {abilityPublish} capability but none was presented"))
    | some token => s.enter call (.revocation c token)
  else s.enter call (check host c false none)

/-- The ids are read, and the revocation set asked for. -/
def readRevoked (s : Serving) (call : Nat) (node : Answers) (c : IngestCall) (token : String) :
    Serving :=
  match parseNodeId c.publisher, parseNodeId s.topic.nodeId, Topic.fetchRevoked node with
  | .error e, _, _ => s.enter call (.outcome c (.error s!"bad publisher node id: {e}"))
  | .ok _, .error e, _ => s.enter call (.outcome c (.error s!"bad owner node id: {e}"))
  | .ok _, .ok _, .error e =>
    s.enter call (.outcome c (.error s!"cannot verify revocation (fail-closed): {e}"))
  | .ok requester, .ok selfId, .ok revoked =>
    s.enter call (.roots c token requester selfId revoked)

/-- The roots are read, and the grant verified. -/
def readRoots (s : Serving) (call : Nat) (c : IngestCall) (a : Admission) : Serving :=
  let a := { a with roots := s.topic.acceptedRoots }
  match a.verify host s.topic.topic c with
  | .error why => s.enter call (.outcome c (.error why))
  | .ok () => s.enter call (check host c true (some a))

/-- The append is proposed. -/
def propose (s : Serving) (call : Nat) (node : Answers) (who : Author) (msg : Message) : Serving :=
  match node.commitLog with
  | .error e => s.enter call (settle who (.error s!"durable append: {e}"))
  | .ok () =>
    { s with
      topic := { s.topic with writer := s.topic.writer.apply (.append msg) }
      origins := s.origins ++ [Origin.mk call who] }.enter call (.appended who msg)

/-- A call's next step. -/
def next (s : Serving) (call : Nat) (node : Answers) : Serving :=
  match s.calls call with
  | none => s
  | some (.gate c) => s.readGate host call c
  | some (.revocation c token) => s.readRevoked call node c token
  | some (.roots c token requester selfId revoked) =>
    s.readRoots host call c { token, requester, selfId, roots := [], revoked }
  | some (.checked who msg) =>
    s.enter call (.stamped who { msg with cursor := s.topic.writer.nextCursor })
  | some (.stamped who msg) => s.propose call node who msg
  | some (.appended who msg) =>
    { s with
      topic :=
        if node.live then s.topic.broadcast (streamName s.topic.topic s.topic.nodeId) msg
        else s.topic }.enter call (settle who (.ok msg.cursor))
  | some (.outcome c result) =>
    { s with
      topic :=
        { s.topic with
          dedup := s.topic.dedup.insert c.key (Topic.seenOf result) c.now } }.enter call
      (.replied (replyOf result))
  | some (.replied _) => s
  | some (.returned _) => s

/-- The owner publishes, if what it publishes passes the checks. -/
def offer (s : Serving) (call : Nat) (checks : Except String Unit) (msg : Message) : Serving :=
  match checks with
  | .error e => s.enter call (.returned (.error e))
  | .ok () => s.enter call (.checked .owner msg)

/-- One step. A call is made under a number no call has had. -/
def step (s : Serving) : ServingAct → Serving
  | .ingest call token payloadHex publisher now =>
    if (s.calls call).isSome then s else s.arrive host call token payloadHex publisher now
  | .publish call payload now =>
    if (s.calls call).isSome then s
    else s.offer call (validatePayload payload)
      ((Message.new 0 s.topic.nodeId payload now).authenticated true)
  | .publishWith call payload opts now =>
    if (s.calls call).isSome then s
    else s.offer call (do validatePayload payload; opts.validate)
      { (Message.new 0 s.topic.nodeId payload now).authenticated true with
        orderingKey := opts.orderingKey
        attributes := opts.attributes }
  | .next call node => s.next host call node
  | .pruneTo node upTo => { s with topic := (s.topic.pruneTo node upTo).2 }
  | .requirePublishCap require => { s with topic := s.topic.requirePublishCap require }
  | .acceptRoot root => { s with topic := (s.topic.acceptRoot root).toOption.getD s.topic }

end Serving

end CePubsub
