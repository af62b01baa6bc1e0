import CePubsub.Caps
import CePubsub.Dedup
import CePubsub.Log

/-!
# The topic owner (`lib.rs`)

The writer side of one topic: the durable log and the subscription registry the owner keeps, its
de-duplication cache, and what it does for its own publishes, for a remote publisher's ingest request
and for a consumer's control request.

What the owner calls outside the source is of two kinds. `Host` is code: the JSON readers, the hex
error texts and the capability library. `Answers` is how the calls to the local node and to
`ce-coord` turn out during one call: the revocation set, or none if it cannot be fetched; whether a
proposal commits; whether a broadcast goes through. A proposal that fails leaves its machine as it
was. The streams the owner broadcasts on are kept by name, with the messages published on them.
-/

namespace CePubsub

def dedupCapacity : Nat := 16384

def dedupTtlSecs : Nat := 3600

/-- What the crate is linked with: its JSON and its capabilities. -/
structure Host (Link : Type) where
  serde : Serde
  iam : Iam Link

/-- How the calls the owner makes outside turn out. -/
structure Answers where
  /-- The revoked (issuer, nonce) pairs, if the node can be asked. -/
  revoked : Option (List (String × Nat)) := some []
  commitLog : Except String Unit := .ok ()
  commitSubs : Except String Unit := .ok ()
  live : Bool := true
  deadLetterStream : Bool := true
  deadLetter : Message → Bool := fun _ => true

/-- The state behind a topic handle. -/
structure Topic where
  nodeId : String
  topic : String
  writer : TopicLog := {}
  subs : SubRegistry := {}
  streams : BTreeMap String (List Message) := ∅
  acceptedRoots : List NodeId := []
  requireCap : Bool := false
  dedup : IdempotencyCache := .new dedupCapacity dedupTtlSecs

/-- A node id: 32 bytes in hex. -/
def parseNodeId (hexId : String) : Except String NodeId :=
  match Hex.decode (Text.trim hexId) with
  | .error _ => .error "node id is not valid hex"
  | .ok bytes =>
    if h : bytes.length = 32 then .ok ⟨bytes, h⟩
    else .error "node id must be 32 bytes (64 hex chars)"

/-- The stream a topic's messages are broadcast on: its name and its owner's. -/
def streamName (topic owner : String) : String := s!"{liveTopic topic}@{owner}"

namespace Topic

/-- A topic as its owner creates it. -/
def create (nodeId topic : String) : Except String Topic := do
  validateTopic topic
  .ok { nodeId, topic }

/-- The last cursor given out. -/
def highCursor (t : Topic) : Nat := t.writer.highCursor

def requirePublishCap (t : Topic) (require : Bool) : Topic := { t with requireCap := require }

def acceptRoot (t : Topic) (root : String) : Except String Topic := do
  let id ← parseNodeId root
  .ok (if id ∈ t.acceptedRoots then t else { t with acceptedRoots := t.acceptedRoots ++ [id] })

/-- Publish on the stream of a name. -/
def broadcast (t : Topic) (stream : String) (m : Message) : Topic :=
  { t with streams := t.streams.insert stream (t.streams.getD stream [] ++ [m]) }

/-! ## Publishing -/

/-- Stamp the next cursor, append, then broadcast what was stamped. -/
def appendAndFanout (t : Topic) (node : Answers) (msg : Message) : Except String Nat × Topic :=
  let cursor := t.writer.nextCursor
  let msg := { msg with cursor }
  match node.commitLog with
  | .error e => (.error s!"durable append: {e}", t)
  | .ok () =>
    let t := { t with writer := t.writer.apply (.append msg) }
    (.ok cursor, if node.live then t.broadcast (streamName t.topic t.nodeId) msg else t)

/-- The owner's own publish. -/
def publish (t : Topic) (node : Answers) (payload : Bytes) (now : Nat) : Except String Nat × Topic :=
  match validatePayload payload with
  | .error e => (.error e, t)
  | .ok () => t.appendAndFanout node ((Message.new 0 t.nodeId payload now).authenticated true)

def publishWith (t : Topic) (node : Answers) (payload : Bytes) (opts : PublishOptions) (now : Nat) :
    Except String Nat × Topic :=
  match validatePayload payload, opts.validate with
  | .error e, _ => (.error e, t)
  | .ok (), .error e => (.error e, t)
  | .ok (), .ok () =>
    t.appendAndFanout node
      { (Message.new 0 t.nodeId payload now).authenticated true with
        orderingKey := opts.orderingKey
        attributes := opts.attributes }

/-- Forget everything up to a cursor. -/
def pruneTo (t : Topic) (node : Answers) (upTo : Nat) : Except String Unit × Topic :=
  match node.commitLog with
  | .error e => (.error s!"prune: {e}", t)
  | .ok () => (.ok (), { t with writer := t.writer.apply (.pruneTo upTo) })

/-! ## Authorizing -/

variable {Link : Type} (host : Host Link)

/-- The revoked set as node ids; entries that are no node id are left out. -/
def fetchRevoked (node : Answers) : Except String (List (NodeId × Nat)) :=
  match node.revoked with
  | none => .error "querying on-chain revocation set"
  | some set => .ok <| set.filterMap fun (issuerHex, nonce) =>
      match parseNodeId issuerHex with
      | .ok id => some (id, nonce)
      | .error _ => none

/-- Verify a grant for an ability on this topic. -/
def authorize (t : Topic) (node : Answers) (requesterHex ability token : String) (now : Nat) :
    Except String Unit := do
  let requester ← (parseNodeId requesterHex).mapError fun e => s!"bad publisher node id: {e}"
  let selfId ← (parseNodeId t.nodeId).mapError fun e => s!"bad owner node id: {e}"
  let revoked ← (fetchRevoked node).mapError fun e =>
    s!"cannot verify revocation (fail-closed): {e}"
  verifyLink host.iam selfId t.acceptedRoots [] now requester ability t.topic token
    fun issuer nonce => revoked.any fun (i, n) => decide (i = issuer ∧ n = nonce)

/-- The gate on a request: open, or a grant that verifies. -/
def gate (t : Topic) (node : Answers) (requesterHex ability : String) (grant : Option String)
    (now : Nat) : Except String Unit :=
  if t.requireCap then
    match grant with
    | none => .error s!"topic requires a {ability} capability but none was presented"
    | some token => t.authorize host node requesterHex ability token now
  else .ok ()

/-! ## The ingest path -/

/-- The message a request asks for, if its ordering key, attributes and payload pass. -/
def ingestMessage (req : IngestRequest) (publisher : String) (authenticated : Bool) (now : Nat) :
    Except String Message := do
  match orderingKeyTooLong req.orderingKey with
  | some n => .error s!"ordering key too long ({n} bytes)"
  | none => .ok ()
  validateAttributes req.attributes
  let payload ← (Hex.decode req.payloadHex).mapError fun e =>
    s!"bad payload hex: {host.serde.hexError e}"
  validatePayload payload
  .ok { (Message.new 0 publisher payload now).authenticated authenticated with
    orderingKey := req.orderingKey
    attributes := req.attributes }

/-- Authorize, check and append one request. -/
def applyIngest (t : Topic) (node : Answers) (req : IngestRequest) (publisher : String) (now : Nat) :
    Except String Nat × Topic :=
  match t.gate host node publisher abilityPublish req.grant now with
  | .error why => (.error why, t)
  | .ok () =>
    match ingestMessage host req publisher t.requireCap now with
    | .error why => (.error why, t)
    | .ok msg =>
      match t.appendAndFanout node msg with
      | (.error e, t) => (.error s!"append failed: {e}", t)
      | (.ok c, t) => (.ok c, t)

/-- The key a request is de-duplicated under. -/
def dedupKey (req : IngestRequest) (token : Nat) : String :=
  match req.idempotencyKey with
  | some k => k
  | none => s!"tok:{token}"

/-- What the cache remembers of an outcome. -/
def seenOf : Except String Nat → Seen
  | .ok c => .cursor c
  | .error _ => .handled

/-- De-duplicate, then authorize and apply one decoded request. -/
def serveIngest (t : Topic) (node : Answers) (token : Nat) (req : IngestRequest) (publisher : String)
    (now : Nat) : IngestReply × Topic :=
  match t.dedup.get (dedupKey req token) now with
  | (some (.cursor c), cache) => (.accepted c, { t with dedup := cache })
  | (some .handled, cache) => (.rejected "duplicate request", { t with dedup := cache })
  | (none, cache) =>
    let (outcome, t) := { t with dedup := cache }.applyIngest host node req publisher now
    let t := { t with dedup := t.dedup.insert (dedupKey req token) (seenOf outcome) now }
    match outcome with
    | .ok c => (.accepted c, t)
    | .error why => (.rejected why, t)

/-- Decode and serve one ingest request. -/
def handleIngest (t : Topic) (node : Answers) (token : Nat) (payloadHex publisher : String)
    (now : Nat) : IngestReply × Topic :=
  match IngestRequest.decodeHex host.serde payloadHex with
  | .error e => (.rejected s!"bad request: {e}", t)
  | .ok req => t.serveIngest host node token req publisher now

/-! ## The control path -/

/-- Propose to the registry. -/
def proposeSubs (t : Topic) (node : Answers) (what : String) (op : SubOp) : ControlReply × Topic :=
  match node.commitSubs with
  | .ok () => (.ok, { t with subs := t.subs.apply op })
  | .error e => (.rejected s!"{what} failed: {e}", t)

/-- Republish dead-lettered messages, those still retained, on the dead-letter stream. -/
def routeDeadLetters (t : Topic) (node : Answers) (cursors : List Nat) : Topic :=
  let stream := streamName (deadLetterTopic t.topic) t.nodeId
  if node.deadLetterStream then
    ((cursors.filterMap t.writer.get).filter node.deadLetter).foldl (·.broadcast stream) t
  else t

/-- The leased messages, those still retained. -/
def resolve (t : Topic) (leased : List (Nat × UInt32)) : List LeasedMessage :=
  leased.filterMap fun (cursor, attempt) =>
    (t.writer.get cursor).map fun message => { message, deliveryAttempt := attempt }

/-- Plan a lease, commit it, route what it dead-letters and reply with what it hands out. -/
def handleLease (t : Topic) (node : Answers) (name : String) (maxMessages now : Nat) :
    ControlReply × Topic :=
  if (t.subs.get name).isNone then (.rejected s!"no such subscription '{name}'", t)
  else
    match t.subs.planLease name t.writer.highCursor t.writer.floor now maxMessages with
    | none => (.pulled [], t)
    | some (op, outcome) =>
      match node.commitSubs with
      | .error e => (.rejected s!"lease failed: {e}", t)
      | .ok () =>
        let t := { t with subs := t.subs.apply op }
        let t := if outcome.deadLettered.isEmpty then t else t.routeDeadLetters node outcome.deadLettered
        (.pulled (t.resolve outcome.leased), t)

/-- Apply a control request that has been admitted. -/
def serveControl (t : Topic) (node : Answers) (now : Nat) : ControlRequest → ControlReply × Topic
  | .highCursor _ => (.high t.writer.highCursor, t)
  | .createSubscription name policy _ =>
    match policy.validate, validateTopic name with
    | .error e, _ => (.rejected s!"invalid policy: {e}", t)
    | .ok (), .error e => (.rejected s!"invalid subscription name: {e}", t)
    | .ok (), .ok () =>
      if t.subs.atCapacity name then (.rejected "subscription limit reached", t)
      else t.proposeSubs node "create" (.create name policy)
  | .deleteSubscription name _ => t.proposeSubs node "delete" (.delete name)
  | .listSubscriptions _ => (.subscriptions t.subs.names, t)
  | .pull name maxMessages _ => t.handleLease node name maxMessages now
  | .ack name cursor _ =>
    if (t.subs.get name).isNone then (.rejected s!"no such subscription '{name}'", t)
    else t.proposeSubs node "ack" (.ack name cursor)
  | .nack name cursor _ =>
    if (t.subs.get name).isNone then (.rejected s!"no such subscription '{name}'", t)
    else t.proposeSubs node "nack" (.nack name cursor)

/-- The request a control message carries. -/
def decodeControl (payloadHex : String) : Except String ControlRequest :=
  match Hex.decode payloadHex with
  | .error e => .error s!"bad request hex: {host.serde.hexError e}"
  | .ok bytes =>
    (ControlRequest.decode host.serde bytes).mapError fun e => s!"bad request body: {e}"

/-- Decode, authorize and apply one control request. The high cursor is given to anybody. -/
def handleControl (t : Topic) (node : Answers) (payloadHex requester : String) (now : Nat) :
    ControlReply × Topic :=
  match decodeControl host payloadHex with
  | .error why => (.rejected why, t)
  | .ok (.highCursor _) => (.high t.writer.highCursor, t)
  | .ok req =>
    match t.gate host node requester abilitySubscribe req.grant now with
    | .error why => (.rejected why, t)
    | .ok () => t.serveControl node now req

end Topic

end CePubsub
