import CePubsub.Lib.Json
import CePubsub.Subscription

/-!
# The wire protocol (`protocol.rs`)

The requests a publisher or a consumer sends a topic's owner, the owner's replies, their JSON and the
bounds the decoders put on its size. The writer is `serde_json`'s compact one, with the field order
and the omissions the source's `serde` attributes ask for; it does not fail on these types. The
readers are not in the source: `Serde` stands for what `serde_json::from_slice` makes of each type,
and for the texts `hex` gives its errors.
-/

namespace CePubsub

/-- Bound on a decoded control-request body. -/
def maxControlBodyBytes : Nat := 64 * 1024

/-- Bound on an ingest request's hex text, and on a control reply. -/
def maxIngestHexBytes : Nat := 2 * maxPayloadBytes + 64 * 1024

/-- Bound on an idempotency key, in bytes. -/
def maxIdempotencyKeyLen : Nat := 256

/-- A request to publish: the payload in hex, and what goes with it. -/
structure IngestRequest where
  payloadHex : String
  grant : Option String
  idempotencyKey : Option String
  orderingKey : Option String
  attributes : BTreeMap String String
deriving DecidableEq

/-- The owner's reply to it: the cursor the message has, or why it has none. -/
inductive IngestReply where
  | accepted (c : Nat)
  | rejected (why : String)
deriving DecidableEq

/-- What a consumer asks of a subscription, or of the topic. All but the grant is read after the gate. -/
inductive ControlRequest where
  | createSubscription (name : String) (policy : SubscriptionPolicy) (grant : Option String)
  | deleteSubscription (name : String) (grant : Option String)
  | listSubscriptions (grant : Option String)
  | highCursor (grant : Option String)
  | pull (name : String) (maxMessages : Nat) (grant : Option String)
  | ack (name : String) (cursor : Nat) (grant : Option String)
  | nack (name : String) (cursor : Nat) (grant : Option String)
deriving DecidableEq

/-- The capability grant a request carries. -/
def ControlRequest.grant : ControlRequest → Option String
  | .createSubscription _ _ grant | .deleteSubscription _ grant | .listSubscriptions grant
  | .highCursor grant | .pull _ _ grant | .ack _ _ grant | .nack _ _ grant => grant

/-- A leased message with its delivery attempt, `1` on the first. -/
structure LeasedMessage where
  message : Message
  deliveryAttempt : UInt32
deriving DecidableEq

/-- The owner's reply to a consumer. -/
inductive ControlReply where
  | ok
  | high (c : Nat)
  | subscriptions (names : List String)
  | pulled (leased : List LeasedMessage)
  | rejected (why : String)
deriving DecidableEq

/-- What is read with code from outside: JSON, type by type, and the texts of hex errors. -/
structure Serde where
  ingestRequest : Bytes → Except String IngestRequest
  ingestReply : Bytes → Except String IngestReply
  controlRequest : Bytes → Except String ControlRequest
  controlReply : Bytes → Except String ControlReply
  hexError : Hex.FromHexError → String

/-! ## Writing -/

/-- A field left out when it is `none`. -/
def optionalField (key : String) : Option String → List (String × Json)
  | some s => [(key, .str s)]
  | none => []

/-- A map of strings, left out when it is empty. -/
def mapField (key : String) (m : BTreeMap String String) : List (String × Json) :=
  if m.isEmpty then [] else [(key, .obj (m.toList.map fun (k, v) => (k, .str v)))]

/-- A message as it is written in a reply. -/
def Message.toJson (m : Message) : Json :=
  .obj ([("cursor", .num m.cursor), ("publisher", .str m.publisher),
      ("payload_hex", .str m.payloadHex), ("published_at", .num m.publishedAt)] ++
    optionalField "ordering_key" m.orderingKey ++ mapField "attributes" m.attributes ++
    [("publisher_authenticated", .bool m.publisherAuthenticated)])

/-- A leased message, with its attempt. -/
def LeasedMessage.toJson (l : LeasedMessage) : Json :=
  .obj [("message", l.message.toJson), ("delivery_attempt", .num l.deliveryAttempt.toNat)]

/-- Four of the five fields are left out when there is nothing in them. -/
def IngestRequest.toJson (r : IngestRequest) : Json :=
  .obj ([("payload_hex", .str r.payloadHex)] ++ optionalField "grant" r.grant ++
    optionalField "idempotency_key" r.idempotencyKey ++
    optionalField "ordering_key" r.orderingKey ++ mapField "attributes" r.attributes)

/-- The variant names the one field. -/
def IngestReply.toJson : IngestReply → Json
  | .accepted c => .obj [("Accepted", .num c)]
  | .rejected why => .obj [("Rejected", .str why)]

/-- A policy as it is written in a request. -/
def SubscriptionPolicy.toJson (p : SubscriptionPolicy) : Json :=
  .obj [("ack_deadline_secs", .num p.ackDeadlineSecs),
    ("max_delivery_attempts", .num p.maxDeliveryAttempts.toNat)]

/-- A grant, written out as `null` when there is none. -/
def grantField : Option String → String × Json
  | some s => ("grant", .str s)
  | none => ("grant", .null)

/-- The variant names an object, whose last field is the grant. -/
def ControlRequest.toJson : ControlRequest → Json
  | .createSubscription name policy grant => .obj [("CreateSubscription",
      .obj [("name", .str name), ("policy", policy.toJson), grantField grant])]
  | .deleteSubscription name grant => .obj [("DeleteSubscription",
      .obj [("name", .str name), grantField grant])]
  | .listSubscriptions grant => .obj [("ListSubscriptions", .obj [grantField grant])]
  | .highCursor grant => .obj [("HighCursor", .obj [grantField grant])]
  | .pull name maxMessages grant => .obj [("Pull",
      .obj [("name", .str name), ("max_messages", .num maxMessages), grantField grant])]
  | .ack name cursor grant => .obj [("Ack",
      .obj [("name", .str name), ("cursor", .num cursor), grantField grant])]
  | .nack name cursor grant => .obj [("Nack",
      .obj [("name", .str name), ("cursor", .num cursor), grantField grant])]

/-- `Ok` has no fields and is a string. -/
def ControlReply.toJson : ControlReply → Json
  | .ok => .str "Ok"
  | .high c => .obj [("High", .num c)]
  | .subscriptions names => .obj [("Subscriptions", .arr (names.map .str))]
  | .pulled leased => .obj [("Pulled", .arr (leased.map LeasedMessage.toJson))]
  | .rejected why => .obj [("Rejected", .str why)]

/-- The bytes a publisher sends. -/
def IngestRequest.encode (r : IngestRequest) : Bytes := r.toJson.bytes

/-- The bytes it is sent back. -/
def IngestReply.encode (r : IngestReply) : Bytes := r.toJson.bytes

/-- The bytes a consumer sends. -/
def ControlRequest.encode (r : ControlRequest) : Bytes := r.toJson.bytes

/-- The bytes it is sent back. -/
def ControlReply.encode (r : ControlReply) : Bytes := r.toJson.bytes

/-- What a field that may be left out adds to its object. -/
theorem membersSize_optionalField (key : String) (o : Option String) :
    Json.membersSize (optionalField key o) =
      match o with
      | some s => Json.quotedSize key + Json.quotedSize s + 2
      | none => 0 := by
  cases o with
  | none => rfl
  | some s =>
    simp only [optionalField, Json.membersSize_cons, Json.membersSize_nil, Json.fieldSize,
      Json.size_str]
    omega

/-- What a map that may be left out adds to its object. -/
theorem membersSize_mapField (key : String) (m : BTreeMap String String) :
    Json.membersSize (mapField key m) =
      if m.isEmpty then 0
      else Json.quotedSize key + (Json.obj (m.toList.map fun (k, v) => (k, .str v))).size + 2 := by
  rw [mapField]
  split
  · rfl
  · simp only [Json.membersSize_cons, Json.membersSize_nil, Json.fieldSize]
    omega

/-- The bytes are counted on the JSON. -/
theorem IngestRequest.length_encode (r : IngestRequest) : r.encode.length = r.toJson.size :=
  Json.length_bytes _

theorem ControlRequest.length_encode (r : ControlRequest) : r.encode.length = r.toJson.size :=
  Json.length_bytes _

theorem ControlReply.length_encode (r : ControlReply) : r.encode.length = r.toJson.size :=
  Json.length_bytes _

/-! ## Reading -/

variable (serde : Serde)

/-- The size is bounded before the JSON is read, and the payload and the key after. -/
def IngestRequest.decode (bytes : Bytes) : Except String IngestRequest := do
  if bytes.length > maxIngestHexBytes then
    .error s!"ingest request too large ({bytes.length} bytes)"
  let req ← serde.ingestRequest bytes
  if req.payloadHex.utf8ByteSize > maxIngestHexBytes then
    .error s!"ingest payload hex too large ({req.payloadHex.utf8ByteSize} bytes)"
  match req.idempotencyKey with
  | some k =>
    if k.utf8ByteSize > maxIdempotencyKeyLen then
      .error s!"idempotency key too long ({k.utf8ByteSize} bytes)"
    else .ok req
  | none => .ok req

/-- The owner's entry point: the request as it arrives, in hex. -/
def IngestRequest.decodeHex (payloadHex : String) : Except String IngestRequest :=
  if payloadHex.utf8ByteSize > maxIngestHexBytes then
    .error s!"ingest request hex too large ({payloadHex.utf8ByteSize} bytes)"
  else
    match Hex.decode payloadHex with
    | .error e => .error (serde.hexError e)
    | .ok bytes => IngestRequest.decode serde bytes

/-- A reply to a publisher has no bound on its size. -/
def IngestReply.decode (bytes : Bytes) : Except String IngestReply := serde.ingestReply bytes

/-- A control request is read if its body is within the bound. -/
def ControlRequest.decode (bytes : Bytes) : Except String ControlRequest :=
  if bytes.length > maxControlBodyBytes then
    .error s!"control request too large ({bytes.length} bytes)"
  else serde.controlRequest bytes

/-- So is a control reply, with the bound on an ingest request. -/
def ControlReply.decode (bytes : Bytes) : Except String ControlReply :=
  if bytes.length > maxIngestHexBytes then
    .error s!"control reply too large ({bytes.length} bytes)"
  else serde.controlReply bytes

end CePubsub
