import CePubsub.Lib.JsonText
import CePubsub.Lib.Variants
import CePubsub.Protocol
import CePubsub.Snapshot

/-!
# Reading the wire (`protocol.rs`)

The formats of the requests and the replies, variant by variant and field by field in the order of
their declarations, and readers of their bytes. A grant without an attribute is written as `null` when
there is none; the fields of an ingest request that may be missing are left out.

`Serde.compact` is one `Serde` that reads what the writers write. It is no model of `serde_json`, which
takes more texts than these.
-/

namespace CePubsub

/-- A leased message in a reply. -/
def LeasedMessage.format : Format LeasedMessage :=
  .struct
    (.field (·.message) (.required "message" Message.format) <|
      .field (·.deliveryAttempt) (.required "delivery_attempt" .uint32)
      .done)
    (fun (message, deliveryAttempt, ()) => ⟨message, deliveryAttempt⟩) (by decide) fun _ => rfl

/-- Attributes that were left out were empty. -/
theorem attributes_empty (attributes : BTreeMap String String) (left : attributes.isEmpty = true) :
    attributes = ∅ :=
  Std.ExtTreeMap.isEmpty_iff.mp left

/-- A request to publish. Only the payload is required. -/
def IngestRequest.format : Format IngestRequest :=
  .struct
    (.field (·.payloadHex) (.required "payload_hex" .str) <|
      .field (·.grant) (.optional "grant" .str Format.str_ne_null) <|
      .field (·.idempotencyKey) (.optional "idempotency_key" .str Format.str_ne_null) <|
      .field (·.orderingKey) (.optional "ordering_key" .str Format.str_ne_null) <|
      .field (·.attributes)
        (.skipped "attributes" (.map .str .str) (·.isEmpty) ∅ attributes_empty)
      .done)
    (fun (payloadHex, grant, idempotencyKey, orderingKey, attributes, ()) =>
      ⟨payloadHex, grant, idempotencyKey, orderingKey, attributes⟩)
    (by decide) fun _ => rfl

/-- The reply to it, by its variant. -/
def IngestReply.format : Format IngestReply :=
  .enum
    (.variant "Accepted" .nat <|
      .variant "Rejected" .str
      .done)
    (fun
      | .accepted c => .inl c
      | .rejected why => .inr (.inl why))
    (fun
      | .inl c => .accepted c
      | .inr (.inl why) => .rejected why)
    (by decide) fun r => by cases r <;> rfl

/-- The fields of a request that carries a grant and nothing else. -/
def grantFormat : Format (Option String) :=
  .struct (.field id (.nullable "grant" .str Format.str_ne_null) .done) (fun (grant, ()) => grant)
    (by decide)
    fun _ => rfl

/-- The fields of a request that names a subscription. -/
def namedFormat : Format (String × Option String) :=
  .struct
    (.field (·.1) (.required "name" .str) <|
      .field (·.2) (.nullable "grant" .str Format.str_ne_null)
      .done)
    (fun (name, grant, ()) => (name, grant)) (by decide) fun _ => rfl

/-- The fields of a request that names a subscription, and one more. -/
def namedWithFormat {α : Type} (key : String) (f : Format α)
    (distinct : ["name", key, "grant"].Nodup) : Format (String × α × Option String) :=
  .struct
    (.field (·.1) (.required "name" .str) <|
      .field (·.2.1) (.required key f) <|
      .field (·.2.2) (.nullable "grant" .str Format.str_ne_null)
      .done)
    (fun (name, a, grant, ()) => (name, a, grant)) distinct fun _ => rfl

/-- The seven control requests, by what they hold. -/
def ControlRequest.format : Format ControlRequest :=
  .enum
    (.variant "CreateSubscription" (namedWithFormat "policy" SubscriptionPolicy.format (by decide)) <|
      .variant "DeleteSubscription" namedFormat <|
      .variant "ListSubscriptions" grantFormat <|
      .variant "HighCursor" grantFormat <|
      .variant "Pull" (namedWithFormat "max_messages" .nat (by decide)) <|
      .variant "Ack" (namedWithFormat "cursor" .nat (by decide)) <|
      .variant "Nack" (namedWithFormat "cursor" .nat (by decide))
      .done)
    (fun
      | .createSubscription name policy grant => .inl (name, policy, grant)
      | .deleteSubscription name grant => .inr (.inl (name, grant))
      | .listSubscriptions grant => .inr (.inr (.inl grant))
      | .highCursor grant => .inr (.inr (.inr (.inl grant)))
      | .pull name maxMessages grant => .inr (.inr (.inr (.inr (.inl (name, maxMessages, grant)))))
      | .ack name cursor grant => .inr (.inr (.inr (.inr (.inr (.inl (name, cursor, grant))))))
      | .nack name cursor grant => .inr (.inr (.inr (.inr (.inr (.inr (.inl (name, cursor, grant))))))))
    (fun
      | .inl (name, policy, grant) => .createSubscription name policy grant
      | .inr (.inl (name, grant)) => .deleteSubscription name grant
      | .inr (.inr (.inl grant)) => .listSubscriptions grant
      | .inr (.inr (.inr (.inl grant))) => .highCursor grant
      | .inr (.inr (.inr (.inr (.inl (name, maxMessages, grant))))) => .pull name maxMessages grant
      | .inr (.inr (.inr (.inr (.inr (.inl (name, cursor, grant)))))) => .ack name cursor grant
      | .inr (.inr (.inr (.inr (.inr (.inr (.inl (name, cursor, grant))))))) => .nack name cursor grant)
    (by decide) fun r => by cases r <;> rfl

/-- The reply to a consumer; `Ok` is a variant without fields. -/
def ControlReply.format : Format ControlReply :=
  .enum
    (.unit "Ok" <|
      .variant "High" .nat <|
      .variant "Subscriptions" (.list .str) <|
      .variant "Pulled" (.list LeasedMessage.format) <|
      .variant "Rejected" .str
      .done)
    (fun
      | .ok => .inl ()
      | .high c => .inr (.inl c)
      | .subscriptions names => .inr (.inr (.inl names))
      | .pulled leased => .inr (.inr (.inr (.inl leased)))
      | .rejected why => .inr (.inr (.inr (.inr (.inl why)))))
    (fun
      | .inl () => .ok
      | .inr (.inl c) => .high c
      | .inr (.inr (.inl names)) => .subscriptions names
      | .inr (.inr (.inr (.inl leased))) => .pulled leased
      | .inr (.inr (.inr (.inr (.inl why)))) => .rejected why)
    (by decide) fun r => by cases r <;> rfl

/-- What a format reads of bytes, with a text for what it cannot read. -/
def readOr {α : Type} (f : Format α) (bytes : Bytes) : Except String α :=
  (f.readBytes bytes).elim (.error "expected value") .ok

/-- Readers of what the writers write, and of no other text. -/
def Serde.compact : Serde where
  ingestRequest := readOr IngestRequest.format
  ingestReply := readOr IngestReply.format
  controlRequest := readOr ControlRequest.format
  controlReply := readOr ControlReply.format
  hexError
    | .invalidHexCharacter c index => s!"Invalid character '{c}' at position {index}"
    | .oddLength => "Odd number of digits"

/-! ## The bytes of a snapshot -/

/-- The bytes of a snapshot of the log. -/
def TopicLog.saveBytes (s : TopicLog) : Bytes := s.save.bytes

/-- The log the bytes of a snapshot hold. -/
def TopicLog.loadBytes (snapshot : Bytes) : Option TopicLog := TopicLog.format.readBytes snapshot

/-- The bytes of a snapshot of the registry. -/
def SubRegistry.saveBytes (r : SubRegistry) : Bytes := r.save.bytes

/-- The registry the bytes of a snapshot hold. -/
def SubRegistry.loadBytes (snapshot : Bytes) : Option SubRegistry :=
  SubRegistry.format.readBytes snapshot

end CePubsub
