import CePubsub.Lib.Format
import CePubsub.Log
import CePubsub.Subscription

/-!
# Snapshots (`log.rs`, `subscription.rs`)

What the two replicated machines are saved as and loaded from. Each type has the format its `serde`
attributes give it, field by field in the order of its declaration: a field without an attribute is
required, `default` stands in for a field that is missing, and `skip_serializing_if` leaves one out.
Maps keyed by a cursor are objects with its decimal text for a key.

The values are JSON values. Between them and the bytes of a snapshot is only the text of JSON. An
`u64` is a natural number here, so its reader has no bound to check; the `u32` has one.
-/

namespace CePubsub

/-- A message, with its three late fields: one that may be missing, one that is left out when it is empty,
and one that is `false` where it is missing. -/
def Message.format : Format Message :=
  .struct
    (.field (·.cursor) (.required "cursor" .nat) <|
      .field (·.publisher) (.required "publisher" .str) <|
      .field (·.payloadHex) (.required "payload_hex" .str) <|
      .field (·.publishedAt) (.required "published_at" .nat) <|
      .field (·.orderingKey) (.optional "ordering_key" .str nofun) <|
      .field (·.attributes)
        (.skipped "attributes" (.map .str .str) (·.isEmpty) ∅ fun _ => Std.ExtTreeMap.isEmpty_iff.mp) <|
      .field (·.publisherAuthenticated) (.defaulted "publisher_authenticated" .bool false)
      .done)
    (fun (cursor, publisher, payloadHex, publishedAt, orderingKey, attributes, authenticated, ()) =>
      ⟨cursor, publisher, payloadHex, publishedAt, orderingKey, attributes, authenticated⟩)
    (by decide) fun _ => rfl

/-- The log: its messages and its floor. -/
def TopicLog.format : Format TopicLog :=
  .struct
    (.field (·.messages) (.required "messages" (.list Message.format)) <|
      .field (·.floor) (.required "floor" .nat)
      .done)
    (fun (messages, floor, ()) => ⟨messages, floor⟩) (by decide) fun _ => rfl

/-- A policy. Its two fields are required, though the type has a default. -/
def SubscriptionPolicy.format : Format SubscriptionPolicy :=
  .struct
    (.field (·.ackDeadlineSecs) (.required "ack_deadline_secs" .nat) <|
      .field (·.maxDeliveryAttempts) (.required "max_delivery_attempts" .uint32)
      .done)
    (fun (ackDeadlineSecs, maxDeliveryAttempts, ()) => ⟨ackDeadlineSecs, maxDeliveryAttempts⟩)
    (by decide) fun _ => rfl

/-- A lease, with the cursor that is also its key. -/
def Lease.format : Format Lease :=
  .struct
    (.field (·.cursor) (.required "cursor" .nat) <|
      .field (·.expiresAt) (.required "expires_at" .nat) <|
      .field (·.attempts) (.required "attempts" .uint32)
      .done)
    (fun (cursor, expiresAt, attempts, ()) => ⟨cursor, expiresAt, attempts⟩) (by decide) fun _ => rfl

/-- A subscription. Its `acked_set` may be missing, and is empty then. -/
def SubscriptionState.format : Format SubscriptionState :=
  .struct
    (.field (·.acked) (.required "acked" .nat) <|
      .field (·.leases) (.required "leases" (.map .nat Lease.format)) <|
      .field (·.attempts) (.required "attempts" (.map .nat .uint32)) <|
      .field (·.dead) (.required "dead" (.map .nat .unit)) <|
      .field (·.ackedSet) (.defaulted "acked_set" (.map .nat .unit) ∅) <|
      .field (·.policy) (.required "policy" SubscriptionPolicy.format)
      .done)
    (fun (acked, leases, attempts, dead, ackedSet, policy, ()) =>
      ⟨acked, leases, attempts, dead, ackedSet, policy⟩)
    (by decide) fun _ => rfl

/-- The registry: its subscriptions by name. -/
def SubRegistry.format : Format SubRegistry :=
  .struct (.field (·.subs) (.required "subs" (.map .str SubscriptionState.format)) .done)
    (fun (subs, ()) => ⟨subs⟩) (by decide) fun _ => rfl

/-! ## The two machines -/

/-- What a replica of the log is saved as. -/
def TopicLog.save (s : TopicLog) : Json := TopicLog.format.write s

/-- The log a replica starts from, if the snapshot is one. -/
def TopicLog.load (snapshot : Json) : Option TopicLog := TopicLog.format.read snapshot

/-- What a replica of the registry is saved as. -/
def SubRegistry.save (r : SubRegistry) : Json := SubRegistry.format.write r

/-- The registry a replica starts from. -/
def SubRegistry.load (snapshot : Json) : Option SubRegistry := SubRegistry.format.read snapshot

end CePubsub
