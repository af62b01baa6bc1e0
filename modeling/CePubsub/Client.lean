import CePubsub.Topic

/-!
# The publisher's side (`lib.rs`)

What a node does to publish to a topic another node owns: check what it is about to send, send it to
the owner's ingest topic, and read the reply. The call to the node in between is a parameter.
-/

namespace CePubsub

namespace PubSub

/-- The request a publish sends, if what it sends passes the checks. -/
def publishRequest (topic : String) (payload : Bytes) (grant : Option String) (opts : PublishOptions)
    (idempotencyKey : Option String) : Except String IngestRequest := do
  validateTopic topic
  validatePayload payload
  opts.validate
  .ok { payloadHex := Hex.encode payload
        grant
        idempotencyKey
        orderingKey := opts.orderingKey
        attributes := opts.attributes }

/-- Publish to a topic another node owns: the cursor the owner gave the message. -/
def publishToWith (serde : Serde) (request : Bytes → Except String Bytes) (topic : String)
    (payload : Bytes) (grant : Option String) (opts : PublishOptions)
    (idempotencyKey : Option String) : Except String Nat := do
  let req ← publishRequest topic payload grant opts idempotencyKey
  let reply ← (request req.encode).mapError fun e => s!"publish request to topic owner: {e}"
  match ← IngestReply.decode serde reply with
  | .accepted c => .ok c
  | .rejected why => .error s!"owner rejected publish: {why}"

/-- The same without options and without a key. -/
def publishTo (serde : Serde) (request : Bytes → Except String Bytes) (topic : String)
    (payload : Bytes) (grant : Option String) : Except String Nat :=
  publishToWith serde request topic payload grant {} none

end PubSub

end CePubsub
