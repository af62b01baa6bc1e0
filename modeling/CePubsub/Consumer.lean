import CePubsub.Client
import CePubsub.Handle

/-!
# The consumer's side (`lib.rs`)

What a node does to use a subscription on a topic another node owns: check what it is about to send,
send it to the owner's control topic, and read the reply. A reply of a kind that was not asked for is
an error that shows it.
-/

namespace CePubsub

/-- The way to a topic's owner: the node's directed requests, by mesh topic and body, how what comes
back is read, and how a reply is shown. -/
structure Channel where
  request : String → Bytes → Except String Bytes
  serde : Serde
  debug : ControlReply → String

namespace PubSub

/-- Issue a control request to a topic's owner. -/
def control (ch : Channel) (topic : String) (req : ControlRequest) : Except String ControlReply := do
  let reply ← (ch.request (controlTopic topic) req.encode).mapError fun e =>
    s!"control request to topic owner: {e}"
  ControlReply.decode ch.serde reply

/-- Issue one that has nothing to bring back. -/
def controlOk (ch : Channel) (topic : String) (req : ControlRequest) : Except String Unit := do
  match ← control ch topic req with
  | .ok => .ok ()
  | .rejected why => .error s!"owner rejected: {why}"
  | other => .error s!"unexpected reply: {ch.debug other}"

/-- The topic, the name and the policy are checked before anything is sent. -/
def createSubscription (ch : Channel) (topic name : String) (policy : SubscriptionPolicy)
    (grant : Option String) : Except String Unit := do
  validateTopic topic
  validateTopic name
  policy.validate
  controlOk ch topic (.createSubscription name policy grant)

/-- Only the topic is checked before the owner is asked. -/
def deleteSubscription (ch : Channel) (topic name : String) (grant : Option String) :
    Except String Unit := do
  validateTopic topic
  controlOk ch topic (.deleteSubscription name grant)

/-- The names of the subscriptions, in order. -/
def listSubscriptions (ch : Channel) (topic : String) (grant : Option String) :
    Except String (List String) := do
  validateTopic topic
  match ← control ch topic (.listSubscriptions grant) with
  | .subscriptions names => .ok names
  | .rejected why => .error s!"list rejected: {why}"
  | other => .error s!"unexpected reply: {ch.debug other}"

/-- Lease up to `maxMessages` messages. -/
def lease (ch : Channel) (topic sub : String) (maxMessages : Nat) (grant : Option String) :
    Except String (List LeasedMessage) := do
  validateTopic topic
  match ← control ch topic (.pull sub maxMessages grant) with
  | .pulled msgs => .ok msgs
  | .rejected why => .error s!"lease rejected: {why}"
  | other => .error s!"unexpected reply: {ch.debug other}"

/-- Acknowledge a message. -/
def ack (ch : Channel) (topic sub : String) (cursor : Nat) (grant : Option String) :
    Except String Unit := do
  validateTopic topic
  controlOk ch topic (.ack sub cursor grant)

/-- Give a message back before its lease is over. -/
def nack (ch : Channel) (topic sub : String) (cursor : Nat) (grant : Option String) :
    Except String Unit := do
  validateTopic topic
  controlOk ch topic (.nack sub cursor grant)

end PubSub

end CePubsub
