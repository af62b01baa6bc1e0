import CePubsub.Filter
import CePubsub.Topic

/-!
# Live delivery (`lib.rs`)

A live subscription is a stream, opened under a name that has the topic and its owner in it, and a
filter on what comes. Whether the stream can be opened is the node's to say.
-/

namespace CePubsub

/-- The live tail of a topic. -/
structure Subscription where
  stream : String
  filter : AttributeFilter
deriving DecidableEq

namespace PubSub

/-- Subscribe to a topic of a node's, if the stream `opens`. -/
def subscribe (opens : String → Except String Unit) (topic owner : String) :
    Except String Subscription := do
  validateTopic topic
  let name := streamName topic owner
  (opens name).mapError fun e => s!"opening live subscription stream: {e}"
  .ok { stream := name, filter := .any }

def subscribeFiltered (opens : String → Except String Unit) (topic owner : String)
    (filter : AttributeFilter) : Except String Subscription := do
  let sub ← subscribe opens topic owner
  .ok { sub with filter }

end PubSub

/-- The next message that matches, of those still to come, and what comes after it; nothing once the
stream has closed. -/
def Subscription.recv (sub : Subscription) : List Message → Option (Message × List Message)
  | [] => none
  | msg :: rest => if sub.filter.isEmpty || sub.filter.matches msg then some (msg, rest) else sub.recv rest

end CePubsub
