import CePubsub.Message

/-!
# The durable topic log (`log.rs`)

The replicated state of one topic: the messages retention has kept, in cursor order, and the number
it has dropped from the front. `apply` is the state machine every replica runs; the other functions
are what the owner and a puller read.
-/

namespace CePubsub

/-- The retained messages and the retention floor. -/
structure TopicLog where
  messages : List Message := []
  floor : Nat := 0
deriving DecidableEq

/-- A mutation of a `TopicLog`. -/
inductive LogOp where
  | append (m : Message)
  | pruneTo (upTo : Nat)

namespace TopicLog

/-- The highest cursor ever assigned, retained or pruned. -/
def highCursor (s : TopicLog) : Nat := s.floor + s.messages.length

/-- The cursor the next message gets. -/
def nextCursor (s : TopicLog) : Nat := s.highCursor + 1

/-- The state machine: an append is stamped with the next cursor whatever it carries, a prune keeps
the messages above its bound and counts those it drops. -/
def apply (s : TopicLog) : LogOp → TopicLog
  | .append m => { s with messages := s.messages ++ [{ m with cursor := s.nextCursor }] }
  | .pruneTo upTo =>
    let kept := s.messages.filter fun m => decide (m.cursor > upTo)
    { messages := kept, floor := s.floor + (s.messages.length - kept.length) }

def len (s : TopicLog) : Nat := s.messages.length

/-- The retained messages after `after`, in order. -/
def since (s : TopicLog) (after : Nat) : List Message :=
  s.messages.filter fun m => decide (m.cursor > after)

/-- The retained message at `cursor`, by index from the floor. -/
def get (s : TopicLog) (cursor : Nat) : Option Message :=
  if cursor ≤ s.floor ∨ cursor > s.highCursor then none
  else s.messages[cursor - s.floor - 1]?

end TopicLog

end CePubsub
