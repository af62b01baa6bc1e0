import CePubsub.Topic

/-!
# A lease in steps (`lib.rs`)

`Topic.handleLease` as the owner takes it: it reads the log, plans, proposes, reads the log again to
route what it dead-letters and once more to resolve what it hands out. Between any two of these the
log may take an append or a prune of another task. The registry is proposed to by this call only: the
control loop serves one request at a time.

A phase carries what the call holds in its variables, and, for the laws, the logs it has read from.
-/

namespace CePubsub

/-- A committed lease, and the logs its messages were read from. -/
structure CommittedLease where
  op : SubOp
  routedFrom : TopicLog
  resolvedFrom : TopicLog

/-- How far one call has come. -/
inductive LeasePhase where
  | called
  | read (high floor : Nat)
  | planned (op : SubOp) (outcome : LeaseOutcome)
  | committed (op : SubOp) (outcome : LeaseOutcome)
  | routed (op : SubOp) (outcome : LeaseOutcome) (routedFrom : TopicLog)
  | replied (reply : ControlReply) (lease : Option CommittedLease)

/-- The topic, and one call on it. -/
structure Leasing where
  topic : Topic
  phase : LeasePhase := .called

/-- What happens next: the log takes an operation, or the call takes a step. -/
inductive LeaseAct where
  | log (op : LogOp)
  | next (node : Answers)

namespace Leasing

variable (name : String) (maxMessages now : Nat)

/-- The call's next step. -/
def next (s : Leasing) (node : Answers) : Leasing :=
  match s.phase with
  | .called =>
    if (s.topic.subs.get name).isNone then
      { s with phase := .replied (.rejected s!"no such subscription '{name}'") none }
    else { s with phase := .read s.topic.writer.highCursor s.topic.writer.floor }
  | .read high floor =>
    match s.topic.subs.planLease name high floor now maxMessages with
    | none => { s with phase := .replied (.pulled []) none }
    | some (op, outcome) => { s with phase := .planned op outcome }
  | .planned op outcome =>
    match node.commitSubs with
    | .error e => { s with phase := .replied (.rejected s!"lease failed: {e}") none }
    | .ok () =>
      { topic := { s.topic with subs := s.topic.subs.apply op }, phase := .committed op outcome }
  | .committed op outcome =>
    { topic :=
        if outcome.deadLettered.isEmpty then s.topic
        else s.topic.routeDeadLetters node outcome.deadLettered
      phase := .routed op outcome s.topic.writer }
  | .routed op outcome routedFrom =>
    { s with
      phase := .replied (.pulled (s.topic.resolve outcome.leased))
        (some { op, routedFrom, resolvedFrom := s.topic.writer }) }
  | .replied _ _ => s

def step (s : Leasing) : LeaseAct → Leasing
  | .log op => { s with topic := { s.topic with writer := s.topic.writer.apply op } }
  | .next node => s.next name maxMessages now node

end Leasing

end CePubsub
