import CePubsub.Lib.Journal
import CePubsub.Lib.LeaseQueue
import CePubsub.Topic

/-!
# The broker (what a topic's owner is for)

The abstract model of a topic: a journal of everything published, and for each subscription a queue
of cursors, lent out to consumers until they are settled. It knows no ack floor, no sets of cursors
above one, no index into a list and no map of leases; what it answers a pull is read off the journal
and the queue.

`Call` is what the owner serves once its own checks are passed, and `Topic.serve` how it serves it.
-/

namespace CePubsub

/-- A publish, a prune or a control request that was admitted, with how the calls outside turn out. -/
inductive Call where
  | publish (node : Answers) (msg : Message)
  | prune (node : Answers) (upTo : Nat)
  | control (node : Answers) (now : Nat) (req : ControlRequest)

/-- How a call is answered. -/
inductive Answer where
  | published (outcome : Except String Nat)
  | pruned (outcome : Except String Unit)
  | controlled (reply : ControlReply)

/-- How the owner serves a call. -/
def Topic.serve (t : Topic) : Call → Answer × Topic
  | .publish node msg => (.published (t.appendAndFanout node msg).1, (t.appendAndFanout node msg).2)
  | .prune node upTo => (.pruned (t.pruneTo node upTo).1, (t.pruneTo node upTo).2)
  | .control node now req =>
    (.controlled (t.serveControl node now req).1, (t.serveControl node now req).2)

/-- A subscription: its policy and the cursors it lends. -/
structure Broker.Sub where
  policy : SubscriptionPolicy := {}
  queue : LeaseQueue Nat Nat := .new

/-- A log, the subscriptions to it, and what was sent out. -/
structure Broker where
  log : Journal Message := .empty
  subs : BTreeMap String Broker.Sub := ∅
  /-- What was broadcast live. -/
  live : List Message := []
  /-- What was broadcast as dead letters. -/
  dead : List Message := []

namespace Broker

/-- The number the next delivery of a cursor carries. -/
def Sub.attempt (s : Sub) (c : Nat) : UInt32 := UInt32.ofNat (s.queue.lent c + 1)

/-- A cursor that was delivered as often as the policy allows. -/
def Sub.Spent (s : Sub) (c : Nat) : Prop :=
  s.policy.maxDeliveryAttempts ≠ 0 ∧ s.attempt c > s.policy.maxDeliveryAttempts

/-- The retained cursors. -/
def retained (b : Broker) : List Nat := List.range' (b.log.floor + 1) (b.log.high - b.log.floor)

/-- The cursors a pull delivers. -/
noncomputable def delivers (b : Broker) (s : Sub) (maxMessages now : Nat) : List Nat :=
  s.queue.taken now b.retained s.Spent (min maxMessages maxLeaseBatch)

/-- The cursors it dead-letters. -/
noncomputable def buries (b : Broker) (s : Sub) (maxMessages now : Nat) : List Nat :=
  s.queue.givenUp now b.retained s.Spent (min maxMessages maxLeaseBatch)

/-- The messages at some cursors. -/
def messages (b : Broker) (cursors : List Nat) : List Message := cursors.filterMap b.log.get

/-- A subscription after a pull. -/
noncomputable def Sub.pulled (s : Sub) (delivered buried : List Nat) (now : Nat) : Sub :=
  { s with
    queue := (s.queue.settle {c | c ∈ buried}).lend delivered
      (min (now + s.policy.deadline) u64Max) }

/-- A change of the subscriptions, if the node reaches its quorum. -/
def commit (b : Broker) (node : Answers) (what : String) (b' : Broker) : ControlReply × Broker :=
  match node.commitSubs with
  | .ok () => (.ok, b')
  | .error e => (.rejected s!"{what} failed: {e}", b)

/-- A batch to a subscription, and what it gives up. -/
noncomputable def pull (b : Broker) (node : Answers) (name : String) (s : Sub) (maxMessages now : Nat) :
    ControlReply × Broker :=
  let delivered := b.delivers s maxMessages now
  let buried := b.buries s maxMessages now
  if delivered = [] ∧ buried = [] then (.pulled [], b)
  else
    match node.commitSubs with
    | .error e => (.rejected s!"lease failed: {e}", b)
    | .ok () =>
      (.pulled (delivered.filterMap fun c => (b.log.get c).map (⟨·, s.attempt c⟩)),
        { b with
          subs := b.subs.insert name (s.pulled delivered buried now)
          dead :=
            if node.deadLetterStream then b.dead ++ (b.messages buried).filter node.deadLetter
            else b.dead })

/-- A control request. -/
noncomputable def control (b : Broker) (node : Answers) (now : Nat) :
    ControlRequest → ControlReply × Broker
  | .highCursor _ => (.high b.log.high, b)
  | .createSubscription name policy _ =>
    match policy.validate, validateTopic name with
    | .error e, _ => (.rejected s!"invalid policy: {e}", b)
    | .ok (), .error e => (.rejected s!"invalid subscription name: {e}", b)
    | .ok (), .ok () =>
      if name ∉ b.subs ∧ maxSubscriptions ≤ b.subs.size then
        (.rejected "subscription limit reached", b)
      else
        b.commit node "create"
          { b with subs := b.subs.insert name { b.subs[name]?.getD {} with policy } }
  | .deleteSubscription name _ => b.commit node "delete" { b with subs := b.subs.erase name }
  | .listSubscriptions _ => (.subscriptions b.subs.keys, b)
  | .pull name maxMessages _ =>
    match b.subs[name]? with
    | none => (.rejected s!"no such subscription '{name}'", b)
    | some s => b.pull node name s maxMessages now
  | .ack name cursor _ =>
    match b.subs[name]? with
    | none => (.rejected s!"no such subscription '{name}'", b)
    | some s =>
      b.commit node "ack"
        { b with subs := b.subs.insert name { s with queue := s.queue.settle {cursor} } }
  | .nack name cursor _ =>
    match b.subs[name]? with
    | none => (.rejected s!"no such subscription '{name}'", b)
    | some s =>
      b.commit node "nack"
        { b with subs := b.subs.insert name { s with queue := s.queue.release cursor } }

/-- A call. -/
noncomputable def serve (b : Broker) : Call → Answer × Broker
  | .publish node msg =>
    match node.commitLog with
    | .error e => (.published (.error s!"durable append: {e}"), b)
    | .ok () =>
      let msg := { msg with cursor := b.log.high + 1 }
      (.published (.ok (b.log.high + 1)),
        { b with
          log := b.log.append msg
          live := if node.live then b.live ++ [msg] else b.live })
  | .prune node upTo =>
    match node.commitLog with
    | .error e => (.pruned (.error s!"prune: {e}"), b)
    | .ok () => (.pruned (.ok ()), { b with log := b.log.prune upTo })
  | .control node now req => (.controlled (b.control node now req).1, (b.control node now req).2)

end Broker

end CePubsub
