import CePubsub.Lib.Watermark
import CePubsub.Message

/-!
# Subscriptions (`subscription.rs`)

The owner's registry of named subscriptions: what each has acknowledged, leased, dead-lettered and
counted, the operations the owner proposes to it, and `planLease`, which computes a lease without
changing anything. Delivery attempts are `u32`, and `UInt32` here, so that their additions wrap
where the source's would.

Loops are structural. The lease scan counts the cursors left up to `high`; the two walks of the ack
floor are bounded by the number of cursors recorded above it, and `advanceAcked_stops` and
`bridge_stops` say that this is as far as they go.
-/

namespace CePubsub

/-- How many subscriptions a topic may have. -/
def maxSubscriptions : Nat := 10000

/-- The longest a lease may last. -/
def maxAckDeadlineSecs : Nat := 600

/-- How long a lease lasts where the policy does not say. -/
def defaultAckDeadlineSecs : Nat := 30

def defaultMaxDeliveryAttempts : UInt32 := 5

/-- How many messages one lease hands out, whatever is asked for. -/
def maxLeaseBatch : Nat := 1000

/-- How long a lease lasts, and how often a message is delivered before it is dead. -/
structure SubscriptionPolicy where
  ackDeadlineSecs : Nat := defaultAckDeadlineSecs
  /-- `0` disables dead-lettering. -/
  maxDeliveryAttempts : UInt32 := defaultMaxDeliveryAttempts
deriving DecidableEq

/-- A deadline of zero is refused, and one past the longest. -/
def SubscriptionPolicy.validate (p : SubscriptionPolicy) : Except String Unit :=
  if p.ackDeadlineSecs = 0 ∨ p.ackDeadlineSecs > maxAckDeadlineSecs then
    .error s!"ack_deadline_secs must be 1..={maxAckDeadlineSecs} (got {p.ackDeadlineSecs})"
  else .ok ()

/-- How long a lease lasts under a policy, whatever the policy asks for. -/
def SubscriptionPolicy.deadline (p : SubscriptionPolicy) : Nat :=
  max 1 (min p.ackDeadlineSecs maxAckDeadlineSecs)

/-- A leased cursor and when its lease expires. -/
structure Lease where
  cursor : Nat
  expiresAt : Nat
  attempts : UInt32
deriving DecidableEq

/-- One subscription: the ack floor, and what is recorded of the cursors above it. -/
structure SubscriptionState where
  /-- Every cursor up to here is acknowledged. -/
  acked : Nat := 0
  leases : BTreeMap Nat Lease := ∅
  /-- Delivery attempts of cursors leased and not yet acknowledged. -/
  attempts : BTreeMap Nat UInt32 := ∅
  /-- Cursors that exceeded the attempts allowed. -/
  dead : BTreeMap Nat Unit := ∅
  /-- Cursors acknowledged out of order, above `acked`. -/
  ackedSet : BTreeMap Nat Unit := ∅
  policy : SubscriptionPolicy := {}
deriving DecidableEq

/-- The registry of every subscription on a topic. -/
structure SubRegistry where
  subs : BTreeMap String SubscriptionState := ∅
deriving DecidableEq

/-- What a lease delivers, with attempt numbers, and what it dead-letters. -/
structure LeaseOutcome where
  leased : List (Nat × UInt32)
  deadLettered : List Nat
deriving DecidableEq

/-- The operations the owner proposes to the registry. -/
inductive SubOp where
  | create (name : String) (policy : SubscriptionPolicy)
  | delete (name : String)
  | applyLease (name : String) (leased : List (Nat × Nat)) (dead : List Nat) (newAcked : Nat)
  | ack (name : String) (cursor : Nat)
  | nack (name : String) (cursor : Nat)
deriving DecidableEq

namespace SubscriptionState

/-- How many cursors are leased, expired or not. -/
def outstanding (s : SubscriptionState) : Nat := s.leases.size

/-- The cursors that are dead. -/
def deadLettered (s : SubscriptionState) : List Nat := s.dead.keys

/-- The cursors acknowledged out of order. -/
def pendingAcks (s : SubscriptionState) : List Nat := s.ackedSet.keys

/-- `dead.insert(c); leases.remove(c); attempts.remove(c)`. -/
def bury (s : SubscriptionState) (c : Nat) : SubscriptionState :=
  { s with
    dead := s.dead.insert c ()
    leases := s.leases.erase c
    attempts := s.attempts.erase c }

/-- The attempt number the next delivery of `c` carries. -/
def nextAttempt (s : SubscriptionState) (c : Nat) : UInt32 := s.attempts[c]?.getD 0 + 1

/-- Record one delivery: count it and lease it. -/
def deliver (s : SubscriptionState) : Nat × Nat → SubscriptionState
  | (c, expiresAt) =>
    { s with
      attempts := s.attempts.insert c (s.nextAttempt c)
      leases := s.leases.insert c ⟨c, expiresAt, s.nextAttempt c⟩ }

/-- Move the ack floor up to `newAcked` and drop what it subsumes. -/
def raise (s : SubscriptionState) (newAcked : Nat) : SubscriptionState :=
  if newAcked > s.acked then
    { s with
      acked := newAcked
      ackedSet := s.ackedSet.filter fun c _ => c > newAcked
      dead := s.dead.filter fun c _ => c > newAcked }
  else s

/-- A lease of the owner, applied at a replica: the dead, the deliveries, then the floor. -/
def applyLease (s : SubscriptionState) (leased : List (Nat × Nat)) (dead : List Nat)
    (newAcked : Nat) : SubscriptionState :=
  (leased.foldl deliver (dead.foldl bury s)).raise newAcked

/-- The folding loop, `fuel` steps of it at most: while the next cursor is acknowledged or else
dead, drop it from that set and count it in the floor. -/
def foldNext : Nat → SubscriptionState → SubscriptionState
  | 0, s => s
  | fuel + 1, s =>
    let next := s.acked + 1
    if next ∈ s.ackedSet then foldNext fuel { s with ackedSet := s.ackedSet.erase next, acked := next }
    else if next ∈ s.dead then foldNext fuel { s with dead := s.dead.erase next, acked := next }
    else s

/-- Advance the floor over the run of cursors acknowledged or dead right above it. -/
def advanceAcked (s : SubscriptionState) : SubscriptionState :=
  foldNext (s.ackedSet.size + s.dead.size) s

/-- The lease and the attempts of an acknowledged cursor are forgotten, and the floor
moves up as far as it can. -/
def ack (s : SubscriptionState) (cursor : Nat) : SubscriptionState :=
  let s := { s with leases := s.leases.erase cursor, attempts := s.attempts.erase cursor }
  let s := if cursor > s.acked then { s with ackedSet := s.ackedSet.insert cursor () } else s
  s.advanceAcked

/-- The lease ends at once; the attempt stays counted. -/
def nack (s : SubscriptionState) (cursor : Nat) : SubscriptionState :=
  { s with leases := s.leases.modify cursor fun l => { l with expiresAt := 0 } }

/-! ## Planning a lease -/

/-- A cursor the scan passes over: under an unexpired lease, dead, or acknowledged out of order. -/
def withheld (s : SubscriptionState) (now c : Nat) : Bool :=
  ((s.leases[c]?.map fun l => decide (l.expiresAt > now)).getD false) ||
    decide (c ∈ s.dead) || decide (c ∈ s.ackedSet)

/-- A cursor whose next attempt would exceed the policy. -/
def exhausted (s : SubscriptionState) (c : Nat) : Bool :=
  s.policy.maxDeliveryAttempts != 0 && s.nextAttempt c > s.policy.maxDeliveryAttempts

/-- What the scan has collected: the leased cursors, with their expiry and with their attempt, and
the dead ones. -/
structure Batch where
  leasedStamped : List (Nat × Nat) := []
  leasedOut : List (Nat × UInt32) := []
  dead : List Nat := []

/-- The scan over `left` cursors from `c` on, until `cap` are leased. -/
def scan (s : SubscriptionState) (now expiresAt cap : Nat) : Nat → Nat → Batch → Batch
  | 0, _, b => b
  | left + 1, c, b =>
    if b.leasedOut.length < cap then
      if s.withheld now c then scan s now expiresAt cap left (c + 1) b
      else if s.exhausted c then
        scan s now expiresAt cap left (c + 1) { b with dead := b.dead ++ [c] }
      else
        scan s now expiresAt cap left (c + 1)
          { b with
            leasedStamped := b.leasedStamped ++ [(c, expiresAt)]
            leasedOut := b.leasedOut ++ [(c, s.nextAttempt c)] }
    else b

/-- The cursors a floor may jump over: dead, acknowledged out of order, or dead as of this lease. -/
def handled (s : SubscriptionState) (dead : List Nat) : Std.ExtTreeSet Nat :=
  .ofList (s.dead.keys ++ s.ackedSet.keys ++ dead)

/-- The floor a lease leaves: over everything pruned, then over the run of handled cursors. -/
def bridge (s : SubscriptionState) (floor : Nat) (dead : List Nat) : Nat :=
  Watermark.climb (· ∈ s.handled dead) (s.handled dead).size (max s.acked floor)

/-- What a lease comes to, by the log as it is: nothing when there is nothing to hand out or to bury. -/
def planLease (s : SubscriptionState) (name : String) (high floor now max : Nat) :
    Option (SubOp × LeaseOutcome) :=
  let expiresAt := min (now + s.policy.deadline) u64Max
  let cap := min max maxLeaseBatch
  let start := Max.max s.acked floor + 1
  let b := s.scan now expiresAt cap (high + 1 - start) start {}
  if b.leasedStamped.isEmpty && b.dead.isEmpty then none
  else some
    (.applyLease name b.leasedStamped b.dead (s.bridge floor b.dead),
      { leased := b.leasedOut, deadLettered := b.dead })

end SubscriptionState

namespace SubRegistry

/-- The state machine every replica of the registry runs. -/
def apply (r : SubRegistry) : SubOp → SubRegistry
  | .create name policy => { subs := r.subs.insert name { r.subs[name]?.getD {} with policy } }
  | .delete name => { subs := r.subs.erase name }
  | .applyLease name leased dead newAcked =>
    { subs := r.subs.modify name fun s => s.applyLease leased dead newAcked }
  | .ack name cursor => { subs := r.subs.modify name fun s => s.ack cursor }
  | .nack name cursor => { subs := r.subs.modify name fun s => s.nack cursor }

/-- A subscription, by its name. -/
def get (r : SubRegistry) (name : String) : Option SubscriptionState := r.subs[name]?

/-- The names of the subscriptions, in order. -/
def names (r : SubRegistry) : List String := r.subs.keys

def len (r : SubRegistry) : Nat := r.subs.size

/-- Whether a new subscription under `name` would exceed the limit. -/
def atCapacity (r : SubRegistry) (name : String) : Bool :=
  !r.subs.contains name && r.subs.size ≥ maxSubscriptions

/-- Plan a lease for a subscription: the operation to propose and what it delivers, or nothing when
there is nothing to lease or to dead-letter. -/
def planLease (r : SubRegistry) (name : String) (high floor now max : Nat) :
    Option (SubOp × LeaseOutcome) := do
  let s ← r.subs[name]?
  s.planLease name high floor now max

end SubRegistry

end CePubsub
