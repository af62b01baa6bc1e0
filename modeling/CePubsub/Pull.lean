import CePubsub.Client
import CePubsub.Log

/-!
# The puller's side (`lib.rs`)

A pull opens a read replica of the owner's log, asks the owner how far its log goes, waits for the
replica to get there, and returns a page of it. What a replica shows, and how often it is looked at
before the deadline, is the replication library's and the clock's: `Shown` is what the reader shows at
each look, and `Remote` how everything a pull reads outside turns out.
-/

namespace CePubsub

/-- The page a puller gets that asks for none. -/
def defaultPullLimit : Nat := 1000

/-- The largest page. -/
def maxPullLimit : Nat := 100000

/-- What a reader shows during one pull: at the polls before the deadline, at the first poll past it and
the look after that one, at the polls of its version, and when the page is taken. -/
structure Shown (α : Type) where
  polls : List α
  last : α
  again : α
  version : Nat := 0
  versions : List Nat := []
  read : α

/-- What a pull reads outside: its replica, one more if it is the owner's, and the owner's reply. -/
structure Remote where
  reader : Except String (Shown TopicLog)
  fresh : Except String TopicLog
  request : Bytes → Except String Bytes

/-- A page of a topic, and how far it is known to be complete. -/
structure Replay where
  messages : List Message
  high : Nat
  next : Nat
  target : Option Nat
  converged : Bool
  truncated : Bool
  floor : Nat
  missing : Nat
deriving DecidableEq

/-- The page of at most `limit` messages after a cursor. -/
def Replay.page (log : TopicLog) (after limit : Nat) (target : Option Nat) (converged : Bool) :
    Replay :=
  let all := log.since after
  let truncated := decide (all.length > limit)
  let messages := if truncated then all.take limit else all
  { messages
    high := log.highCursor
    next := (messages.getLast?.map (·.cursor)).getD after
    target
    converged
    truncated
    floor := log.floor
    missing :=
      match target with
      | some t => t - log.highCursor
      | none => 0 }

namespace PubSub

/-- The owner's high cursor: a second replica's if this node is the owner, else what the owner
replies. The only caller drops the texts of the errors. -/
def fetchHighCursor (serde : Serde) (nodeId owner : String) (remote : Remote) : Except String Nat := do
  if owner = nodeId then
    let log ← remote.fresh
    .ok log.highCursor
  else
    let reply ← (remote.request (ControlRequest.highCursor none).encode).mapError fun e =>
      s!"high-cursor request to owner: {e}"
    match ← ControlReply.decode serde reply with
    | .high c => .ok c
    | .rejected why => .error s!"owner rejected high-cursor: {why}"
    | .ok | .subscriptions _ | .pulled _ => .error "unexpected reply to high-cursor"

/-- Poll until the high cursor reaches the target, or the deadline has passed. -/
def awaitHigh (target : Nat) (last again : TopicLog) : List TopicLog → Bool
  | [] => decide (last.highCursor ≥ target) || decide (again.highCursor ≥ target)
  | log :: polls => decide (log.highCursor ≥ target) || awaitHigh target last again polls

/-- Poll until the version has not moved twice in a row, or the deadline has passed. -/
def awaitQuiet (last stable : Nat) : List Nat → Bool
  | [] => false
  | v :: versions =>
    if v = last then if stable + 1 ≥ 2 then false else awaitQuiet last (stable + 1) versions
    else awaitQuiet v 0 versions

/-- Wait for the target, if there is one, else for the replica to come to rest. -/
def convergeTo (shown : Shown TopicLog) : Option Nat → Bool
  | some target => awaitHigh target shown.last shown.again shown.polls
  | none => awaitQuiet shown.version 0 shown.versions

/-- A page of the topic, with what is known of its completeness. -/
def pullLimited (serde : Serde) (nodeId topic owner : String) (remote : Remote) (after limit : Nat) :
    Except String Replay := do
  validateTopic topic
  let limit := max 1 (min limit maxPullLimit)
  let shown ← remote.reader.mapError fun e => s!"opening durable topic log as reader: {e}"
  let target := (fetchHighCursor serde nodeId owner remote).toOption
  .ok (.page shown.read after limit target (convergeTo shown target))

/-- A page of the default size. -/
def pull (serde : Serde) (nodeId topic owner : String) (remote : Remote) (after : Nat) :
    Except String Replay :=
  pullLimited serde nodeId topic owner remote after defaultPullLimit

end PubSub

end CePubsub
