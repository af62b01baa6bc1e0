import CePubsub.Consumer
import CePubsub.Laws.Refinement

/-!
# The mesh around a topic

Nodes send an owner messages; the owner's workers come upon them in the inbox whenever they poll it.
Nothing is assumed of the way in between: of what was sent an inbox may show any part, in any order and
as often as it likes, and a reply may be lost. What it shows was sent, by the node it names, and the
token of a message that asks for a reply is its own.

The mesh is the owner and what happened so far. What was sent, what the owner was asked and what it
replied are read off that. Here the owner does what it is asked at one go; `Traffic` has its workers and its
program come between each other.
-/

namespace CePubsub

/-- A message a node sent to the owner. One that asks for a reply gets its place among those sent
for a token. -/
structure Sent where
  topic : String
  sender : String
  body : Bytes
  asks : Bool := true

/-- What happened: a message was sent, or the owner did something and replied. -/
inductive MeshEvent where
  | sent (r : Sent)
  /-- A worker served a request and gave the node a reply for it. -/
  | served (token : Nat) (i : Input) (reply : Reply)
  /-- The owner's program used its handle. -/
  | own (i : Input) (reply : Reply)

/-- The owner, and what happened so far. -/
structure Mesh where
  inner : TopicInner
  past : List MeshEvent := []

/-- What an inbox shows of what was sent, when, and how the calls outside turn out. -/
structure Delivery where
  token : Nat
  now : Nat
  node : Answers := {}

/-- What may happen next. -/
inductive MeshStep where
  | send (r : Sent)
  | own (i : Input)
  | clone
  | drop
  | release
  | poll (worker : Worker) (deliveries : List Delivery)

/-- What the program asks of its own topic. -/
def Input.isOwn : Input → Bool
  | .ingest .. | .control .. => false
  | _ => true

/-- What goes to the node as a reply. -/
def Reply.wire : Reply → Option Bytes
  | .ingested reply => some reply.encode
  | .controlled reply => some reply.encode
  | _ => none

/-- What was sent, if the event is that. -/
def MeshEvent.sent? : MeshEvent → Option Sent
  | .sent r => some r
  | _ => none

/-- What the owner was asked, if the event is that. -/
def MeshEvent.input? : MeshEvent → Option Input
  | .sent _ => none
  | .served _ i _ => some i
  | .own i _ => some i

/-- What was sent so far; a token is a place in this list. -/
def sents (past : List MeshEvent) : List Sent := past.filterMap MeshEvent.sent?

/-- What the owner was asked so far. -/
def inputs (past : List MeshEvent) : List Input := past.filterMap MeshEvent.input?

/-- What a worker makes of a message of the inbox, if it serves it. -/
def TopicInner.input (s : TopicInner) (worker : Worker) (f : Frame) : Option (Nat × Input) :=
  match f.replyToken with
  | none => none
  | some token =>
    match worker with
    | .ingest =>
      if f.topic = ingestTopic s.topic.topic then
        some (token, .ingest f.node token f.payloadHex f.sender f.now)
      else none
    | .control =>
      if f.topic = controlTopic s.topic.topic ∧ (s.handled.seen token f.now).1 = false then
        some (token, .control f.node f.payloadHex f.sender f.now)
      else none

/-- How the inbox shows what was sent. -/
def Sent.frame (r : Sent) (d : Delivery) : Frame where
  topic := r.topic
  replyToken := if r.asks then some d.token else none
  payloadHex := Hex.encode r.body
  sender := r.sender
  now := d.now
  node := d.node

namespace Mesh

variable {Link : Type} (host : Host Link)

/-- The message an inbox shows. -/
def frame (m : Mesh) (d : Delivery) : Option Frame := (sents m.past)[d.token]?.map (·.frame d)

/-- A worker comes to a message. -/
def serve (worker : Worker) (m : Mesh) (f : Frame) : Mesh :=
  { inner := TopicInner.frame host worker m.inner f
    past := m.past ++ ((m.inner.input worker f).map fun (token, i) =>
      MeshEvent.served token i (m.inner.topic.reply host i)).toList }

/-- One turn of a worker's loop. -/
def poll (m : Mesh) (worker : Worker) (deliveries : List Delivery) : Mesh :=
  if m.inner.working worker && !m.inner.shutdown then
    (deliveries.filterMap m.frame).foldl (serve host worker) m
  else { m with inner := m.inner.poll host worker [] }

/-- What comes of a step. -/
def step (m : Mesh) : MeshStep → Mesh
  | .send r => { m with past := m.past ++ [.sent r] }
  | .own i =>
    if i.isOwn && 0 < m.inner.held then
      { inner := { m.inner with topic := m.inner.topic.step host i }
        past := m.past ++ [.own i (m.inner.topic.reply host i)] }
    else m
  | .clone => { m with inner := m.inner.step host .clone }
  | .drop => { m with inner := m.inner.step host .drop }
  | .release => { m with inner := m.inner.step host .release }
  | .poll worker deliveries => m.poll host worker deliveries

end Mesh

end CePubsub
