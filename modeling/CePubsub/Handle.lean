import CePubsub.Topic
import Mathlib.Logic.Function.Basic

/-!
# Topic handles and their workers (`lib.rs`)

A topic is behind an `Arc`. The program holds handles to it, which it clones and drops; each of the
two workers `create_topic` spawns holds one more, moved into it, until it sees the shutdown flag.
`Drop::drop` runs before the handle's own `Arc` is released, so dropping a handle is two steps, and
other handles may be cloned and dropped between them.
-/

namespace CePubsub

/-- The topic publishers send to. -/
def ingestTopic (topic : String) : String := s!"{ns}.ingest.{topic}"

/-- The topic subscribers send to. -/
def controlTopic (topic : String) : String := s!"{ns}.ctl.{topic}"

/-- The two tasks a topic spawns. -/
inductive Worker where
  | ingest
  | control
deriving DecidableEq

/-- A message of the node's inbox, when a worker comes to it and how its calls turn out. -/
structure Frame where
  topic : String
  replyToken : Option Nat
  payloadHex : String
  sender : String
  now : Nat
  node : Answers := {}

/-- What is behind the handles of a topic. -/
structure TopicInner where
  topic : Topic
  shutdown : Bool := false
  /-- `Arc::strong_count`. -/
  strongCount : Nat
  /-- The handles the program holds. -/
  held : Nat
  /-- The handles past `Drop::drop` whose `Arc` is not released yet. -/
  dropping : Nat := 0
  /-- Whether a worker runs, holding its handle. -/
  working : Worker → Bool := fun _ => false
  /-- The reply tokens the control worker has handled. -/
  handled : TokenSet := .new dedupCapacity dedupTtlSecs

/-- What the program and the workers do with the handles. -/
inductive HandleStep where
  | clone
  | drop
  | release
  | poll (worker : Worker) (frames : List Frame)

namespace TopicInner

variable {Link : Type} (host : Host Link)

/-- `Drop::drop`. The handle dropped still counts. -/
def dropHandle (s : TopicInner) : TopicInner :=
  { s with
    shutdown := s.shutdown || s.strongCount == 1
    dropping := s.dropping + 1 }

/-- What the ingest worker does with one message of the inbox. -/
def ingestFrame (s : TopicInner) (f : Frame) : TopicInner :=
  if f.topic ≠ ingestTopic s.topic.topic then s
  else
    match f.replyToken with
    | none => s
    | some token =>
      { s with topic := (s.topic.handleIngest host f.node token f.payloadHex f.sender f.now).2 }

/-- What the control worker does with one message of the inbox. -/
def controlFrame (s : TopicInner) (f : Frame) : TopicInner :=
  if f.topic ≠ controlTopic s.topic.topic then s
  else
    match f.replyToken with
    | none => s
    | some token =>
      match s.handled.seen token f.now with
      | (true, handled) => { s with handled }
      | (false, handled) =>
        { s with
          handled
          topic := (s.topic.handleControl host f.node f.payloadHex f.sender f.now).2 }

def frame : Worker → TopicInner → Frame → TopicInner
  | .ingest => ingestFrame host
  | .control => controlFrame host

/-- One turn of a worker's loop: return, dropping its handle, if the flag is set; else go through the
inbox. -/
def poll (s : TopicInner) (worker : Worker) (frames : List Frame) : TopicInner :=
  if s.working worker then
    if s.shutdown then { s.dropHandle with working := Function.update s.working worker false }
    else frames.foldl (frame host worker) s
  else s

/-- One step of the program or of a worker. -/
def step (s : TopicInner) : HandleStep → TopicInner
  | .clone => if 0 < s.held then { s with held := s.held + 1, strongCount := s.strongCount + 1 } else s
  | .drop => if 0 < s.held then { s.dropHandle with held := s.held - 1 } else s
  | .release =>
    if 0 < s.dropping then { s with dropping := s.dropping - 1, strongCount := s.strongCount - 1 }
    else s
  | .poll worker frames => s.poll host worker frames

/-- Spawn a worker, with a clone of the handle moved into it. -/
def serve (s : TopicInner) (worker : Worker) : TopicInner :=
  { s with
    strongCount := s.strongCount + 1
    working := Function.update s.working worker true }

/-- `create_topic`: one handle for the program, and the two workers. -/
def createTopic (nodeId topic : String) : Except String TopicInner := do
  let topic ← Topic.create nodeId topic
  let handle : TopicInner := { topic, strongCount := 1, held := 1 }
  .ok ((handle.serve .ingest).serve .control)

end TopicInner

end CePubsub
