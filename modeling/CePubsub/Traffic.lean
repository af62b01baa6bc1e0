import CePubsub.Admission
import CePubsub.Leasing
import CePubsub.Mesh

/-!
# The mesh around a topic, a step at a time (`lib.rs`)

In `Mesh` the owner is done with a request before it comes to another. Here requests are under way: the
program has made any number of calls, the ingest worker is at one request and the control worker at
another, and between any two steps of one come steps of the others. Publishes and ingest requests take
the steps of `Serving`, a pull those of `Leasing`, all on one topic.

How the calls outside turn out is settled when a call is made. A worker that has returned takes no more
steps, so the handles take runs away from this machine and add none; they are left out.

`past` holds what was sent and what was replied, each from when it was; `ops` what the log has taken.
-/

namespace CePubsub

/-- What a call was made for: an input, and the token a worker has it under. -/
structure Request where
  token : Option Nat
  input : Input

/-- Where the control worker has got to with a request. -/
inductive ControlPhase where
  | gate
  | revocation (token : String)
  | roots (token : String) (requester selfId : NodeId) (revoked : List (NodeId × Nat))
  | admitted
  | leasing (name : String) (maxMessages : Nat) (phase : LeasePhase)

/-- The request the control worker is at. -/
structure ControlService where
  token : Nat
  node : Answers
  payloadHex : String
  requester : String
  now : Nat
  req : ControlRequest
  phase : ControlPhase := .gate

/-- The owner, what it is about, and what happened so far. -/
structure Traffic where
  serving : Serving
  asked : Nat → Option Request := fun _ => none
  /-- The call of the ingest worker's request. -/
  ingesting : Option Nat := none
  control : Option ControlService := none
  handled : TokenSet := .new dedupCapacity dedupTtlSecs
  ops : List LogOp := []
  past : List MeshEvent := []

/-- What may happen next. -/
inductive TrafficAct where
  | send (r : Sent)
  /-- The program uses its handle; a publish is a call of this number. -/
  | own (call : Nat) (i : Input)
  /-- The ingest worker comes to a message of the inbox. -/
  | ingest (call : Nat) (d : Delivery)
  /-- A publish or an ingest request takes its next step. -/
  | next (call : Nat)
  /-- The control worker comes to a message of the inbox. -/
  | control (d : Delivery)
  /-- The control worker takes its next step. -/
  | serve

/-- How the calls of an input turn out. -/
def Input.node : Input → Answers
  | .publish node .. | .publishWith node .. | .pruneTo node .. | .ingest node .. | .control node .. => node
  | .requirePublishCap _ | .acceptRoot _ => {}

/-- A call that ends, with its reply. -/
def Request.event (r : Request) (reply : Reply) : MeshEvent :=
  match r.token with
  | some token => .served token r.input reply
  | none => .own r.input reply

/-- The request, as an input of the topic. -/
def ControlService.input (c : ControlService) : Input := .control c.node c.payloadHex c.requester c.now

/-- What a call has come to, at its end. -/
def CallPhase.reply? : CallPhase → Option Reply
  | .replied reply => some (.ingested reply)
  | .returned result => some (.published result)
  | _ => none

/-- The mesh topic a worker looks for. -/
def Worker.meshTopic (worker : Worker) (topic : String) : String :=
  match worker with
  | .ingest => ingestTopic topic
  | .control => controlTopic topic

/-- What a worker makes of a request. -/
def Sent.input (r : Sent) (d : Delivery) : Worker → Input
  | .ingest => .ingest d.node d.token (Hex.encode r.body) r.sender d.now
  | .control => .control d.node (Hex.encode r.body) r.sender d.now

namespace Traffic

variable {Link : Type} (host : Host Link)

/-- The topic they are all about. -/
abbrev topic (s : Traffic) : Topic := s.serving.topic

/-- A request an inbox shows, if it is for this worker. -/
def shows (s : Traffic) (worker : Worker) (d : Delivery) : Option Sent :=
  (sents s.past)[d.token]?.filter fun r => r.asks && r.topic == worker.meshTopic s.topic.topic

/-- What a call's step adds to the log. -/
def appends (before after : Serving) (call : Nat) : List LogOp :=
  match before.calls call, after.calls call with
  | some (.stamped _ _), some (.appended _ msg) => [.append msg]
  | _, _ => []

/-- What a call's step replies, if it was its last. -/
def replies (before after : Serving) (call : Nat) : Option Reply :=
  match (before.calls call).bind CallPhase.reply? with
  | some _ => none
  | none => (after.calls call).bind CallPhase.reply?

/-- A call takes a step. The ingest worker is free again once its request is replied to. -/
def advance (s : Traffic) (call : Nat) (after : Serving) : Traffic :=
  { s with
    serving := after
    ops := s.ops ++ appends s.serving after call
    ingesting :=
      if (replies s.serving after call).isSome && s.ingesting == some call then none else s.ingesting
    past := s.past ++ ((s.asked call).bind fun r => (replies s.serving after call).map r.event).toList }

/-- A call is made, under a number no call has had. -/
def make (s : Traffic) (call : Nat) (r : Request) (act : ServingAct) : Traffic :=
  { s with asked := Function.update s.asked call (some r) }.advance call (s.serving.step host act)

/-- What the program does with its topic at one go. -/
def change (s : Traffic) (i : Input) (ops : List LogOp) : Traffic :=
  { s with
    serving := { s.serving with topic := s.topic.step host i }
    ops := s.ops ++ ops
    past := s.past ++ [.own i (s.topic.reply host i)] }

/-- What the program asks. A publish is checked here, and takes its steps with `next`. -/
def own (s : Traffic) (call : Nat) (i : Input) : Traffic :=
  match i with
  | .publish _ payload now =>
    if (s.serving.calls call).isSome then s else s.make host call ⟨none, i⟩ (.publish call payload now)
  | .publishWith _ payload opts now =>
    if (s.serving.calls call).isSome then s
    else s.make host call ⟨none, i⟩ (.publishWith call payload opts now)
  | .pruneTo node upTo => s.change host i (if node.commitLog = .ok () then [.pruneTo upTo] else [])
  | .requirePublishCap _ | .acceptRoot _ => s.change host i []
  | .ingest .. | .control .. => s

/-- A worker that is at a request takes up no other. -/
def ingest (s : Traffic) (call : Nat) (d : Delivery) : Traffic :=
  match s.ingesting, s.serving.calls call, s.shows .ingest d with
  | none, none, some r =>
    { s with ingesting := some call }.make host call ⟨some d.token, r.input d .ingest⟩
      (.ingest call d.token (Hex.encode r.body) r.sender d.now)
  | _, _, _ => s

/-- A call that was never made takes no step. -/
def next (s : Traffic) (call : Nat) : Traffic :=
  match s.asked call with
  | none => s
  | some r => s.advance call (s.serving.next host call r.input.node)

/-- The control worker replies, and is free for another request. -/
def conclude (s : Traffic) (token : Nat) (i : Input) (t : Topic) (reply : ControlReply) : Traffic :=
  { s with
    serving := { s.serving with topic := t }
    control := none
    past := s.past ++ [.served token i (.controlled reply)] }

/-- A request that was handled is passed over; one that cannot be read, or asks for the high cursor, is
replied to at once. -/
def controlled (s : Traffic) (d : Delivery) : Traffic :=
  match s.control, s.shows .control d with
  | none, some r =>
    match s.handled.seen d.token d.now with
    | (true, handled) => { s with handled }
    | (false, handled) =>
      match Topic.decodeControl host (Hex.encode r.body) with
      | .error why => { s with handled }.conclude d.token (r.input d .control) s.topic (.rejected why)
      | .ok (.highCursor _) =>
        { s with handled }.conclude d.token (r.input d .control) s.topic (.high s.topic.writer.highCursor)
      | .ok req =>
        { s with
          handled
          control := some ⟨d.token, d.node, Hex.encode r.body, r.sender, d.now, req, .gate⟩ }
  | _, _ => s

/-- The gate, the revocation set or the grant turns the request away. -/
def refuse (s : Traffic) (c : ControlService) (why : String) : Traffic :=
  s.conclude c.token c.input s.topic (.rejected why)

/-- The control worker is at the next phase. -/
def enter (s : Traffic) (c : ControlService) (phase : ControlPhase) : Traffic :=
  { s with control := some { c with phase } }

/-- The control worker's next step: the gate is read, the revocation set asked for, the roots read and the
grant verified; then a pull is leased in steps. Anything else is served in one: nobody but this worker
proposes to the registry, so what it read of it still holds when its proposal is applied. -/
def serve (s : Traffic) : Traffic :=
  match s.control with
  | none => s
  | some c =>
    match c.phase with
    | .gate =>
      if s.topic.requireCap then
        match c.req.grant with
        | none => s.refuse c s!"topic requires a {abilitySubscribe} capability but none was presented"
        | some token => s.enter c (.revocation token)
      else s.enter c .admitted
    | .revocation token =>
      match parseNodeId c.requester, parseNodeId s.topic.nodeId, Topic.fetchRevoked c.node with
      | .error e, _, _ => s.refuse c s!"bad publisher node id: {e}"
      | .ok _, .error e, _ => s.refuse c s!"bad owner node id: {e}"
      | .ok _, .ok _, .error e => s.refuse c s!"cannot verify revocation (fail-closed): {e}"
      | .ok requester, .ok selfId, .ok revoked => s.enter c (.roots token requester selfId revoked)
    | .roots token requester selfId revoked =>
      match verifyLink host.iam selfId s.topic.acceptedRoots [] c.now requester abilitySubscribe
          s.topic.topic token
          fun issuer nonce => revoked.any fun (i, n) => decide (i = issuer ∧ n = nonce) with
      | .error why => s.refuse c why
      | .ok () => s.enter c .admitted
    | .admitted =>
      match c.req with
      | .pull name maxMessages _ => s.enter c (.leasing name maxMessages .called)
      | req =>
        s.conclude c.token c.input (s.topic.serveControl c.node c.now req).2
          (s.topic.serveControl c.node c.now req).1
    | .leasing name maxMessages phase =>
      let leased := Leasing.next name maxMessages c.now ⟨s.topic, phase⟩ c.node
      match leased.phase with
      | .replied reply _ => s.conclude c.token c.input leased.topic reply
      | phase =>
        { s with serving := { s.serving with topic := leased.topic } }.enter c
          (.leasing name maxMessages phase)

/-- What comes of a step. -/
def step (s : Traffic) : TrafficAct → Traffic
  | .send r => { s with past := s.past ++ [.sent r] }
  | .own call i => s.own host call i
  | .ingest call d => s.ingest host call d
  | .next call => s.next host call
  | .control d => s.controlled host d
  | .serve => s.serve host

end Traffic

end CePubsub
