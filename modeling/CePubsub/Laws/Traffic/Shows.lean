import CePubsub.Laws.Outcome

/-!
# What the traffic shows

While requests are under way the topic is none a run of its inputs leads to: a message is in the log and
not yet out, a lease is in the registry and not yet replied with. It shows the mesh in which everything
that is decided is done (`Shows`): a publish and an ingest request are decided where their message is
appended or they fail, a pull where its worker reads the log. What is missing is owed: messages that wait
to go out (`Awaits`), the ingest worker's reply (`owed`), and what the control worker has still to do
(`debt`).

`Undisturbed` is what a step must not come between for that to be so.
-/

namespace CePubsub

variable {Link : Type} (host : Host Link)

/-! ## What is under way -/

/-- What a call has been decided to reply, from its append or its refusal on. -/
def CallPhase.owes (r : Request) : CallPhase → Option MeshEvent
  | .appended .owner msg => some (r.event (.published (.ok msg.cursor)))
  | .appended (.ingest ..) msg => some (r.event (.ingested (.accepted msg.cursor)))
  | .outcome _ result => some (r.event (.ingested (Serving.replyOf result)))
  | _ => none

/-- A call is between its append and its broadcast. -/
def CallPhase.waits : CallPhase → Bool
  | .appended .. => true
  | _ => false

/-- A call that is not between the two has not appended. -/
theorem CallPhase.ne_of_waits {phase : CallPhase} (not : phase.waits = false) (who : Author)
    (msg : Message) : phase ≠ .appended who msg := by
  rintro rfl
  cases not

/-- How far one of the program's publishes has come. -/
def CallPhase.Own (nodeId : String) (r : Request) : CallPhase → Prop
  | .checked who msg => who = .owner ∧ r.token = none ∧ r.input.offer nodeId = some (.ok (), msg)
  | .stamped who msg => who = .owner ∧ r.token = none ∧
      ∃ offered, r.input.offer nodeId = some (.ok (), offered) ∧ msg = { offered with cursor := msg.cursor }
  | .appended who _ => who = .owner ∧ r.token = none
  | .replied _ | .returned _ => True
  | .gate _ | .revocation .. | .roots .. | .outcome .. => False

/-- How far an ingest request has come, and what has been decided of it. -/
inductive CallPhase.Ingests (t : Topic) (node : Answers) (c : IngestCall) :
    CallPhase → Option (Except String Nat) → Prop where
  | gate : Ingests t node c (.gate c) none
  | revocation {token} : t.requireCap = true → c.req.grant = some token →
      Ingests t node c (.revocation c token) none
  | roots {token requester selfId revoked} : t.requireCap = true → c.req.grant = some token →
      parseNodeId c.publisher = .ok requester → parseNodeId t.nodeId = .ok selfId →
      Topic.fetchRevoked node = .ok revoked →
      Ingests t node c (.roots c token requester selfId revoked) none
  | checked {gate admission msg} :
      t.gate host node c.publisher abilityPublish c.req.grant c.now = .ok () →
      Topic.ingestMessage host c.req c.publisher t.requireCap c.now = .ok msg →
      Ingests t node c (.checked (.ingest c gate admission) msg) none
  | stamped {gate admission msg} (cursor : Nat) :
      t.gate host node c.publisher abilityPublish c.req.grant c.now = .ok () →
      Topic.ingestMessage host c.req c.publisher t.requireCap c.now = .ok msg →
      Ingests t node c (.stamped (.ingest c gate admission) { msg with cursor }) none
  | appended {gate admission msg} :
      Ingests t node c (.appended (.ingest c gate admission) msg) (some (.ok msg.cursor))
  | outcome {result} : Ingests t node c (.outcome c result) (some result)

/-- The cache as it is to be, before and after it is decided what it takes. -/
def IngestCall.Remembers (c : IngestCall) (now later : IdempotencyCache) :
    Option (Except String Nat) → Prop
  | none => later.get c.key c.now = (none, now)
  | some result => later = now.insert c.key (Topic.seenOf result) c.now

/-- What the control worker has still to do of a request whose lease is planned: the registry as it is to
be, the letters to go out, and the reply. -/
structure Debt where
  subs : SubRegistry
  letters : List Message := []
  event : Option MeshEvent := none

/-- The reply to the request the worker is at. -/
def ControlService.event (c : ControlService) (reply : ControlReply) : MeshEvent :=
  .served c.token c.input (.controlled reply)

/-- A plan not carried out. -/
def ControlService.plans (c : ControlService) (t : Topic) (plan : Option (SubOp × LeaseOutcome)) : Debt :=
  let effect := t.carryOut c.node plan
  ⟨effect.subs, effect.letters, some (c.event effect.reply)⟩

/-- What is still to do, by how far the lease has come. -/
def ControlService.debt (c : ControlService) (t : Topic) : Debt :=
  match c.phase with
  | .leasing name maxMessages (.read high floor) =>
    c.plans t (t.subs.planLease name high floor c.now maxMessages)
  | .leasing _ _ (.planned op out) => c.plans t (some (op, out))
  | .leasing _ _ (.committed _ out) =>
    ⟨t.subs, t.routed c.node out.deadLettered, some (c.event (.pulled (t.resolve out.leased)))⟩
  | .leasing _ _ (.routed _ out _) => ⟨t.subs, [], some (c.event (.pulled (t.resolve out.leased)))⟩
  | _ => ⟨t.subs, [], none⟩

/-- How far a control request has come. -/
structure ControlService.At (t : Topic) (c : ControlService) : Prop where
  decoded : Topic.decodeControl host c.payloadHex = .ok c.req
  other : ∀ grant, c.req ≠ .highCursor grant
  phase : match c.phase with
    | .gate => True
    | .revocation token => t.requireCap = true ∧ c.req.grant = some token
    | .roots token requester selfId revoked => t.requireCap = true ∧ c.req.grant = some token ∧
        parseNodeId c.requester = .ok requester ∧ parseNodeId t.nodeId = .ok selfId ∧
        Topic.fetchRevoked c.node = .ok revoked
    | .admitted => t.gate host c.node c.requester abilitySubscribe c.req.grant c.now = .ok ()
    | .leasing name maxMessages .called =>
        t.gate host c.node c.requester abilitySubscribe c.req.grant c.now = .ok () ∧
        ∃ grant, c.req = .pull name maxMessages grant
    | .leasing _ _ (.read high _) => high ≤ t.writer.highCursor
    | .leasing _ _ (.planned _ out) | .leasing _ _ (.committed _ out) | .leasing _ _ (.routed _ out _) =>
        out.Within t.writer.highCursor
    | .leasing _ _ (.replied ..) => False

/-- The worker has read the log for a lease it has not replied with. -/
def ControlPhase.hasRead : ControlPhase → Bool
  | .leasing _ _ .called => false
  | .leasing .. => true
  | _ => false

namespace Traffic

variable {host}

/-- **An undisturbed step.** An append finds the log's next cursor the one its call read, and no message
between its append and its broadcast; the log is not pruned between a lease's reading it and its reply; and
the gate stays as it is while a worker is at a request. -/
def Undisturbed (s : Traffic) : TrafficAct → Prop
  | .next call => ∀ who msg, s.serving.calls call = some (.stamped who msg) →
      s.topic.writer.nextCursor = msg.cursor ∧
      ∀ other who' msg', s.serving.calls other ≠ some (.appended who' msg')
  | .own _ (.pruneTo ..) => ∀ c, s.control = some c → c.phase.hasRead = false
  | .own _ (.requirePublishCap _) | .own _ (.acceptRoot _) => s.ingesting = none ∧ s.control = none
  | _ => True

/-- What the ingest worker has decided to reply. -/
def owed (s : Traffic) : Option MeshEvent := do
  let call ← s.ingesting
  let r ← s.asked call
  let phase ← s.serving.calls call
  phase.owes r

/-- And of an idle worker, nothing. -/
def debt (s : Traffic) : Debt :=
  match s.control with
  | none => ⟨s.topic.subs, [], none⟩
  | some c => c.debt s.topic

/-- What is still to go out on the live stream, and the reply owed to the program for it. -/
inductive Awaits (s : Traffic) : List Message → Option MeshEvent → Prop where
  | nothing : (∀ call who msg, s.serving.calls call ≠ some (.appended who msg)) → Awaits s [] none
  | message {call who msg r} : s.serving.calls call = some (.appended who msg) → s.asked call = some r →
      (∀ other who' msg', s.serving.calls other = some (.appended who' msg') → other = call) →
      Awaits s (if r.input.node.live then [msg] else [])
        (if s.ingesting = some call then none else CallPhase.owes r (.appended who msg))

/-- An input is what a worker made of a request that was sent. -/
def Sends (s : Traffic) (t : Topic) (token : Nat) (i : Input) : Prop :=
  ∃ r, (CePubsub.sents s.past)[token]? = some r ∧ r.Becomes t.topic token i

/-- The ingest worker's request, and the cache. -/
def IngestAt (host : Host Link) (s : Traffic) (t : Topic) (later : IdempotencyCache) : Prop :=
  match s.ingesting with
  | none => later = s.topic.dedup
  | some call => ∃ r token phase c result, s.asked call = some r ∧ r.token = some token ∧
      s.serving.calls call = some phase ∧
      s.Sends t token r.input ∧ Topic.Decodes host r.input token c ∧
        phase.Ingests host s.topic r.input.node c result ∧
      c.Remembers s.topic.dedup later result

/-- **What a state of the traffic shows**: a mesh where every request whose outcome is decided is done. -/
structure Shows (host : Host Link) (t : Topic) (s : Traffic) (m : Mesh) (unheard : List Message)
    (due : Option MeshEvent) : Prop where
  sequential : m.Sequential host t
  ops : m.logOps host t = s.ops
  sents : sents m.past = sents s.past
  past : (s.past ++ (due.toList ++ s.owed.toList ++ s.debt.event.toList)).Perm m.past
  gate : s.topic.SameGate m.inner.topic
  writer : m.inner.topic.writer = s.topic.writer
  subs : m.inner.topic.subs = s.debt.subs
  dead : m.inner.topic.deadLetters = s.topic.deadLetters ++ s.debt.letters
  live : m.inner.topic.liveMessages = s.topic.liveMessages ++ unheard
  awaits : s.Awaits unheard due
  own : ∀ call phase, s.serving.calls call = some phase → s.ingesting ≠ some call →
    ∃ r, s.asked call = some r ∧ phase.Own s.topic.nodeId r
  ingest : s.IngestAt host t m.inner.topic.dedup
  control : ∀ c, s.control = some c → c.At host s.topic ∧ s.Sends t c.token c.input

end Traffic

/-! ## What other steps leave -/

section Frames

variable {host} {t t' : Topic}

/-- A request is as far as it was while the gate is. -/
theorem CallPhase.Ingests.stable {node : Answers} {c : IngestCall} {phase : CallPhase}
    {result : Option (Except String Nat)} (h : phase.Ingests host t node c result)
    (same : t.SameGate t') : phase.Ingests host t' node c result := by
  cases h with
  | gate => exact .gate
  | revocation gated granted => exact .revocation (same.requireCap.trans gated) granted
  | roots gated granted requester self fetched =>
    exact .roots (same.requireCap.trans gated) granted requester (same.nodeId ▸ self) fetched
  | checked gate made => exact .checked ((same.gate ..).trans gate) (same.requireCap ▸ made)
  | stamped cursor gate made => exact .stamped cursor ((same.gate ..).trans gate) (same.requireCap ▸ made)
  | appended => exact .appended
  | outcome => exact .outcome

/-- What is decided of a request is what is owed for it. -/
theorem CallPhase.Ingests.owes {node : Answers} {c : IngestCall} {phase : CallPhase}
    {result : Option (Except String Nat)} (h : phase.Ingests host t node c result) (r : Request) :
    phase.owes r = result.map fun result => r.event (.ingested (Serving.replyOf result)) := by
  cases h <;> rfl

/-- A control request is as far as it was, if what its worker has read of the log is still within it. -/
theorem ControlService.At.stable {c : ControlService} (h : c.At host t) (same : t.SameGate t')
    (higher : c.phase.hasRead = true → t.writer.highCursor ≤ t'.writer.highCursor) : c.At host t' := by
  obtain ⟨decoded, other, at_⟩ := h
  refine ⟨decoded, other, ?_⟩
  obtain ⟨token, node, payloadHex, requester, now, req, phase⟩ := c
  cases phase with
  | gate => trivial
  | revocation token => exact ⟨same.requireCap.trans at_.1, at_.2⟩
  | roots token requester selfId revoked =>
    exact ⟨same.requireCap.trans at_.1, at_.2.1, at_.2.2.1, same.nodeId ▸ at_.2.2.2.1, at_.2.2.2.2⟩
  | admitted => exact (same.gate ..).trans at_
  | leasing name maxMessages phase =>
    cases phase with
    | called => exact ⟨(same.gate ..).trans at_.1, at_.2⟩
    | read high floor => exact at_.trans (higher rfl)
    | planned op out | committed op out | routed op out log =>
      exact ⟨fun x mem => (at_.1 x mem).trans (higher rfl), fun c mem => (at_.2 c mem).trans (higher rfl)⟩
    | replied reply lease => exact at_

/-- What the control worker has still to do does not change while the log grows. -/
theorem ControlService.debt_stable {c : ControlService} (h : c.At host t) (subs : t'.subs = t.subs)
    (grows : t.writer.Grows t'.writer) : c.debt t' = c.debt t := by
  obtain ⟨-, -, at_⟩ := h
  obtain ⟨token, node, payloadHex, requester, now, req, phase⟩ := c
  have carried : ∀ plan : Option (SubOp × LeaseOutcome),
      (∀ op out, plan = some (op, out) → out.Within t.writer.highCursor) →
      t'.carryOut node plan = t.carryOut node plan :=
    fun _ within => Topic.carryOut_grows subs grows node within
  cases phase with
  | gate | revocation | roots | admitted => exact congrArg (Debt.mk · [] none) subs
  | leasing name maxMessages phase =>
    cases phase with
    | called | replied => exact congrArg (Debt.mk · [] none) subs
    | read high floor =>
      simp only [debt, plans, subs]
      rw [carried]
      intro op out plan
      have within := SubRegistry.within_of_planLease plan
      exact ⟨fun x mem => (within.1 x mem).trans at_, fun c mem => (within.2 c mem).trans at_⟩
    | planned op out =>
      simp only [debt, plans]
      rw [carried]
      rintro _ _ ⟨⟩
      exact at_
    | committed op out =>
      simp only [debt, subs, Topic.resolve_grows grows at_, Topic.routed_grows grows at_]
    | routed op out log => simp only [debt, subs, Topic.resolve_grows grows at_]

namespace Traffic

variable {s : Traffic} {m : Mesh} {unheard : List Message} {due : Option MeshEvent}

/-- What is still to do does not change while the log grows. -/
theorem debt_stable {s' : Traffic} (at_ : ∀ c, s.control = some c → c.At host s.topic)
    (control : s'.control = s.control) (subs : s'.topic.subs = s.topic.subs)
    (grows : s.topic.writer.Grows s'.topic.writer) : s'.debt = s.debt := by
  rw [debt, debt, control]
  cases under : s.control with
  | none => exact congrArg (Debt.mk · [] none) subs
  | some c => exact ControlService.debt_stable (at_ c under) subs grows

/-- What was sent stays sent. -/
theorem Sends.mono {s' : Traffic} {token : Nat} {i : Input} (h : s.Sends t token i)
    (more : CePubsub.sents s.past <+: CePubsub.sents s'.past) : s'.Sends t token i := by
  obtain ⟨r, there, becomes⟩ := h
  obtain ⟨later, grown⟩ := more
  refine ⟨r, ?_, becomes⟩
  rw [← grown, List.getElem?_append_left (List.getElem?_eq_some_iff.mp there).1, there]

/-- The ingest worker's request is where it is. -/
theorem IngestAt.stable {s' : Traffic} {later : IdempotencyCache} (h : s.IngestAt host t later)
    (ingesting : s'.ingesting = s.ingesting)
    (asked : ∀ call, s.ingesting = some call → s'.asked call = s.asked call)
    (calls : ∀ call, s.ingesting = some call → s'.serving.calls call = s.serving.calls call)
    (same : s.topic.SameGate s'.topic) (dedup : s'.topic.dedup = s.topic.dedup)
    (more : CePubsub.sents s.past <+: CePubsub.sents s'.past) : s'.IngestAt host t later := by
  rw [IngestAt, ingesting]
  rw [IngestAt] at h
  cases mine : s.ingesting with
  | none =>
    rw [mine] at h
    exact h.trans dedup.symm
  | some call =>
    rw [mine] at h
    obtain ⟨r, token, phase, c, result, is, tok, at_, sends, decodes, ingests, remembers⟩ := h
    refine ⟨r, token, phase, c, result, (asked call mine).trans is, tok, (calls call mine).trans at_,
      sends.mono more, decodes, ingests.stable same, ?_⟩
    rw [dedup]
    exact remembers

/-- And so is what is owed for it. -/
theorem owed_stable {s' : Traffic} (ingesting : s'.ingesting = s.ingesting)
    (asked : ∀ call, s.ingesting = some call → s'.asked call = s.asked call)
    (calls : ∀ call, s.ingesting = some call → s'.serving.calls call = s.serving.calls call) :
    s'.owed = s.owed := by
  rw [owed, owed, ingesting]
  cases mine : s.ingesting with
  | none => rfl
  | some call => simp only [Option.bind_eq_bind, Option.bind_some, asked call mine, calls call mine]

end Traffic

end Frames

end CePubsub
