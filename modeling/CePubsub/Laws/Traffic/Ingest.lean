import CePubsub.Laws.Traffic.Steps

/-!
# The ingest worker's request

A request is decided where it is refused or its message appended. Before that the mesh is as it was; there
it takes the whole request, with the reply to come; and what is left to do afterwards is owed.
-/

namespace CePubsub

variable {Link : Type} {host : Host Link}

namespace Traffic

variable {t : Topic} {s : Traffic} {m : Mesh} {unheard : List Message} {due : Option MeshEvent}
  {call token : Nat} {r : Request} {phase : CallPhase} {c : IngestCall}

/-! ## Before it is decided, and a refusal -/

/-- Only a request that is appended is before its broadcast. -/
theorem Ingesting.not_appended {result : Option (Except String Nat)}
    (h : Ingesting host t s m call r token phase c result) (later : phase.waits = false) :
    ∀ who msg, s.serving.calls call ≠ some (.appended who msg) :=
  fun who msg at_ => CallPhase.ne_of_waits later who msg (Option.some.inj (h.at_.symm.trans at_))

/-- A request on its way to its append. -/
theorem Shows.ingestMoves (h : Shows host t s m unheard due)
    (was : Ingesting host t s m call r token phase c none) {next : CallPhase}
    (before : phase.waits = false) (later : next.waits = false)
    (is : next.Ingests host s.topic r.input.node c none) :
    Shows host t { s with serving := s.serving.enter call next } m unheard due := by
  have now : Ingesting host t { s with serving := s.serving.enter call next } m call r token next c none :=
    ⟨was.mine, was.asked, was.under, Serving.calls_enter _ _ _, was.sends, was.decodes, is, was.remembers⟩
  have owed : owed { s with serving := s.serving.enter call next } = s.owed := by
    rw [owed_of now.mine now.asked now.at_, owed_of was.mine was.asked was.at_, is.owes, was.ingests.owes]
  exact { h with
    past := owed ▸ h.past
    awaits := h.awaits.elsewhere rfl (fun _ _ => rfl) (fun _ _ => .rfl) (was.not_appended before) later
    own := own_enter h.own rfl (fun _ _ => rfl) (fun _ _ => .rfl) rfl (.inl was.mine)
    ingest := now.ingestAt }

/-- What is decided of a request happens at the owner at one go. -/
theorem Ingesting.decided {result : Option (Except String Nat)}
    (was : Ingesting host t s m call r token phase c result) (h : Shows host t s m unheard due)
    {reply : Reply} {t' : Topic} (replied : m.inner.topic.reply host r.input = reply)
    (left : m.inner.topic.step host r.input = t') : (m.after t' (r.event reply)).Sequential host t := by
  rw [Request.event_served was.under]
  exact h.served was.sends replied left

/-- A request is refused. -/
theorem Shows.ingestRefused (h : Shows host t s m unheard due)
    (was : Ingesting host t s m call r token phase c none) (before : phase.waits = false)
    {why : String}
    (refused : { m.inner.topic with dedup := s.topic.dedup }.applyIngest host r.input.node c.req c.publisher
      c.now = (.error why, { m.inner.topic with dedup := s.topic.dedup })) :
    Shows host t { s with serving := s.serving.enter call (.outcome c (.error why)) }
      (m.after { m.inner.topic with dedup := s.topic.dedup.insert c.key .handled c.now }
        (r.event (.ingested (.rejected why)))) unheard due := by
  obtain ⟨replied, left⟩ := Topic.step_of_missed was.decodes was.remembers
  rw [refused] at replied left
  have now : Ingesting host t { s with serving := s.serving.enter call (.outcome c (.error why)) }
      (m.after { m.inner.topic with dedup := s.topic.dedup.insert c.key .handled c.now }
        (r.event (.ingested (.rejected why)))) call r token (.outcome c (.error why)) c
      (some (.error why)) :=
    ⟨was.mine, was.asked, was.under, Serving.calls_enter _ _ _, was.sends, was.decodes, .outcome, rfl⟩
  constructor
  case sequential => exact was.decided h replied left
  case ops =>
    have committed := Topic.commits_of_rejected was.decodes was.remembers (congrArg Prod.fst refused)
    rw [Mesh.after, Mesh.logOps_concat h.sequential _ (r.input_event _), committed, h.ops]
    exact List.append_nil _
  case sents => exact (sents_unsent m.past (r.sent_event _)).trans h.sents
  case past =>
    have past := h.past
    rw [owed_of was.mine was.asked was.at_, was.ingests.owes] at past
    rw [owed_of now.mine now.asked now.at_, now.ingests.owes]
    rw [Option.map_none, Option.toList_none, List.append_nil] at past
    rw [Option.map_some, Option.toList_some, List.append_assoc, List.singleton_append]
    exact perm_owed _ past
  case gate => exact h.gate.withDedup _
  case writer => exact h.writer
  case subs => exact h.subs
  case dead => exact h.dead
  case live => exact h.live
  case awaits =>
    exact h.awaits.elsewhere rfl (fun _ _ => rfl) (fun _ _ => .rfl) (was.not_appended before) rfl
  case own => exact own_enter h.own rfl (fun _ _ => rfl) (fun _ _ => .rfl) rfl (.inl was.mine)
  case ingest => exact now.ingestAt
  case control => exact h.control

/-! ## The append and the broadcast -/

/-- A request that has been admitted and checked commits. -/
theorem Ingesting.appends {gated : Bool} {admission : Option Admission} {msg : Message} {cursor : Nat}
    (h : Shows host t s m unheard due)
    (was : Ingesting host t s m call r token (.stamped (.ingest c gated admission) { msg with cursor }) c
      none)
    (admits : s.topic.gate host r.input.node c.publisher abilityPublish c.req.grant c.now = .ok ())
    (made : Topic.ingestMessage host c.req c.publisher s.topic.requireCap c.now = .ok msg)
    (commits : r.input.node.commitLog = .ok ()) (next : s.topic.writer.nextCursor = cursor) :
    ∃ u t', u = { m.inner.topic with dedup := s.topic.dedup } ∧ Topic.Publishes r.input.node msg u t' ∧
      m.inner.topic.reply host r.input = .ingested (.accepted cursor) ∧
      m.inner.topic.step host r.input =
        { t' with dedup := s.topic.dedup.insert c.key (.cursor cursor) c.now } ∧
      (m.inner.topic.call host r.input).bind m.inner.topic.commits = some (.append { msg with cursor }) := by
  obtain ⟨replied, left⟩ := Topic.step_of_missed was.decodes was.remembers
  have committed := Topic.commits_of_missed was.decodes was.remembers
  have admits' := (h.gate.gate ..).trans admits
  have made' := made
  rw [← h.gate.requireCap] at made'
  rw [admits', made'] at committed
  simp only [Topic.commits, commits, h.writer, next] at committed
  have same : { m.inner.topic with dedup := s.topic.dedup }.writer = s.topic.writer := h.writer
  have admitted : { m.inner.topic with dedup := s.topic.dedup }.gate host r.input.node c.publisher
      abilityPublish c.req.grant c.now = .ok () := admits'
  have checked : Topic.ingestMessage host c.req c.publisher
      { m.inner.topic with dedup := s.topic.dedup }.requireCap c.now = .ok msg := made'
  have cached : { m.inner.topic with dedup := s.topic.dedup }.dedup = s.topic.dedup := rfl
  generalize is : { m.inner.topic with dedup := s.topic.dedup } = u at *
  obtain ⟨-, publishes⟩ := u.publishes_appendAndFanout msg commits
  have applied := Topic.applyIngest_of_commit admitted checked commits
  rw [same, next] at applied
  rw [applied] at replied left
  refine ⟨u, _, rfl, publishes, replied, ?_, committed⟩
  rw [left, publishes.dedup, cached]
  rfl

/-- A request is appended. -/
theorem Shows.ingestAppends {gated : Bool} {admission : Option Admission} {msg : Message} {cursor : Nat}
    (h : Shows host t s m unheard due)
    (was : Ingesting host t s m call r token (.stamped (.ingest c gated admission) { msg with cursor }) c
      none)
    (admits : s.topic.gate host r.input.node c.publisher abilityPublish c.req.grant c.now = .ok ())
    (made : Topic.ingestMessage host c.req c.publisher s.topic.requireCap c.now = .ok msg)
    (commits : r.input.node.commitLog = .ok ()) (next : s.topic.writer.nextCursor = cursor)
    (none : ∀ other who msg, s.serving.calls other ≠ some (.appended who msg)) :
    ∃ m', m.past <+: m'.past ∧
      Shows host t (s.appending call (.ingest c gated admission) { msg with cursor }) m'
        (if r.input.node.live then [{ msg with cursor }] else []) .none := by
  obtain ⟨u, t', is, publishes, replied, left, committed⟩ := was.appends h admits made commits next
  obtain ⟨rfl, rfl⟩ := h.awaits.alone none
  refine ⟨m.after { t' with dedup := s.topic.dedup.insert c.key (.cursor cursor) c.now }
    (r.event (.ingested (.accepted cursor))), List.prefix_append _ _, ?_⟩
  have grows := s.topic.writer.grows_append { msg with cursor }
  have now : Ingesting host t (s.appending call (.ingest c gated admission) { msg with cursor })
      (m.after { t' with dedup := s.topic.dedup.insert c.key (.cursor cursor) c.now }
        (r.event (.ingested (.accepted cursor)))) call r token
      (.appended (.ingest c gated admission) { msg with cursor }) c (some (.ok cursor)) :=
    ⟨was.mine, was.asked, was.under, Serving.calls_enter _ _ _, was.sends, was.decodes, .appended, rfl⟩
  have debt : (s.appending call (.ingest c gated admission) { msg with cursor }).debt = s.debt :=
    debt_stable (fun c under => (h.control c under).1) rfl rfl grows
  have like : u.writer = m.inner.topic.writer ∧ u.subs = m.inner.topic.subs ∧
      u.liveMessages = m.inner.topic.liveMessages ∧ u.deadLetters = m.inner.topic.deadLetters :=
    is ▸ ⟨rfl, rfl, rfl, rfl⟩
  have gate := (is ▸ h.gate.withDedup _ : s.topic.SameGate u).trans publishes.gate
  constructor
  case sequential => exact was.decided h replied left
  case ops =>
    rw [Mesh.after, Mesh.logOps_concat h.sequential _ (r.input_event _), committed, h.ops]
    rfl
  case sents => exact (sents_unsent m.past (r.sent_event _)).trans h.sents
  case past =>
    have past := h.past
    rw [owed_of was.mine was.asked was.at_, was.ingests.owes] at past
    rw [owed_of now.mine now.asked now.at_, now.ingests.owes, debt]
    exact perm_owed _ past
  case gate => exact ⟨gate.nodeId, gate.topic, gate.acceptedRoots, gate.requireCap⟩
  case writer =>
    refine publishes.writer.trans ?_
    rw [like.1, h.writer]
    rfl
  case subs =>
    rw [debt]
    exact publishes.subs.trans (like.2.1.trans h.subs)
  case dead =>
    rw [debt]
    exact publishes.dead.trans (like.2.2.2.trans h.dead)
  case live =>
    have live := publishes.live
    rw [like.1, h.writer, next, like.2.2.1, h.live, List.append_nil] at live
    exact live
  case awaits =>
    have awaits : (s.appending call (.ingest c gated admission) { msg with cursor }).Awaits _ _ :=
      awaits_append none
      rfl was.asked
    rw [if_pos now.mine] at awaits
    exact awaits
  case own => exact own_enter h.own rfl (fun _ _ => rfl) (fun _ _ => .rfl) rfl (.inl was.mine)
  case ingest => exact now.ingestAt
  case control =>
    intro c under
    exact (h.control c under).imp_left (·.stable ⟨rfl, rfl, rfl, rfl⟩ fun _ => grows.high)

/-- A request's message goes out. -/
theorem Shows.ingestBroadcasts {gated : Bool} {admission : Option Admission} {msg : Message}
    (h : Shows host t s m unheard due)
    (was : Ingesting host t s m call r token (.appended (.ingest c gated admission) msg) c
      (some (.ok msg.cursor))) :
    Shows host t (s.broadcasting call r.input.node msg (.outcome c (.ok msg.cursor))) m [] none := by
  obtain ⟨rfl, rfl, alone⟩ := h.awaits.at_ was.at_ was.asked
  obtain ⟨untouched, subs, live, dead⟩ := fanned_spec s.topic r.input.node msg
  have grows : s.topic.writer.Grows (fanned s.topic r.input.node msg).writer := untouched.writer ▸ .refl _
  have now : Ingesting host t (s.broadcasting call r.input.node msg (.outcome c (.ok msg.cursor))) m call r
      token (.outcome c (.ok msg.cursor)) c (some (.ok msg.cursor)) :=
    ⟨was.mine, was.asked, was.under, Serving.calls_enter _ _ _, was.sends, was.decodes, .outcome,
      was.remembers.trans (congrArg (fun cache : IdempotencyCache =>
        cache.insert c.key (Topic.seenOf (.ok msg.cursor)) c.now) untouched.dedup.symm)⟩
  have debt : (s.broadcasting call r.input.node msg (.outcome c (.ok msg.cursor))).debt = s.debt :=
    debt_stable (fun c under => (h.control c under).1) rfl subs grows
  have owed : owed (s.broadcasting call r.input.node msg (.outcome c (.ok msg.cursor))) = s.owed := by
    rw [owed_of now.mine now.asked now.at_, owed_of was.mine was.asked was.at_, now.ingests.owes,
      was.ingests.owes]
  exact { h with
    past := by
      have past := h.past
      rw [if_pos was.mine] at past
      rw [owed, debt]
      exact past
    gate := untouched.sameGate.symm.trans h.gate
    writer := h.writer.trans untouched.writer.symm
    subs := debt ▸ h.subs
    dead := by
      rw [debt]
      exact h.dead.trans (congrArg (· ++ _) dead.symm)
    live := h.live.trans (live.symm.trans (List.append_nil _).symm)
    awaits := awaits_broadcast alone rfl rfl
    own := own_enter h.own rfl (fun _ _ => rfl) (fun _ _ => .rfl) untouched.nodeId (.inl was.mine)
    ingest := now.ingestAt
    control := fun c under => (h.control c under).imp_left
      (·.stable untouched.sameGate fun _ => grows.high) }

/-- The ingest worker records the outcome and replies. -/
def answering (s : Traffic) (call : Nat) (r : Request) (c : IngestCall) (result : Except String Nat) :
    Traffic :=
  { s with
    serving := { s.serving with
      topic := { s.topic with dedup := s.topic.dedup.insert c.key (Topic.seenOf result) c.now } }.enter call
        (.replied (Serving.replyOf result))
    ingesting := none
    past := s.past ++ [r.event (.ingested (Serving.replyOf result))] }

/-- A request is replied to. -/
theorem Shows.ingestReplies {result : Except String Nat} (h : Shows host t s m unheard due)
    (was : Ingesting host t s m call r token (.outcome c result) c (some result)) :
    Shows host t (s.answering call r c result) m unheard due := by
  have others : ∀ other, other ≠ call → ((s.answering call r c result).ingesting = some other ↔
      s.ingesting = some other) := by
    intro other ne
    refine iff_of_false nofun fun mine => ne ?_
    exact Option.some.inj (mine.symm.trans was.mine)
  have more : CePubsub.sents (s.answering call r c result).past = CePubsub.sents s.past :=
    sents_unsent s.past (r.sent_event _)
  have same : s.topic.SameGate (s.answering call r c result).topic := ⟨rfl, rfl, rfl, rfl⟩
  have debt : (s.answering call r c result).debt = s.debt :=
    debt_stable (fun c under => (h.control c under).1) rfl rfl (.refl _)
  have owed : (s.answering call r c result).owed = none := rfl
  exact { h with
    sents := h.sents.trans more.symm
    past := by
      have past := h.past
      rw [owed_of was.mine was.asked was.at_, was.ingests.owes, Option.map_some, Option.toList_some,
        List.append_assoc] at past
      rw [owed, debt, Option.toList_none, List.append_nil]
      exact perm_paid _ past
    gate := same.symm.trans h.gate
    subs := debt ▸ h.subs
    dead := debt ▸ h.dead
    awaits := h.awaits.elsewhere rfl (fun _ _ => rfl) others (was.not_appended rfl) rfl
    own := own_enter h.own rfl (fun _ _ => rfl) others rfl (.inr ⟨r, was.asked, trivial⟩)
    ingest := was.remembers
    control := by
      intro c under
      obtain ⟨at_, sends⟩ := h.control c under
      exact ⟨at_.stable same fun _ => Nat.le_refl _, sends.mono (more ▸ List.prefix_rfl)⟩ }

/-! ## The next step of a request -/

/-- A request that the worker is at has no reply yet. -/
theorem Ingesting.unreplied {result : Option (Except String Nat)}
    (h : Ingesting host t s m call r token phase c result) :
    (s.serving.calls call).bind CallPhase.reply? = none := by
  rw [h.at_, Option.bind_some]
  cases h.ingests <;> rfl

/-- A request that fails the gate or its checks. -/
theorem Shows.refuses (h : Shows host t s m unheard due)
    (was : Ingesting host t s m call r token phase c none) (before : phase.waits = false)
    {why : String}
    (refused : { m.inner.topic with dedup := s.topic.dedup }.applyIngest host r.input.node c.req c.publisher
      c.now = (.error why, { m.inner.topic with dedup := s.topic.dedup })) :
    ∃ m', m.past <+: m'.past ∧
      Shows host t (s.advance call (s.serving.enter call (.outcome c (.error why)))) m' unheard due := by
  rw [advance_quiet was.unreplied rfl rfl]
  exact ⟨_, List.prefix_append _ _, h.ingestRefused was before refused⟩

/-- A request goes on to its next phase. -/
theorem Shows.goesOn (h : Shows host t s m unheard due)
    (was : Ingesting host t s m call r token phase c none) {next : CallPhase}
    (before : phase.waits = false) (later : next.waits = false)
    (silent : next.reply? = none) (is : next.Ingests host s.topic r.input.node c none) :
    ∃ m', m.past <+: m'.past ∧ Shows host t (s.advance call (s.serving.enter call next)) m' unheard due := by
  rw [advance_quiet was.unreplied later silent]
  exact ⟨m, List.prefix_rfl, h.ingestMoves was before later is⟩

/-- The gate, read of the mesh's topic or of this one. -/
theorem Shows.gate_eq (h : Shows host t s m unheard due) (node : Answers) (requester ability : String)
    (grant : Option String) (now : Nat) :
    { m.inner.topic with dedup := s.topic.dedup }.gate host node requester ability grant now =
      s.topic.gate host node requester ability grant now :=
  (h.gate.withDedup _).gate ..

/-- An admitted request is checked. -/
theorem Shows.checks (h : Shows host t s m unheard due)
    (was : Ingesting host t s m call r token phase c none) (before : phase.waits = false)
    (admits : s.topic.gate host r.input.node c.publisher abilityPublish c.req.grant c.now = .ok ())
    {gated : Bool} {admission : Option Admission} (same : admission.isSome = s.topic.requireCap) :
    ∃ m', m.past <+: m'.past ∧
      Shows host t (s.advance call (s.serving.enter call (Serving.check host c gated admission))) m' unheard
        due := by
  rw [Serving.check, same]
  cases made : Topic.ingestMessage host c.req c.publisher s.topic.requireCap c.now with
  | error why =>
    rw [← h.gate.requireCap] at made
    exact h.refuses was before (Topic.applyIngest_of_check ((h.gate_eq ..).trans admits) made)
  | ok msg => exact h.goesOn was before rfl rfl (.checked admits made)

/-- **The ingest worker's next step.** -/
theorem Shows.ingestNext (h : Shows host t s m unheard due) (mine : s.ingesting = some call)
    (undisturbed : s.Undisturbed (.next call)) :
    ∃ m' unheard' due', m.past <+: m'.past ∧ Shows host t (s.next host call) m' unheard' due' := by
  obtain ⟨r, token, phase, c, result, was⟩ := h.ingesting mine
  have keeps : ∀ {s'}, (∃ m', m.past <+: m'.past ∧ Shows host t s' m' unheard due) →
      ∃ m' unheard' due', m.past <+: m'.past ∧ Shows host t s' m' unheard' due' :=
    fun ⟨m', grown, shows⟩ => ⟨m', unheard, due, grown, shows⟩
  rw [next, was.asked]
  simp only [Serving.next, was.at_]
  have ingests := was.ingests
  cases ingests with
  | gate =>
    refine keeps ?_
    simp only [Serving.readGate]
    cases gated : s.topic.requireCap with
    | true =>
      rw [if_pos rfl]
      cases granted : c.req.grant with
      | none =>
        refine h.refuses was rfl (Topic.applyIngest_of_gate ((h.gate_eq ..).trans ?_))
        rw [granted]
        exact Topic.gate_of_none gated _ _ _ _
      | some token => exact h.goesOn was rfl rfl rfl (.revocation gated granted)
    | false =>
      rw [if_neg Bool.false_ne_true]
      exact h.checks was rfl (Topic.gate_of_ungated host gated ..) gated.symm
  | @revocation token gated granted =>
    refine keeps ?_
    have gate := Topic.gate_of_grant host gated r.input.node c.publisher abilityPublish token c.now
    rw [← granted] at gate
    simp only [Serving.readRevoked]
    cases publisher : parseNodeId c.publisher with
    | error e =>
      simp only [publisher] at gate
      exact h.refuses was rfl (Topic.applyIngest_of_gate ((h.gate_eq ..).trans gate))
    | ok requester =>
      cases self : parseNodeId s.topic.nodeId with
      | error e =>
        simp only [publisher, self] at gate
        exact h.refuses was rfl (Topic.applyIngest_of_gate ((h.gate_eq ..).trans gate))
      | ok selfId =>
        cases fetched : Topic.fetchRevoked r.input.node with
        | error e =>
          simp only [publisher, self, fetched] at gate
          exact h.refuses was rfl (Topic.applyIngest_of_gate ((h.gate_eq ..).trans gate))
        | ok revoked => exact h.goesOn was rfl rfl rfl (.roots gated granted publisher self fetched)
  | @roots token requester selfId revoked gated granted publisher self fetched =>
    refine keeps ?_
    have gate := Topic.gate_of_grant host gated r.input.node c.publisher abilityPublish token c.now
    rw [← granted] at gate
    simp only [publisher, self, fetched] at gate
    simp only [Serving.readRoots, Admission.verify]
    generalize verdict : verifyLink host.iam selfId s.serving.topic.acceptedRoots [] c.now requester
      abilityPublish s.serving.topic.topic token _ = verified
    rw [topic] at gate
    rw [verdict] at gate
    cases verified with
    | error why => exact h.refuses was rfl (Topic.applyIngest_of_gate ((h.gate_eq ..).trans gate))
    | ok u => exact h.checks was rfl gate gated.symm
  | @checked gated admission msg admits made =>
    refine keeps ?_
    exact h.goesOn was rfl rfl rfl (.stamped _ admits made)
  | @stamped gated admission msg cursor admits made =>
    obtain ⟨next, none⟩ := undisturbed _ _ was.at_
    simp only [Serving.propose]
    cases commits : r.input.node.commitLog with
    | error e =>
      refine keeps (h.refuses was rfl ?_)
      rw [← h.gate.requireCap] at made
      exact Topic.applyIngest_of_failed ((h.gate_eq ..).trans admits) made commits
    | ok u =>
      obtain ⟨m', grown, shows⟩ := h.ingestAppends was admits made commits next none
      rw [advance_append was.at_]
      exact ⟨m', _, _, grown, shows⟩
  | @appended gated admission msg =>
    have settled : Serving.settle (.ingest c gated admission) (.ok msg.cursor) =
        .outcome c (.ok msg.cursor) := rfl
    simp only [settled]
    rw [advance_quiet was.unreplied rfl rfl]
    exact ⟨m, _, _, List.prefix_rfl, h.ingestBroadcasts was⟩
  | @outcome result =>
    rw [advance_reply was.unreplied was.asked rfl, if_pos mine]
    exact ⟨m, _, _, List.prefix_rfl, h.ingestReplies was⟩

end Traffic

end CePubsub
