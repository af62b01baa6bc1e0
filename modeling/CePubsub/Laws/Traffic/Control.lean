import CePubsub.Laws.Traffic.Steps

/-!
# The control worker's request

Only this worker changes the registry, so a request other than a pull is served at one go. A pull is decided
when its worker reads the log; what it leases, buries and replies with is fixed then, and owed until it is
done (`Shows.decides`, `Shows.serves`, `Shows.pays`).
-/

namespace CePubsub

variable {Link : Type} {host : Host Link}

namespace Topic

variable (host) in
/-- A control request commits nothing to the log. -/
theorem commits_of_control (t : Topic) (node : Answers) (payloadHex requester : String) (now : Nat) :
    (t.call host (.control node payloadHex requester now)).bind t.commits = none := by
  cases comes : t.call host (.control node payloadHex requester now) with
  | none => rfl
  | some c =>
    obtain ⟨req, -, rfl⟩ := decoded_of_call comes
    rfl

/-- Anything but a pull is answered from the registry and the log. -/
theorem serveControl_congr {t t' : Topic} (subs : t'.subs = t.subs) (writer : t'.writer = t.writer)
    {req : ControlRequest} (other : ∀ name maxMessages grant, req ≠ .pull name maxMessages grant)
    (node : Answers) (now : Nat) :
    ∃ reply subs', t.serveControl node now req = (reply, { t with subs := subs' }) ∧
      t'.serveControl node now req = (reply, { t' with subs := subs' }) := by
  have stays : ∀ reply : ControlReply, ∃ reply' subs', (reply, t) = (reply', { t with subs := subs' }) ∧
      (reply, t') = (reply', { t' with subs := subs' }) :=
    fun reply => ⟨reply, t.subs, rfl, by rw [← subs]⟩
  have proposes : ∀ what op, ∃ reply subs', t.proposeSubs node what op = (reply, { t with subs := subs' }) ∧
      t'.proposeSubs node what op = (reply, { t' with subs := subs' }) := by
    intro what op
    rw [proposeSubs, proposeSubs, subs]
    cases node.commitSubs with
    | error e => exact stays _
    | ok u => exact ⟨_, _, rfl, rfl⟩
  cases req with
  | pull name maxMessages grant => exact absurd rfl (other name maxMessages grant)
  | highCursor grant =>
    refine ⟨.high t.writer.highCursor, t.subs, rfl, ?_⟩
    rw [serveControl, ← writer, ← subs]
  | listSubscriptions grant =>
    rw [serveControl, serveControl, subs]
    exact stays _
  | deleteSubscription name grant => exact proposes "delete" _
  | createSubscription name policy grant =>
    rw [serveControl, serveControl, subs]
    cases policy.validate with
    | error e => exact stays _
    | ok u =>
      cases validateTopic name with
      | error e => exact stays _
      | ok u =>
        simp only
        split
        · exact stays _
        · exact proposes "create" _
  | ack name cursor grant =>
    rw [serveControl, serveControl, subs]
    split
    · exact stays _
    · exact proposes "ack" _
  | nack name cursor grant =>
    rw [serveControl, serveControl, subs]
    split
    · exact stays _
    · exact proposes "nack" _

end Topic

namespace Traffic

variable {t : Topic} {s s' : Traffic} {m : Mesh} {unheard : List Message} {due : Option MeshEvent}

/-- A control request is served at the mesh's owner. -/
theorem Shows.decided (h : Shows host t s m unheard due) {token now : Nat} {node : Answers}
    {payloadHex requester : String} (sends : s.Sends t token (.control node payloadHex requester now))
    {reply : ControlReply} {v : Topic}
    (served : m.inner.topic.handleControl host node payloadHex requester now = (reply, v)) :
    (m.after v (.served token (.control node payloadHex requester now) (.controlled reply))).Sequential host
      t := by
  refine h.served sends ?_ ?_
  · rw [Topic.reply, served]
  · rw [Topic.step, served]

/-- A request that is served at one go. -/
theorem Shows.concludes (h : Shows host t s m unheard due) {token now : Nat} {node : Answers}
    {payloadHex requester : String} (sends : s.Sends t token (.control node payloadHex requester now))
    (idle : s.debt = ⟨s.topic.subs, [], none⟩) {reply : ControlReply} (subs : SubRegistry)
    (served : m.inner.topic.handleControl host node payloadHex requester now =
      (reply, { m.inner.topic with subs })) :
    ∃ m', m.past <+: m'.past ∧
      Shows host t
        (s.conclude token (.control node payloadHex requester now) { s.topic with subs } reply) m' unheard
          due := by
  have same : s.topic.SameGate { s.topic with subs } := ⟨rfl, rfl, rfl, rfl⟩
  refine ⟨_, List.prefix_append _ _, h.takes [] rfl rfl rfl (List.append_nil _).symm rfl rfl rfl
    (h.decided sends served) ?_ ⟨h.gate.nodeId, h.gate.topic, h.gate.acceptedRoots, h.gate.requireCap⟩ rfl
    h.writer ?_ rfl ?_ h.live ?_ fun _ under => (Option.some_ne_none _ under.symm).elim⟩
  · rw [Topic.commits_of_control]
    rfl
  · rw [idle]
    rfl
  · have dead := h.dead
    rw [idle] at dead
    exact dead
  · refine h.ingest.stable rfl (fun _ _ => rfl) (fun _ _ => rfl) same rfl ?_
    rw [conclude, sents_concat]
    exact List.prefix_append _ _

/-- A request that changes nothing. -/
theorem Shows.tells (h : Shows host t s m unheard due) {token now : Nat} {node : Answers}
    {payloadHex requester : String} (sends : s.Sends t token (.control node payloadHex requester now))
    (idle : s.debt = ⟨s.topic.subs, [], none⟩) {reply : ControlReply}
    (served : m.inner.topic.handleControl host node payloadHex requester now = (reply, m.inner.topic)) :
    ∃ m', m.past <+: m'.past ∧
      Shows host t (s.conclude token (.control node payloadHex requester now) s.topic reply) m' unheard
        due := by
  have subs : m.inner.topic.subs = s.topic.subs := by rw [h.subs, idle]
  refine h.concludes sends idle s.topic.subs (served.trans ?_)
  rw [← subs]

/-- The control worker takes a request up, or goes on with one. -/
theorem Shows.turns (h : Shows host t s m unheard due) {c : ControlService} {u : Topic}
    (untouched : Topic.Untouched s.topic u) (live : u.liveMessages = s.topic.liveMessages)
    (subs : (c.debt u).subs = s.debt.subs) (event : (c.debt u).event = s.debt.event)
    (letters : u.deadLetters ++ (c.debt u).letters = s.topic.deadLetters ++ s.debt.letters)
    (at_ : c.At host u) (sends : s.Sends t c.token c.input) :
    Shows host t { s with serving := { s.serving with topic := u }, control := some c } m unheard due := by
  exact { h with
    past := by
      have past := h.past
      rw [← event] at past
      exact past
    gate := untouched.sameGate.symm.trans h.gate
    writer := h.writer.trans untouched.writer.symm
    subs := h.subs.trans subs.symm
    dead := h.dead.trans letters.symm
    live := h.live.trans (congrArg (· ++ unheard) live.symm)
    awaits := h.awaits.stable rfl rfl rfl
    own := by
      have own := h.own
      rw [← untouched.nodeId] at own
      exact own
    ingest := h.ingest.stable rfl (fun _ _ => rfl) (fun _ _ => rfl) untouched.sameGate untouched.dedup
      List.prefix_rfl
    control := by
      intro d now
      cases now
      exact ⟨at_, sends⟩ }

/-- The request goes on, and what is owed for it is the same. -/
theorem Shows.serves (h : Shows host t s m unheard due) {c c' : ControlService} {u : Topic}
    (under : s.control = some c) (input : c'.input = c.input) (token : c'.token = c.token)
    (untouched : Topic.Untouched s.topic u) (live : u.liveMessages = s.topic.liveMessages)
    (subs : (c'.debt u).subs = (c.debt s.topic).subs) (event : (c'.debt u).event = (c.debt s.topic).event)
    (letters : u.deadLetters ++ (c'.debt u).letters = s.topic.deadLetters ++ (c.debt s.topic).letters)
    (at_ : c'.At host u) :
    Shows host t { s with serving := { s.serving with topic := u }, control := some c' } m unheard due := by
  have debt : s.debt = c.debt s.topic := by rw [Traffic.debt, under]
  rw [← debt] at subs event letters
  refine h.turns untouched live subs event letters at_ ?_
  rw [input, token]
  exact (h.control c under).2

/-- It replies with what it owes. -/
theorem Shows.pays (h : Shows host t s m unheard due) {c : ControlService} {reply : ControlReply}
    (under : s.control = some c)
    (owes : c.debt s.topic = ⟨s.topic.subs, [], some (c.event reply)⟩) :
    Shows host t (s.conclude c.token c.input s.topic reply) m unheard due := by
  have debt : s.debt = ⟨s.topic.subs, [], some (c.event reply)⟩ := by rw [Traffic.debt, under, ← owes]
  have same : CePubsub.sents (s.past ++ [c.event reply]) = CePubsub.sents s.past := sents_unsent s.past rfl
  exact { h with
    sents := h.sents.trans same.symm
    past := by
      have past := h.past
      rw [debt] at past
      exact perm_paid _ past
    subs := by
      have subs := h.subs
      rw [debt] at subs
      exact subs
    dead := by
      have dead := h.dead
      rw [debt] at dead
      exact dead
    awaits := h.awaits.stable rfl rfl rfl
    ingest := h.ingest.stable rfl (fun _ _ => rfl) (fun _ _ => rfl) (.refl _) rfl (same ▸ List.prefix_rfl)
    control := fun _ under => (Option.some_ne_none _ under.symm).elim }

/-- An admitted request, at the mesh's owner. -/
theorem Shows.handles (h : Shows host t s m unheard due) {c : ControlService} (at_ : c.At host s.topic)
    (admits : s.topic.gate host c.node c.requester abilitySubscribe c.req.grant c.now = .ok ()) :
    m.inner.topic.handleControl host c.node c.payloadHex c.requester c.now =
      m.inner.topic.serveControl c.node c.now c.req := by
  rw [Topic.handleControl_of_decoded at_.decoded at_.other, h.gate.gate, admits]

/-- **A pull is decided** when its worker reads the log. -/
theorem Shows.decides (h : Shows host t s m unheard due) {c : ControlService} {name : String}
    {maxMessages : Nat} (under : s.control = some c) (at_ : c.At host s.topic)
    (phase : c.phase = .leasing name maxMessages .called)
    (there : (s.topic.subs.get name).isNone = false) :
    ∃ m', m.past <+: m'.past ∧
      Shows host t (s.enter c (.leasing name maxMessages
        (.read s.topic.writer.highCursor s.topic.writer.floor)))
        m' unheard due := by
  have idle : s.debt = ⟨s.topic.subs, [], none⟩ := debt_of_unread fun d now => by
    cases under.symm.trans now
    rw [phase]
    rfl
  have phased := at_.phase
  rw [phase] at phased
  obtain ⟨admits, grant, req⟩ := phased
  have subs : m.inner.topic.subs = s.topic.subs := by rw [h.subs, idle]
  have same : m.inner.topic.handleControl host c.node c.payloadHex c.requester c.now =
      m.inner.topic.handleLease c.node name maxMessages c.now := by
    rw [h.handles at_ admits, req, Topic.serveControl]
  have found := there
  rw [← subs] at found
  obtain ⟨replied, carries⟩ := Topic.handleLease_carriesOut found c.node maxMessages c.now
  have carried : m.inner.topic.carryOut c.node
      (m.inner.topic.subs.planLease name m.inner.topic.writer.highCursor m.inner.topic.writer.floor c.now
        maxMessages) =
      s.topic.carryOut c.node
        (s.topic.subs.planLease name s.topic.writer.highCursor s.topic.writer.floor c.now maxMessages) := by
    rw [subs, h.writer]
    exact Topic.carryOut_grows subs (h.writer ▸ .refl _) c.node fun op out plan =>
      SubRegistry.within_of_planLease plan
  rw [carried] at replied carries
  have debt : (s.enter c (.leasing name maxMessages
      (.read s.topic.writer.highCursor s.topic.writer.floor))).debt =
    c.plans s.topic
      (s.topic.subs.planLease name s.topic.writer.highCursor s.topic.writer.floor c.now maxMessages) := rfl
  simp only [ControlService.plans] at debt
  generalize s.topic.carryOut c.node
    (s.topic.subs.planLease name s.topic.writer.highCursor s.topic.writer.floor c.now maxMessages) =
    effect at *
  generalize left : m.inner.topic.handleLease c.node name maxMessages c.now = v at *
  obtain ⟨reply, v⟩ := v
  simp only at replied carries
  subst replied
  have untouched := carries.untouched
  have sends := (h.control c under).2
  refine ⟨m.after v (c.event effect.reply), List.prefix_append _ _, ?_⟩
  constructor
  case sequential => exact h.decided sends same
  case ops =>
    rw [Mesh.after, Mesh.logOps_concat h.sequential _ (i := c.input) rfl, ControlService.input,
      Topic.commits_of_control, h.ops]
    exact List.append_nil _
  case sents =>
    rw [Mesh.after, sents_concat, h.sents]
    exact List.append_nil _
  case past =>
    have past := h.past
    rw [idle] at past
    rw [debt]
    exact perm_owed _ past
  case gate => exact h.gate.trans untouched.sameGate
  case writer => exact untouched.writer.trans h.writer
  case subs =>
    rw [debt]
    exact carries.subs
  case dead =>
    have dead := h.dead
    rw [idle, List.append_nil] at dead
    rw [debt]
    exact carries.dead.trans (congrArg (· ++ effect.letters) dead)
  case live => exact carries.live.trans h.live
  case awaits => exact h.awaits.stable rfl rfl rfl
  case own => exact h.own
  case ingest =>
    have ingest := h.ingest
    rw [← untouched.dedup] at ingest
    exact ingest.stable rfl (fun _ _ => rfl) (fun _ _ => rfl) (.refl _) rfl List.prefix_rfl
  case control =>
    intro d now
    cases now
    exact ⟨⟨at_.decoded, at_.other, Nat.le_refl _⟩, sends⟩

/-- A request that is not admitted. -/
theorem Shows.turnsAway (h : Shows host t s m unheard due) {c : ControlService} {why : String}
    (under : s.control = some c) (unread : c.phase.hasRead = false)
    (refused : s.topic.gate host c.node c.requester abilitySubscribe c.req.grant c.now = .error why) :
    ∃ m', m.past <+: m'.past ∧ Shows host t (s.refuse c why) m' unheard due := by
  obtain ⟨at_, sends⟩ := h.control c under
  have idle : s.debt = ⟨s.topic.subs, [], none⟩ := debt_of_unread fun d now => by
    cases under.symm.trans now
    exact unread
  refine h.tells sends idle ?_
  rw [Topic.handleControl_of_decoded at_.decoded at_.other, h.gate.gate, refused]

/-- **The control worker's next step.** -/
theorem Shows.serve (h : Shows host t s m unheard due) :
    ∃ m', m.past <+: m'.past ∧ Shows host t (s.serve host) m' unheard due := by
  rw [Traffic.serve]
  cases under : s.control with
  | none => exact ⟨m, List.prefix_rfl, h⟩
  | some c =>
    obtain ⟨at_, sends⟩ := h.control c under
    have decoded := at_.decoded
    have other := at_.other
    have phased := at_.phase
    have goesOn : ∀ {s'}, Shows host t s' m unheard due → ∃ m', m.past <+: m'.past ∧
        Shows host t s' m' unheard due := fun shows => ⟨m, List.prefix_rfl, shows⟩
    obtain ⟨token, node, payloadHex, requester, now, req, phase⟩ := c
    cases phase with
    | gate =>
      simp only
      cases gated : s.topic.requireCap with
      | false =>
        rw [if_neg Bool.false_ne_true]
        exact goesOn (h.serves under rfl rfl (.refl _) rfl rfl rfl rfl
          ⟨decoded, other, Topic.gate_of_ungated host gated ..⟩)
      | true =>
        rw [if_pos rfl]
        cases granted : req.grant with
        | none =>
          refine h.turnsAway under rfl ?_
          simp only [granted]
          exact Topic.gate_of_none gated _ _ _ _
        | some grant =>
          exact goesOn (h.serves under rfl rfl (.refl _) rfl rfl rfl rfl ⟨decoded, other, gated, granted⟩)
    | revocation grant =>
      obtain ⟨gated, granted⟩ := phased
      have gate := Topic.gate_of_grant host gated node requester abilitySubscribe grant now
      rw [← granted] at gate
      simp only
      cases asker : parseNodeId requester with
      | error e =>
        simp only [asker] at gate
        exact h.turnsAway under rfl gate
      | ok requester =>
        cases self : parseNodeId s.topic.nodeId with
        | error e =>
          simp only [asker, self] at gate
          exact h.turnsAway under rfl gate
        | ok selfId =>
          cases fetched : Topic.fetchRevoked node with
          | error e =>
            simp only [asker, self, fetched] at gate
            exact h.turnsAway under rfl gate
          | ok revoked =>
            exact goesOn (h.serves under rfl rfl (.refl _) rfl rfl rfl rfl
              ⟨decoded, other, gated, granted, asker, self, fetched⟩)
    | roots grant asker selfId revoked =>
      obtain ⟨gated, granted, asks, self, fetched⟩ := phased
      have gate := Topic.gate_of_grant host gated node requester abilitySubscribe grant now
      rw [← granted] at gate
      simp only [asks, self, fetched] at gate
      simp only
      generalize verdict : verifyLink host.iam selfId s.topic.acceptedRoots [] now asker abilitySubscribe
        s.topic.topic grant _ = verified at gate ⊢
      cases verified with
      | error why => exact h.turnsAway under rfl gate
      | ok u => exact goesOn (h.serves under rfl rfl (.refl _) rfl rfl rfl rfl ⟨decoded, other, gate⟩)
    | admitted =>
      simp only
      split
      · next name maxMessages grant =>
        exact goesOn (h.serves under rfl rfl (.refl _) rfl rfl rfl rfl ⟨decoded, other, phased, grant, rfl⟩)
      · next not =>
        have idle : s.debt = ⟨s.topic.subs, [], none⟩ := by
          rw [debt, under]
          rfl
        have subs : m.inner.topic.subs = s.topic.subs := by rw [h.subs, idle]
        obtain ⟨reply, subs', mine, theirs⟩ := Topic.serveControl_congr (t := s.topic) subs h.writer
          (fun name maxMessages grant is => not name maxMessages grant is) node now
        rw [mine]
        exact h.concludes sends idle subs' ((h.handles at_ phased).trans theirs)
    | leasing name maxMessages phase =>
      cases phase with
      | called =>
        obtain ⟨admits, grant, asks⟩ := phased
        simp only [Leasing.next]
        cases there : (s.topic.subs.get name).isNone with
        | true =>
          have idle : s.debt = ⟨s.topic.subs, [], none⟩ := by
            rw [debt, under]
            rfl
          have subs : m.inner.topic.subs = s.topic.subs := by rw [h.subs, idle]
          refine h.tells sends idle ?_
          have missing := there
          rw [← subs] at missing
          simp only at asks
          rw [h.handles at_ admits]
          simp only [asks, Topic.serveControl, Topic.handleLease]
          rw [if_pos missing]
        | false => exact h.decides under at_ rfl there
      | read high floor =>
        simp only [Leasing.next]
        cases plan : s.topic.subs.planLease name high floor now maxMessages with
        | none =>
          refine goesOn (h.pays under ?_)
          simp only [ControlService.debt, ControlService.plans, plan]
          rfl
        | some planned =>
          obtain ⟨op, out⟩ := planned
          have within := SubRegistry.within_of_planLease plan
          refine goesOn (h.serves under rfl rfl (.refl _) rfl ?_ ?_ ?_ ⟨decoded, other, ?_⟩)
          · simp only [ControlService.debt, ControlService.plans, plan]
          · simp only [ControlService.debt, ControlService.plans, plan]
            rfl
          · simp only [ControlService.debt, ControlService.plans, plan]
          · exact ⟨fun x mem => (within.1 x mem).trans phased, fun c mem => (within.2 c mem).trans phased⟩
      | planned op out =>
        simp only [Leasing.next]
        cases commits : node.commitSubs with
        | error e =>
          refine goesOn (h.pays under ?_)
          simp only [ControlService.debt, ControlService.plans, Topic.carryOut, commits]
        | ok u =>
          refine goesOn (h.serves under rfl rfl ⟨rfl, rfl, rfl, rfl, rfl, rfl⟩ rfl ?_ ?_ ?_
            ⟨decoded, other, phased⟩)
          · simp only [ControlService.debt, ControlService.plans, Topic.carryOut, commits]
          · simp only [ControlService.debt, ControlService.plans, Topic.carryOut, commits]
            rfl
          · simp only [ControlService.debt, ControlService.plans, Topic.carryOut, commits]
            rfl
      | committed op out =>
        simp only [Leasing.next]
        obtain ⟨untouched, subs, live, dead⟩ := s.topic.routes_letters node out.deadLettered
        refine goesOn (h.serves under rfl rfl untouched live subs ?_ ?_ ⟨decoded, other, ?_⟩)
        · simp only [ControlService.debt, Topic.resolve, untouched.writer]
          rfl
        · exact (List.append_nil _).trans dead
        · simp only [untouched.writer]
          exact phased
      | routed op out log =>
        simp only [Leasing.next]
        exact goesOn (h.pays under rfl)
      | replied reply lease => exact phased.elim

/-- What the worker has handled is for itself to know. -/
theorem Shows.handled (h : Shows host t s m unheard due) (handled : TokenSet) :
    Shows host t { s with handled } m unheard due :=
  { h with awaits := h.awaits.stable rfl rfl rfl }

/-- A node that asks for the high cursor is told it at once. -/
theorem controlled_of_high {d : Delivery} {r : Sent} {handled : TokenSet} {grant : Option String}
    (free : s.control = none) (shown : s.shows .control d = some r)
    (fresh : s.handled.seen d.token d.now = (false, handled))
    (decoded : Topic.decodeControl host (Hex.encode r.body) = .ok (.highCursor grant)) :
    s.controlled host d =
      { s with handled }.conclude d.token (r.input d .control) s.topic (.high s.topic.writer.highCursor) := by
  rw [Traffic.controlled, free, shown]
  simp only [fresh, decoded]

/-- **The control worker comes to a request.** -/
theorem Shows.controlled (h : Shows host t s m unheard due) (d : Delivery) :
    ∃ m', m.past <+: m'.past ∧ Shows host t (s.controlled host d) m' unheard due := by
  rw [Traffic.controlled]
  split
  · next r free shown =>
    have sends := h.shown shown
    rcases s.handled.seen d.token d.now with ⟨_ | _, handled⟩
    · have h := h.handled handled
      have idle : debt { s with handled } = ⟨s.topic.subs, [], none⟩ := by
        rw [debt, free]
      simp only
      split
      · next why decoded =>
        refine h.tells sends idle ?_
        rw [Topic.handleControl, decoded]
      · next grant decoded =>
        refine h.tells sends idle ?_
        rw [Topic.handleControl, decoded, h.writer]
      · next req other decoded =>
        refine ⟨m, List.prefix_rfl, h.turns (.refl _) rfl ?_ ?_ ?_ ⟨decoded, other, trivial⟩ sends⟩
        all_goals
          rw [idle]
          rfl
    · exact ⟨m, List.prefix_rfl, h.handled handled⟩
  · exact ⟨m, List.prefix_rfl, h⟩

end Traffic

end CePubsub
