import CePubsub.Laws.Traffic.Shows

/-!
# What the steps have in common

A step changes one call and little of the topic, and what it shows changes as little. `Awaits.elsewhere`
and `own_enter` are about every other call, `advance_quiet`, `advance_append` and `advance_reply` about
the one that moves. `Shows.moves` is a step that is nothing to the mesh, `Shows.takes` one that is an input
of the mesh and its reply.
-/

namespace CePubsub

variable {Link : Type} {host : Host Link}

section Order

variable {α : Type*} {a d c b : List α} (e : α)

/-- Something happens in both. -/
theorem perm_both (h : (a ++ d).Perm b) : (a ++ [e] ++ d).Perm (b ++ [e]) := by
  rw [List.append_assoc]
  exact ((List.perm_append_comm.append_left a).trans (List.append_assoc a d [e] ▸ .refl _)).trans
    (h.append_right [e])

/-- Something is owed. -/
theorem perm_owed (h : (a ++ (d ++ c)).Perm b) : (a ++ (d ++ e :: c)).Perm (b ++ [e]) := by
  have last : (a ++ (d ++ e :: c)).Perm (a ++ (d ++ c) ++ [e]) := by
    rw [← List.append_assoc, ← List.append_assoc]
    exact List.perm_middle.trans (List.perm_append_singleton e _).symm
  exact last.trans (h.append_right [e])

/-- What was owed is paid. -/
theorem perm_paid (h : (a ++ (d ++ e :: c)).Perm b) : (a ++ [e] ++ (d ++ c)).Perm b := by
  refine List.Perm.trans ?_ h
  rw [List.append_assoc, List.singleton_append]
  exact List.perm_middle.symm.append_left a

end Order

namespace Mesh

/-- An input the owner takes next. -/
theorem logOps_concat {t : Topic} {m : Mesh} (h : m.Sequential host t) (inner : TopicInner)
    {e : MeshEvent} {i : Input} (input : e.input? = some i) :
    logOps host t { inner, past := m.past ++ [e] } =
      m.logOps host t ++ ((m.inner.topic.call host i).bind m.inner.topic.commits).toList := by
  rw [logOps, logOps, inputs_concat, input, Option.toList, Topic.logOps_append, ← h.topic,
    Topic.logOps, Topic.logOps, List.append_nil]

/-- Something happens at the owner at one go. -/
def after (m : Mesh) (t : Topic) (e : MeshEvent) : Mesh :=
  { inner := { m.inner with topic := t }, past := m.past ++ [e] }

end Mesh

/-- A request that is replied to was the input of it. -/
theorem Request.input_event (r : Request) (reply : Reply) : (r.event reply).input? = some r.input := by
  rw [Request.event]
  cases r.token <;> rfl

/-- Nothing is sent by it. -/
theorem Request.sent_event (r : Request) (reply : Reply) : (r.event reply).sent? = none := by
  rw [Request.event]
  cases r.token <;> rfl

/-- A request a worker has under a token is replied to under it. -/
theorem Request.event_served {r : Request} {token : Nat} (under : r.token = some token) (reply : Reply) :
    r.event reply = .served token r.input reply := by
  rw [Request.event, under]

/-- What is no sending leaves what was sent. -/
theorem sents_unsent (past : List MeshEvent) {e : MeshEvent} (unsent : e.sent? = none) :
    sents (past ++ [e]) = sents past := by
  rw [sents_concat, unsent]
  exact List.append_nil _

namespace Traffic

variable {t : Topic} {s s' : Traffic} {m : Mesh} {unheard : List Message} {due : Option MeshEvent}
  {call : Nat}
  {phase : CallPhase} {r : Request}

/-! ## A call's steps -/

section Advance

variable {x : Serving}

/-- Only a step to `appended` adds to the log. -/
theorem appends_eq_nil (later : phase.waits = false) :
    appends s.serving (x.enter call phase) call = [] := by
  rw [appends, Serving.calls_enter]
  split
  · next msg _ is => exact absurd (Option.some.inj is) (CallPhase.ne_of_waits later _ _)
  · rfl

/-- A call that has not replied replies with the phase it comes to. -/
theorem replies_eq (unreplied : (s.serving.calls call).bind CallPhase.reply? = none) :
    replies s.serving (x.enter call phase) call = phase.reply? := by
  rw [replies, unreplied, Serving.calls_enter]
  rfl

/-- A step that neither appends nor replies. -/
theorem advance_quiet (unreplied : (s.serving.calls call).bind CallPhase.reply? = none)
    (later : phase.waits = false) (silent : phase.reply? = none) :
    s.advance call (x.enter call phase) = { s with serving := x.enter call phase } := by
  rw [advance, replies_eq unreplied, appends_eq_nil later, silent, List.append_nil]
  simp only [Option.isSome_none, Bool.false_and, Bool.false_eq_true, if_false, Option.map_none]
  cases s.asked call with
  | none => simp only [Option.bind_none, Option.toList_none, List.append_nil]
  | some r => simp only [Option.bind_some, Option.toList_none, List.append_nil]

/-- A step that appends. -/
theorem advance_append {who : Author} {msg stamped : Message}
    (at_ : s.serving.calls call = some (.stamped who stamped)) :
    s.advance call (x.enter call (.appended who msg)) =
      { s with serving := x.enter call (.appended who msg), ops := s.ops ++ [.append msg] } := by
  have unreplied : (s.serving.calls call).bind CallPhase.reply? = none := by rw [at_]; rfl
  rw [advance, replies_eq unreplied, appends, at_, Serving.calls_enter]
  simp only [CallPhase.reply?, Option.isSome_none, Bool.false_and, Bool.false_eq_true, if_false,
    Option.map_none]
  cases s.asked call with
  | none => simp only [Option.bind_none, Option.toList_none, List.append_nil]
  | some r => simp only [Option.bind_some, Option.toList_none, List.append_nil]

/-- A step that replies. -/
theorem advance_reply {reply : Reply} (unreplied : (s.serving.calls call).bind CallPhase.reply? = none)
    (asked : s.asked call = some r) (last : phase.reply? = some reply) :
    s.advance call (x.enter call phase) =
      { s with
        serving := x.enter call phase
        ingesting := if s.ingesting = some call then none else s.ingesting
        past := s.past ++ [r.event reply] } := by
  have later : phase.waits = false := by
    cases phase with
    | replied | returned => rfl
    | gate | revocation | roots | checked | stamped | appended | outcome => cases last
  rw [advance, replies_eq unreplied, appends_eq_nil later, asked, last, List.append_nil]
  simp only [Option.isSome_some, Bool.true_and, beq_iff_eq, Option.bind_some, Option.map_some,
    Option.toList_some]

/-- A call that is over takes no step. -/
theorem advance_self (s : Traffic) (call : Nat) : s.advance call s.serving = s := by
  have appends : appends s.serving s.serving call = [] := by
    rw [appends]
    split
    · next stamped appended => cases stamped.symm.trans appended
    · rfl
  have replies : replies s.serving s.serving call = none := by
    rw [replies]
    split
    · rfl
    · next none => exact none
  rw [advance, appends, replies, List.append_nil]
  simp only [Option.isSome_none, Bool.false_and, Bool.false_eq_true, if_false, Option.map_none]
  cases s.asked call <;> simp only [Option.bind_none, Option.bind_some, Option.toList_none, List.append_nil]

end Advance

/-! ## What waits to go out -/

/-- Whatever leaves the calls alone leaves what waits. -/
theorem Awaits.stable (h : s.Awaits unheard due) (calls : s'.serving.calls = s.serving.calls)
    (asked : s'.asked = s.asked) (ingesting : s'.ingesting = s.ingesting) : s'.Awaits unheard due := by
  cases h with
  | nothing none =>
    rw [← calls] at none
    exact .nothing none
  | message at_ is alone =>
    rw [← calls] at at_ alone
    rw [← asked] at is
    rw [← ingesting]
    exact .message at_ is alone

/-- A call that is not between its append and its broadcast, before or after. -/
theorem Awaits.elsewhere (h : s.Awaits unheard due)
    (calls : s'.serving.calls = Function.update s.serving.calls call (some phase))
    (asked : ∀ other, other ≠ call → s'.asked other = s.asked other)
    (ingesting : ∀ other, other ≠ call → (s'.ingesting = some other ↔ s.ingesting = some other))
    (before : ∀ who msg, s.serving.calls call ≠ some (.appended who msg))
    (later : phase.waits = false) : s'.Awaits unheard due := by
  have other_of : ∀ {other who msg}, s'.serving.calls other = some (.appended who msg) →
      other ≠ call ∧ s.serving.calls other = some (.appended who msg) := by
    intro other who msg at_
    rw [calls] at at_
    by_cases same : other = call
    · rw [same, Function.update_self] at at_
      exact absurd (Option.some.inj at_) (CallPhase.ne_of_waits later who msg)
    · rw [Function.update_of_ne same] at at_
      exact ⟨same, at_⟩
  cases h with
  | nothing none => exact .nothing fun other who msg at_ => none other who msg (other_of at_).2
  | @message busy who msg r at_ is alone =>
    have ne : busy ≠ call := by
      rintro rfl
      exact before who msg at_
    have there : s'.serving.calls busy = some (.appended who msg) := by
      rw [calls, Function.update_of_ne ne, at_]
    have awaits := Awaits.message there ((asked busy ne).trans is)
      fun other who' msg' later => alone other who' msg' (other_of later).2
    simp only [ingesting busy ne] at awaits
    exact awaits

/-- Nothing waits where no call is before its broadcast. -/
theorem Awaits.alone (h : s.Awaits unheard due)
    (none : ∀ call who msg, s.serving.calls call ≠ some (.appended who msg)) :
    unheard = [] ∧ due = .none := by
  cases h with
  | nothing _ => exact ⟨rfl, rfl⟩
  | @message call who msg r at_ _ _ => exact absurd at_ (none call who msg)

/-- Only the message of a call before its broadcast waits. -/
theorem Awaits.at_ (h : s.Awaits unheard due) {who : Author} {msg : Message}
    (at_ : s.serving.calls call = some (.appended who msg)) (asked : s.asked call = some r) :
    unheard = (if r.input.node.live then [msg] else []) ∧
      due = (if s.ingesting = some call then none else CallPhase.owes r (.appended who msg)) ∧
      ∀ other who' msg', s.serving.calls other = some (.appended who' msg') → other = call := by
  cases h with
  | nothing none => exact absurd at_ (none call who msg)
  | @message busy who' msg' r' there is alone =>
    obtain rfl := alone call who msg at_
    cases there.symm.trans at_
    cases is.symm.trans asked
    exact ⟨rfl, rfl, alone⟩

/-- A call has appended, and no other message waits. -/
theorem awaits_append {s' : Traffic} {who : Author} {msg : Message}
    (none : ∀ other who msg, s.serving.calls other ≠ some (.appended who msg))
    (calls : s'.serving.calls = Function.update s.serving.calls call (some (.appended who msg)))
    (asked : s'.asked call = some r) :
    s'.Awaits (if r.input.node.live then [msg] else [])
      (if s'.ingesting = some call then .none else CallPhase.owes r (.appended who msg)) := by
  refine .message (by rw [calls, Function.update_self]) asked fun other who' msg' later => ?_
  by_contra ne
  rw [calls, Function.update_of_ne ne] at later
  exact none other who' msg' later

/-- The one message that waited is out. -/
theorem awaits_broadcast {s' : Traffic} {next : CallPhase}
    (alone : ∀ other who msg, s.serving.calls other = some (.appended who msg) → other = call)
    (calls : s'.serving.calls = Function.update s.serving.calls call (some next))
    (later : next.waits = false) : s'.Awaits [] none := by
  refine .nothing fun other who msg at_ => ?_
  rw [calls] at at_
  by_cases same : other = call
  · rw [same, Function.update_self] at at_
    exact CallPhase.ne_of_waits later who msg (Option.some.inj at_)
  · rw [Function.update_of_ne same] at at_
    exact same (alone other who msg at_)

/-! ## Whose the calls are -/

/-- The program's calls, where one call moves on. -/
theorem own_enter
    (own : ∀ other p, s.serving.calls other = some p → s.ingesting ≠ some other →
      ∃ r, s.asked other = some r ∧ p.Own s.topic.nodeId r)
    (calls : s'.serving.calls = Function.update s.serving.calls call (some phase))
    (asked : ∀ other, other ≠ call → s'.asked other = s.asked other)
    (ingesting : ∀ other, other ≠ call → (s'.ingesting = some other ↔ s.ingesting = some other))
    (nodeId : s'.topic.nodeId = s.topic.nodeId)
    (here : s'.ingesting = some call ∨ ∃ r, s'.asked call = some r ∧ phase.Own s.topic.nodeId r) :
    ∀ other p, s'.serving.calls other = some p → s'.ingesting ≠ some other →
      ∃ r, s'.asked other = some r ∧ p.Own s'.topic.nodeId r := by
  intro other p at_ not
  rw [nodeId]
  by_cases same : other = call
  · subst same
    rw [calls, Function.update_self] at at_
    cases at_
    exact here.resolve_left not
  · rw [calls, Function.update_of_ne same] at at_
    rw [asked other same]
    exact own other p at_ (mt (ingesting other same).mpr not)

/-- What is owed for the ingest worker's request is by its phase. -/
theorem owed_of {r : Request} (mine : s.ingesting = some call) (asked : s.asked call = some r)
    (at_ : s.serving.calls call = some phase) : s.owed = phase.owes r := by
  rw [owed, mine]
  simp only [Option.bind_eq_bind, Option.bind_some, asked, at_]

/-- Before it has read the log for a lease, the control worker owes nothing. -/
theorem debt_of_unread (unread : ∀ c, s.control = some c → c.phase.hasRead = false) :
    s.debt = ⟨s.topic.subs, [], none⟩ := by
  rw [debt]
  cases under : s.control with
  | none => rfl
  | some c =>
    have before := unread c under
    obtain ⟨token, node, payloadHex, requester, now, req, phase⟩ := c
    cases phase with
    | gate | revocation | roots | admitted => rfl
    | leasing name maxMessages phase =>
      cases phase with
      | called => rfl
      | read | planned | committed | routed | replied => cases before

/-- The ingest worker is at this request, with its call at this phase. -/
structure Ingesting (host : Host Link) (t : Topic) (s : Traffic) (m : Mesh) (call : Nat) (r : Request)
    (token : Nat) (phase : CallPhase) (c : IngestCall) (result : Option (Except String Nat)) : Prop where
  mine : s.ingesting = some call
  asked : s.asked call = some r
  under : r.token = some token
  at_ : s.serving.calls call = some phase
  sends : s.Sends t token r.input
  decodes : Topic.Decodes host r.input token c
  ingests : phase.Ingests host s.topic r.input.node c result
  remembers : c.Remembers s.topic.dedup m.inner.topic.dedup result

/-- Where the worker is not idle it is at a request. -/
theorem Shows.ingesting (h : Shows host t s m unheard due) {call : Nat} (mine : s.ingesting = some call) :
    ∃ r token phase c result, Ingesting host t s m call r token phase c result := by
  have ingest := h.ingest
  rw [IngestAt, mine] at ingest
  obtain ⟨r, token, phase, c, result, asked, tok, at_, sends, decodes, ingests, remembers⟩ := ingest
  exact ⟨r, token, phase, c, result, mine, asked, tok, at_, sends, decodes, ingests, remembers⟩

/-- And where it is at a request, that is all. -/
theorem Ingesting.ingestAt {result : Option (Except String Nat)}
    (h : Ingesting host t s m call r token phase c result) : s.IngestAt host t m.inner.topic.dedup := by
  rw [IngestAt, h.mine]
  exact ⟨r, token, phase, c, result, h.asked, h.under, h.at_, h.sends, h.decodes, h.ingests, h.remembers⟩

/-! ## What was sent -/

/-- The topic has the name the requests are sent to. -/
theorem Shows.named (h : Shows host t s m unheard due) : s.topic.topic = t.topic := by
  rw [← h.gate.topic, h.sequential.topic, (t.run_named host _).1]

/-- What an inbox shows was sent. -/
theorem Shows.shown (h : Shows host t s m unheard due) {worker : Worker} {d : Delivery} {r : Sent}
    (shown : s.shows worker d = some r) : s.Sends t d.token (r.input d worker) := by
  obtain ⟨there, mine⟩ := Option.filter_eq_some_iff.mp shown
  obtain ⟨asks, mine⟩ := Bool.and_eq_true_iff.mp mine
  rw [beq_iff_eq, h.named] at mine
  refine ⟨r, there, asks, ?_⟩
  cases worker with
  | ingest => exact .inl ⟨mine, d.node, d.now, rfl⟩
  | control => exact .inr ⟨mine, d.node, d.now, rfl⟩

/-- A message is sent, to the mesh as well. -/
theorem Shows.send (h : Shows host t s m unheard due) (r : Sent) :
    Shows host t { s with past := s.past ++ [.sent r] }
      { m with past := m.past ++ [.sent r] } unheard due := by
  have more : CePubsub.sents s.past <+: CePubsub.sents (s.past ++ [.sent r]) := by
    rw [sents_concat]
    exact List.prefix_append _ _
  exact { h with
    sequential := h.sequential.send r
    ops := by
      rw [Mesh.logOps, inputs_concat, MeshEvent.input?, Option.toList, List.append_nil]
      exact h.ops
    sents := by rw [sents_concat, sents_concat, h.sents]
    past := perm_both _ h.past
    awaits := h.awaits.stable rfl rfl rfl
    ingest := h.ingest.stable rfl (fun _ _ => rfl) (fun _ _ => rfl) (.refl _) rfl more
    control := fun c under => (h.control c under).imp_right (·.mono more) }

/-! ## Steps that are nothing to the mesh -/

/-- The ingest worker's call is under way. -/
theorem Shows.ne_of_new (h : Shows host t s m unheard due) (new : s.serving.calls call = none) :
    s.ingesting ≠ some call := by
  intro mine
  obtain ⟨_, _, _, _, _, was⟩ := h.ingesting mine
  cases new.symm.trans was.at_

/-- What a call is made for is noted under its number. -/
theorem Shows.ask (h : Shows host t s m unheard due) (new : s.serving.calls call = none) (r : Request) :
    Shows host t { s with asked := Function.update s.asked call (some r) } m unheard due := by
  have elsewhere : ∀ other phase, s.serving.calls other = some phase →
      Function.update s.asked call (some r) other = s.asked other := by
    intro other phase at_
    refine Function.update_of_ne ?_ _ _
    rintro rfl
    cases new.symm.trans at_
  have noted : ∀ other, s.ingesting = some other →
      Function.update s.asked call (some r) other = s.asked other := by
    intro other mine
    obtain ⟨_, _, phase, _, _, was⟩ := h.ingesting mine
    exact elsewhere other phase was.at_
  have owed : owed { s with asked := Function.update s.asked call (some r) } = s.owed :=
    owed_stable rfl noted fun _ _ => rfl
  exact { h with
    past := owed ▸ h.past
    awaits := by
      cases h.awaits with
      | nothing none => exact .nothing none
      | message at_ is alone => exact .message at_ ((elsewhere _ _ at_).trans is) alone
    own := by
      intro other phase at_ not
      obtain ⟨r', is, own⟩ := h.own other phase at_ not
      exact ⟨r', (elsewhere other phase at_).trans is, own⟩
    ingest := h.ingest.stable rfl noted (fun _ _ => rfl) (.refl _) rfl List.prefix_rfl }

/-- A call that is not between its append and its broadcast goes on, outside the ingest worker. -/
theorem Shows.moves (h : Shows host t s m unheard due) (asked : s.asked call = some r)
    (other : s.ingesting ≠ some call)
    (before : ∀ who msg, s.serving.calls call ≠ some (.appended who msg)) (later : phase.waits = false)
    (own : phase.Own s.topic.nodeId r) :
    Shows host t { s with serving := s.serving.enter call phase } m unheard due := by
  have elsewhere : ∀ mine, s.ingesting = some mine →
      (s.serving.enter call phase).calls mine = s.serving.calls mine := fun mine is =>
    Serving.calls_enter_of_ne _ _ fun same => other (same ▸ is)
  have owed : owed { s with serving := s.serving.enter call phase } = s.owed :=
    owed_stable rfl (fun _ _ => rfl) elsewhere
  exact { h with
    past := owed ▸ h.past
    awaits := h.awaits.elsewhere rfl (fun _ _ => rfl) (fun _ _ => .rfl) before later
    own := own_enter h.own rfl (fun _ _ => rfl) (fun _ _ => .rfl) rfl (.inr ⟨r, asked, own⟩)
    ingest := h.ingest.stable rfl (fun _ _ => rfl) elsewhere (.refl _) rfl List.prefix_rfl }

/-! ## Steps that are an input of the mesh -/

/-- What a worker served, the mesh's owner serves next. -/
theorem Shows.served (h : Shows host t s m unheard due) {token : Nat} {i : Input} {reply : Reply}
    {v : Topic}
    (sends : s.Sends t token i) (replied : m.inner.topic.reply host i = reply)
    (left : m.inner.topic.step host i = v) : (m.after v (.served token i reply)).Sequential host t := by
  obtain ⟨sent, there, becomes⟩ := sends
  rw [← h.sents] at there
  exact h.sequential.concat rfl left.symm ⟨⟨sent, there, becomes⟩, by rw [← h.sequential.topic, replied]⟩

/-- What the program asked, it is asked next. -/
theorem Shows.asked (h : Shows host t s m unheard due) {i : Input} {reply : Reply} {v : Topic}
    (own : i.isOwn = true) (replied : m.inner.topic.reply host i = reply)
    (left : m.inner.topic.step host i = v) : (m.after v (.own i reply)).Sequential host t :=
  h.sequential.concat rfl left.symm ⟨own, by rw [← h.sequential.topic, replied]⟩

/-- **What happens at one go**, to the topic and to the mesh it shows. -/
theorem Shows.takes (h : Shows host t s m unheard due) {v : Topic} {e : MeshEvent} {i : Input}
    (ops : List LogOp) (calls : s'.serving.calls = s.serving.calls) (asked : s'.asked = s.asked)
    (ingesting : s'.ingesting = s.ingesting) (logged : s'.ops = s.ops ++ ops)
    (past : s'.past = s.past ++ [e]) (input : e.input? = some i) (unsent : e.sent? = none)
    (sequential : (m.after v e).Sequential host t)
    (committed : ((m.inner.topic.call host i).bind m.inner.topic.commits).toList = ops)
    (gate : s'.topic.SameGate v) (nodeId : s'.topic.nodeId = s.topic.nodeId)
    (writer : v.writer = s'.topic.writer) (event : s'.debt.event = s.debt.event)
    (subs : v.subs = s'.debt.subs) (dead : v.deadLetters = s'.topic.deadLetters ++ s'.debt.letters)
    (live : v.liveMessages = s'.topic.liveMessages ++ unheard) (ingest : s'.IngestAt host t v.dedup)
    (control : ∀ c, s'.control = some c → c.At host s'.topic ∧ s.Sends t c.token c.input) :
    Shows host t s' (m.after v e) unheard due := by
  have same : CePubsub.sents s'.past = CePubsub.sents s.past := by rw [past, sents_unsent _ unsent]
  constructor
  case sequential => exact sequential
  case ops => rw [Mesh.after, Mesh.logOps_concat h.sequential _ input, committed, h.ops, logged]
  case sents => rw [Mesh.after, same, ← h.sents, sents_unsent _ unsent]
  case past =>
    have owed : s'.owed = s.owed :=
      owed_stable ingesting (fun _ _ => congrFun asked _) (fun _ _ => congrFun calls _)
    rw [past, owed, event]
    exact perm_both _ h.past
  case gate => exact gate
  case writer => exact writer
  case subs => exact subs
  case dead => exact dead
  case live => exact live
  case awaits => exact h.awaits.stable calls asked ingesting
  case own =>
    intro other phase at_ not
    rw [calls] at at_
    rw [ingesting] at not
    rw [asked, nodeId]
    exact h.own other phase at_ not
  case ingest => exact ingest
  case control => exact fun c under => (control c under).imp_right (·.mono (same ▸ List.prefix_rfl))

/-- What leaves the topic as it was. -/
theorem Shows.happens (h : Shows host t s m unheard due) {e : MeshEvent} {i : Input}
    (input : e.input? = some i) (unsent : e.sent? = none)
    (sequential : (m.after m.inner.topic e).Sequential host t)
    (committed : (m.inner.topic.call host i).bind m.inner.topic.commits = none) :
    Shows host t { s with past := s.past ++ [e] } (m.after m.inner.topic e) unheard due := by
  refine h.takes [] rfl rfl rfl (List.append_nil _).symm rfl input unsent sequential ?_ h.gate rfl h.writer
    rfl
    h.subs h.dead h.live ?_ h.control
  · rw [committed]
    rfl
  · exact h.ingest.stable rfl (fun _ _ => rfl) (fun _ _ => rfl) (.refl _) rfl
      (sents_unsent s.past unsent ▸ List.prefix_rfl)

/-! ## An append and its broadcast -/

/-- A call appends its message. -/
def appending (s : Traffic) (call : Nat) (who : Author) (msg : Message) : Traffic :=
  { s with
    serving := { s.serving with
      topic := { s.topic with writer := s.topic.writer.apply (.append msg) }
      origins := s.serving.origins ++ [Origin.mk call who] }.enter call (.appended who msg)
    ops := s.ops ++ [.append msg] }

/-- The topic a call leaves that broadcasts. -/
def fanned (t : Topic) (node : Answers) (msg : Message) : Topic :=
  if node.live then t.broadcast (streamName t.topic t.nodeId) msg else t

/-- It differs in the live stream, by the message, if the stream is up. -/
theorem fanned_spec (t : Topic) (node : Answers) (msg : Message) :
    Topic.Untouched t (fanned t node msg) ∧ (fanned t node msg).subs = t.subs ∧
      (fanned t node msg).liveMessages = t.liveMessages ++ (if node.live then [msg] else []) ∧
      (fanned t node msg).deadLetters = t.deadLetters := by
  rw [fanned]
  split
  · exact ⟨⟨rfl, rfl, rfl, rfl, rfl, rfl⟩, rfl, t.liveMessages_broadcast msg, t.deadLetters_broadcast msg⟩
  · exact ⟨.refl t, rfl, (List.append_nil _).symm, rfl⟩

/-- A call broadcasts its message. -/
def broadcasting (s : Traffic) (call : Nat) (node : Answers) (msg : Message) (next : CallPhase) : Traffic :=
  { s with serving := { s.serving with topic := fanned s.topic node msg }.enter call next }

end Traffic

end CePubsub
