import CePubsub.Laws.Traffic.Ingest

/-!
# What the program does

A publish is decided where it fails or its message is appended; the rest of what the program may do it does
at one go.
-/

namespace CePubsub

variable {Link : Type} {host : Host Link}

/-- Only the program offers a message without asking. -/
theorem Input.isOwn_of_offer {nodeId : String} {i : Input} {checks : Except String Unit × Message}
    (offers : i.offer nodeId = some checks) : i.isOwn = true := by
  cases i with
  | publish | publishWith => rfl
  | pruneTo | ingest | control | requirePublishCap | acceptRoot => cases offers

namespace Traffic

variable {t : Topic} {s : Traffic} {m : Mesh} {unheard : List Message} {due : Option MeshEvent} {call : Nat}
  {r : Request}

/-! ## Publishes -/

/-- What is decided of a publish happens at the owner at one go. -/
theorem Shows.decidesOwn (h : Shows host t s m unheard due) (mine : r.token = none)
    (own : r.input.isOwn = true) {reply : Reply} {t' : Topic}
    (replied : m.inner.topic.reply host r.input = reply) (left : m.inner.topic.step host r.input = t') :
    (m.after t' (r.event reply)).Sequential host t := by
  rw [Request.event, mine]
  exact h.asked own replied left

/-- A call of the program's returns. -/
def returning (s : Traffic) (call : Nat) (r : Request) (result : Except String Nat) : Traffic :=
  { s with
    serving := s.serving.enter call (.returned result)
    past := s.past ++ [r.event (.published result)] }

/-- A publish that fails. -/
theorem Shows.ownFails (h : Shows host t s m unheard due) (asked : s.asked call = some r)
    (other : s.ingesting ≠ some call)
    (before : ∀ who msg, s.serving.calls call ≠ some (.appended who msg)) (mine : r.token = none)
    (own : r.input.isOwn = true) {e : String} (left : m.inner.topic.step host r.input = m.inner.topic)
    (replied : m.inner.topic.reply host r.input = .published (.error e))
    (committed : (m.inner.topic.call host r.input).bind m.inner.topic.commits = none) :
    Shows host t (s.returning call r (.error e)) (m.after m.inner.topic (r.event (.published (.error e))))
      unheard due := by
  have moved : Shows host t { s with serving := s.serving.enter call (.returned (.error e)) } m
      unheard due :=
    h.moves asked other before rfl trivial
  exact moved.happens (r.input_event _) (r.sent_event _) (h.decidesOwn mine own replied left) committed

/-- A publish is appended. -/
theorem Shows.ownAppends {msg : Message} {cursor : Nat} (h : Shows host t s m unheard due)
    (asked : s.asked call = some r) (other : s.ingesting ≠ some call) (mine : r.token = none)
    (offers : r.input.offer s.topic.nodeId = some (.ok (), msg))
    (commits : r.input.node.commitLog = .ok ()) (next : s.topic.writer.nextCursor = cursor)
    (none : ∀ other who msg, s.serving.calls other ≠ some (.appended who msg)) :
    ∃ m', m.past <+: m'.past ∧
      Shows host t (s.appending call .owner { msg with cursor }) m'
        (if r.input.node.live then [{ msg with cursor }] else [])
        (some (r.event (.published (.ok cursor)))) := by
  rw [← h.gate.nodeId] at offers
  obtain ⟨left, replied⟩ := Topic.step_of_offer host offers
  obtain ⟨accepted, publishes⟩ := m.inner.topic.publishes_appendAndFanout msg commits
  rw [accepted, h.writer, next] at replied
  have committed : (m.inner.topic.call host r.input).bind m.inner.topic.commits =
      some (.append { msg with cursor }) := by
    rw [Topic.call_of_offer host offers]
    simp only [Option.bind_some, Topic.commits, commits, h.writer, next]
  generalize (m.inner.topic.appendAndFanout r.input.node msg).2 = t' at *
  obtain ⟨rfl, rfl⟩ := h.awaits.alone none
  refine ⟨m.after t' (r.event (.published (.ok cursor))), List.prefix_append _ _, ?_⟩
  have grows := s.topic.writer.grows_append { msg with cursor }
  have elsewhere : ∀ busy, s.ingesting = some busy →
      (s.appending call .owner { msg with cursor }).serving.calls busy = s.serving.calls busy :=
    fun busy is => Serving.calls_enter_of_ne _ _ fun same => other (same ▸ is)
  have owed : owed (s.appending call .owner { msg with cursor }) = s.owed :=
    owed_stable rfl (fun _ _ => rfl) elsewhere
  have debt : (s.appending call .owner { msg with cursor }).debt = s.debt :=
    debt_stable (fun c under => (h.control c under).1) rfl rfl grows
  constructor
  case sequential => exact h.decidesOwn mine (Input.isOwn_of_offer offers) replied left
  case ops =>
    rw [Mesh.after, Mesh.logOps_concat h.sequential _ (r.input_event _), committed, h.ops]
    rfl
  case sents => exact (sents_unsent m.past (r.sent_event _)).trans h.sents
  case past =>
    have past := h.past
    rw [owed, debt, Option.toList_some, List.append_assoc, List.singleton_append]
    exact perm_owed (d := []) _ past
  case gate =>
    have same : (s.appending call .owner { msg with cursor }).topic.SameGate s.topic := ⟨rfl, rfl, rfl, rfl⟩
    exact same.trans (h.gate.trans publishes.gate)
  case writer =>
    refine publishes.writer.trans ?_
    rw [h.writer]
    rfl
  case subs =>
    rw [debt]
    exact publishes.subs.trans h.subs
  case dead =>
    rw [debt]
    exact publishes.dead.trans h.dead
  case live =>
    have live := publishes.live
    rw [h.writer, next, h.live, List.append_nil] at live
    exact live
  case awaits =>
    have awaits : (s.appending call .owner { msg with cursor }).Awaits _ _ := awaits_append none rfl asked
    have other' : (s.appending call .owner { msg with cursor }).ingesting ≠ some call := other
    rw [if_neg other'] at awaits
    exact awaits
  case own =>
    exact own_enter h.own rfl (fun _ _ => rfl) (fun _ _ => .rfl) rfl (.inr ⟨r, asked, rfl, mine⟩)
  case ingest =>
    have ingest : (s.appending call .owner { msg with cursor }).IngestAt host t m.inner.topic.dedup :=
      h.ingest.stable rfl (fun _ _ => rfl) elsewhere ⟨rfl, rfl, rfl, rfl⟩ rfl List.prefix_rfl
    rw [← publishes.dedup] at ingest
    exact ingest
  case control =>
    intro c under
    exact (h.control c under).imp_left (·.stable ⟨rfl, rfl, rfl, rfl⟩ fun _ => grows.high)

/-- A publish goes out and returns. -/
def finishing (s : Traffic) (call : Nat) (r : Request) (msg : Message) : Traffic :=
  { s.broadcasting call r.input.node msg (.returned (.ok msg.cursor)) with
    past := s.past ++ [r.event (.published (.ok msg.cursor))] }

/-- What was decided at the append is paid, and the message goes out. -/
theorem Shows.ownBroadcasts {msg : Message} (h : Shows host t s m unheard due)
    (at_ : s.serving.calls call = some (.appended .owner msg)) (asked : s.asked call = some r)
    (other : s.ingesting ≠ some call) : Shows host t (s.finishing call r msg) m [] none := by
  obtain ⟨rfl, rfl, alone⟩ := h.awaits.at_ at_ asked
  obtain ⟨untouched, subs, live, dead⟩ := fanned_spec s.topic r.input.node msg
  have grows : s.topic.writer.Grows (fanned s.topic r.input.node msg).writer := untouched.writer ▸ .refl _
  have elsewhere : ∀ busy, s.ingesting = some busy →
      (s.finishing call r msg).serving.calls busy = s.serving.calls busy :=
    fun busy is => Serving.calls_enter_of_ne _ _ fun same => other (same ▸ is)
  have more : CePubsub.sents (s.finishing call r msg).past = CePubsub.sents s.past :=
    sents_unsent s.past (r.sent_event _)
  have debt : (s.finishing call r msg).debt = s.debt :=
    debt_stable (fun c under => (h.control c under).1) rfl subs grows
  have owed : owed (s.finishing call r msg) = s.owed := owed_stable rfl (fun _ _ => rfl) elsewhere
  exact { h with
    sents := h.sents.trans more.symm
    past := by
      have past := h.past
      rw [if_neg other, CallPhase.owes, Option.toList_some, List.append_assoc,
        List.singleton_append] at past
      rw [owed, debt]
      exact perm_paid (d := []) _ past
    gate := untouched.sameGate.symm.trans h.gate
    writer := h.writer.trans untouched.writer.symm
    subs := debt ▸ h.subs
    dead := by
      rw [debt]
      exact h.dead.trans (congrArg (· ++ _) dead.symm)
    live := h.live.trans (live.symm.trans (List.append_nil _).symm)
    awaits := awaits_broadcast alone rfl rfl
    own := own_enter h.own rfl (fun _ _ => rfl) (fun _ _ => .rfl) untouched.nodeId
      (.inr ⟨r, asked, trivial⟩)
    ingest := h.ingest.stable rfl (fun _ _ => rfl) elsewhere untouched.sameGate untouched.dedup
      (more ▸ List.prefix_rfl)
    control := by
      intro c under
      obtain ⟨at_, sends⟩ := h.control c under
      exact ⟨at_.stable untouched.sameGate fun _ => grows.high, sends.mono (more ▸ List.prefix_rfl)⟩ }

/-- **A publish's next step.** -/
theorem Shows.ownNext (h : Shows host t s m unheard due) {phase : CallPhase}
    (at_ : s.serving.calls call = some phase) (other : s.ingesting ≠ some call)
    (undisturbed : s.Undisturbed (.next call)) :
    ∃ m' unheard' due', m.past <+: m'.past ∧ Shows host t (s.next host call) m' unheard' due' := by
  obtain ⟨r, asked, own⟩ := h.own call phase at_ other
  rw [next, asked]
  simp only [Serving.next, at_]
  cases phase with
  | gate | revocation | roots | outcome => exact own.elim
  | checked who msg =>
    obtain ⟨rfl, mine, offers⟩ := own
    have before : ∀ who msg, s.serving.calls call ≠ some (.appended who msg) := by
      rintro who msg later
      cases at_.symm.trans later
    rw [advance_quiet (by rw [at_]; rfl) rfl rfl]
    exact ⟨m, unheard, due, List.prefix_rfl, h.moves asked other before rfl ⟨rfl, mine, msg, offers, rfl⟩⟩
  | stamped who msg =>
    obtain ⟨rfl, mine, offered, offers, is⟩ := own
    obtain ⟨next, none⟩ := undisturbed _ _ at_
    have offers' := offers
    rw [← h.gate.nodeId] at offers'
    simp only [Serving.propose]
    cases commits : r.input.node.commitLog with
    | error e =>
      simp only [Serving.settle]
      rw [advance_reply (by rw [at_]; rfl) asked rfl, if_neg other]
      obtain ⟨left, replied⟩ := Topic.step_of_offer host offers'
      rw [Topic.appendAndFanout_failed _ _ commits] at left replied
      have committed : (m.inner.topic.call host r.input).bind m.inner.topic.commits = .none := by
        rw [Topic.call_of_offer host offers']
        simp only [Option.bind_some, Topic.commits, commits]
      exact ⟨_, unheard, due, List.prefix_append _ _, h.ownFails asked other (none call) mine
        (Input.isOwn_of_offer offers) left replied committed⟩
    | ok u =>
      rw [advance_append at_]
      rw [is] at next ⊢
      obtain ⟨m', grown, shows⟩ := h.ownAppends asked other mine offers commits next none
      exact ⟨m', _, _, grown, shows⟩
  | appended who msg =>
    obtain ⟨rfl, mine⟩ := own
    simp only [Serving.settle]
    rw [advance_reply (by rw [at_]; rfl) asked rfl, if_neg other]
    exact ⟨m, [], none, List.prefix_rfl, h.ownBroadcasts at_ asked other⟩
  | replied reply | returned reply =>
    simp only
    rw [advance_self]
    exact ⟨m, unheard, due, List.prefix_rfl, h⟩

/-- **The next step of a call**, the program's or the ingest worker's. -/
theorem Shows.next (h : Shows host t s m unheard due) (undisturbed : s.Undisturbed (.next call)) :
    ∃ m' unheard' due', m.past <+: m'.past ∧ Shows host t (s.next host call) m' unheard' due' := by
  by_cases mine : s.ingesting = some call
  · exact h.ingestNext mine undisturbed
  · cases at_ : s.serving.calls call with
    | some phase => exact h.ownNext at_ mine undisturbed
    | none =>
      refine ⟨m, unheard, due, List.prefix_rfl, ?_⟩
      rw [Traffic.next]
      cases s.asked call with
      | none => exact h
      | some r =>
        simp only [Serving.next, at_]
        rw [advance_self]
        exact h

/-- The program publishes. -/
theorem Shows.offer (h : Shows host t s m unheard due) (new : s.serving.calls call = none) {i : Input}
    {act : ServingAct} {checks : Except String Unit} {msg : Message}
    (offers : i.offer s.topic.nodeId = some (checks, msg))
    (is : s.serving.step host act = s.serving.offer call checks msg) :
    ∃ m', m.past <+: m'.past ∧ Shows host t (s.make host call ⟨none, i⟩ act) m' unheard due := by
  have before : ∀ who msg, s.serving.calls call ≠ some (.appended who msg) := by
    rintro who msg later
    cases new.symm.trans later
  have unreplied : (s.serving.calls call).bind CallPhase.reply? = none := by rw [new]; rfl
  have other := h.ne_of_new new
  have noted := h.ask new ⟨none, i⟩
  rw [make, is]
  generalize asked : { s with asked := Function.update s.asked call (some (Request.mk none i)) } =
    s' at noted
  have mine : s'.asked call = some ⟨none, i⟩ := by
    rw [← asked]
    exact Function.update_self _ _ _
  have at_ : s'.serving = s.serving := by rw [← asked]
  rw [← at_] at before unreplied ⊢
  replace other : s'.ingesting ≠ some call := by
    rw [← asked]
    exact other
  cases checks with
  | error e =>
    rw [← h.gate.nodeId] at offers
    obtain ⟨left, replied⟩ := Topic.step_of_refused host offers
    simp only [Serving.offer]
    rw [advance_reply unreplied mine rfl, if_neg other]
    refine ⟨_, List.prefix_append _ _, noted.ownFails mine other before rfl
      (Input.isOwn_of_offer offers) left replied ?_⟩
    rw [Topic.call_of_refused host offers]
    rfl
  | ok u =>
    simp only [Serving.offer]
    rw [advance_quiet unreplied rfl rfl]
    refine ⟨m, List.prefix_rfl, noted.moves mine other before rfl ⟨rfl, rfl, ?_⟩⟩
    rw [topic, at_]
    exact offers

/-! ## What is done at one go -/

/-- A topic after the program has pruned it or set its gate. -/
structure Sets (u u' : Topic) : Prop where
  nodeId : u'.nodeId = u.nodeId
  topic : u'.topic = u.topic
  subs : u'.subs = u.subs
  dedup : u'.dedup = u.dedup
  streams : u'.streams = u.streams

/-- The streams are the same, -/
theorem Sets.live {u u' : Topic} (h : Sets u u') : u'.liveMessages = u.liveMessages := by
  rw [Topic.liveMessages, Topic.liveMessages, h.streams, h.topic, h.nodeId]

/-- both of them. -/
theorem Sets.dead {u u' : Topic} (h : Sets u u') : u'.deadLetters = u.deadLetters := by
  rw [Topic.deadLetters, Topic.deadLetters, h.streams, h.topic, h.nodeId]

/-- The topic is pruned, or its gate set, here and in the mesh. -/
theorem Shows.changes (h : Shows host t s m unheard due) {i : Input} {ops : List LogOp}
    (own : i.isOwn = true) (replied : m.inner.topic.reply host i = s.topic.reply host i)
    (committed : ((m.inner.topic.call host i).bind m.inner.topic.commits).toList = ops)
    (sets : Sets s.topic (s.topic.step host i)) (sets' : Sets m.inner.topic (m.inner.topic.step host i))
    (gate : (s.topic.step host i).SameGate (m.inner.topic.step host i))
    (writer : (m.inner.topic.step host i).writer = (s.topic.step host i).writer)
    (control : ∀ c, s.control = some c →
      c.phase.hasRead = false ∧ s.topic.SameGate (s.topic.step host i))
    (ingest : ∀ call, s.ingesting = some call → s.topic.SameGate (s.topic.step host i)) :
    ∃ m', m.past <+: m'.past ∧ Shows host t (s.change host i ops) m' unheard due := by
  have sequential : (m.after (m.inner.topic.step host i) (.own i (s.topic.reply host i))).Sequential host
      t :=
    h.asked own replied rfl
  have before : s.debt = ⟨s.topic.subs, [], none⟩ := debt_of_unread fun c under => (control c under).1
  have after : (s.change host i ops).debt = ⟨(s.topic.step host i).subs, [], none⟩ :=
    debt_of_unread (s := s.change host i ops) fun c under => (control c under).1
  refine ⟨m.after (m.inner.topic.step host i) (.own i (s.topic.reply host i)), List.prefix_append _ _,
    h.takes ops rfl rfl rfl rfl rfl rfl rfl sequential committed gate sets.nodeId writer ?_ ?_ ?_ ?_ ?_ ?_⟩
  · rw [before, after]
  · rw [after, sets'.subs, h.subs, before]
    exact sets.subs.symm
  · have dead := h.dead
    rw [before] at dead
    rw [after, sets'.dead, dead]
    exact congrArg (· ++ []) sets.dead.symm
  · rw [sets'.live, h.live]
    exact congrArg (· ++ unheard) sets.live.symm
  · have at_ := h.ingest
    rw [← sets'.dedup] at at_
    cases mine : s.ingesting with
    | none =>
      rw [IngestAt, mine] at at_
      rw [IngestAt, show (s.change host i ops).ingesting = none from mine]
      exact at_.trans sets.dedup.symm
    | some call =>
      refine at_.stable rfl (fun _ _ => rfl) (fun _ _ => rfl) (ingest call mine) sets.dedup ?_
      rw [change, sents_concat]
      exact List.prefix_append _ _
  · intro c under
    obtain ⟨at_, sends⟩ := h.control c under
    obtain ⟨unread, same⟩ := control c under
    exact ⟨at_.stable same fun read => absurd (unread.symm.trans read) Bool.false_ne_true, sends⟩

variable (host) in
/-- A prune changes the log, if it commits, and by what it was. -/
theorem step_pruneTo (node : Answers) (upTo : Nat) :
    ∃ (log : TopicLog → TopicLog) (result : Except String Unit),
      (∀ u : Topic, u.reply host (.pruneTo node upTo) = .pruned result) ∧
      (∀ u : Topic, u.step host (.pruneTo node upTo) = { u with writer := log u.writer }) ∧
      ∀ u : Topic, ((u.call host (.pruneTo node upTo)).bind u.commits).toList =
        if node.commitLog = .ok () then [.pruneTo upTo] else [] := by
  cases commits : node.commitLog with
  | error e =>
    refine ⟨id, .error s!"prune: {e}", fun u => ?_, fun u => ?_, fun u => ?_⟩
    · rw [Topic.reply, Topic.pruneTo, commits]
    · rw [Topic.step, Topic.pruneTo, commits]
      rfl
    · rw [Topic.call, Option.bind_some, Topic.commits, commits, if_neg (fun is => by cases is)]
      rfl
  | ok u =>
    refine ⟨(·.apply (.pruneTo upTo)), .ok (), fun u => ?_, fun u => ?_, fun u => ?_⟩
    · rw [Topic.reply, Topic.pruneTo, commits]
    · rw [Topic.step, Topic.pruneTo, commits]
    · rw [Topic.call, Option.bind_some, Topic.commits, commits, if_pos rfl]
      rfl

variable (host) in
/-- Accepting a root changes the roots, by what they were. -/
theorem step_acceptRoot (root : String) :
    ∃ (roots : List NodeId → List NodeId) (result : Except String Unit),
      (∀ u : Topic, u.reply host (.acceptRoot root) = .set result) ∧
      ∀ u : Topic, u.step host (.acceptRoot root) = { u with acceptedRoots := roots u.acceptedRoots } := by
  cases parsed : parseNodeId root with
  | error e =>
    refine ⟨id, .error e, fun u => ?_, fun u => ?_⟩
    · simp only [Topic.reply, Topic.acceptRoot, parsed, bind, Except.bind, Except.map]
    · simp only [Topic.step, Topic.acceptRoot, parsed, bind, Except.bind, Except.toOption,
        Option.getD_none, id]
  | ok root =>
    refine ⟨fun roots => if root ∈ roots then roots else roots ++ [root], .ok (), fun u => ?_, fun u => ?_⟩
    · simp only [Topic.reply, Topic.acceptRoot, parsed, bind, Except.bind, Except.map]
    · simp only [Topic.step, Topic.acceptRoot, parsed, bind, Except.bind, Except.toOption, Option.getD_some]
      split <;> rfl

/-- **The program uses its handle.** -/
theorem Shows.uses (h : Shows host t s m unheard due) {i : Input}
    (undisturbed : s.Undisturbed (.own call i)) :
    ∃ m', m.past <+: m'.past ∧ Shows host t (s.own host call i) m' unheard due := by
  have stays : ∃ m', m.past <+: m'.past ∧ Shows host t s m' unheard due := ⟨m, List.prefix_rfl, h⟩
  cases i with
  | ingest | control => exact stays
  | publish node payload now =>
    rw [Traffic.own]
    split
    · exact stays
    · next new =>
      have new' := Option.not_isSome_iff_eq_none.mp new
      exact h.offer new' rfl (by rw [Serving.step, if_neg new])
  | publishWith node payload opts now =>
    rw [Traffic.own]
    split
    · exact stays
    · next new =>
      have new' := Option.not_isSome_iff_eq_none.mp new
      exact h.offer new' rfl (by rw [Serving.step, if_neg new])
  | pruneTo node upTo =>
    obtain ⟨log, result, replied, left, committed⟩ := step_pruneTo host node upTo
    have same : s.topic.SameGate (s.topic.step host (.pruneTo node upTo)) :=
      left s.topic ▸ ⟨rfl, rfl, rfl, rfl⟩
    refine h.changes rfl ?_ (committed _) ?_ ?_ ?_ ?_
      (fun c under => ⟨undisturbed c under, same⟩) fun _ _ => same
    · rw [replied, replied]
    · rw [left]
      exact ⟨rfl, rfl, rfl, rfl, rfl⟩
    · rw [left]
      exact ⟨rfl, rfl, rfl, rfl, rfl⟩
    · rw [left, left]
      exact ⟨h.gate.nodeId, h.gate.topic, h.gate.acceptedRoots, h.gate.requireCap⟩
    · rw [left, left]
      exact congrArg log h.writer
  | requirePublishCap require =>
    obtain ⟨idle, quiet⟩ := undisturbed
    exact h.changes rfl rfl rfl ⟨rfl, rfl, rfl, rfl, rfl⟩ ⟨rfl, rfl, rfl, rfl, rfl⟩
      ⟨h.gate.nodeId, h.gate.topic, h.gate.acceptedRoots, rfl⟩ h.writer
      (fun c under => by cases quiet.symm.trans under) (fun c mine => by cases idle.symm.trans mine)
  | acceptRoot root =>
    obtain ⟨idle, quiet⟩ := undisturbed
    obtain ⟨roots, result, replied, left⟩ := step_acceptRoot host root
    refine h.changes rfl ?_ rfl ?_ ?_ ?_ ?_ (fun c under => by cases quiet.symm.trans under)
      (fun c mine => by cases idle.symm.trans mine)
    · rw [replied, replied]
    · rw [left]
      exact ⟨rfl, rfl, rfl, rfl, rfl⟩
    · rw [left]
      exact ⟨rfl, rfl, rfl, rfl, rfl⟩
    · rw [left, left, h.gate.acceptedRoots]
      exact ⟨h.gate.nodeId, h.gate.topic, rfl, h.gate.requireCap⟩
    · rw [left, left]
      exact h.writer

end Traffic

end CePubsub
