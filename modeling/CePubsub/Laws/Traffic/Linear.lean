import CePubsub.Laws.Traffic.Arrive
import CePubsub.Laws.Traffic.Control
import CePubsub.Laws.Traffic.Own

/-!
# The owner is a broker

Every undisturbed run shows one mesh, and each of its beginnings shows a beginning of it (`shows_run`). What
is in that mesh is one order of what happens, in which the owner might have served one request after another,
and so a broker (`traffic_is_broker`).
-/

namespace CePubsub

variable {Link : Type} {host : Host Link}

namespace Traffic

variable {t : Topic} {s : Traffic} {m : Mesh} {unheard : List Message} {due : Option MeshEvent}

/-- A topic nothing has happened to shows a mesh nothing has happened in. -/
theorem shows_new (inner : TopicInner) :
    Shows host inner.topic { serving := { topic := inner.topic } } { inner } [] none := by
  constructor
  case sequential => exact Mesh.sequential_new inner
  case ops => rfl
  case sents => rfl
  case past => exact .refl _
  case gate => exact .refl _
  case writer => rfl
  case subs => rfl
  case dead => exact (List.append_nil _).symm
  case live => exact (List.append_nil _).symm
  case awaits => exact .nothing fun _ _ _ at_ => (Option.some_ne_none _ at_.symm).elim
  case own => exact fun _ _ at_ => (Option.some_ne_none _ at_.symm).elim
  case ingest => rfl
  case control => exact fun _ under => (Option.some_ne_none _ under.symm).elim

/-- **An undisturbed step** shows the same, or what has happened at one go besides. -/
theorem Shows.step (h : Shows host t s m unheard due) {act : TrafficAct} (undisturbed : s.Undisturbed act) :
    ∃ m' unheard' due', m.past <+: m'.past ∧ Shows host t (s.step host act) m' unheard' due' := by
  have keeps : ∀ {s'}, (∃ m', m.past <+: m'.past ∧ Shows host t s' m' unheard due) →
      ∃ m' unheard' due', m.past <+: m'.past ∧ Shows host t s' m' unheard' due' :=
    fun ⟨m', grown, shows⟩ => ⟨m', unheard, due, grown, shows⟩
  cases act with
  | send r => exact ⟨_, unheard, due, List.prefix_append _ _, h.send r⟩
  | own call i => exact keeps (h.uses undisturbed)
  | ingest call d => exact keeps (h.arrives d)
  | next call => exact h.next undisturbed
  | control d => exact keeps (h.controlled d)
  | serve => exact keeps h.serve

/-- **An undisturbed run** shows one mesh at its end, and what it shows on the way are its beginnings. -/
theorem shows_run (inner : TopicInner) {acts : List TrafficAct}
    (undisturbed : Run.Along (Traffic.step host) Undisturbed { serving := { topic := inner.topic } } acts) :
    ∃ m, (∃ unheard due, Shows host inner.topic
        (Run.run (Traffic.step host) { serving := { topic := inner.topic } } acts) m unheard due) ∧
      ∀ pre, pre <+: acts → ∃ m', m'.past <+: m.past ∧ ∃ unheard due, Shows host inner.topic
        (Run.run (Traffic.step host) { serving := { topic := inner.topic } } pre) m' unheard due :=
  Run.run_growth_along (R := fun s m => ∃ unheard due, Shows host inner.topic s m unheard due)
    (G := fun m m' : Mesh => m.past <+: m'.past) (fun _ => List.prefix_rfl) (fun _ _ _ h k => h.trans k)
    (fun _ _ _ ⟨_, _, h⟩ undisturbed =>
      let ⟨m', unheard', due', grown, shows⟩ := h.step undisturbed
      ⟨m', grown, unheard', due', shows⟩)
    ⟨_, _, shows_new inner⟩ undisturbed

/-- What a call or a request under way is decided to be replied. -/
def Pending (s : Traffic) (e : MeshEvent) : Prop :=
  (∃ call r phase, s.asked call = some r ∧ s.serving.calls call = some phase ∧ phase.owes r = some e) ∨
    ∃ c reply, s.control = some c ∧ c.phase.hasRead = true ∧ e = c.event reply

/-- Nothing is under way. -/
structure Settled (s : Traffic) : Prop where
  ingesting : s.ingesting = none
  control : s.control = none
  calls : ∀ call phase, s.serving.calls call = some phase → phase.reply? ≠ none

/-- **An order of what has happened**, with what is decided of the calls under way, in which the owner
might have served one after another: every request after it was sent, with the broker's reply at its
place, or a rejection, or a repetition. The log is the broker's after all of it; where nothing is under way,
the topic is. -/
structure Linearizes (host : Host Link) (t : Topic) (s : Traffic) (history : List MeshEvent) : Prop where
  sents : CePubsub.sents history = CePubsub.sents s.past
  happened : ∃ pending, (s.past ++ pending).Perm history ∧ ∀ e ∈ pending, s.Pending e
  served : ∀ before token i reply after, history = before ++ .served token i reply :: after →
    (∃ r, (CePubsub.sents before)[token]? = some r ∧ r.Becomes t.topic token i) ∧
      Answered host t (inputs before) i reply
  own : ∀ before i reply after, history = before ++ .own i reply :: after →
    i.isOwn = true ∧ reply = (Run.run (Topic.step host) t (inputs before)).reply host i ∧
      ∀ c, (Run.run (Topic.step host) t (inputs before)).call host i = some c →
        reply = i.reply ((Broker.after (t.calls host (inputs before))).serve c).1
  log : s.topic.writer.Represents (Broker.after (t.calls host (inputs history))).log
  stands : s.Settled → Broker.Represents s.topic (Broker.after (t.calls host (inputs history)))

/-- What is owed is the reply of something under way. -/
theorem Shows.pending (h : Shows host t s m unheard due) {e : MeshEvent}
    (mem : e ∈ due.toList ++ s.owed.toList ++ s.debt.event.toList) : s.Pending e := by
  rcases List.mem_append.mp mem with mem | mem
  · rcases List.mem_append.mp mem with mem | mem
    · cases h.awaits with
      | nothing _ => cases mem
      | @message call who msg r at_ asked _ =>
        refine .inl ⟨call, r, _, asked, at_, ?_⟩
        split at mem
        · cases mem
        · exact Option.mem_toList.mp mem
    · cases mine : s.ingesting with
      | none =>
        rw [owed, mine] at mem
        cases mem
      | some call =>
        obtain ⟨r, token, phase, c, result, was⟩ := h.ingesting mine
        rw [owed_of was.mine was.asked was.at_] at mem
        exact .inl ⟨call, r, phase, was.asked, was.at_, Option.mem_toList.mp mem⟩
  · have owes := Option.mem_toList.mp mem
    rw [debt] at owes
    cases under : s.control with
    | none =>
      rw [under] at owes
      cases owes
    | some c =>
      rw [under] at owes
      have at_ := (h.control c under).1.phase
      obtain ⟨token, node, payloadHex, requester, now, req, phase⟩ := c
      cases phase with
      | gate | revocation | roots | admitted => cases owes
      | leasing name maxMessages phase =>
        cases phase with
        | called => cases owes
        | read | planned | committed | routed =>
          cases owes
          exact .inr ⟨_, _, under, rfl, rfl⟩
        | replied => exact at_.elim

/-- A mesh with nothing under way is what it shows. -/
theorem Shows.settled (h : Shows host t s m unheard due) (settled : s.Settled) {b : Broker}
    (stands : Broker.Represents m.inner.topic b) : Broker.Represents s.topic b := by
  have idle : s.debt = ⟨s.topic.subs, [], none⟩ := by rw [debt, settled.control]
  obtain ⟨rfl, rfl⟩ := h.awaits.alone fun call who msg at_ => settled.calls call _ at_ rfl
  have subs : m.inner.topic.subs = s.topic.subs := by rw [h.subs, idle]
  have dead := h.dead
  have live := h.live
  rw [idle] at dead
  rw [List.append_nil] at dead live
  exact ⟨h.writer ▸ stands.log, subs ▸ stands.subs, live.symm.trans stands.live,
    dead.symm.trans stands.dead⟩

/-- The order is what happens in the mesh. -/
theorem Shows.linearizes {nodeId topic : String} (new : Topic.create nodeId topic = .ok t)
    (h : Shows host t s m unheard due) : Linearizes host t s m.past := by
  have broker := owner_is_broker host new
  have stands := (broker (inputs m.past)).1
  rw [← h.sequential.topic] at stands
  constructor
  case sents => exact h.sents
  case happened => exact ⟨_, h.past, fun e mem => h.pending mem⟩
  case served =>
    intro before token i reply after split
    have history := h.sequential.history
    rw [split] at history
    obtain ⟨⟨r, there, becomes⟩, replied⟩ := history.at
    rw [replied]
    exact ⟨⟨r, there, becomes⟩, answered_of_becomes host new _ becomes⟩
  case own =>
    intro before i reply after split
    have history := h.sequential.history
    rw [split] at history
    obtain ⟨own, replied⟩ := history.at
    exact ⟨own, replied, fun c comes => replied.trans ((broker _).2 i c comes)⟩
  case log => exact h.writer ▸ stands.log
  case stands => exact fun settled => h.settled settled stands

end Traffic

/-- **The owner is a broker, however its calls come between each other.** In every undisturbed run, with messages
lost, reordered and shown again, there is one order of what happens, fixed as the run goes on,
that a broker might have served it in: every state on the way is accounted for by a beginning of it. -/
theorem traffic_is_broker {nodeId topic : String} {t : Topic} (new : Topic.create nodeId topic = .ok t)
    (acts : List TrafficAct)
    (undisturbed : Run.Along (Traffic.step host) Traffic.Undisturbed { serving := { topic := t } } acts) :
    ∃ history, ∀ before, before <+: acts → ∃ past, past <+: history ∧
      Traffic.Linearizes host t (Run.run (Traffic.step host) { serving := { topic := t } } before) past := by
  obtain ⟨m, -, beginnings⟩ := Traffic.shows_run { topic := t, strongCount := 1, held := 1 } undisturbed
  refine ⟨m.past, fun before first => ?_⟩
  obtain ⟨m', grown, _, _, shows⟩ := beginnings before first
  exact ⟨m'.past, grown, shows.linearizes new⟩

/-! ### A greeting, while others are under way -/

namespace Greeting

open Traffic

/-- The phase is not the one before an append. -/
def moves : CallPhase → Bool
  | .stamped .. => false
  | _ => true

/-- Before its append a step disturbs nothing. -/
theorem undisturbed_of_moves {s : Traffic} {call : Nat} {phase : CallPhase}
    (at_ : s.serving.calls call = some phase)
    (before : moves phase = true) : s.Undisturbed (.next call) := by
  intro who msg stamped
  cases at_.symm.trans stamped
  cases before

/-- Nor does an append that finds the cursor it read, and no message waiting. -/
theorem undisturbed_of_next {s : Traffic} {call : Nat} {who : Author} {msg : Message}
    (at_ : s.serving.calls call = some (.stamped who msg)) (next : s.topic.writer.nextCursor = msg.cursor)
    (alone : ∀ other, (s.serving.calls other).all (!·.waits) = true) : s.Undisturbed (.next call) := by
  intro who' msg' stamped
  cases at_.symm.trans stamped
  refine ⟨next, fun other who msg waits => ?_⟩
  have none := alone other
  rw [waits] at none
  cases none

/-- A request to publish `hi`, under no key. -/
def greeting : IngestRequest := ⟨Hex.encode [104, 105], none, none, none, ∅⟩

/-- The owner reads it. -/
theorem decoded : IngestRequest.decodeHex Host.compact.serde (Hex.encode greeting.encode) = .ok greeting :=
  (IngestRequest.decodeHex_encode (Host.compact_reads_ingest greeting) nofun).mpr (by
      rw [IngestRequest.length_encode]
      decide +kernel)

/-- It is sent by the node `cc`. -/
def asked : Sent := { topic := ingestTopic "orders", sender := "cc", body := greeting.encode }

/-- The inbox shows it at this time. -/
def shownAt (now : Nat) : Delivery := { token := 0, now }

/-- What the ingest worker makes of it. -/
def brought (now : Nat) : Input := .ingest {} 0 (Hex.encode asked.body) "cc" now

/-- The topic before anything happens. -/
def quiet : Traffic := { serving := { topic := post.topic } }

/-- The owner's own publish. -/
def remark : Input := .publish {} [111] 8

/-- A greeting arrives; the owner publishes while it is checked; and it is shown again later. -/
def arriving : List TrafficAct := [.send asked, .ingest 0 (shownAt 7)]

/-- The two calls, each step of one between steps of the other. -/
def between : List TrafficAct :=
  [.own 1 remark, .next 0, .next 1, .next 1, .next 0, .next 1, .next 0, .next 0, .next 0]

/-- The whole run. -/
def crowd : List TrafficAct := arriving ++ between ++ [.ingest 2 (shownAt 9)]

/-- The greeting is at the gate. -/
def arrived : Traffic :=
  taking { quiet with past := [.sent asked] } 0 (ingestOf (shownAt 7) asked) post.topic.dedup
    ⟨greeting, "cc", 7, "tok:0"⟩

/-- An empty cache knows no key. -/
theorem unseen : post.topic.dedup.get (Topic.dedupKey greeting 0) 7 = (none, post.topic.dedup) := by
  rw [IdempotencyCache.get, show post.topic.dedup.map = ∅ from rfl, Std.ExtTreeMap.getElem?_empty]

/-- The worker takes the greeting up. -/
theorem run_arriving : Run.run (Traffic.step Host.compact) quiet arriving = arrived := by
  have shown : Traffic.shows { quiet with past := [.sent asked] } .ingest (shownAt 7) = some asked :=
    Option.filter_eq_some_iff.mpr ⟨rfl, by decide⟩
  exact ingest_of_unseen rfl rfl shown decoded unseen

/-- Both calls are over. -/
def answered : Traffic := Run.run (Traffic.step Host.compact) arrived between

/-- No append finds another cursor than it read, and no message waits where one is made. -/
theorem undisturbed_between : Run.Along (Traffic.step Host.compact) Undisturbed arrived between := by
  refine ⟨trivial, ?_, ?_, ?_, ?_, ?_, ?_, ?_, ?_, trivial⟩
  · exact undisturbed_of_moves rfl rfl
  · exact undisturbed_of_moves rfl rfl
  · refine undisturbed_of_next rfl rfl ?_
    rintro (_ | _ | n) <;> rfl
  · exact undisturbed_of_moves rfl rfl
  · exact undisturbed_of_moves rfl rfl
  · refine undisturbed_of_next rfl rfl ?_
    rintro (_ | _ | n) <;> rfl
  · exact undisturbed_of_moves rfl rfl
  · exact undisturbed_of_moves rfl rfl

/-- The remark has the first cursor and the greeting the second. -/
theorem past_answered : answered.past =
    [.sent asked, .own remark (.published (.ok 1)),
      .served 0 (brought 7) (.ingested (.accepted 2))] := rfl

/-- The cache knows the greeting, -/
theorem seen_again : (answered.topic.dedup.get (Topic.dedupKey greeting 0) 9).1 = some (.cursor 2) := by
  decide

/-- so that it is replied to at once when it is shown again. -/
theorem run_crowd : Run.run (Traffic.step Host.compact) quiet crowd =
    answered.recalling 2 (ingestOf (shownAt 9) asked)
      (answered.topic.dedup.get (Topic.dedupKey greeting 0) 9).2 (.accepted 2) := by
  have run : Run.run (Traffic.step Host.compact) arrived between = answered := rfl
  have free : answered.ingesting = none := rfl
  have new : answered.serving.calls 2 = none := rfl
  have named : answered.topic.topic = "orders" := rfl
  have past := past_answered
  have seen := seen_again
  rw [crowd, Run.run_append, Run.run_append, run_arriving, run, Run.run_cons, Run.run_nil]
  generalize answered = s at *
  have shown : s.shows .ingest (shownAt 9) = some asked := by
    rw [Traffic.shows, past, named]
    exact Option.filter_eq_some_iff.mpr ⟨rfl, by decide⟩
  rw [Traffic.step, ingest_of_seen free new shown decoded (Prod.ext seen rfl)]
  rfl

/-- What has happened in the end. -/
theorem past_crowd : (Run.run (Traffic.step Host.compact) quiet crowd).past =
    [.sent asked, .own remark (.published (.ok 1)),
      .served 0 (brought 7) (.ingested (.accepted 2)),
      .served 0 (brought 9) (.ingested (.accepted 2))] := by
  rw [run_crowd, recalling, past_answered]
  rfl

/-- And nothing was disturbed. -/
theorem undisturbed_crowd : Run.Along (Traffic.step Host.compact) Undisturbed quiet crowd := by
  have first : Run.Along (Traffic.step Host.compact) Undisturbed quiet arriving :=
    ⟨trivial, trivial, trivial⟩
  rw [crowd, Run.along_append, Run.along_append, run_arriving]
  exact ⟨⟨first, undisturbed_between⟩, trivial, trivial⟩

end Greeting

open Greeting in
/-- A publish of the owner's comes between a greeting's arrival and its append, and the greeting is shown
again. -/
theorem traffic_is_broker_crowd :
    (Run.run (Traffic.step Host.compact) quiet crowd).past =
      [.sent asked, .own remark (.published (.ok 1)),
        .served 0 (brought 7) (.ingested (.accepted 2)),
        .served 0 (brought 9) (.ingested (.accepted 2))] ∧
    ∃ history, ∀ before, before <+: crowd → ∃ past, past <+: history ∧
      Traffic.Linearizes Host.compact post.topic (Run.run (Traffic.step Host.compact) quiet before) past :=
  ⟨past_crowd, traffic_is_broker (topic_of_createTopic new) crowd undisturbed_crowd⟩

end CePubsub
