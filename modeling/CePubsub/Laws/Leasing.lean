import CePubsub.Laws.History
import CePubsub.Laws.Owner
import CePubsub.Leasing

/-!
# What a lease replies with, and what it dead-letters

A lease reads the log three times: to plan, to route what it dead-letters, and to resolve what it
hands out. The lookups of the last two drop a cursor they do not find, so that what a consumer and
the dead-letter stream get depends on the plan having asked for messages that are there. It has: the
planner stays between the floor and the high cursor it was given, the high cursor never comes down,
and only a prune raises the floor. `reply_matches_lease` says it of every interleaving.

Taken without interruption the steps are `Topic.handleLease` (`run_alone`).
-/

namespace CePubsub

namespace SubscriptionState

/-- What is due is handed out in ascending order. -/
theorem pairwise_due (s : SubscriptionState) (high floor now max : Nat) :
    ((s.due high floor now max).map Prod.fst).Pairwise (· < ·) := by
  rw [due, List.map_map]
  simp only [Function.comp_def, List.map_id']
  exact List.Pairwise.sublist ((List.take_sublist _ _).trans List.filter_sublist)
    List.pairwise_lt_range'

theorem length_due_le (s : SubscriptionState) (high floor now max : Nat) :
    (s.due high floor now max).length ≤ min max maxLeaseBatch := by
  rw [due, List.length_map]
  exact List.length_take_le _ _

end SubscriptionState

theorem SubRegistry.leased_of_planLease {r : SubRegistry} {name : String} {s : SubscriptionState}
    {high floor now max : Nat} {op : SubOp} {out : LeaseOutcome}
    (plan : r.planLease name high floor now max = some (op, out)) (found : r.get name = some s) :
    out.leased = s.due high floor now max := by
  obtain ⟨s', found', plan⟩ := Option.bind_eq_some_iff.mp plan
  cases found.symm.trans found'
  exact SubscriptionState.leased_of_planLease plan

namespace TopicLog

/-- A log read after one whose high cursor and floor were these; `still` if nothing was pruned. -/
structure Follows (still : Prop) (high floor : Nat) (s : TopicLog) : Prop where
  reached : ∃ j, s.Represents j
  high_le : high ≤ s.highCursor
  floor_eq : still → s.floor = floor

namespace Follows

variable {still : Prop} {high floor : Nat} {s : TopicLog}

theorem apply (h : Follows still high floor s) (op : LogOp)
    (quiet : still → ∀ upTo, op ≠ .pruneTo upTo) : Follows still high floor (s.apply op) where
  reached := by
    obtain ⟨j, rep⟩ := h.reached
    exact ⟨_, rep.record op⟩
  high_le := h.high_le.trans (Topic.highCursor_apply_le s op)
  floor_eq := by
    intro keep
    cases op with
    | append m => exact h.floor_eq keep
    | pruneTo upTo => exact absurd rfl (quiet keep upTo)

/-- What was between the floor and the high cursor is kept while nothing is pruned. -/
theorem retained (h : Follows still high floor s) (keep : still) {c : Nat} (above : floor < c)
    (assigned : c ≤ high) : s.Retained c := by
  obtain ⟨j, rep⟩ := h.reached
  rw [rep.retained_iff, h.floor_eq keep]
  exact ⟨above, assigned.trans h.high_le⟩

end Follows

/-- Looking a list of cursors up finds those that are kept. -/
theorem Represents.map_cursor_filterMap_get {s : TopicLog} {j : Journal Message} (rep : s.Represents j)
    (cursors : List Nat) :
    (cursors.filterMap s.get).map Message.cursor = cursors.filter (s.Retained ·) := by
  induction cursors with
  | nil => rfl
  | cons c cursors ih =>
    cases found : s.get c with
    | none =>
      have gone : ¬ s.Retained c := by rw [rep.retained_iff_get, found]; exact Bool.false_ne_true
      rw [List.filterMap_cons_none found, List.filter_cons_of_neg (by simpa using gone), ih]
    | some m =>
      have kept : s.Retained c := by rw [rep.retained_iff_get, found]; rfl
      rw [List.filterMap_cons_some found, List.filter_cons_of_pos (by simpa using kept), List.map_cons,
        ih, (rep.get_eq_some_iff.mp found).2]

end TopicLog

namespace Topic

/-- What has been published on the topic's dead-letter stream. -/
def deadLetters (t : Topic) : List Message :=
  t.streams.getD (streamName (deadLetterTopic t.topic) t.nodeId) []

theorem deadLetters_broadcasts (t : Topic) (ms : List Message) :
    (ms.foldl (·.broadcast (streamName (deadLetterTopic t.topic) t.nodeId)) t).deadLetters =
      t.deadLetters ++ ms := by
  have same := t.broadcasts (streamName (deadLetterTopic t.topic) t.nodeId) ms
  rw [deadLetters, same.1.topic, same.1.nodeId, streams_broadcasts, if_pos rfl]
  rfl

/-- With the stream up, routing publishes what the log still keeps. -/
theorem deadLetters_route (t : Topic) {node : Answers} (opened : node.deadLetterStream = true)
    (published : ∀ m, node.deadLetter m = true) (cursors : List Nat) :
    (t.routeDeadLetters node cursors).deadLetters =
      t.deadLetters ++ cursors.filterMap t.writer.get := by
  rw [routeDeadLetters, if_pos opened, List.filter_eq_self.mpr fun m _ => published m]
  exact t.deadLetters_broadcasts _

theorem mem_resolve {t : Topic} {leased : List (Nat × UInt32)} {l : LeasedMessage} :
    l ∈ t.resolve leased ↔ ∃ c, (c, l.deliveryAttempt) ∈ leased ∧ t.writer.get c = some l.message := by
  rw [resolve, List.mem_filterMap]
  constructor
  · rintro ⟨⟨c, attempt⟩, mem, found⟩
    obtain ⟨m, looked, rfl⟩ := Option.map_eq_some_iff.mp found
    exact ⟨c, mem, looked⟩
  · rintro ⟨c, mem, looked⟩
    exact ⟨(c, l.deliveryAttempt), mem, by simp only [looked, Option.map_some]⟩

/-- Resolving looks the leased cursors up. -/
theorem map_message_resolve (t : Topic) (leased : List (Nat × UInt32)) :
    (t.resolve leased).map (·.message) = (leased.map Prod.fst).filterMap t.writer.get := by
  rw [resolve, List.map_filterMap, List.filterMap_map]
  refine List.filterMap_congr fun x _ => ?_
  rw [Option.map_map]
  exact Option.map_id'

end Topic

namespace Leasing

variable (name : String) (maxMessages now : Nat)

/-- What a lease shows: to the consumer, the messages of the cursors it leased, and to the dead-letter
stream, those of the cursors it dead-lettered, as far as they were kept when the log was read. -/
structure Shows (before after : Topic) (lease : CommittedLease) (leased : List (Nat × Nat))
    (dead : List Nat) (batch : List LeasedMessage) (letters : List Message) : Prop where
  committed : after.subs = before.subs.apply lease.op
  /-- The reply: what is leased, in ascending order, with the log's message and the stored count. -/
  ascending : (batch.map (·.message.cursor)).Pairwise (· < ·)
  cursors : batch.map (·.message.cursor) =
    (leased.map Prod.fst).filter (lease.resolvedFrom.Retained ·)
  messages : ∀ l ∈ batch, l.message ∈ lease.resolvedFrom.messages
  attempts : ∃ sub, after.subs.get name = some sub ∧
    ∀ l ∈ batch, sub.attempts[l.message.cursor]? = some l.deliveryAttempt
  bounded : batch.length ≤ min maxMessages maxLeaseBatch
  /-- The dead-letter stream: what is dead as of this lease and was not finished with before. -/
  published : after.deadLetters = before.deadLetters ++ letters
  letterCursors : letters.map Message.cursor = dead.filter (lease.routedFrom.Retained ·)
  letterMessages : ∀ m ∈ letters, m ∈ lease.routedFrom.messages
  newly : ∃ sub, before.subs.get name = some sub ∧ ∀ c ∈ dead, ¬ sub.Handled c

/-- The plan of a call, made from a log this one follows. -/
def PlannedFrom (still : Prop) (t : Topic) (op : SubOp) (out : LeaseOutcome) (log : TopicLog) : Prop :=
  ∃ high floor, log.Follows still high floor ∧
    t.subs.planLease name high floor now maxMessages = some (op, out)

/-- What a call that has committed nothing leaves. -/
structure Idle (before after : Topic) : Prop where
  subs : after.subs = before.subs
  deadLetters : after.deadLetters = before.deadLetters

/-- What a reply shows of its lease. -/
def Answered (still : Prop) (before after : Topic) (reply : ControlReply) :
    Option CommittedLease → Prop
  | none => (reply = .pulled [] ∨ ∃ why, reply = .rejected why) ∧ Idle before after
  | some lease => ∃ leased dead newAcked batch letters,
      lease.op = .applyLease name leased dead newAcked ∧ reply = .pulled batch ∧
        Shows name maxMessages before after lease leased dead batch letters ∧
        (still → batch.map (·.message.cursor) = leased.map Prod.fst ∧
          letters.map Message.cursor = dead)

/-- How far a call has come, on a topic that was `before` when it was made. -/
structure Comes (still : Prop) (before : Topic) (s : Leasing) : Prop where
  nodeId : s.topic.nodeId = before.nodeId
  topic : s.topic.topic = before.topic
  follows : ∃ high floor, s.topic.writer.Follows still high floor
  stage : match s.phase with
    | .called => Idle before s.topic
    | .read high floor => Idle before s.topic ∧ s.topic.writer.Follows still high floor
    | .planned op out =>
      Idle before s.topic ∧ PlannedFrom name maxMessages now still before op out s.topic.writer
    | .committed op out =>
      s.topic.subs = before.subs.apply op ∧ s.topic.deadLetters = before.deadLetters ∧
        PlannedFrom name maxMessages now still before op out s.topic.writer
    | .routed op out routedFrom =>
      s.topic.subs = before.subs.apply op ∧
        s.topic.deadLetters = before.deadLetters ++ out.deadLettered.filterMap routedFrom.get ∧
        PlannedFrom name maxMessages now still before op out routedFrom ∧
        PlannedFrom name maxMessages now still before op out s.topic.writer
    | .replied reply lease => Answered name maxMessages still before s.topic reply lease

variable {name maxMessages now} {still : Prop} {before : Topic}

theorem PlannedFrom.apply {op : SubOp} {out : LeaseOutcome} {log : TopicLog}
    (h : PlannedFrom name maxMessages now still before op out log) (write : LogOp)
    (quiet : still → ∀ upTo, write ≠ .pruneTo upTo) :
    PlannedFrom name maxMessages now still before op out (log.apply write) := by
  obtain ⟨high, floor, follows, plan⟩ := h
  exact ⟨high, floor, follows.apply write quiet, plan⟩

/-- Everything a plan asks for is there while nothing is pruned. -/
theorem PlannedFrom.retained {op : SubOp} {out : LeaseOutcome} {log : TopicLog}
    (h : PlannedFrom name maxMessages now still before op out log) (keep : still) :
    (∀ c ∈ out.leased.map Prod.fst, log.Retained c) ∧ ∀ c ∈ out.deadLettered, log.Retained c := by
  obtain ⟨high, floor, follows, plan⟩ := h
  obtain ⟨s, leased, dead, newAcked, -, -, planned⟩ := SubRegistry.planned_of_planLease plan
  constructor
  · intro c mem
    obtain ⟨x, handed, rfl⟩ := List.mem_map.mp mem
    obtain ⟨above, assigned, -⟩ := planned.of_leased x handed
    exact follows.retained keep (Nat.lt_of_le_of_lt (Nat.le_max_right _ _) above) assigned
  · intro c mem
    obtain ⟨above, assigned, -⟩ := planned.of_dead c mem
    exact follows.retained keep (Nat.lt_of_le_of_lt (Nat.le_max_right _ _) above) assigned

/-- **The reply of a lease**, once it is committed and routed. -/
theorem answered_of_routed {after : Topic} {op : SubOp} {out : LeaseOutcome} {routedFrom : TopicLog}
    (subs : after.subs = before.subs.apply op)
    (published : after.deadLetters =
      before.deadLetters ++ out.deadLettered.filterMap routedFrom.get)
    (routed : PlannedFrom name maxMessages now still before op out routedFrom)
    (resolved : PlannedFrom name maxMessages now still before op out after.writer) :
    Answered name maxMessages still before after (.pulled (after.resolve out.leased))
      (some { op, routedFrom, resolvedFrom := after.writer }) := by
  have ⟨high, floor, follows, plan⟩ := resolved
  have ⟨_, _, routedFollows, _⟩ := routed
  obtain ⟨j, rep⟩ := follows.reached
  obtain ⟨k, routedRep⟩ := routedFollows.reached
  obtain ⟨s, leased, dead, newAcked, found, rfl, planned⟩ := SubRegistry.planned_of_planLease plan
  have same : leased.map Prod.fst = out.leased.map Prod.fst := by
    rw [planned.stamped, List.map_map]
    rfl
  have looked : (after.resolve out.leased).map (·.message.cursor) =
      (leased.map Prod.fst).filter (after.writer.Retained ·) := by
    rw [same, ← rep.map_cursor_filterMap_get, ← Topic.map_message_resolve, List.map_map]
    rfl
  have letters := routedRep.map_cursor_filterMap_get out.deadLettered
  rw [← planned.dead_eq] at letters
  have due := SubRegistry.leased_of_planLease plan found
  refine ⟨leased, dead, newAcked, after.resolve out.leased, dead.filterMap routedFrom.get, rfl, rfl,
    ?_, ?_⟩
  · constructor
    case committed => exact subs
    case ascending =>
      rw [looked, same, due]
      exact (s.pairwise_due high floor now maxMessages).filter _
    case cursors => exact looked
    case messages =>
      intro l mem
      obtain ⟨c, -, got⟩ := Topic.mem_resolve.mp mem
      exact (rep.get_eq_some_iff.mp got).1
    case attempts =>
      refine ⟨s.applyLease leased dead newAcked, ?_, ?_⟩
      · rw [subs, SubRegistry.apply, SubRegistry.get_modify, if_pos rfl, found]
        rfl
      · intro l mem
        obtain ⟨c, handed, got⟩ := Topic.mem_resolve.mp mem
        rw [(rep.get_eq_some_iff.mp got).2]
        exact (planned.of_handed handed).2
    case bounded =>
      calc (after.resolve out.leased).length
          ≤ out.leased.length := List.length_filterMap_le _ _
        _ ≤ min maxMessages maxLeaseBatch := due ▸ s.length_due_le high floor now maxMessages
    case published => rw [published, planned.dead_eq]
    case letterCursors => exact letters
    case letterMessages =>
      intro m mem
      obtain ⟨c, -, got⟩ := List.mem_filterMap.mp mem
      exact (routedRep.get_eq_some_iff.mp got).1
    case newly =>
      refine ⟨s, found, fun c mem => ?_⟩
      exact (planned.fresh (.inr (planned.dead_eq ▸ mem))).1
  · intro keep
    constructor
    · rw [looked, same, List.filter_eq_self]
      exact fun c mem => decide_eq_true ((resolved.retained keep).1 c mem)
    · rw [letters, planned.dead_eq, List.filter_eq_self]
      exact fun c mem => decide_eq_true ((routed.retained keep).2 c mem)

/-- What the log takes in between leaves the call where it is. -/
theorem comes_log {s : Leasing} (h : Comes name maxMessages now still before s) (op : LogOp)
    (quiet : still → ∀ upTo, op ≠ .pruneTo upTo) :
    Comes name maxMessages now still before (s.step name maxMessages now (.log op)) := by
  obtain ⟨nodeId, topic, ⟨high, floor, follows⟩, stage⟩ := h
  refine ⟨nodeId, topic, ⟨high, floor, follows.apply op quiet⟩, ?_⟩
  obtain ⟨t, phase⟩ := s
  cases phase with
  | called => exact ⟨stage.subs, stage.deadLetters⟩
  | read high floor => exact ⟨⟨stage.1.subs, stage.1.deadLetters⟩, stage.2.apply op quiet⟩
  | planned op' out => exact ⟨⟨stage.1.subs, stage.1.deadLetters⟩, stage.2.apply op quiet⟩
  | committed op' out => exact ⟨stage.1, stage.2.1, stage.2.2.apply op quiet⟩
  | routed op' out routedFrom =>
    exact ⟨stage.1, stage.2.1, stage.2.2.1, stage.2.2.2.apply op quiet⟩
  | replied reply lease =>
    cases lease with
    | none => exact ⟨stage.1, stage.2.subs, stage.2.deadLetters⟩
    | some lease =>
      obtain ⟨leased, dead, newAcked, batch, letters, is, reply_eq, shows, whole⟩ := stage
      refine ⟨leased, dead, newAcked, batch, letters, is, reply_eq, ?_, whole⟩
      exact ⟨shows.committed, shows.ascending, shows.cursors, shows.messages, shows.attempts,
        shows.bounded, shows.published, shows.letterCursors, shows.letterMessages, shows.newly⟩

/-- One step of the call. -/
theorem comes_next {s : Leasing} (h : Comes name maxMessages now still before s) {node : Answers}
    (opened : node.deadLetterStream = true) (published : ∀ m, node.deadLetter m = true) :
    Comes name maxMessages now still before (s.next name maxMessages now node) := by
  obtain ⟨nodeId, topic, ⟨high, floor, follows⟩, stage⟩ := h
  obtain ⟨t, phase⟩ := s
  cases phase with
  | called =>
    simp only [next]
    split
    · exact ⟨nodeId, topic, ⟨high, floor, follows⟩, .inr ⟨_, rfl⟩, stage⟩
    · have read : t.writer.Follows still t.writer.highCursor t.writer.floor :=
        ⟨follows.reached, Nat.le_refl _, fun _ => rfl⟩
      exact ⟨nodeId, topic, ⟨high, floor, follows⟩, stage, read⟩
  | read high' floor' =>
    simp only [next]
    split
    · exact ⟨nodeId, topic, ⟨high, floor, follows⟩, .inl rfl, stage.1⟩
    · next op out plan =>
      rw [stage.1.subs] at plan
      exact ⟨nodeId, topic, ⟨high, floor, follows⟩, stage.1, high', floor', stage.2, plan⟩
  | planned op out =>
    simp only [next]
    split
    · exact ⟨nodeId, topic, ⟨high, floor, follows⟩, .inr ⟨_, rfl⟩, stage.1⟩
    · have committed := congrArg (SubRegistry.apply · op) stage.1.subs
      exact ⟨nodeId, topic, ⟨high, floor, follows⟩, committed, stage.1.deadLetters, stage.2⟩
  | committed op out =>
    simp only [next]
    obtain ⟨subs, same, planned⟩ := stage
    split
    · next none =>
      refine ⟨nodeId, topic, ⟨high, floor, follows⟩, subs, ?_, planned, planned⟩
      rw [List.isEmpty_iff.mp none, List.filterMap_nil, List.append_nil]
      exact same
    · obtain ⟨untouched, kept⟩ := t.routeDeadLetters_frame node out.deadLettered
      constructor
      case nodeId => exact untouched.nodeId.trans nodeId
      case topic => exact untouched.topic.trans topic
      case follows =>
        refine ⟨high, floor, ?_⟩
        rw [untouched.writer]
        exact follows
      case stage =>
        refine ⟨kept.trans subs, ?_, planned, ?_⟩
        · rw [t.deadLetters_route opened published]
          exact congrArg (· ++ _) same
        · rw [untouched.writer]
          exact planned
  | routed op out routedFrom =>
    obtain ⟨subs, letters, routed, resolved⟩ := stage
    exact ⟨nodeId, topic, ⟨high, floor, follows⟩, answered_of_routed subs letters routed resolved⟩
  | replied reply lease => exact ⟨nodeId, topic, ⟨high, floor, follows⟩, stage⟩

theorem run_replied (name : String) (maxMessages now : Nat) (t : Topic) (reply : ControlReply)
    (lease : Option CommittedLease) (nodes : List Answers) :
    Run.run (Leasing.step name maxMessages now) ⟨t, .replied reply lease⟩ (nodes.map .next) =
      ⟨t, .replied reply lease⟩ := by
  induction nodes with
  | nil => rfl
  | cons node nodes ih => exact ih

/-- Without interruption, a call is `handleLease`. -/
theorem run_alone (name : String) (maxMessages now : Nat) (t : Topic) (node : Answers) :
    ∃ lease, Run.run (Leasing.step name maxMessages now) { topic := t }
        ([node, node, node, node, node].map .next) =
      ⟨(t.handleLease node name maxMessages now).2,
        .replied (t.handleLease node name maxMessages now).1 lease⟩ := by
  rw [Topic.handleLease, List.map_cons, Run.run_cons, step]
  simp only [next]
  by_cases missing : (t.subs.get name).isNone
  · simp only [if_pos missing]
    exact ⟨none, run_replied name maxMessages now t _ none [node, node, node, node]⟩
  · simp only [if_neg missing]
    rw [List.map_cons, Run.run_cons, step]
    simp only [next]
    cases plan : t.subs.planLease name t.writer.highCursor t.writer.floor now maxMessages with
    | none => exact ⟨none, run_replied name maxMessages now t _ none [node, node, node]⟩
    | some planned =>
      obtain ⟨op, out⟩ := planned
      rw [List.map_cons, Run.run_cons, step]
      simp only [next]
      cases commit : node.commitSubs with
      | error e => exact ⟨none, run_replied name maxMessages now t _ none [node, node]⟩
      | ok u =>
        rw [List.map_cons, Run.run_cons, step, List.map_cons, Run.run_cons, step, List.map_nil,
          Run.run_nil]
        simp only [next]
        split <;> exact ⟨_, rfl⟩

/-- **A reply matches the lease it committed.** A topic in any state its owner can reach serves a
pull, whose steps the log's appends and prunes may interleave in any way, and the dead-letter stream
is up. If the call commits nothing, its reply hands out nothing, and neither the registry nor the
dead-letter stream has changed. If it commits a lease, the reply lists the leased cursors that are
kept when they are resolved, in ascending order, each with the log's message and the attempt number
the registry now stores, and no more of them than asked for; and the dead-letter stream has got the
messages of the cursors newly dead that are kept when they are routed. With no prune in between, these
are all the cursors of the lease. -/
theorem reply_matches_lease {Link : Type} (host : Host Link) (nodeId topic : String) (t₀ : Topic)
    (new : Topic.create nodeId topic = .ok t₀) (inputs : List Input) (name : String)
    (maxMessages now : Nat) (acts : List LeaseAct)
    (streams : ∀ node, .next node ∈ acts →
      node.deadLetterStream = true ∧ ∀ m, node.deadLetter m = true)
    (t after : Topic) (reply : ControlReply) (lease : Option CommittedLease)
    (reached : t = Run.run (Topic.step host) t₀ inputs)
    (replied : Run.run (Leasing.step name maxMessages now) { topic := t } acts =
      ⟨after, .replied reply lease⟩) :
    match lease with
    | none => (reply = .pulled [] ∨ ∃ why, reply = .rejected why) ∧ after.subs = t.subs ∧
        after.deadLetters = t.deadLetters
    | some lease => ∃ leased dead newAcked batch letters,
        lease.op = .applyLease name leased dead newAcked ∧ reply = .pulled batch ∧
        Shows name maxMessages t after lease leased dead batch letters ∧
        ((∀ upTo, .log (.pruneTo upTo) ∉ acts) →
          batch.map (·.message.cursor) = leased.map Prod.fst ∧
            letters.map Message.cursor = dead) := by
  have logged : t.Logged := by
    rw [reached, Topic.eq_of_create new]
    refine Run.run_invariant (P := Topic.Logged) ?_ ⟨[], rfl⟩ inputs
    exact fun _ i logged => Topic.logged_step host logged i
  obtain ⟨ops, writer⟩ := logged
  have begun : Comes name maxMessages now (∀ upTo, .log (.pruneTo upTo) ∉ acts) t { topic := t } := by
    have rep := TopicLog.replay_represents ops
    rw [← writer] at rep
    exact ⟨rfl, rfl, ⟨t.writer.highCursor, t.writer.floor, ⟨_, rep⟩, Nat.le_refl _, fun _ => rfl⟩, rfl, rfl⟩
  have along : Run.Along (Leasing.step name maxMessages now) (fun _ act => act ∈ acts)
      { topic := t } acts := Run.along_of_forall_mem fun _ mem => mem
  have ends := Run.run_invariant_along (fun s act comes mem => ?_) begun along
  · rw [replied] at ends
    cases lease with
    | none => exact ⟨ends.stage.1, ends.stage.2.subs, ends.stage.2.deadLetters⟩
    | some lease => exact ends.stage
  · cases act with
    | log op => exact comes_log comes op fun still upTo is => still upTo (is ▸ mem)
    | next node => exact comes_next comes (streams node mem).1 (streams node mem).2

section

open Orders

/-- The topic with a subscription and two messages, and after a lease of both during which the first
was pruned. -/
private def work : Topic := (published.publish {} [105] 12).2

private def workActs : List LeaseAct :=
  [.next {}, .next {}, .next {}, .log (.pruneTo 1), .next {}, .next {}]

private def workLeased : Leasing := Run.run (Leasing.step "jobs" 10 13) { topic := work } workActs

private def workLease : CommittedLease where
  op := .applyLease "jobs" [(1, 43), (2, 43)] [] 0
  routedFrom := work.writer.apply (.pruneTo 1)
  resolvedFrom := work.writer.apply (.pruneTo 1)

private theorem run_work : work = Run.run (Topic.step Host.compact) orders
    [asks subscribing 10, .publish {} [104, 105] 11, .publish {} [105] 12] := by
  rw [Run.run_cons, step_subscribing, Run.run_cons, step_publishing, Run.run_cons, Topic.step,
    Run.run_nil, work]

private theorem workLeased_replied : workLeased = ⟨workLeased.topic,
    .replied (.pulled (workLeased.topic.resolve [(1, 1), (2, 1)])) (some workLease)⟩ := rfl

/-- A lease of cursors 1 and 2, the first of which is pruned before it is resolved. -/
theorem reply_matches_lease_pruned :
    workLeased.topic.subs = work.subs.apply (.applyLease "jobs" [(1, 43), (2, 43)] [] 0) ∧
      (workLeased.topic.resolve [(1, 1), (2, 1)]).map (·.message.cursor) = [2] := by
  have streams : ∀ node, .next node ∈ workActs →
      node.deadLetterStream = true ∧ ∀ m, node.deadLetter m = true := by
    intro node mem
    have : node = {} := by simpa [workActs] using mem
    exact this ▸ ⟨rfl, fun _ => rfl⟩
  obtain ⟨leased, dead, newAcked, batch, letters, op_eq, reply_eq, shows, -⟩ :=
    reply_matches_lease Host.compact "aa" "orders" _ created _ "jobs" 10 13 workActs streams work _ _
      (some workLease) run_work workLeased_replied
  cases op_eq
  cases reply_eq
  have kept : ([1, 2] : List Nat).filter (workLease.resolvedFrom.Retained ·) = [2] := by decide
  exact ⟨shows.committed, shows.cursors.trans kept⟩

end

end Leasing

end CePubsub
