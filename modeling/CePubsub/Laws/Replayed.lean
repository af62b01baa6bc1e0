import CePubsub.Laws.Published
import CePubsub.Laws.Pull

/-!
# What is published is what is replayed

A puller reads a replica of the owner's log, and of the owner it knows one number, the high cursor in a
reply. The operations the owner has committed by then (`Topic.logOps`) are what ties the two together: the
owner's log is their replay, the journal holds what they append, and the replica shows some first part of
them.

So a message whose publisher has heard of its cursor is in what every other node pulls afterwards, as far
as the pull says that it converged (`Mesh.Carries.pulled`).
-/

namespace CePubsub

open TopicLog (replay)

variable {Link : Type} (host : Host Link)

namespace Topic

/-- The operation a call commits to the log. -/
def commits (t : Topic) : Call → Option LogOp
  | .publish node msg =>
    match node.commitLog with
    | .ok () => some (.append { msg with cursor := t.writer.nextCursor })
    | .error _ => none
  | .prune node upTo =>
    match node.commitLog with
    | .ok () => some (.pruneTo upTo)
    | .error _ => none
  | .control .. => none

/-- The operations a run of inputs commits to the log. -/
def logOps (t : Topic) : List Input → List LogOp
  | [] => []
  | i :: is => ((t.call host i).bind t.commits).toList ++ (t.step host i).logOps is

theorem logOps_append (t : Topic) (is js : List Input) :
    t.logOps host (is ++ js) = t.logOps host is ++ (Run.run (step host) t is).logOps host js := by
  induction is generalizing t with
  | nil => rfl
  | cons i is ih => rw [List.cons_append, logOps, logOps, ih, List.append_assoc, Run.run_cons]

theorem writer_serve (t : Topic) (c : Call) :
    (t.serve c).2.writer = Run.run TopicLog.apply t.writer (t.commits c).toList := by
  cases c with
  | publish node msg =>
    rw [serve, appendAndFanout, commits]
    cases node.commitLog with
    | error e => rfl
    | ok u => cases node.live <;> rfl
  | prune node upTo =>
    rw [serve, pruneTo, commits]
    cases node.commitLog <;> rfl
  | control node now req => exact (t.serveControl_serves node now req).untouched.writer

theorem writer_run (t : Topic) (is : List Input) :
    (Run.run (step host) t is).writer = Run.run TopicLog.apply t.writer (t.logOps host is) := by
  induction is generalizing t with
  | nil => rfl
  | cons i is ih =>
    rw [Run.run_cons, ih, logOps, Run.run_append]
    congr 1
    cases comes : t.call host i with
    | none => exact (step_of_none host comes).writer
    | some c => exact (step_of_some host comes).2.writer.trans (t.writer_serve c)

/-- **The owner's log is the replay of what it committed.** -/
theorem writer_eq_replay {nodeId topic : String} {t : Topic} (new : Topic.create nodeId topic = .ok t)
    (is : List Input) : (Run.run (step host) t is).writer = replay (t.logOps host is) := by
  rw [t.writer_run host is, eq_of_create new]
  rfl

end Topic

namespace Broker

/-- What a call commits is what it does to the journal. -/
theorem log_step (b : Broker) (t : Topic) (c : Call) :
    (b.step c).log = Run.run LogOp.record b.log (t.commits c).toList := by
  rw [step]
  cases c with
  | publish node msg =>
    rw [serve, Topic.commits]
    cases node.commitLog <;> rfl
  | prune node upTo =>
    rw [serve, Topic.commits]
    cases node.commitLog <;> rfl
  | control node now req =>
    rw [serve]
    exact (b.control_routes node now req).log

theorem log_run (b : Broker) (t : Topic) (is : List Input) :
    (Run.run step b (t.calls host is)).log = Run.run LogOp.record b.log (t.logOps host is) := by
  induction is generalizing b t with
  | nil => rfl
  | cons i is ih =>
    rw [Topic.calls, Topic.logOps, Run.run_append, Run.run_append, ih]
    congr 1
    cases t.call host i with
    | none => rfl
    | some c => exact b.log_step t c

/-- **The journal holds what the owner committed.** -/
theorem entries_after (t : Topic) (is : List Input) :
    (after (t.calls host is)).log.entries = LogOp.appended (t.logOps host is) := by
  rw [after, log_run, ← LogOp.journal_entries]
  rfl

end Broker

namespace Mesh

/-- The operations committed to the log in a mesh's history. -/
def logOps (t : Topic) (m : Mesh) : List LogOp := t.logOps host (inputs m.past)

variable {host} {t : Topic} {m m' : Mesh}

theorem logOps_grow {past past' : List MeshEvent} (grown : past <+: past') :
    t.logOps host (inputs past) <+: t.logOps host (inputs past') := by
  obtain ⟨more, rfl⟩ := grown
  rw [inputs, inputs, List.filterMap_append, Topic.logOps_append]
  exact List.prefix_append _ _

/-- **A node that asks for the high cursor** is told where the owner's log was at some point after it was
asked, if it is told anything. -/
theorem Carries.answeredAt {nodeId topic sender : String} (made : Topic.create nodeId topic = .ok t)
    {request : String → Bytes → Except String Bytes} (carries : Carries m m' sender request)
    (grown : m.past <+: m'.past) (sequential : m'.Sequential host t)
    (ownerReads : ∀ req : ControlRequest, host.serde.controlRequest req.encode = .ok req) :
    ∃ k, (m.logOps host t).length ≤ k ∧
      PubSub.AnsweredAt host (m'.logOps host t) k (request (controlTopic topic)) := by
  cases asked : request (controlTopic topic) (ControlRequest.highCursor none).encode with
  | error e =>
    refine ⟨_, Nat.le_refl _, fun bytes answered => ?_⟩
    cases asked.symm.trans answered
  | ok bytes =>
    obtain ⟨mid, token, i, reply, later, split, wire, -, becomes, replied⟩ :=
      carries.served grown sequential asked
    have there : m.past ++ mid <+: m'.past := split ▸ List.prefix_append _ _
    refine ⟨_, (logOps_grow (List.prefix_append m.past mid)).length_le, fun bytes' answered => ?_⟩
    obtain rfl := Except.ok.inj (asked.symm.trans answered)
    rcases becomes.input with ⟨wrong, -⟩ | ⟨-, node, now, rfl⟩
    · exact absurd wrong.symm (ingestTopic_ne_controlTopic _ _)
    · have small : (ControlRequest.highCursor none).encode.length ≤ maxControlBodyBytes := by
        rw [ControlRequest.length_encode]
        decide
      refine ⟨Run.run (Topic.step host) t (inputs (m.past ++ mid)), node, _, sender, now, none, ?_,
        Topic.decodeControl_encode small (ownerReads _), ?_⟩
      · rw [Topic.writer_eq_replay host made]
        exact congrArg replay (List.prefix_iff_eq_take.mp (logOps_grow there))
      · rw [replied] at wire
        exact (Option.some.inj wire).symm

end Mesh

namespace Replay

theorem eq_of_cursor {ops : List LogOp} {m m' : Message} (mem : m ∈ LogOp.appended ops)
    (mem' : m' ∈ LogOp.appended ops) (same : m'.cursor = m.cursor) : m' = m := by
  have numbered := (TopicLog.replay_represents ops).numbered
  rw [LogOp.journal_entries] at numbered
  exact numbered.eq_of_pos mem mem' same

/-- **A page shows what its replica has**, unless it starts past it, is cut short of it, or the message
was pruned. -/
theorem shows_of_mem {ops : List LogOp} {after limit : Nat} {target : Option Nat} {converged : Bool}
    {r : Replay} (is : r = page (replay ops) after limit target converged) {m : Message}
    (mem : m ∈ LogOp.appended ops) (above : after < m.cursor) :
    m ∈ r.messages ∨ m.cursor ≤ r.floor ∨ (r.truncated = true ∧ r.next < m.cursor) := by
  rcases Nat.lt_or_ge r.floor m.cursor with kept | pruned
  · cases truncated : r.truncated with
    | false =>
      have floor : r.floor = (replay ops).floor := is ▸ rfl
      rw [messages_of_complete is truncated, TopicLog.since_replay]
      exact .inl (TopicLog.mem_drop_appended.mpr ⟨mem, Nat.max_lt.mpr ⟨above, floor ▸ kept⟩⟩)
    | true =>
      rcases Nat.lt_or_ge r.next m.cursor with short | reaches
      · exact .inr (.inr ⟨rfl, short⟩)
      · obtain ⟨m', shown, same⟩ := page_complete is above reaches kept
        exact .inl (eq_of_cursor mem (mem_page is shown).1 same ▸ shown)
  · exact .inr (.inl pruned)

end Replay

variable {host} in
/-- **A puller finds what the owner had by then**: the pull's messages are in the journal, one for each cursor;
and if the pull converged, what the owner had committed before the pull is in the page, unless
the pull started past it, or the page was cut short of it, or it was pruned. -/
theorem Mesh.Carries.pulled {nodeId topic puller : String} {t : Topic} {m m' : Mesh}
    (made : Topic.create nodeId topic = .ok t) (other : nodeId ≠ puller)
    (sequential' : m'.Sequential host t) (grown : m.past <+: m'.past)
    {request : String → Bytes → Except String Bytes} {serde : Serde} {after limit : Nat}
    {applied : Shown Nat} {remote : Remote} {r : Replay}
    (ownerReads : ∀ req : ControlRequest, host.serde.controlRequest req.encode = .ok req)
    (reads : ∀ reply : ControlReply, serde.controlReply reply.encode = .ok reply)
    (carries : Carries m m' puller request) (asks : remote.request = request (controlTopic topic))
    (forward : applied.Forward) (replica : remote.reader = .ok (.of (m'.logOps host t) applied))
    (pulled : PubSub.pullLimited serde puller topic nodeId remote after limit = .ok r) {msg : Message}
    (journaled : msg ∈ (Broker.after (t.calls host (inputs m.past))).log.entries) :
    (∀ found ∈ r.messages, found.cursor = msg.cursor → found = msg) ∧
      (r.converged = true → after < msg.cursor →
        msg ∈ r.messages ∨ msg.cursor ≤ r.floor ∨ (r.truncated = true ∧ r.next < msg.cursor)) := by
  rw [Broker.entries_after] at journaled
  obtain ⟨k, later, answered⟩ := carries.answeredAt made grown sequential' ownerReads
  rw [← asks] at answered
  obtain ⟨shown, opened, is⟩ := PubSub.pullLimited_eq_ok pulled
  cases opened.symm.trans replica
  have grows : m.logOps host t <+: m'.logOps host t := Mesh.logOps_grow grown
  have owned : msg ∈ LogOp.appended (m'.logOps host t) := by
    obtain ⟨more, whole⟩ := grows
    rw [← whole]
    exact (TopicLog.appended_of_prefixes _ _).subset journaled
  refine ⟨fun found mem same => ?_, fun converged above => ?_⟩
  · have among := (Replay.mem_page is mem).1
    rw [← List.take_append_drop applied.read (m'.logOps host t)] at owned
    exact Replay.eq_of_cursor owned ((TopicLog.appended_of_prefixes _ _).subset among) same
  · -- the replica has the owner's high cursor of a time after the publish
    have waited : PubSub.convergeTo (.of (m'.logOps host t) applied)
        (PubSub.fetchHighCursor serde puller nodeId remote).toOption = true :=
      (congrArg Replay.converged is).symm.trans converged
    obtain ⟨target, fetched, reached⟩ := PubSub.target_le_of_converged forward waited
    rw [PubSub.fetchHighCursor_of_answered other answered (reads _) (PubSub.eq_ok_of_toOption fetched),
      TopicLog.highCursor_replay] at reached
    have early : msg ∈ LogOp.appended ((m'.logOps host t).take k) := by
      refine (TopicLog.appended_take_le _ later).subset ?_
      rw [← List.prefix_iff_eq_take.mp grows]
      exact journaled
    refine Replay.shows_of_mem is (TopicLog.mem_appended_take early ?_) above
    exact (TopicLog.cursor_le_of_mem early).trans reached

end CePubsub
