import CePubsub.Laws.Registry

/-!
# What the registry still keeps count of

A lease and an attempt count are kept for messages that are still to be finished with. Acknowledging
and dead-lettering drop them, and the fold passes only cursors that have none. Retention does not:
a prune may drop a message that is leased, and the next lease raises the ack floor over it and leaves
the record where it is, where nothing will ever look at it again (`record_below_floor`).

In a run whose prunes stop before what is leased or counted, every record is of a message that is
retained and not finished with, in every state, and in no other run (`records_open_iff`).
-/

namespace CePubsub

/-- The subscription keeps a lease or an attempt count for the cursor. -/
def SubscriptionState.Holds (s : SubscriptionState) (c : Nat) : Prop :=
  c ∈ s.leases ∨ c ∈ s.attempts

namespace SubscriptionState

theorem not_holds_iff (s : SubscriptionState) (c : Nat) :
    ¬ s.Holds c ↔ s.leases[c]? = none ∧ s.attempts[c]? = none := by
  rw [Holds, not_or, Std.ExtTreeMap.mem_iff_isSome_getElem?, Std.ExtTreeMap.mem_iff_isSome_getElem?,
    Option.not_isSome_iff_eq_none, Option.not_isSome_iff_eq_none]

theorem holds_ack (s : SubscriptionState) (x c : Nat) : (s.ack x).Holds c ↔ c ≠ x ∧ s.Holds c := by
  rw [Holds, ack_leases, ack_attempts, Std.ExtTreeMap.mem_erase, Std.ExtTreeMap.mem_erase, ← and_or_left,
    Nat.compare_eq_eq.ne]
  exact and_congr_left fun _ => ne_comm

theorem holds_nack (s : SubscriptionState) (x c : Nat) : (s.nack x).Holds c ↔ s.Holds c := by
  rw [Holds, nack, Std.ExtTreeMap.mem_modify]
  exact Iff.rfl

/-- A lease keeps the records there were, but for what it dead-letters, and adds what it hands out. -/
theorem holds_lease {s : SubscriptionState} {high floor now newAcked : Nat}
    {leased : List (Nat × Nat)} {dead : List Nat} {out : LeaseOutcome}
    (planned : s.Planned high floor now leased dead newAcked out) {c : Nat}
    (holds : (s.applyLease leased dead newAcked).Holds c) :
    c ∈ out.leased.map Prod.fst ∨ (c ∉ out.deadLettered ∧ s.Holds c) := by
  by_cases handed : c ∈ out.leased.map Prod.fst
  · exact .inl handed
  · refine .inr ?_
    by_cases buried : c ∈ out.deadLettered
    · exact absurd holds ((not_holds_iff _ c).mpr (planned.of_buried buried))
    · refine ⟨buried, ?_⟩
      obtain ⟨leases, attempts⟩ := planned.of_other handed buried
      by_contra none
      rw [not_holds_iff, ← leases, ← attempts, ← not_holds_iff] at none
      exact none holds

end SubscriptionState

namespace Topic

variable {Link : Type} (host : Host Link)

/-- The message at the cursor is retained, and the subscription has not finished with it. -/
structure Open (t : Topic) (s : SubscriptionState) (c : Nat) : Prop where
  retained : t.writer.floor < c
  assigned : c ≤ t.highCursor
  unhandled : ¬ s.Handled c

/-- Every lease and every attempt count is of an open message. -/
def RecordsOpen (t : Topic) : Prop :=
  ∀ name s, t.subs.get name = some s → ∀ c, s.Holds c → t.Open s c

/-- A prune that takes effect stops before every lease and every attempt count. -/
def PrunesBefore (t : Topic) : Input → Prop
  | .pruneTo node upTo => node.commitLog = .ok () →
      ∀ name s, t.subs.get name = some s → ∀ c, s.Holds c → upTo < c
  | _ => True

/-- A prune keeps what is retained above its bound. -/
theorem floor_pruneTo {t : Topic} (h : t.Logged) (upTo : Nat) {c : Nat} (assigned : c ≤ t.highCursor) :
    (t.writer.apply (.pruneTo upTo)).floor < c ↔ t.writer.floor < c ∧ upTo < c := by
  obtain ⟨ops, eq⟩ := h
  have rep := TopicLog.replay_represents ops
  rw [highCursor, eq, rep.highCursor, Journal.high] at assigned
  rw [eq, (rep.pruneTo upTo).floor, rep.floor, Journal.floor_prune]
  omega

/-- An append opens one more message. -/
theorem recordsOpen_of_write {t t' : Topic} (h : t.RecordsOpen) (subs : t'.subs = t.subs)
    (writer : t'.writer = t.writer ∨ ∃ msg, t'.writer = t.writer.apply (.append msg)) :
    t'.RecordsOpen := by
  have floor : t'.writer.floor = t.writer.floor := by
    rcases writer with same | ⟨msg, appended⟩
    · rw [same]
    · rw [appended]
      rfl
  have high : t.highCursor ≤ t'.highCursor := by
    rw [highCursor, highCursor]
    rcases writer with same | ⟨msg, appended⟩
    · rw [same]
    · rw [appended]
      exact highCursor_apply_le _ _
  intro name s found c holds
  rw [subs] at found
  obtain ⟨retained, assigned, unhandled⟩ := h name s found c holds
  exact ⟨floor ▸ retained, assigned.trans high, unhandled⟩

/-- A lease hands out open messages, and leaves no record of what it dead-letters. -/
theorem open_lease {t : Topic} {s : SubscriptionState} {now newAcked : Nat} {leased : List (Nat × Nat)}
    {dead : List Nat} {out : LeaseOutcome} (opened : ∀ c, s.Holds c → t.Open s c)
    (planned : s.Planned t.writer.highCursor t.writer.floor now leased dead newAcked out) {c : Nat}
    (holds : (s.applyLease leased dead newAcked).Holds c) :
    t.Open (s.applyLease leased dead newAcked) c := by
  rcases SubscriptionState.holds_lease planned holds with handed | ⟨alive, held⟩
  · obtain ⟨fresh, retained⟩ := planned.fresh (.inl handed)
    obtain ⟨x, mem, rfl⟩ := List.mem_map.mp handed
    refine ⟨retained, (planned.of_leased x mem).2.1, ?_⟩
    rw [planned.handled_iff]
    rintro (before | buried | pruned)
    · exact fresh before
    · exact planned.not_dead_of_leased mem buried
    · exact absurd retained (Nat.not_lt_of_le pruned)
  · obtain ⟨retained, assigned, unhandled⟩ := opened c held
    refine ⟨retained, assigned, ?_⟩
    rw [planned.handled_iff]
    rintro (before | buried | pruned)
    · exact unhandled before
    · exact alive buried
    · exact absurd retained (Nat.not_lt_of_le pruned)

/-- No control request leaves a record of what is finished with. -/
theorem recordsOpen_serves {t t' : Topic} {node : Answers} {now : Nat} {req : ControlRequest}
    (h : t.RecordsOpen) (serves : Serves t node now req t') : t'.RecordsOpen := by
  suffices kept : ∀ name s, t'.subs.get name = some s → ∀ c, s.Holds c → t.Open s c by
    intro name s found c holds
    obtain ⟨retained, assigned, unhandled⟩ := kept name s found c holds
    refine ⟨serves.untouched.writer ▸ retained, ?_, unhandled⟩
    rw [highCursor, serves.untouched.writer]
    exact assigned
  intro name s found c holds
  cases serves.became found with
  | same before => exact h name s before c holds
  | created _ _ _ =>
    exact absurd holds (not_or.mpr ⟨Std.ExtTreeMap.not_mem_empty, Std.ExtTreeMap.not_mem_empty⟩)
  | @recreated s _ _ _ _ before =>
    obtain ⟨retained, assigned, unhandled⟩ := h name s before c holds
    exact ⟨retained, assigned, unhandled⟩
  | leased _ before planned _ => exact open_lease (h name _ before) planned holds
  | @acked s cursor _ _ _ before =>
    obtain ⟨other, held⟩ := (s.holds_ack cursor c).mp holds
    obtain ⟨retained, assigned, unhandled⟩ := h name s before c held
    refine ⟨retained, assigned, ?_⟩
    rw [s.handled_ack]
    exact not_or.mpr ⟨unhandled, other⟩
  | @nacked s cursor _ _ before =>
    obtain ⟨retained, assigned, unhandled⟩ := h name s before c ((s.holds_nack cursor c).mp holds)
    exact ⟨retained, assigned, unhandled⟩

/-- **One input leaves only records of open messages exactly if it prunes before them.** -/
theorem recordsOpen_step_iff {t : Topic} (logged : t.Logged) (h : t.RecordsOpen) (i : Input) :
    (t.step host i).RecordsOpen ↔ t.PrunesBefore i := by
  by_cases prunes : ∃ node upTo, i = .pruneTo node upTo
  · obtain ⟨node, upTo, rfl⟩ := prunes
    rw [step, pruneTo, PrunesBefore]
    cases commit : node.commitLog with
    | error e =>
      refine iff_of_true h fun committed => ?_
      cases committed
    | ok u =>
      have high : (t.writer.apply (.pruneTo upTo)).highCursor = t.highCursor := by
        obtain ⟨ops, eq⟩ := logged
        have rep := TopicLog.replay_represents ops
        rw [highCursor, eq, (rep.pruneTo upTo).highCursor, rep.highCursor]
        rfl
      constructor
      · intro opened _ name s found c holds
        have retained := (opened name s found c holds).retained
        exact ((floor_pruneTo logged upTo (h name s found c holds).assigned).mp retained).2
      · intro before name s found c holds
        obtain ⟨retained, assigned, unhandled⟩ := h name s found c holds
        have after := before rfl name s found c holds
        refine ⟨(floor_pruneTo logged upTo assigned).mpr ⟨retained, after⟩, ?_, unhandled⟩
        exact assigned.trans (Nat.le_of_eq high.symm)
  · have other : t.PrunesBefore i := by
      cases i with
      | pruneTo node upTo => exact absurd ⟨node, upTo, rfl⟩ prunes
      | publish | publishWith | ingest | control | requirePublishCap | acceptRoot => trivial
    refine iff_of_true ?_ other
    rcases step_cases host t i with advances | ⟨_, _, _, _, _, -, -, -, serves⟩
    · refine recordsOpen_of_write h advances.subs ?_
      rcases step_writer host t i with same | appended | ⟨node, upTo, is, -, -⟩
      · exact .inl same
      · exact .inr appended
      · exact absurd ⟨node, upTo, is⟩ prunes
    · exact recordsOpen_serves h serves

/-- The cursors of the open messages, for one subscription. -/
def openCursors (t : Topic) (s : SubscriptionState) : List Nat :=
  (List.range' (t.writer.floor + 1) (t.highCursor - t.writer.floor)).filter fun c => ¬ s.Handled c

theorem mem_openCursors {t : Topic} {s : SubscriptionState} {c : Nat} (h : t.Open s c) :
    c ∈ t.openCursors s := by
  obtain ⟨retained, assigned, unhandled⟩ := h
  refine List.mem_filter.mpr ⟨List.mem_range'_1.mpr ?_, decide_eq_true unhandled⟩
  omega

/-- A map of open messages is no larger than the number there are. -/
theorem size_le_openCursors {β : Type} {t : Topic} {s : SubscriptionState} {m : BTreeMap Nat β}
    (opened : ∀ c ∈ m, t.Open s c) : m.size ≤ (t.openCursors s).length := by
  rw [← Std.ExtTreeMap.length_keys]
  refine (List.subperm_of_subset Std.ExtTreeMap.nodup_keys ?_).length_le
  intro c mem
  exact mem_openCursors (opened c (Std.ExtTreeMap.mem_keys.mp mem))

/-- **No record survives its message**, in every state a run of a new topic passes through, exactly if
every prune of the run stops before what is leased or counted at that time: every lease and every
attempt count is of a cursor above the ack floor, neither acknowledged nor dead, and not pruned, and
there are no more of them than there are such messages in the log. -/
theorem records_open_iff (nodeId topic : String) (t : Topic)
    (new : Topic.create nodeId topic = .ok t) (inputs : List Input) :
    (∀ pre rest, inputs = pre ++ rest →
      ∀ name s, (Run.run (Topic.step host) t pre).subs.get name = some s →
        (∀ c, c ∈ s.leases ∨ c ∈ s.attempts →
          s.acked < c ∧ (Run.run (Topic.step host) t pre).Open s c) ∧
        s.outstanding ≤ ((Run.run (Topic.step host) t pre).openCursors s).length ∧
        s.attempts.size ≤ ((Run.run (Topic.step host) t pre).openCursors s).length) ↔
      Run.Along (Topic.step host) PrunesBefore t inputs := by
  have exact : (∀ pre rest, inputs = pre ++ rest →
      (Run.run (Topic.step host) t pre).RecordsOpen) ↔
        Run.Along (Topic.step host) PrunesBefore t inputs := by
    refine Run.throughout_iff_along (I := Logged) ?_ ?_ ?_ ?_ inputs
    · exact fun _ i logged => logged_step host logged i
    · exact fun _ i logged opened => recordsOpen_step_iff host logged opened i
    · rw [eq_of_create new]
      exact ⟨[], rfl⟩
    · rw [eq_of_create new]
      intro name s found
      cases found
  rw [← exact]
  constructor
  · intro all pre rest split name s found c holds
    exact ((all pre rest split name s found).1 c holds).2
  · intro all pre rest split name s found
    have opened := all pre rest split name s found
    refine ⟨fun c holds => ⟨?_, opened c holds⟩, ?_, ?_⟩
    · exact Nat.lt_of_not_le fun low => (opened c holds).unhandled (.inl low)
    · exact size_le_openCursors fun c mem => opened c (.inl mem)
    · exact size_le_openCursors fun c mem => opened c (.inr mem)

section

open Orders

/-- The topic with its first message leased, and with a second one leased after the first is
pruned. -/
private def inboxLeased : Topic := (published.serveControl {} 12 (pulling 10)).2

private def inboxPruned : Topic :=
  (((inboxLeased.pruneTo {} 1).2.publish {} [104, 105] 13).2.serveControl {} 14 (pulling 10)).2

private theorem run_inboxLeased : Run.run (Topic.step Host.compact) orders
    [asks subscribing 10, .publish {} [104, 105] 11, asks (pulling 10) 12] = inboxLeased := by
  rw [Run.run_cons, step_subscribing, Run.run_cons, step_publishing, Run.run_cons,
    step_asks (size_pulling (by decide : 10 ≤ u64Max)) (by decide), Run.run_nil, inboxLeased]

private theorem run_inboxPruned : Run.run (Topic.step Host.compact) inboxLeased
    [.pruneTo {} 1, .publish {} [104, 105] 13, asks (pulling 10) 14] = inboxPruned := by
  rw [Run.run_cons, step, Run.run_cons, step, Run.run_cons,
    step_asks (size_pulling (by decide : 10 ≤ u64Max)) (by decide),
    Run.run_nil, inboxPruned]

/-- A message leased, and not pruned. -/
theorem records_open_iff_leased :
    ∃ s, inboxLeased.subs.get "jobs" = some s ∧ s.outstanding ≤ (inboxLeased.openCursors s).length := by
  have there : (inboxLeased.subs.get "jobs").isSome := by decide
  obtain ⟨s, found⟩ := Option.isSome_iff_exists.mp there
  have opened := (records_open_iff Host.compact "aa" "orders" orders created
    [asks subscribing 10, .publish {} [104, 105] 11, asks (pulling 10) 12]).mpr
      ⟨trivial, trivial, trivial, trivial⟩ _ [] (List.append_nil _).symm "jobs" s
  rw [run_inboxLeased] at opened
  exact ⟨s, found, (opened found).2.1⟩

/-- **A record of a message long gone**: cursor 1 is leased, then pruned; the next lease raises the
ack floor over it, and its lease and its attempt count stay. -/
theorem record_below_floor :
    ∃ t, t = Run.run (Topic.step Host.compact) orders [asks subscribing 10,
        .publish {} [104, 105] 11, asks (pulling 10) 12, .pruneTo {} 1, .publish {} [104, 105] 13,
        asks (pulling 10) 14] ∧
      (t.subs.get "jobs").map (fun s => (s.acked, s.leases.keys, s.attempts.keys)) =
        some (1, [1, 2], [1, 2]) ∧ t.writer.floor = 1 := by
  refine ⟨inboxPruned, ?_, ?_, ?_⟩
  · rw [← run_inboxPruned, ← run_inboxLeased, ← Run.run_append]
    rfl
  · decide
  · decide

end

end Topic

end CePubsub
