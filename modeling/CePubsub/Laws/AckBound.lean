import CePubsub.Laws.Registry

/-!
# Acknowledgements and the log

A subscription is finished with cursors, and the log assigns them: the two are different machines,
and the owner's tests expect the first to stay below the second. A lease keeps it so, since what
it dead-letters lies below the high cursor and what retention pruned does too. An ack does not: the
owner takes whatever cursor the consumer names, so a consumer can acknowledge a message before it is
published, and nobody will ever be handed it (`ack_before_publish`).

`AcksInLog` asks of an ack, where it takes effect, that its cursor has been assigned. In every run
whose inputs meet it the bound holds, and the next cursor is never acknowledged already
(`acked_le_high`).
-/

namespace CePubsub

namespace SubscriptionState

/-- Finished with nothing above `high`. -/
def Within (s : SubscriptionState) (high : Nat) : Prop := ∀ c, s.Handled c → c ≤ high

/-- A log that grows leaves what is handled within it. -/
theorem Within.mono {s : SubscriptionState} {high high' : Nat} (h : s.Within high)
    (le : high ≤ high') : s.Within high' :=
  fun c handled => Nat.le_trans (h c handled) le

/-- A new subscription has handled nothing. -/
theorem within_new (policy : SubscriptionPolicy) (high : Nat) :
    Within { policy } high := by
  rintro c (low | acked | dead)
  · exact Nat.le_trans low (Nat.zero_le _)
  · exact absurd acked Std.ExtTreeMap.not_mem_empty
  · exact absurd dead Std.ExtTreeMap.not_mem_empty

/-- An ack of a cursor in the log stays within it. -/
theorem Within.ack {s : SubscriptionState} {high x : Nat} (h : s.Within high) (le : x ≤ high) :
    (s.ack x).Within high := by
  intro c handled
  rcases (s.handled_ack x c).mp handled with before | rfl
  · exact h c before
  · exact le

/-- So does a lease: what it skips was pruned, and what it buries was offered. -/
theorem Within.lease {s : SubscriptionState} {high floor now newAcked : Nat}
    {leased : List (Nat × Nat)} {dead : List Nat} {out : LeaseOutcome} (h : s.Within high)
    (planned : s.Planned high floor now leased dead newAcked out) (le : floor ≤ high) :
    (s.applyLease leased dead newAcked).Within high := by
  intro c handled
  rcases (planned.handled_iff c).mp handled with before | poison | pruned
  · exact h c before
  · exact (planned.of_dead c poison).2.1
  · exact Nat.le_trans pruned le

end SubscriptionState

namespace Topic

variable {Link : Type} (host : Host Link)

/-- An ack that takes effect names a cursor the log has assigned. -/
def AcksInLog (t : Topic) : Input → Prop
  | .control node payloadHex requester now => ∀ name cursor grant,
      decodeControl host payloadHex = .ok (.ack name cursor grant) →
      t.gate host node requester abilitySubscribe grant now = .ok () →
      (t.subs.get name).isSome → node.commitSubs = .ok () → cursor ≤ t.highCursor
  | _ => True

/-- Every subscription is finished with assigned cursors only. -/
def AcksWithin (t : Topic) : Prop := ∀ name s, t.subs.get name = some s → s.Within t.highCursor

/-- A control request keeps every subscription within the log, if an ack names a cursor in it. -/
theorem acksWithin_serves {t t' : Topic} {node : Answers} {now : Nat} {req : ControlRequest}
    (h : t.AcksWithin) (serves : Serves t node now req t')
    (inLog : ∀ name cursor grant, req = .ack name cursor grant → (t.subs.get name).isSome →
      node.commitSubs = .ok () → cursor ≤ t.highCursor) :
    t'.AcksWithin := by
  intro name s found
  rw [highCursor, serves.untouched.writer]
  cases serves.became found with
  | same before => exact h name s before
  | created _ _ _ => exact SubscriptionState.within_new _ _
  | @recreated s _ _ _ _ before => exact h name s before
  | leased _ before planned _ => exact (h name _ before).lease planned (Nat.le_add_right _ _)
  | acked is commit before =>
    exact (h name _ before).ack (inLog name _ _ is (Option.isSome_of_eq_some before) commit)
  | @nacked s _ _ _ before => exact h name s before

/-- Every input keeps the bound, if its ack, should it be one, is of an assigned cursor. -/
theorem acksWithin_step {t : Topic} (h : t.AcksWithin) {i : Input} (inLog : t.AcksInLog host i) :
    (t.step host i).AcksWithin := by
  rcases step_cases host t i with ⟨-, subs, high⟩ | ⟨node, payloadHex, requester, now, req, rfl,
    decoded, admitted, serves⟩
  · intro name s found
    rw [subs] at found
    exact (h name s found).mono high
  · refine acksWithin_serves h serves ?_
    rintro name cursor grant rfl
    exact inLog name cursor grant decoded admitted

/-- **The ack state never outruns the log**, in every run of a new topic in which every ack that takes
effect names an assigned cursor: `acked` and the cursors acknowledged above it are at most the high
cursor, and so the next cursor is not acknowledged before its message is appended. -/
theorem acked_le_high (nodeId topic : String) (t : Topic) (new : Topic.create nodeId topic = .ok t)
    (inputs : List Input) (inLog : Run.Along (Topic.step host) (AcksInLog host) t inputs)
    (name : String) (s : SubscriptionState)
    (found : (Run.run (Topic.step host) t inputs).subs.get name = some s) :
    s.acked ≤ (Run.run (Topic.step host) t inputs).highCursor ∧
    (∀ c ∈ s.ackedSet, c ≤ (Run.run (Topic.step host) t inputs).highCursor) ∧
    s.acked < (Run.run (Topic.step host) t inputs).writer.nextCursor ∧
    (Run.run (Topic.step host) t inputs).writer.nextCursor ∉ s.ackedSet := by
  have start : t.AcksWithin := by
    rw [eq_of_create new]
    intro name s found
    cases found
  have within := Run.run_invariant_along (P := AcksWithin)
    (fun _ _ h inLog => acksWithin_step host h inLog) start inLog name s found
  have acked := within s.acked (.inl (Nat.le_refl _))
  refine ⟨acked, fun c mem => within c (.inr (.inl mem)), Nat.lt_succ_of_le acked, fun mem => ?_⟩
  exact absurd (within _ (.inr (.inl mem))) (Nat.not_succ_le_self _)

section

open Orders

/-- The topic with its first message acknowledged. -/
private def jobsAcked : Topic := (published.serveControl {} 12 (acking 1)).2

/-- A consumer that acks the first message once it is published. -/
theorem acked_le_high_run : 1 ≤ jobsAcked.highCursor := by
  have run : Run.run (Topic.step Host.compact) orders
      [asks subscribing 10, .publish {} [104, 105] 11, asks (acking 1) 12] = jobsAcked := by
    rw [Run.run_cons, step_subscribing, Run.run_cons, step_publishing, Run.run_cons,
      step_asks (size_acking (by decide : 1 ≤ u64Max)) (by decide), Run.run_nil, jobsAcked]
  have there : (jobsAcked.subs.get "jobs").map (·.acked) = some 1 := by decide
  obtain ⟨s, found, acked⟩ := Option.map_eq_some_iff.mp there
  have inLog : Run.Along (Topic.step Host.compact) (AcksInLog Host.compact) orders
      [asks subscribing 10, .publish {} [104, 105] 11, asks (acking 1) 12] := by
    refine ⟨?_, trivial, ?_, trivial⟩
    · intro name cursor grant decoded
      rw [decode_asks size_subscribing] at decoded
      cases decoded
    · intro name cursor grant decoded _ _ _
      rw [decode_asks (size_acking (by decide : 1 ≤ u64Max))] at decoded
      cases decoded
      rw [step_subscribing, step_publishing]
      decide
  have bound := (acked_le_high Host.compact "aa" "orders" _ created _ inLog "jobs" s (run ▸ found)).1
  rw [run, acked] at bound
  exact bound

/-- **A message acknowledged before it is published**: the owner takes an ack of cursor 1 while the
log is empty, which leaves `acked` above the high cursor; the message published then is the first,
and no lease of it is planned. -/
theorem ack_before_publish :
    ∃ t t' : Topic, t = Run.run (Topic.step Host.compact) orders [asks subscribing 10, asks (acking 1) 12] ∧
      t' = t.step Host.compact (.publish {} [104, 105] 13) ∧
      (t.subs.get "jobs").map (·.acked) = some 1 ∧ t.highCursor = 0 ∧ (t'.writer.get 1).isSome ∧
      t'.subs.planLease "jobs" t'.writer.highCursor t'.writer.floor 1000 10 = none := by
  refine ⟨(subscribed.serveControl {} 12 (acking 1)).2,
    ((subscribed.serveControl {} 12 (acking 1)).2.publish {} [104, 105] 13).2, ?_, ?_, ?_⟩
  · rw [Run.run_cons, step_subscribing, Run.run_cons,
      step_asks (size_acking (by decide : 1 ≤ u64Max)) (by decide), Run.run_nil]
  · rw [step]
  · decide

end

end Topic

end CePubsub
