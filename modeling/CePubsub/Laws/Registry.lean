import CePubsub.Laws.Owner
import CePubsub.Laws.Settled

/-!
# What a control request does to one subscription

`Serves` says what a control request does to the registry, by one operation. `Became` is the same
seen from a subscription that is there afterwards: it is as it was, new, given another policy, or
has one lease, ack or nack more. An invariant of every subscription is one case for each.
-/

namespace CePubsub

namespace SubscriptionState

/-- The ack floor stops before a cursor that is not recorded, and below all acknowledged out of order. -/
structure Tidy (s : SubscriptionState) : Prop where
  stops : ¬ s.Recorded (s.acked + 1)
  above : ∀ c ∈ s.ackedSet, s.acked < c

/-- A new subscription has nothing to fold. -/
theorem tidy_new (policy : SubscriptionPolicy) : Tidy { policy } where
  stops recorded := recorded.elim Std.ExtTreeMap.not_mem_empty Std.ExtTreeMap.not_mem_empty
  above _ mem := absurd mem Std.ExtTreeMap.not_mem_empty

/-- An ack folds the floor as far as it goes, and keeps nothing below it. -/
theorem Tidy.ack {s : SubscriptionState} (h : s.Tidy) (x : Nat) : (s.ack x).Tidy :=
  ⟨s.ack_stops x, ackedSet_above_ack h.above x⟩

/-- So does a committed plan. -/
theorem Tidy.lease {s : SubscriptionState} {high floor now newAcked : Nat} {leased : List (Nat × Nat)}
    {dead : List Nat} {out : LeaseOutcome} (h : s.Tidy)
    (planned : s.Planned high floor now leased dead newAcked out) :
    (s.applyLease leased dead newAcked).Tidy := by
  refine ⟨planned.stops, fun c mem => ?_⟩
  obtain ⟨before, raised⟩ := (planned.mem_ackedSet c).mp mem
  have above := h.above c before
  have floors := planned.floors_le
  rw [planned.acked_eq]
  by_cases up : s.acked < newAcked
  · exact raised up
  · omega

end SubscriptionState

namespace Topic

/-- What the subscription `name` can be after a request, given what it was. -/
inductive Became (t : Topic) (node : Answers) (now : Nat) (req : ControlRequest) (name : String) :
    SubscriptionState → Prop
  | same {s} : t.subs.get name = some s → Became t node now req name s
  | created {policy grant} : req = .createSubscription name policy grant → policy.validate = .ok () →
      t.subs.get name = none → Became t node now req name { policy }
  | recreated {s policy grant} : req = .createSubscription name policy grant →
      policy.validate = .ok () → t.subs.get name = some s →
      Became t node now req name { s with policy }
  | leased {s maxMessages grant leased dead newAcked out} : req = .pull name maxMessages grant →
      t.subs.get name = some s →
      s.Planned t.writer.highCursor t.writer.floor now leased dead newAcked out →
      t.subs.planLease name t.writer.highCursor t.writer.floor now maxMessages =
        some (.applyLease name leased dead newAcked, out) →
      Became t node now req name (s.applyLease leased dead newAcked)
  | acked {s cursor grant} : req = .ack name cursor grant → node.commitSubs = .ok () →
      t.subs.get name = some s → Became t node now req name (s.ack cursor)
  | nacked {s cursor grant} : req = .nack name cursor grant → t.subs.get name = some s →
      Became t node now req name (s.nack cursor)

/-- **Every subscription there is after a request became so by one case of `Became`.** -/
theorem Serves.became {t t' : Topic} {node : Answers} {now : Nat} {req : ControlRequest}
    (h : Serves t node now req t') {name : String} {s : SubscriptionState}
    (found : t'.subs.get name = some s) : Became t node now req name s := by
  cases h with
  | nothing => exact .same found
  | @proposed op t' effect commit untouched subs =>
    rw [subs] at found
    cases effect with
    | @create n policy grant valid =>
      rcases SubRegistry.of_get_create found with
        ⟨rfl, absent, rfl⟩ | ⟨rfl, before, there, rfl⟩ | ⟨-, there⟩
      · exact .created rfl valid absent
      · exact .recreated rfl valid there
      · exact .same there
    | @delete n => exact .same (SubRegistry.of_get_delete found).2
    | @lease n maxMessages grant op out plan =>
      obtain ⟨s', leased, dead, newAcked, before, rfl, planned⟩ :=
        SubRegistry.planned_of_planLease plan
      rcases SubRegistry.of_get_modify found with ⟨rfl, s, there, rfl⟩ | ⟨-, there⟩
      · cases before.symm.trans there
        exact .leased rfl before planned plan
      · exact .same there
    | @ack n cursor grant _ =>
      rcases SubRegistry.of_get_modify found with ⟨rfl, before, there, rfl⟩ | ⟨-, there⟩
      · exact .acked rfl commit there
      · exact .same there
    | @nack n cursor grant _ =>
      rcases SubRegistry.of_get_modify found with ⟨rfl, before, there, rfl⟩ | ⟨-, there⟩
      · exact .nacked rfl there
      · exact .same there

variable {Link : Type} (host : Host Link)

/-- The ack floor of every subscription is where it belongs. -/
def Tidy (t : Topic) : Prop := ∀ name s, t.subs.get name = some s → s.Tidy

/-- A new topic has no subscription to be untidy. -/
theorem tidy_create (nodeId topic : String) : Topic.Tidy { nodeId, topic } := by
  rintro name s ⟨⟩

/-- No entry point leaves an untidy subscription. -/
theorem tidy_step {t : Topic} (h : t.Tidy) (i : Input) : (t.step host i).Tidy := by
  intro name s found
  rcases t.step_cases host i with ⟨-, subs, -⟩ | ⟨_, _, _, _, _, -, -, -, serves⟩
  · exact h name s (subs ▸ found)
  · cases serves.became found with
    | same before => exact h name s before
    | created _ _ _ => exact SubscriptionState.tidy_new _
    | @recreated s _ _ _ _ before => exact ⟨(h name s before).stops, (h name s before).above⟩
    | leased _ before planned _ => exact (h name _ before).lease planned
    | acked _ _ before => exact (h name _ before).ack _
    | @nacked s _ _ _ before => exact ⟨(h name s before).stops, (h name s before).above⟩

end Topic

end CePubsub
