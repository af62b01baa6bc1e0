import CePubsub.Laws.Batch
import CePubsub.Laws.Registry

/-!
# Retention and the ack floor

Retention drops messages from the front of the log whether or not a subscription is finished with
them, and a lease is to carry the ack floor over what was dropped: the plan's comment says that
without it the subscription would stall forever. The plan does that last, after it has returned if
there is nothing to lease and nothing to dead-letter. A subscription that lags behind a prune and has
nothing to pull stays where it is (`stalled_behind_retention`).

`caught_up_iff` is when a pull leaves the floor where it should be. Beside the early return it has to
name the acks of cursors not yet assigned, which can carry the floor past the high cursor.
-/

namespace CePubsub

namespace SubscriptionState

/-- The ack floor is at or above the retention floor, and at the high cursor if everything retained is
handled. -/
def CaughtUp (s : SubscriptionState) (high floor : Nat) : Prop :=
  floor ≤ s.acked ∧ ((∀ c, floor < c → c ≤ high → s.Handled c) → s.acked = high)

/-- The cursor after `high` is acknowledged already, and all up to `high` is handled or will be
dead-lettered by a lease at `now`. -/
def Overruns (s : SubscriptionState) (high floor now : Nat) : Prop :=
  s.Recorded (high + 1) ∧
    ∀ c, max s.acked floor < c → c ≤ high → s.Handled c ∨ s.poisoned now c = true

theorem caughtUp_of_stops {s : SubscriptionState} (stops : ¬ s.Recorded (s.acked + 1))
    (high floor : Nat) : s.CaughtUp high floor ↔ floor ≤ s.acked ∧ s.acked ≤ high := by
  refine and_congr_right fun le => ⟨fun caught => ?_, fun bound all => ?_⟩
  · by_contra past
    have past := Nat.lt_of_not_le past
    have := caught fun c _ le' => .inl (Nat.le_trans le' (Nat.le_of_lt past))
    omega
  · by_contra ne
    rcases all (s.acked + 1) (by omega) (by omega) with low | recorded
    · omega
    · exact stops recorded

/-- A plan's floor stays within the log exactly if the plan does not overrun. -/
theorem Planned.le_high_iff {s : SubscriptionState} {name : String}
    {high floor now max newAcked : Nat} {leased : List (Nat × Nat)} {dead : List Nat}
    {out : LeaseOutcome} {op : SubOp} (pos : 1 ≤ max)
    (planned : s.Planned high floor now leased dead newAcked out)
    (plan : s.planLease name high floor now max = some (op, out)) :
    newAcked ≤ high ↔ ¬ s.Overruns high floor now := by
  have floors := planned.floors_le
  constructor
  · rintro le ⟨next, all⟩
    have unleased : out.leased = [] := by
      by_contra some
      obtain ⟨x, mem⟩ := List.exists_mem_of_ne_nil _ some
      obtain ⟨above, le', given, -⟩ := planned.of_leased x mem
      rcases all x.1 above le' with handled | poison
      · exact (planned.fresh (.inl (List.mem_map_of_mem mem))).1 handled
      · simp only [deliverable, poisoned, Bool.and_eq_true, Bool.not_eq_true'] at given poison
        rw [given.2] at poison
        exact Bool.noConfusion poison.2
    -- the bridge would have gone on over the next cursor
    have walkable : s.Recorded (newAcked + 1) ∨ newAcked + 1 ∈ out.deadLettered := by
      rcases Nat.lt_or_eq_of_le le with lt | rfl
      · rcases all (newAcked + 1) (by omega) lt with (low | recorded) | poison
        · omega
        · exact .inl recorded
        · exact .inr ((mem_deadLettered_of_unleased pos plan unleased _).mpr ⟨⟨by omega, lt⟩, poison⟩)
      · exact .inl next
    have stops := planned.stops
    rw [planned.acked_eq, planned.recorded_iff] at stops
    exact stops ⟨walkable, fun _ => Nat.lt_succ_self _⟩
  · intro within
    by_contra past
    have past := Nat.lt_of_not_le past
    obtain ⟨c₀, mem₀⟩ := nonempty_of_planLease plan
    obtain ⟨⟨above₀, le₀⟩, -⟩ := planned.met mem₀
    refine within ⟨?_, fun c above le => ?_⟩
    · refine (planned.walked (by omega) past).resolve_right fun buried => ?_
      exact absurd (planned.of_dead _ buried).2.1 (Nat.not_succ_le_self high)
    · rcases planned.walked above (by omega) with recorded | buried
      · exact .inl (.inr recorded)
      · exact .inr (planned.of_dead c buried).2.2

end SubscriptionState

namespace Topic

variable {Link : Type} (host : Host Link)

/-- What a pull leaves of the registry: its plan is applied, if there is one and it commits. -/
theorem subs_handleLease (t : Topic) (node : Answers) (name : String) (maxMessages now : Nat) :
    (t.handleLease node name maxMessages now).2.subs =
      match t.subs.planLease name t.writer.highCursor t.writer.floor now maxMessages,
        node.commitSubs with
      | some (op, _), .ok () => t.subs.apply op
      | _, _ => t.subs := by
  cases plan : t.subs.planLease name t.writer.highCursor t.writer.floor now maxMessages with
  | none => rw [handleLease_of_unplanned node plan]
  | some planned =>
    obtain ⟨op, out⟩ := planned
    cases commit : node.commitSubs with
    | error e => rw [handleLease_of_uncommitted commit]
    | ok u =>
      obtain ⟨t', pulled, -, subs⟩ := handleLease_of_planned plan commit
      rw [pulled]
      exact subs

/-- The pull finds something to lease or to dead-letter, and its proposal commits. -/
def Leases (t : Topic) (node : Answers) (s : SubscriptionState) (now : Nat) : Prop :=
  s.Offers t.highCursor t.writer.floor now ∧ node.commitSubs = .ok ()

/-- A pull that leases does not overrun the log, and one that does not finds the ack floor between the
retention floor and the high cursor already. -/
structure KeepsUp (t : Topic) (node : Answers) (s : SubscriptionState) (now : Nat) : Prop where
  leasing : t.Leases node s now → ¬ s.Overruns t.highCursor t.writer.floor now
  idle : ¬ t.Leases node s now → t.writer.floor ≤ s.acked ∧ s.acked ≤ t.highCursor

/-- **Retention does not hold a subscription back exactly where its pull keeps up.** In every state an
owner reaches, and for every pull of at least one message: afterwards the ack floor is at or above the
retention floor, and at the high cursor if everything retained is handled, if and only if the pull
leases without overrunning the log, or does not lease and the floor lies between the two already. -/
theorem caught_up_iff (nodeId topic : String) (t₀ : Topic) (new : Topic.create nodeId topic = .ok t₀)
    (inputs : List Input) (t : Topic) (reached : t = Run.run (Topic.step host) t₀ inputs)
    (node : Answers) (name : String) (maxMessages now : Nat) (pos : 1 ≤ maxMessages)
    (s s' : SubscriptionState) (found : t.subs.get name = some s)
    (after : (t.handleLease node name maxMessages now).2.subs.get name = some s') :
    (t.writer.floor ≤ s'.acked ∧
      ((∀ c, t.writer.floor < c → c ≤ t.highCursor → s'.Handled c) → s'.acked = t.highCursor)) ↔
      t.KeepsUp node s now := by
  have tidy : t.Tidy := by
    rw [reached]
    refine Run.run_invariant (P := Tidy) (fun _ i h => tidy_step host h i) ?_ inputs
    exact eq_of_create new ▸ tidy_create nodeId topic
  have none_iff := s.planLease_eq_none_iff name t.highCursor t.writer.floor now pos
  have plan_eq := SubRegistry.planLease_of_get found t.highCursor t.writer.floor now maxMessages
  rw [subs_handleLease] at after
  -- a pull that does not lease leaves the subscription as it was
  have idle : ¬ t.Leases node s now → s' = s → (s'.CaughtUp t.highCursor t.writer.floor ↔
      t.KeepsUp node s now) := by
    rintro unleased rfl
    rw [SubscriptionState.caughtUp_of_stops (tidy name s' found).stops]
    exact ⟨fun bounds => ⟨fun leases => absurd leases unleased, fun _ => bounds⟩,
      fun keeps => keeps.idle unleased⟩
  cases plan : t.subs.planLease name t.highCursor t.writer.floor now maxMessages with
  | none =>
    rw [show t.writer.highCursor = t.highCursor from rfl, plan] at after
    refine idle (fun leases => ?_) (Option.some.inj (after.symm.trans found))
    exact none_iff.mp (plan_eq.symm.trans plan) leases.1
  | some planned =>
    obtain ⟨op, out⟩ := planned
    rw [show t.writer.highCursor = t.highCursor from rfl, plan] at after
    cases commit : node.commitSubs with
    | error e =>
      rw [commit] at after
      refine idle (fun leases => ?_) (Option.some.inj (after.symm.trans found))
      exact absurd (commit.symm.trans leases.2) (by simp)
    | ok u =>
      rw [commit] at after
      have planLeased := plan_eq.symm.trans plan
      obtain ⟨leased, dead, newAcked, rfl, planned⟩ := SubscriptionState.planned_of_planLease planLeased
      have applied : (t.subs.apply (.applyLease name leased dead newAcked)).get name = some s' := after
      rw [SubRegistry.apply, SubRegistry.get_modify, if_pos rfl, found] at applied
      obtain rfl := Option.some.inj applied
      have leases : t.Leases node s now := by
        refine ⟨?_, commit⟩
        by_contra nothing
        rw [none_iff.mpr nothing] at planLeased
        cases planLeased
      have floors := planned.floors_le
      refine (SubscriptionState.caughtUp_of_stops planned.stops _ _).trans ?_
      rw [planned.acked_eq, planned.le_high_iff pos planLeased]
      exact ⟨fun both => ⟨fun _ => both.2, fun unleased => absurd leases unleased⟩,
        fun keeps => ⟨by omega, keeps.leasing leases⟩⟩

section

open Orders

/-- The inputs that leave a subscription behind: its topic's only message is pruned. -/
private def lagInputs : List Input :=
  [asks subscribing 10, .publish {} [104, 105] 11, .pruneTo {} 1]

private def behind : Topic := (published.pruneTo {} 1).2

private theorem run_behind : behind = Run.run (Topic.step Host.compact) orders lagInputs := by
  rw [lagInputs, Run.run_cons, step_subscribing, Run.run_cons, step_publishing, Run.run_cons, step,
    Run.run_nil, behind]

/-- A subscription behind a prune catches up with the next message it is handed. -/
theorem caught_up_iff_leased :
    ∃ s', ((behind.publish {} [104, 105] 12).2.handleLease {} "jobs" 10 20).2.subs.get "jobs" = some s' ∧
      (behind.publish {} [104, 105] 12).2.writer.floor ≤ s'.acked := by
  have reached : (behind.publish {} [104, 105] 12).2 = Run.run (Topic.step Host.compact) orders
      (lagInputs ++ [.publish {} [104, 105] 12]) := by
    rw [Run.run_concat, ← run_behind, step]
  have found : (behind.publish {} [104, 105] 12).2.subs.get "jobs" = some {} := by decide
  have there : (((behind.publish {} [104, 105] 12).2.handleLease {} "jobs" 10 20).2.subs.get
      "jobs").isSome := by decide
  obtain ⟨s', after⟩ := Option.isSome_iff_exists.mp there
  refine ⟨s', after, ((caught_up_iff Host.compact "aa" "orders" _ created _ _ reached {} "jobs" 10 20
    (by decide) {} s' found after).mpr ⟨fun _ overruns => ?_, fun idle => ?_⟩).1⟩
  · exact absurd overruns.1 (by decide)
  · exact absurd ⟨⟨2, by decide, by decide⟩, rfl⟩ idle

/-- **A subscription stalled behind retention**: the only message is pruned before it is pulled. The pull
finds nothing, and leaves the ack floor at 0, below the retention floor and the high cursor. -/
theorem stalled_behind_retention :
    ∃ t, t = Run.run (Topic.step Host.compact) orders lagInputs ∧
      t.writer.floor = 1 ∧ t.highCursor = 1 ∧ (t.handleLease {} "jobs" 10 20).1 = .pulled [] ∧
      ((t.handleLease {} "jobs" 10 20).2.subs.get "jobs").map (·.acked) = some 0 := by
  exact ⟨behind, run_behind, by decide, by decide, by decide, by decide⟩

end

end Topic

end CePubsub
