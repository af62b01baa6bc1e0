import CePubsub.Laws.Progress

/-!
# Delivery attempts are counted exactly

The attempt a lease reports is computed by the plan and again by the operation that applies it, from
a counter that outlives lease expiry and nacks and is dropped by an ack and a dead letter. The law is
about the history: for a cursor the subscription is not finished with, the counter is the number of
times it was handed out (`Counted`). A `u32` holds the number modulo `2 ^ 32`, so the invariant
needs no bound; the theorem's bound on the number of leases is what makes the two the same.

That a dead-lettered cursor is dead for good is the ack floor's doing, since the dead mark goes when
the floor passes it: such a cursor is handled, and `Progress` keeps it so.
-/

namespace CePubsub

/-- How often a history has handed out `c`. -/
def handOuts (c : Nat) (past : List Event) : Nat := (past.flatMap Event.handed).count c

/-- How many leases a history has. -/
def leaseCount (past : List Event) : Nat :=
  past.countP fun
    | .leased .. => true
    | _ => false

theorem handOuts_concat (c : Nat) (past : List Event) (e : Event) :
    handOuts c (past ++ [e]) = handOuts c past + e.handed.count c := by
  simp only [handOuts, List.flatMap_append, List.flatMap_singleton, List.count_append]

/-- **The count is the number of hand-outs**, for every cursor not finished with. -/
def Counted (s : SubscriptionState) (past : List Event) : Prop :=
  ∀ c, ¬ s.Handled c → s.attempts[c]?.getD 0 = UInt32.ofNat (handOuts c past)

theorem Counted.of_lived {s : SubscriptionState} {past : List Event} (lived : Lived s past) :
    Counted s past := by
  induction lived with
  | created policy => exact fun c _ => rfl
  | recreated policy _ ih => exact ih
  | @acked s _ x _ ih =>
    intro c live
    rw [SubscriptionState.handled_ack, not_or] at live
    rw [SubscriptionState.ack_attempts, Std.ExtTreeMap.getElem?_erase,
      if_neg (by simpa using Ne.symm live.2), ih c live.1, handOuts_concat]
    rfl
  | nacked x _ ih =>
    intro c live
    rw [SubscriptionState.nack_attempts, ih c live, handOuts_concat]
    rfl
  | @leased s past _ floor now _ _ _ out _ planned ih =>
    intro c live
    rw [planned.handled_iff, not_or, not_or] at live
    rw [handOuts_concat, Event.handed]
    by_cases handed : c ∈ out.leased.map Prod.fst
    · rw [planned.nodup_leased.count, if_pos handed]
      obtain ⟨x, entry, rfl⟩ := List.mem_map.mp handed
      rw [(planned.of_handed entry).2, Option.getD_some, (planned.of_leased x entry).2.2.2,
        SubscriptionState.nextAttempt, ih _ live.1]
      exact (UInt32.ofNat_add _ 1).symm
    · rw [List.count_eq_zero_of_not_mem handed, (planned.of_other handed live.2.1).2, ih c live.1]
      rfl

/-- A lease hands a cursor out once. -/
theorem handOuts_le_leaseCount {s : SubscriptionState} {past : List Event} (lived : Lived s past)
    (c : Nat) : handOuts c past ≤ leaseCount past := by
  induction lived with
  | created policy => exact Nat.le_refl _
  | recreated policy _ ih => exact ih
  | acked x _ ih | nacked x _ ih =>
    rw [handOuts_concat, leaseCount, List.countP_append]
    exact ih
  | leased _ planned ih =>
    rw [handOuts_concat, leaseCount, List.countP_append]
    exact Nat.add_le_add ih (List.nodup_iff_count_le_one.mp planned.nodup_leased c)

/-- The attempt a plan reports is the number of hand-outs it makes. -/
theorem nextAttempt_toNat {s : SubscriptionState} {past : List Event} (lived : Lived s past)
    {c : Nat} (live : ¬ s.Handled c) (few : leaseCount past + 1 < 2 ^ 32) :
    (s.nextAttempt c).toNat = handOuts c past + 1 := by
  have := handOuts_le_leaseCount lived c
  rw [SubscriptionState.nextAttempt, Counted.of_lived lived c live, ← UInt32.ofNat_one,
    ← UInt32.ofNat_add, UInt32.toNat_ofNat_of_lt' (by rw [UInt32.size]; omega)]

/-- Exhausted is handed out as often as the policy allows, or more. -/
theorem exhausted_iff {s : SubscriptionState} {past : List Event} (lived : Lived s past)
    {c : Nat} (live : ¬ s.Handled c) (few : leaseCount past + 1 < 2 ^ 32) :
    s.exhausted c ↔ s.policy.maxDeliveryAttempts ≠ 0 ∧
      s.policy.maxDeliveryAttempts.toNat ≤ handOuts c past := by
  simp only [SubscriptionState.exhausted, Bool.and_eq_true, bne_iff_ne, decide_eq_true_eq, gt_iff_lt,
    UInt32.lt_iff_toNat_lt, nextAttempt_toNat lived live few, Nat.lt_succ_iff]

namespace SubRegistry

/-- **Attempts are counted exactly, and decide the dead letter.** After any run of the owner's
operations in which the subscription has seen fewer than `2 ^ 32` leases, this one included, the next
lease reports for each cursor it hands out how often it has been handed out, and leaves that number
in the counter and in the lease record; it hands out no cursor that was handed out as often as the
policy allows, and none that was dead-lettered; and what it dead-letters was handed out that often,
was never acknowledged and was never dead-lettered before. No cursor comes twice in either list. -/
theorem attempts_counted (ops : List OwnerOp) (name : String) (high floor now max : Nat) (op : SubOp)
    (out : LeaseOutcome) (few : leaseCount (history name ops) + 1 < 2 ^ 32)
    (plan : (replay ops).planLease name high floor now max = some (op, out)) :
    ∃ s s', (replay ops).get name = some s ∧ ((replay ops).apply op).get name = some s' ∧
      (∀ c a, (c, a) ∈ out.leased →
        a.toNat = handOuts c (history name ops) + 1 ∧ s'.attempts[c]? = some a ∧
        (∃ expiresAt, s'.leases[c]? = some ⟨c, expiresAt, a⟩) ∧
        (s.policy.maxDeliveryAttempts ≠ 0 →
          handOuts c (history name ops) < s.policy.maxDeliveryAttempts.toNat) ∧
        c ∉ (history name ops).flatMap Event.buried) ∧
      (∀ c ∈ out.deadLettered, s.policy.maxDeliveryAttempts ≠ 0 ∧
        s.policy.maxDeliveryAttempts.toNat ≤ handOuts c (history name ops) ∧
        .acked c ∉ history name ops ∧ c ∉ (history name ops).flatMap Event.buried) ∧
      (out.leased.map Prod.fst).Nodup ∧ out.deadLettered.Nodup := by
  obtain ⟨s, leased, dead, newAcked, found, rfl, planned⟩ := planned_of_planLease plan
  have lived := lived_of_get ops found
  have progress := Progress.of_lived lived
  -- nothing the plan touches was acknowledged or dead-lettered before
  have fresh {c : Nat} (mem : c ∈ out.leased.map Prod.fst ∨ c ∈ out.deadLettered) :
      ¬ s.Handled c ∧ .acked c ∉ history name ops ∧
        c ∉ (history name ops).flatMap Event.buried := by
    obtain ⟨live, above⟩ := planned.fresh mem
    have unhandled := mt (progress.handled_iff c (by omega)).mpr live
    refine ⟨live, fun acked => unhandled ⟨by omega, _, acked, rfl⟩, fun buried => unhandled ?_⟩
    obtain ⟨e, past, dead⟩ := List.mem_flatMap.mp buried
    refine ⟨by omega, e, past, ?_⟩
    cases e with
    | leased => exact .inl dead
    | acked | nacked => cases dead
  refine ⟨s, s.applyLease leased dead newAcked, found, ?_, ?_, ?_, planned.nodup_leased,
    planned.nodup_dead⟩
  · rw [apply, get_modify, if_pos rfl, found, Option.map_some]
  · intro c a mem
    obtain ⟨live, -, alive⟩ := fresh (.inl (List.mem_map_of_mem mem))
    obtain ⟨-, -, given, attempt⟩ := planned.of_leased _ mem
    obtain ⟨lease, count⟩ := planned.of_handed mem
    refine ⟨?_, count, ⟨_, lease⟩, fun limit => ?_, alive⟩
    · rw [show a = s.nextAttempt c from attempt, nextAttempt_toNat lived live few]
    · simp only [SubscriptionState.deliverable, Bool.and_eq_true, Bool.not_eq_true'] at given
      by_contra! reached
      have := (exhausted_iff lived live few).mpr ⟨limit, reached⟩
      rw [given.2] at this
      cases this
  · intro c mem
    obtain ⟨live, unacked, alive⟩ := fresh (.inr mem)
    obtain ⟨-, -, poisoned⟩ := planned.of_dead c mem
    simp only [SubscriptionState.poisoned, Bool.and_eq_true] at poisoned
    obtain ⟨limit, reached⟩ := (exhausted_iff lived live few).mp poisoned.2
    exact ⟨limit, reached, unacked, alive⟩

/-- A second delivery under a policy that allows two, after a first one that expired. -/
theorem attempts_counted_redelivery :
    (2 : UInt32).toNat = handOuts 1 (history "jobs"
      [.create "jobs" { maxDeliveryAttempts := 2 }, .lease "jobs" 1 0 10 1]) + 1 := by
  obtain ⟨s, s', -, -, leased, -⟩ := attempts_counted
    [.create "jobs" { maxDeliveryAttempts := 2 }, .lease "jobs" 1 0 10 1] "jobs" 1 0 40 1
    (.applyLease "jobs" [(1, 70)] [] 0) ⟨[(1, 2)], []⟩ (by decide) (by decide)
  exact (leased 1 2 (List.mem_singleton_self _)).1

end SubRegistry

end CePubsub
