import CePubsub.Laws.History

/-!
# Leases are exclusive

A cursor handed out is promised to its consumer until the deadline of the policy then in force. The
promise is an event of the history; the lease map is what the source keeps of it. `promise_kept` is
the invariant between them: while nobody nacks the cursor, either the subscription is finished with
it, or a lease is recorded that lasts at least as long as the promise. A later lease overwrites the
record only when it has expired, and changing the policy does not touch it.
-/

namespace CePubsub

/-- `c` was handed out with a deadline of `d`, and not nacked since. -/
def Promised (c d : Nat) (past : List Event) : Prop :=
  ∃ before floor now policy out after,
    past = before ++ .leased floor now policy out :: after ∧ c ∈ out.leased.map Prod.fst ∧
      .nacked c ∉ after ∧ d = now + policy.deadline

/-- A promise is the last event, or was there before it and the last event is no nack of it. -/
theorem Promised.of_concat {c d : Nat} {past : List Event} {e : Event}
    (h : Promised c d (past ++ [e])) :
    (Promised c d past ∧ e ≠ .nacked c) ∨
      ∃ floor now policy out, e = .leased floor now policy out ∧ c ∈ out.leased.map Prod.fst ∧
        d = now + policy.deadline := by
  obtain ⟨before, floor, now, policy, out, after, split, handed, kept, due⟩ := h
  rcases List.eq_nil_or_concat after with rfl | ⟨after, last, rfl⟩
  · obtain ⟨-, same⟩ := List.append_inj' split rfl
    exact .inr ⟨floor, now, policy, out, List.cons.inj same |>.1, handed, due⟩
  · rw [List.concat_eq_append, ← List.cons_append, ← List.append_assoc] at split
    obtain ⟨rfl, same⟩ := List.append_inj' split rfl
    obtain ⟨rfl, -⟩ := List.cons.inj same
    rw [List.concat_eq_append, List.mem_append, not_or, List.mem_singleton] at kept
    exact .inl ⟨⟨before, floor, now, policy, out, after, rfl, handed, kept.1, due⟩, Ne.symm kept.2⟩

/-- **The promise is kept**: until it is nacked, a cursor handed out is finished with or under a lease
that lasts as long as promised. The clock is a `u64`, and so is the promise. -/
theorem promise_kept {s : SubscriptionState} {past : List Event} (lived : Lived s past)
    {c d : Nat} (promised : Promised c d past) (fits : d ≤ u64Max) :
    s.Handled c ∨ ∃ l, s.leases[c]? = some l ∧ d ≤ l.expiresAt := by
  induction lived with
  | created policy =>
    obtain ⟨before, floor, now, policy, out, after, split, -⟩ := promised
    exact absurd split.symm (List.append_ne_nil_of_right_ne_nil before (List.cons_ne_nil _ _))
  | recreated policy _ ih => exact ih promised
  | @acked s _ x _ ih =>
    obtain ⟨promised, -⟩ | ⟨_, _, _, _, ⟨⟩, _⟩ := promised.of_concat
    rw [SubscriptionState.handled_ack, SubscriptionState.ack_leases]
    by_cases same : c = x
    · exact .inl (.inr same)
    · rcases ih promised with handled | ⟨l, leased, lasts⟩
      · exact .inl (.inl handled)
      · refine .inr ⟨l, ?_, lasts⟩
        rwa [Std.ExtTreeMap.getElem?_erase, if_neg (by simpa using Ne.symm same)]
  | @nacked s _ x _ ih =>
    obtain ⟨promised, other⟩ | ⟨_, _, _, _, ⟨⟩, _⟩ := promised.of_concat
    rw [SubscriptionState.handled_nack, SubscriptionState.nack_leases_of_ne]
    · exact ih promised
    · rintro rfl
      exact other rfl
  | @leased s _ high floor now _ _ _ out _ planned ih =>
    by_cases handed : c ∈ out.leased.map Prod.fst
    · -- the new lease lasts as long as any promise: this one's, or one whose lease has expired
      obtain ⟨x, entry, rfl⟩ := List.mem_map.mp handed
      refine .inr ⟨_, (planned.of_handed entry).1, ?_⟩
      simp only [SubscriptionState.expiry]
      obtain ⟨promised, -⟩ | ⟨_, _, _, _, ⟨⟩, -, rfl⟩ := promised.of_concat
      · rcases ih promised with handled | ⟨l, leased, lasts⟩
        · exact absurd handled (planned.fresh (.inl handed)).1
        · have := planned.expired handed leased
          omega
      · omega
    · obtain ⟨promised, -⟩ | ⟨_, _, _, _, ⟨⟩, now, -⟩ := promised.of_concat
      · by_cases dead : c ∈ out.deadLettered
        · exact .inl ((planned.handled_iff c).mpr (.inr (.inl dead)))
        · rw [(planned.of_other handed dead).1]
          exact (ih promised).imp_left fun handled => (planned.handled_iff c).mpr (.inl handled)
      · exact absurd now handed

namespace SubRegistry

/-- **Leases are exclusive.** After any run of the owner's operations, if a lease of the
subscription's history handed out `c` at `t₁` and the next lease, at `t₂`, hands it out again, then
somebody nacked it in between or the deadline of the first lease's policy has passed. Nothing is
asked of the clock but that `t₁` is not within the longest deadline of the end of time. -/
theorem lease_exclusive (ops : List OwnerOp) (name : String) (before mid : List Event)
    (floor t₁ : Nat) (policy : SubscriptionPolicy) (first : LeaseOutcome)
    (past : history name ops = before ++ .leased floor t₁ policy first :: mid)
    (early : t₁ < 2 ^ 64 - 600) (high floor' t₂ max : Nat) (op : SubOp) (second : LeaseOutcome)
    (plan : (replay ops).planLease name high floor' t₂ max = some (op, second)) (c : Nat)
    (handed : c ∈ first.leased.map Prod.fst) (again : c ∈ second.leased.map Prod.fst) :
    .nacked c ∈ mid ∨ t₁ + policy.deadline ≤ t₂ := by
  by_contra! exclusive
  obtain ⟨kept, soon⟩ := exclusive
  obtain ⟨s, leased, dead, newAcked, found, -, planned⟩ := planned_of_planLease plan
  have promised : Promised c (t₁ + policy.deadline) (history name ops) :=
    ⟨before, floor, t₁, policy, first, mid, past, handed, kept, rfl⟩
  have fits : t₁ + policy.deadline ≤ u64Max := by
    simp only [SubscriptionPolicy.deadline, maxAckDeadlineSecs, u64Max]
    omega
  rcases promise_kept (lived_of_get ops found) promised fits with handled | ⟨l, leased, lasts⟩
  · exact (planned.fresh (.inl again)).1 handled
  · have := planned.expired again leased
    omega

/-- A redelivery, at the moment the first lease expires. -/
theorem lease_exclusive_redelivery :
    .nacked 1 ∈ [Event.acked 2] ∨ 10 + SubscriptionPolicy.deadline {} ≤ 40 :=
  lease_exclusive [.create "jobs" {}, .lease "jobs" 2 0 10 2, .ack "jobs" 2] "jobs" [] [.acked 2]
    0 10 {} ⟨[(1, 1), (2, 1)], []⟩ (by decide +kernel) (by decide) 2 0 40 1
    (.applyLease "jobs" [(1, 70)] [] 0) ⟨[(1, 2)], []⟩ (by decide +kernel) 1 (by decide) (by decide)

end SubRegistry

end CePubsub
