import CePubsub.Laws.History

/-!
# What lies above the ack floor

`acked_set` and `dead` are for what is finished with above the floor. A lease that raises the floor
drops from both what the floor covers. The fold after an ack drops the cursor it passes from one of
them only: the loop's condition finds it in `acked_set` and does not look in `dead`. A cursor is in
both when it was dead-lettered and then acknowledged, as a consumer that is late will; folded over,
it stays in `dead`, below the floor, for good (`dead_below_floor`).

`FoldsClean` asks of an ack that its fold pass no such cursor, and is exact
(`out_of_order_above_floor`).
-/

namespace CePubsub

namespace SubscriptionState

/-- What is recorded is above the ack floor, and not leased. -/
structure Settled (s : SubscriptionState) : Prop where
  ackedSet : ∀ c ∈ s.ackedSet, s.acked < c
  dead : ∀ c ∈ s.dead, s.acked < c
  free : ∀ c, s.Recorded c → s.leases[c]? = none

/-- An ack of `x` moves the floor over `c`. -/
def Passes (s : SubscriptionState) (x c : Nat) : Prop :=
  s.acked < c ∧ ∀ d, s.acked < d → d ≤ c → d = x ∨ s.Recorded d

/-- An ack of `x` moves the floor over no cursor that is both acknowledged and dead. -/
def FoldsClean (s : SubscriptionState) (x : Nat) : Prop :=
  ∀ c, s.Passes x c → c ∈ s.dead → c ≠ x ∧ c ∉ s.ackedSet

/-- A new subscription has nothing recorded. -/
theorem settled_new (policy : SubscriptionPolicy) : Settled { policy } where
  ackedSet _ mem := absurd mem Std.ExtTreeMap.not_mem_empty
  dead _ mem := absurd mem Std.ExtTreeMap.not_mem_empty
  free _ _ := rfl

/-- The policy is no part of it. -/
theorem Settled.recreate {s : SubscriptionState} (h : s.Settled) (policy : SubscriptionPolicy) :
    Settled { s with policy } :=
  ⟨h.ackedSet, h.dead, h.free⟩

/-- What is recorded is what is finished with above the floor. -/
theorem Settled.recorded_iff {s : SubscriptionState} (h : s.Settled) (c : Nat) :
    s.Recorded c ↔ s.Handled c ∧ s.acked < c := by
  constructor
  · intro recorded
    exact ⟨.inr recorded, recorded.elim (h.ackedSet c) (h.dead c)⟩
  · rintro ⟨low | recorded, above⟩
    · exact absurd above (Nat.not_lt_of_le low)
    · exact recorded

/-! ## The fold of an ack -/

/-- An ack above the floor records its cursor. -/
theorem recordAck_recorded (s : SubscriptionState) (x c : Nat) (above : s.acked < c) :
    (s.recordAck x).Recorded c ↔ c = x ∨ s.Recorded c := by
  simp only [Recorded, recordAck]
  by_cases up : x > s.acked
  · rw [if_pos up, Std.ExtTreeMap.mem_insert, Nat.compare_eq_eq]
    tauto
  · rw [if_neg up]
    have ne : c ≠ x := fun same => up (same ▸ above)
    tauto

/-- It is kept among those acknowledged out of order. -/
theorem recordAck_ackedSet (s : SubscriptionState) (x c : Nat) (above : s.acked < c) :
    c ∈ (s.recordAck x).ackedSet ↔ c = x ∨ c ∈ s.ackedSet := by
  simp only [recordAck]
  by_cases up : x > s.acked
  · rw [if_pos up, Std.ExtTreeMap.mem_insert, Nat.compare_eq_eq]
    tauto
  · rw [if_neg up]
    have ne : c ≠ x := fun same => up (same ▸ above)
    tauto

/-- The new floor of an ack is at or above what it passes, and nothing else above the old one. -/
theorem le_ack_acked (s : SubscriptionState) (x c : Nat) (above : s.acked < c) :
    c ≤ (s.ack x).acked ↔ s.Passes x c := by
  have folds := (s.recordAck x).advanceAcked_folds
  rw [ack_eq]
  constructor
  · intro le
    refine ⟨above, fun d above' le' => ?_⟩
    rw [advanceAcked, foldNext_acked] at le
    exact (s.recordAck_recorded x d above').mp
      (Watermark.of_le_climb (show (s.recordAck x).acked < d from above') (Nat.le_trans le' le))
  · intro passes
    by_contra high
    have low := Nat.lt_of_not_le high
    -- the fold stops before a cursor that is not recorded, and the next one is
    have next := (s.recordAck_recorded x ((s.recordAck x).advanceAcked.acked + 1)
      (Nat.lt_succ_of_le folds.le)).mpr
        (passes.2 _ (Nat.lt_succ_of_le folds.le) low)
    refine (s.recordAck x).advanceAcked_stops (next.imp ?_ ?_)
    · exact (folds.ackedSet _ (Nat.lt_succ_self _)).mpr
    · exact (folds.dead _ (Nat.lt_succ_self _)).mpr

/-- The folding after it leaves what it does not pass. -/
theorem recordAck_leaves (s : SubscriptionState) (x : Nat) : (s.recordAck x).Leaves (s.ack x) := by
  rw [ack_eq]
  exact foldNext_leaves _ _

/-- What is acknowledged out of order stays above the floor, whatever the fold passes. -/
theorem ackedSet_above_ack {s : SubscriptionState} (h : ∀ c ∈ s.ackedSet, s.acked < c) (x : Nat) :
    ∀ c ∈ (s.ack x).ackedSet, (s.ack x).acked < c := by
  have leaves := s.recordAck_leaves x
  intro c mem
  by_contra high
  have le := Nat.le_of_not_lt high
  by_cases above : s.acked < c
  · exact (leaves.passed c above le).1 mem
  · have before := (leaves.below c (Nat.le_of_not_lt above)).1.mp mem
    simp only [recordAck] at before
    split at before
    · next up =>
      rcases Std.ExtTreeMap.mem_insert.mp before with same | before
      · rw [Nat.compare_eq_eq] at same
        exact above (same ▸ up)
      · exact above (h c before)
    · exact above (h c before)

/-- **An ack keeps the sets above the floor exactly if its fold is clean.** -/
theorem settled_ack_iff {s : SubscriptionState} (h : s.Settled) (x : Nat) :
    (s.ack x).Settled ↔ s.FoldsClean x := by
  have leaves := s.recordAck_leaves x
  have folds : (s.recordAck x).Folds (s.ack x) := by
    rw [ack_eq]
    exact (s.recordAck x).advanceAcked_folds
  have passed : ∀ {c}, s.acked < c → c ≤ (s.ack x).acked →
      (c ∈ (s.ack x).dead ↔ c ∈ s.dead ∧ (c = x ∨ c ∈ s.ackedSet)) := by
    intro c above le
    rw [(leaves.passed c above le).2, s.recordAck_ackedSet x c above]
    exact Iff.rfl
  constructor
  · intro settled c passes dead
    have le := (s.le_ack_acked x c passes.1).mpr passes
    have gone : ¬ (c = x ∨ c ∈ s.ackedSet) := by
      intro acked
      have above := settled.dead c ((passed passes.1 le).mpr ⟨dead, acked⟩)
      exact absurd le (Nat.not_le_of_lt above)
    exact ⟨fun same => gone (.inl same), fun mem => gone (.inr mem)⟩
  · intro clean
    refine ⟨ackedSet_above_ack h.ackedSet x, ?_, ?_⟩
    · intro c mem
      by_contra high
      have le := Nat.le_of_not_lt high
      by_cases above : s.acked < c
      · obtain ⟨dead, acked⟩ := (passed above le).mp mem
        have gone := clean c ((s.le_ack_acked x c above).mp le) dead
        exact acked.elim gone.1 gone.2
      · exact above (h.dead c ((leaves.below c (Nat.le_of_not_lt above)).2.mp mem))
    · intro c recorded
      rw [ack_leases, Std.ExtTreeMap.getElem?_erase]
      split
      · rfl
      · next other =>
        refine h.free c ?_
        have before := folds.recorded c recorded
        simp only [Recorded, recordAck] at before
        split at before
        · rw [Std.ExtTreeMap.mem_insert] at before
          exact before.imp_left (·.resolve_left other)
        · exact before

/-! ## The other operations -/

/-- A nack only ends a lease. -/
theorem Settled.nack {s : SubscriptionState} (h : s.Settled) (x : Nat) : (s.nack x).Settled := by
  refine ⟨h.ackedSet, h.dead, fun c recorded => ?_⟩
  have free := h.free c recorded
  by_cases same : c = x
  · subst same
    rw [SubscriptionState.nack, Std.ExtTreeMap.getElem?_modify_self, free]
    rfl
  · rw [nack_leases_of_ne s same, free]

/-- A lease keeps the sets above the floor. -/
theorem Settled.lease {s : SubscriptionState} {high floor now newAcked : Nat}
    {leased : List (Nat × Nat)} {dead : List Nat} {out : LeaseOutcome} (h : s.Settled)
    (planned : s.Planned high floor now leased dead newAcked out) :
    (s.applyLease leased dead newAcked).Settled := by
  have recorded : ∀ c, (s.applyLease leased dead newAcked).Recorded c → newAcked < c := by
    intro c recorded
    obtain ⟨before, raised⟩ := (planned.recorded_iff c).mp recorded
    have floors := planned.floors_le
    by_cases up : s.acked < newAcked
    · exact raised up
    · rcases before with before | buried
      · have above := ((h.recorded_iff c).mp before).2
        omega
      · have above := (planned.of_dead c buried).1
        omega
  refine ⟨?_, ?_, ?_⟩
  · intro c mem
    rw [planned.acked_eq]
    exact recorded c (.inl mem)
  · intro c mem
    rw [planned.acked_eq]
    exact recorded c (.inr mem)
  · intro c after
    obtain ⟨before, -⟩ := (planned.recorded_iff c).mp after
    by_cases buried : c ∈ out.deadLettered
    · exact (planned.of_buried buried).1
    · have before := before.resolve_right buried
      have handed : c ∉ out.leased.map Prod.fst := by
        intro mem
        exact (planned.fresh (.inl mem)).1 (.inr before)
      rw [(planned.of_other handed buried).1]
      exact h.free c before

end SubscriptionState

namespace SubRegistry

/-- Every subscription of the registry is settled. -/
def Settled (r : SubRegistry) : Prop := ∀ name s, r.get name = some s → s.Settled

/-- An ack folds over no cursor that is both acknowledged and dead. -/
def FoldsClean (r : SubRegistry) : OwnerOp → Prop
  | .ack name cursor => ∀ s, r.get name = some s → s.FoldsClean cursor
  | _ => True

/-- A change of one subscription keeps all settled exactly if it keeps that one. -/
theorem settled_modify_iff {r : SubRegistry} (h : r.Settled) (n : String)
    (f : SubscriptionState → SubscriptionState) :
    Settled { subs := r.subs.modify n f } ↔ ∀ s, r.get n = some s → (f s).Settled := by
  constructor
  · intro settled s found
    refine settled n (f s) ?_
    rw [get_modify, if_pos rfl, found]
    rfl
  · intro settled name s found
    rcases of_get_modify found with ⟨rfl, before, there, rfl⟩ | ⟨-, there⟩
    · exact settled before there
    · exact h name s there

/-- **One operation keeps the sets above the floor exactly if its fold is clean.** -/
theorem settled_step_iff {r : SubRegistry} (h : r.Settled) (op : OwnerOp) :
    (r.step op).Settled ↔ r.FoldsClean op := by
  cases op with
  | create n policy =>
    refine iff_of_true ?_ trivial
    intro name s found
    rcases of_get_create found with ⟨-, -, rfl⟩ | ⟨-, before, there, rfl⟩ | ⟨-, there⟩
    · exact SubscriptionState.settled_new policy
    · exact (h name before there).recreate policy
    · exact h name s there
  | delete n =>
    refine iff_of_true ?_ trivial
    intro name s found
    exact h name s (of_get_delete found).2
  | ack n c =>
    rw [step, apply, settled_modify_iff h]
    refine forall_congr' fun s => forall_congr' fun found => ?_
    exact SubscriptionState.settled_ack_iff (h n s found) c
  | nack n c =>
    refine iff_of_true ?_ trivial
    rw [step, apply, settled_modify_iff h]
    exact fun s found => (h n s found).nack c
  | lease n high floor now max =>
    refine iff_of_true ?_ trivial
    rw [step]
    cases plan : r.planLease n high floor now max with
    | none => exact h
    | some planned =>
      obtain ⟨op, out⟩ := planned
      obtain ⟨s, leased, dead, newAcked, before, rfl, planned⟩ := planned_of_planLease plan
      simp only [apply]
      rw [settled_modify_iff h]
      intro s' found
      cases before.symm.trans found
      exact (h n s before).lease planned

/-- **The sets hold only what lies above the floor**, in every state a run passes through, exactly if
no ack of the run folds the floor over a cursor both acknowledged and dead: the keys of `acked_set`
and `dead` are above `acked` and not leased, and the two lists are of what is finished with above the
floor. -/
theorem out_of_order_above_floor (ops : List OwnerOp) :
    (∀ pre rest, ops = pre ++ rest → ∀ name s, (replay pre).get name = some s → s.Settled ∧
      ∀ c, (c ∈ s.deadLettered ∨ c ∈ s.pendingAcks) ↔ s.Handled c ∧ s.acked < c) ↔
      Run.Along step FoldsClean {} ops := by
  have exact : (∀ pre rest, ops = pre ++ rest → (replay pre).Settled) ↔
      Run.Along step FoldsClean {} ops := by
    refine Run.throughout_iff_along (I := fun _ => True) ?_ ?_ trivial ?_ ops
    · exact fun _ _ _ => trivial
    · exact fun r op _ settled => settled_step_iff settled op
    · intro name s found
      cases found
  rw [← exact]
  constructor
  · intro all pre rest split name s found
    exact (all pre rest split name s found).1
  · intro all pre rest split name s found
    have settled := all pre rest split name s found
    refine ⟨settled, fun c => ?_⟩
    rw [← settled.recorded_iff, SubscriptionState.deadLettered, SubscriptionState.pendingAcks,
      Std.ExtTreeMap.mem_keys, Std.ExtTreeMap.mem_keys, SubscriptionState.Recorded]
    exact or_comm

/-- **A dead cursor below the floor**: cursor 2 is dead-lettered while 1 is leased, then acknowledged
late; the ack of 1 folds the floor over both, and 2 is still listed as dead. -/
theorem dead_below_floor :
    ((replay [.create "jobs" { maxDeliveryAttempts := 1 }, .lease "jobs" 2 0 10 2, .nack "jobs" 2,
      .lease "jobs" 2 0 12 2, .ack "jobs" 2, .ack "jobs" 1]).get "jobs").map
        (fun s => (s.acked, s.deadLettered, s.pendingAcks)) = some (2, [2], []) := by
  decide

end SubRegistry

end CePubsub
