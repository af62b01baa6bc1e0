import CePubsub.Laws.History

/-!
# The batch a lease plans

The plan read as a whole. Of the cursors above both floors that are free (`eligible`), the batch is
the first ones that are not poison, as many as the limit allows; dead-lettered are the poison ones the
scan met on its way, which are those below the last cursor of a full batch, and all of them if the
batch is not full. The floor the plan leaves lies below the batch.

Attempts are counted in 32 bits. Where no count is at its maximum the next attempt is one more.
-/

namespace CePubsub

namespace SubscriptionState

/-- How often `c` has been delivered. -/
def deliveries (s : SubscriptionState) (c : Nat) : Nat := (s.attempts[c]?.getD (0 : UInt32)).toNat

/-- One attempt more would exceed what the policy allows. -/
def Poison (s : SubscriptionState) (c : Nat) : Prop :=
  s.policy.maxDeliveryAttempts ≠ 0 ∧ s.deliveries c + 1 > s.policy.maxDeliveryAttempts.toNat

instance (s : SubscriptionState) : DecidablePred s.Poison :=
  fun _ => inferInstanceAs (Decidable (_ ∧ _))

/-- No attempt count is at its maximum. -/
def Countable (s : SubscriptionState) : Prop := ∀ c, s.deliveries c + 1 < 2 ^ 32

/-- The cursors above both floors and up to `high` that the scan does not pass over. -/
def eligible (s : SubscriptionState) (high floor now : Nat) : List Nat :=
  (List.range' (max s.acked floor + 1) (high - max s.acked floor)).filter fun c => !s.withheld now c

/-- Below 2^32 deliveries the next attempt is the next number. -/
theorem Countable.toNat_nextAttempt {s : SubscriptionState} (h : s.Countable) (c : Nat) :
    (s.nextAttempt c).toNat = s.deliveries c + 1 := by
  rw [nextAttempt, UInt32.toNat_add]
  exact Nat.mod_eq_of_lt (h c)

/-- So it is as the 32-bit number. -/
theorem Countable.nextAttempt_eq {s : SubscriptionState} (h : s.Countable) (c : Nat) :
    s.nextAttempt c = UInt32.ofNat (s.deliveries c + 1) := by
  rw [← h.toNat_nextAttempt c, UInt32.ofNat_toNat]

/-- A cursor is exhausted exactly if it is poison. -/
theorem Countable.exhausted_iff {s : SubscriptionState} (h : s.Countable) (c : Nat) :
    s.exhausted c = true ↔ s.Poison c := by
  simp only [exhausted, Poison, Bool.and_eq_true, bne_iff_ne, decide_eq_true_eq, gt_iff_lt,
    UInt32.lt_iff_toNat_lt, h.toNat_nextAttempt c]

/-- The two tests agree. -/
theorem Countable.decide_poison {s : SubscriptionState} (h : s.Countable) (c : Nat) :
    decide (s.Poison c) = s.exhausted c := by
  rw [Bool.eq_iff_iff, decide_eq_true_iff, h.exhausted_iff]

/-- Not withheld: no lease in force, not dead, not acknowledged out of order. -/
theorem not_withheld_iff (s : SubscriptionState) (now c : Nat) :
    s.withheld now c = false ↔
      (∀ l, s.leases[c]? = some l → l.expiresAt ≤ now) ∧ c ∉ s.dead ∧ c ∉ s.ackedSet := by
  simp only [withheld, Bool.or_eq_false_iff, decide_eq_false_iff_not, and_assoc]
  refine and_congr_left fun _ => ?_
  cases s.leases[c]? with
  | none => simp
  | some l => simp

/-- Eligible is what is retained above the floor and not withheld. -/
theorem mem_eligible (s : SubscriptionState) (high floor now c : Nat) :
    c ∈ s.eligible high floor now ↔ (max s.acked floor < c ∧ c ≤ high) ∧
      (∀ l, s.leases[c]? = some l → l.expiresAt ≤ now) ∧ c ∉ s.dead ∧ c ∉ s.ackedSet := by
  rw [eligible, List.mem_filter, List.mem_range'_1, Bool.not_eq_true', s.not_withheld_iff]
  refine and_congr_left fun _ => ?_
  omega

/-- The eligible cursors ascend. -/
theorem pairwise_eligible (s : SubscriptionState) (high floor now : Nat) :
    (s.eligible high floor now).Pairwise (· < ·) :=
  List.Pairwise.filter _ List.pairwise_lt_range'

/-- The scan delivers what is eligible and no poison. -/
theorem filter_deliverable {s : SubscriptionState} (counts : s.Countable) (high floor now : Nat) :
    (List.range' (max s.acked floor + 1) (high - max s.acked floor)).filter (s.deliverable now) =
      (s.eligible high floor now).filter fun c => ¬ s.Poison c := by
  rw [eligible, List.filter_filter]
  refine List.filter_congr fun c _ => ?_
  rw [deliverable, Bool.and_comm, decide_not, counts.decide_poison]

/-- The scan buries what is eligible and poison. -/
theorem filter_poisoned {s : SubscriptionState} (counts : s.Countable) (high floor now : Nat) :
    (List.range' (max s.acked floor + 1) (high - max s.acked floor)).filter (s.poisoned now) =
      (s.eligible high floor now).filter fun c => s.Poison c := by
  rw [eligible, List.filter_filter]
  refine List.filter_congr fun c _ => ?_
  rw [poisoned, Bool.and_comm, counts.decide_poison]

/-- Up to a cursor it buries the poison before it. -/
theorem filter_poisoned_lt {s : SubscriptionState} (counts : s.Countable) (high floor now last : Nat) :
    (List.range' (max s.acked floor + 1) (high - max s.acked floor)).filter
        (fun c => s.poisoned now c && decide (c < last)) =
      (s.eligible high floor now).filter fun c => s.Poison c ∧ c < last := by
  have apart : ∀ l : List Nat, l.filter (fun c => s.poisoned now c && decide (c < last)) =
      (l.filter (s.poisoned now)).filter fun c => c < last := by
    intro l
    rw [List.filter_filter]
    exact List.filter_congr fun c _ => Bool.and_comm _ _
  rw [apart, filter_poisoned counts, List.filter_filter]
  refine List.filter_congr fun c _ => ?_
  rw [Bool.and_comm, Bool.decide_and]

/-! ## The scan as a whole -/

/-- A batch that is not full has met everything there is to dead-letter. -/
theorem scan_dead_of_room (s : SubscriptionState) (now expiresAt cap left c : Nat)
    (room : (s.scan now expiresAt cap left c {}).leasedOut.length < cap) :
    (s.scan now expiresAt cap left c {}).dead = (List.range' c left).filter (s.poisoned now) := by
  obtain ⟨n, -, -, -, dead, -, all, -⟩ := s.scan_spec now expiresAt cap left c {}
  obtain rfl := all.resolve_right (Nat.not_le_of_lt room)
  rw [dead, List.nil_append]

/-- What of a range lies below one of its elements is a beginning of it. -/
theorem filter_lt_range' (p : Nat → Bool) {start left m : Nat} (le : m ≤ left) :
    (List.range' start left).filter (fun c => p c && decide (c < start + m)) =
      (List.range' start m).filter p := by
  have split : List.range' start left = List.range' start m ++ List.range' (start + m) (left - m) := by
    rw [List.range'_append_1, Nat.add_sub_of_le le]
  have low : (List.range' start m).filter (fun c => p c && decide (c < start + m)) =
      (List.range' start m).filter p := by
    refine List.filter_congr fun c mem => ?_
    rw [decide_eq_true (List.mem_range'_1.mp mem).2, Bool.and_true]
  have high : (List.range' (start + m) (left - m)).filter
      (fun c => p c && decide (c < start + m)) = [] := by
    refine List.filter_eq_nil_iff.mpr fun c mem => ?_
    rw [decide_eq_false (Nat.not_lt_of_le (List.mem_range'_1.mp mem).1), Bool.and_false]
    exact Bool.false_ne_true
  rw [split, List.filter_append, low, high, List.append_nil]

/-- A full batch has met what lies below its last cursor. -/
theorem scan_dead_of_full (s : SubscriptionState) (now expiresAt : Nat) {cap left c : Nat}
    (pos : 0 < cap) (full : cap ≤ (s.scan now expiresAt cap left c {}).leasedOut.length) :
    ∃ last, ((s.scan now expiresAt cap left c {}).leasedOut.map Prod.fst).getLast? = some last ∧
      (s.scan now expiresAt cap left c {}).dead =
        (List.range' c left).filter fun d => s.poisoned now d && decide (d < last) := by
  obtain ⟨n, le, -, given, dead, -, -, filled⟩ := s.scan_spec now expiresAt cap left c {}
  obtain ⟨m, rfl, last⟩ := filled pos full
  have kept : s.poisoned now (c + m) = false := by
    simp only [deliverable, Bool.and_eq_true, Bool.not_eq_true'] at last
    rw [poisoned, last.2, Bool.and_false]
  refine ⟨c + m, ?_, ?_⟩
  · rw [given, List.nil_append, List.map_map]
    simp [List.range'_concat, last]
  · rw [dead, List.nil_append, filter_lt_range' _ (Nat.le_of_succ_le le), List.range'_concat]
    simp [kept]

/-! ## The plan -/

/-- The scan a plan is made from. -/
def planScan (s : SubscriptionState) (high floor now max : Nat) : Batch :=
  s.scan now (s.expiry now) (min max maxLeaseBatch) (high - Max.max s.acked floor)
    (Max.max s.acked floor + 1) {}

/-- The scan stamps what it hands out, each with one expiry. -/
theorem planScan_stamped (s : SubscriptionState) (high floor now max : Nat) :
    (s.planScan high floor now max).leasedStamped =
      (s.planScan high floor now max).leasedOut.map fun x => (x.1, s.expiry now) := by
  obtain ⟨n, -, stamped, out, -⟩ := s.scan_spec now (s.expiry now) (min max maxLeaseBatch)
    (high - Max.max s.acked floor) (Max.max s.acked floor + 1) {}
  rw [planScan, stamped, out, List.nil_append, List.nil_append, List.map_map]
  rfl

/-- The plan, told by what the scan gathers. -/
theorem planLease_eq (s : SubscriptionState) (name : String) (high floor now max : Nat) :
    s.planLease name high floor now max =
      if (s.planScan high floor now max).leasedOut = [] ∧ (s.planScan high floor now max).dead = []
      then none
      else some
        (.applyLease name ((s.planScan high floor now max).leasedOut.map fun x => (x.1, s.expiry now))
          (s.planScan high floor now max).dead (s.bridge floor (s.planScan high floor now max).dead),
        { leased := (s.planScan high floor now max).leasedOut
          deadLettered := (s.planScan high floor now max).dead }) := by
  have left : high - Max.max s.acked floor = high + 1 - (Max.max s.acked floor + 1) := by omega
  have idle : ((s.planScan high floor now max).leasedStamped.isEmpty &&
      (s.planScan high floor now max).dead.isEmpty) = true ↔
        (s.planScan high floor now max).leasedOut = [] ∧ (s.planScan high floor now max).dead = [] := by
    rw [planScan_stamped, Bool.and_eq_true, List.isEmpty_iff, List.isEmpty_iff, List.map_eq_nil_iff]
  rw [← planScan_stamped, ← if_congr idle rfl rfl, planScan, left]
  rfl

/-- There is something to lease or to dead-letter. -/
def Offers (s : SubscriptionState) (high floor now : Nat) : Prop :=
  ∃ c, (max s.acked floor < c ∧ c ≤ high) ∧ s.withheld now c = false

/-- A batch that hands out nothing has met everything there is. -/
theorem planScan_of_unleased {s : SubscriptionState} {high floor now max : Nat} (pos : 1 ≤ max)
    (nothing : (s.planScan high floor now max).leasedOut = []) :
    (∀ c, Max.max s.acked floor < c → c ≤ high → s.deliverable now c = false) ∧
      ∀ c, c ∈ (s.planScan high floor now max).dead ↔
        (Max.max s.acked floor < c ∧ c ≤ high) ∧ s.poisoned now c = true := by
  have cap : 0 < min max maxLeaseBatch := by
    rw [maxLeaseBatch]
    omega
  have ranged : ∀ c, c ∈ List.range' (Max.max s.acked floor + 1) (high - Max.max s.acked floor) ↔
      Max.max s.acked floor < c ∧ c ≤ high := by
    intro c
    rw [List.mem_range'_1]
    omega
  rw [planScan] at nothing ⊢
  constructor
  · intro c above le
    rw [scan_leasedOut, List.map_eq_nil_iff, List.take_eq_nil_iff] at nothing
    have none := List.filter_eq_nil_iff.mp (nothing.resolve_left (Nat.ne_of_gt cap)) c
      ((ranged c).mpr ⟨above, le⟩)
    exact Bool.eq_false_iff.mpr none
  · intro c
    rw [scan_dead_of_room _ _ _ _ _ _ (by rw [nothing]; exact cap), List.mem_filter, ranged]

/-- A plan hands something out or dead-letters something. -/
theorem nonempty_of_planLease {s : SubscriptionState} {name : String} {high floor now max : Nat}
    {op : SubOp} {out : LeaseOutcome} (plan : s.planLease name high floor now max = some (op, out)) :
    ∃ c, c ∈ out.leased.map Prod.fst ∨ c ∈ out.deadLettered := by
  rw [planLease_eq] at plan
  split at plan
  · cases plan
  · next busy =>
    cases plan
    rcases not_and_or.mp busy with some | some
    · obtain ⟨x, mem⟩ := List.exists_mem_of_ne_nil _ some
      exact ⟨x.1, .inl (List.mem_map_of_mem mem)⟩
    · obtain ⟨c, mem⟩ := List.exists_mem_of_ne_nil _ some
      exact ⟨c, .inr mem⟩

/-- A plan that hands out nothing dead-letters everything it can. -/
theorem mem_deadLettered_of_unleased {s : SubscriptionState} {name : String}
    {high floor now max : Nat} {op : SubOp} {out : LeaseOutcome} (pos : 1 ≤ max)
    (plan : s.planLease name high floor now max = some (op, out)) (nothing : out.leased = []) (c : Nat) :
    c ∈ out.deadLettered ↔ (Max.max s.acked floor < c ∧ c ≤ high) ∧ s.poisoned now c = true := by
  rw [planLease_eq] at plan
  split at plan
  · cases plan
  · cases plan
    exact (planScan_of_unleased pos nothing).2 c

/-- **There is no plan exactly if there is nothing to lease and nothing to dead-letter.** -/
theorem planLease_eq_none_iff (s : SubscriptionState) (name : String) (high floor now : Nat) {max : Nat}
    (pos : 1 ≤ max) : s.planLease name high floor now max = none ↔ ¬ s.Offers high floor now := by
  cases plan : s.planLease name high floor now max with
  | some planned =>
    obtain ⟨op, out⟩ := planned
    obtain ⟨c, mem⟩ := nonempty_of_planLease plan
    obtain ⟨_, _, _, -, is⟩ := planned_of_planLease plan
    exact iff_of_false (Option.some_ne_none _) fun nothing => nothing ⟨c, is.met mem⟩
  | none =>
    refine iff_of_true rfl ?_
    rintro ⟨c, ⟨above, le⟩, free⟩
    rw [planLease_eq] at plan
    split at plan
    · next nothing =>
      obtain ⟨undelivered, dead⟩ := planScan_of_unleased pos nothing.1
      have exhausted := undelivered c above le
      rw [deliverable, free, Bool.not_false, Bool.true_and, Bool.not_eq_false'] at exhausted
      have mem := (dead c).mpr ⟨⟨above, le⟩, by rw [poisoned, free, exhausted]; rfl⟩
      rw [nothing.2] at mem
      cases mem
    · cases plan

/-- Whatever lies between both floors and the one a plan leaves is recorded, or dead-lettered by it. -/
theorem Planned.walked {s : SubscriptionState} {high floor now newAcked : Nat}
    {leased : List (Nat × Nat)} {dead : List Nat} {out : LeaseOutcome}
    (h : s.Planned high floor now leased dead newAcked out) {c : Nat} (above : max s.acked floor < c)
    (le : c ≤ newAcked) : s.Recorded c ∨ c ∈ out.deadLettered := by
  rw [h.newAcked_eq] at le
  rw [← h.dead_eq]
  exact (s.mem_handled dead c).mp (Watermark.of_le_climb above le)

/-- A plan's floor lies below what it hands out. -/
theorem Planned.lt_of_leased {s : SubscriptionState} {high floor now newAcked : Nat}
    {leased : List (Nat × Nat)} {dead : List Nat} {out : LeaseOutcome}
    (h : s.Planned high floor now leased dead newAcked out) {x : Nat × UInt32} (mem : x ∈ out.leased) :
    newAcked < x.1 := by
  by_contra low
  rcases h.walked (h.of_leased x mem).1 (Nat.le_of_not_lt low) with recorded | buried
  · exact (h.fresh (.inl (List.mem_map_of_mem mem))).1 (.inr recorded)
  · exact h.not_dead_of_leased mem buried

end SubscriptionState

namespace SubRegistry

open SubscriptionState

/-- **A plan is exactly the batch it should be.** `E` is what is eligible: the cursors above both floors,
assigned, under no unexpired lease, neither dead nor acknowledged. The leased cursors are the first of
`E` that are not poison, up to the limit, each with its next attempt and the clamped deadline;
dead-lettered are the poison ones below the last leased one if the batch is full, all of them if it is
not, none if there is no batch. There is no plan exactly if both lists are empty, and the floor a plan
leaves is at or above both floors and below what is leased. -/
theorem planLease_exact (r : SubRegistry) (name : String) (s : SubscriptionState)
    (found : r.get name = some s) (counts : s.Countable) (high floor now max : Nat) :
    ∃ E : List Nat, E.Pairwise (· < ·) ∧
      (∀ c, c ∈ E ↔ (Max.max s.acked floor < c ∧ c ≤ high) ∧
        (∀ l, s.leases[c]? = some l → l.expiresAt ≤ now) ∧ c ∉ s.dead ∧ c ∉ s.ackedSet) ∧
      ∃ leased dead : List Nat,
        leased = (E.filter fun c => ¬ s.Poison c).take (min max maxLeaseBatch) ∧
        (min max maxLeaseBatch = 0 → dead = []) ∧
        (leased.length < min max maxLeaseBatch → dead = E.filter fun c => s.Poison c) ∧
        (∀ last, leased.length = min max maxLeaseBatch → leased.getLast? = some last →
          dead = E.filter fun c => s.Poison c ∧ c < last) ∧
        (r.planLease name high floor now max = none ↔ leased = [] ∧ dead = []) ∧
        ∀ op out, r.planLease name high floor now max = some (op, out) →
          out.leased = leased.map (fun c => (c, UInt32.ofNat (s.deliveries c + 1))) ∧
          out.deadLettered = dead ∧
          ∃ newAcked, op = .applyLease name
              (leased.map fun c =>
                (c, min (now + Max.max 1 (min s.policy.ackDeadlineSecs maxAckDeadlineSecs)) u64Max))
              dead newAcked ∧
            (∀ c ∈ leased, newAcked < c) ∧ Max.max s.acked floor ≤ newAcked := by
  have plan := planLease_of_get found high floor now max
  have out : (s.planScan high floor now max).leasedOut =
      (((s.eligible high floor now).filter fun c => ¬ s.Poison c).take (min max maxLeaseBatch)).map
        fun c => (c, s.nextAttempt c) := by
    rw [planScan, scan_leasedOut, filter_deliverable counts]
  have leased : (s.planScan high floor now max).leasedOut.map Prod.fst =
      ((s.eligible high floor now).filter fun c => ¬ s.Poison c).take (min max maxLeaseBatch) := by
    rw [out, List.map_map]
    exact List.map_id _
  refine ⟨s.eligible high floor now, s.pairwise_eligible high floor now, s.mem_eligible high floor now,
    _, (s.planScan high floor now max).dead, leased, ?_, ?_, ?_, ?_, ?_⟩
  · intro none
    rw [planScan, none, scan_of_full _ _ _ _ _ _ (Nat.lt_irrefl 0)]
  · intro room
    rw [List.length_map] at room
    rw [planScan, scan_dead_of_room s now _ _ _ _ room, filter_poisoned counts]
  · intro last full is
    rw [List.length_map] at full
    have pos : 0 < min max maxLeaseBatch := by
      rw [← full, List.length_pos_iff]
      intro none
      rw [none] at is
      cases is
    obtain ⟨last', is', dead⟩ := scan_dead_of_full s now _ pos (Nat.le_of_eq full.symm)
    obtain rfl := Option.some.inj (is.symm.trans is')
    rw [planScan, dead, filter_poisoned_lt counts]
  · rw [plan, planLease_eq, List.map_eq_nil_iff]
    split
    · next idle => exact iff_of_true rfl idle
    · next busy => exact iff_of_false (Option.some_ne_none _) busy
  · intro op o planned
    rw [plan] at planned
    obtain ⟨stamped, dead, newAcked, op_eq, is⟩ := SubscriptionState.planned_of_planLease planned
    rw [planLease_eq] at planned
    split at planned
    · cases planned
    · cases planned
      refine ⟨?_, rfl, newAcked, ?_, ?_, is.floors_le⟩
      · rw [leased, out]
        exact List.map_congr_left fun c _ => by rw [counts.nextAttempt_eq]
      · rw [op_eq, is.stamped, is.dead_eq, List.map_map]
        rfl
      · intro c mem
        obtain ⟨x, given, rfl⟩ := List.mem_map.mp mem
        exact is.lt_of_leased given

/-- Of the first six cursors, 2 is acknowledged, 3 leased, 4 dead and 5 delivered as often as it may be. -/
private def mixedOps : List SubOp :=
  [.create "jobs" { maxDeliveryAttempts := 2 },
    .applyLease "jobs" [(1, 5), (2, 5), (4, 5), (5, 5), (6, 5)] [] 0,
    .applyLease "jobs" [(5, 5)] [4] 0, .applyLease "jobs" [(3, 50)] [] 0, .ack "jobs" 2]

/-- The subscription after these operations. -/
private def mixed : SubscriptionState := ((Run.run apply {} mixedOps).get "jobs").getD {}

private theorem mixed_countable : mixed.Countable := by
  intro c
  by_cases counted : c ∈ mixed.attempts
  · have each : ∀ c ∈ mixed.attempts.keys, mixed.deliveries c + 1 < 2 ^ 32 := by decide
    exact each c (Std.ExtTreeMap.mem_keys.mpr counted)
  · rw [deliveries, Std.ExtTreeMap.getElem?_eq_none counted]
    decide

/-- The log is pruned up to 1 and has eight messages: 6, which is due again, and 7 are leased, 5 is
dead-lettered, and what is acknowledged, leased or dead is not eligible. -/
theorem planLease_exact_mixed : ∃ E leased dead : List Nat,
    6 ∈ E ∧ 1 ∉ E ∧ 2 ∉ E ∧ 3 ∉ E ∧ 4 ∉ E ∧ leased = (E.filter fun c => ¬ mixed.Poison c).take 2 ∧
    (∀ last, leased.getLast? = some last → leased.length = 2 →
      dead = E.filter fun c => mixed.Poison c ∧ c < last) ∧
    ∃ op, (Run.run apply {} mixedOps).planLease "jobs" 8 1 10 2 = some (op, ⟨[(6, 2), (7, 1)], [5]⟩) ∧
      [((6 : Nat), (2 : UInt32)), (7, 1)] =
        leased.map (fun c => (c, UInt32.ofNat (mixed.deliveries c + 1))) ∧
      [5] = dead := by
  have found : (Run.run apply {} mixedOps).get "jobs" = some mixed := by decide
  obtain ⟨E, -, mem, leased, dead, first, -, -, full, -, planned⟩ :=
    planLease_exact _ "jobs" mixed found mixed_countable 8 1 10 2
  have due : mixed.leases[6]? = some ⟨6, 5, 1⟩ := by decide
  have held : mixed.leases[3]? = some ⟨3, 50, 1⟩ := by decide
  have plan : ∃ op, (Run.run apply {} mixedOps).planLease "jobs" 8 1 10 2 =
      some (op, ⟨[(6, 2), (7, 1)], [5]⟩) :=
    ⟨.applyLease "jobs" [(6, 40), (7, 40)] [5] 2, by decide⟩
  obtain ⟨op, plan⟩ := plan
  obtain ⟨out, buried, -⟩ := planned op _ plan
  refine ⟨E, leased, dead, (mem 6).mpr ⟨by decide, ?_, by decide, by decide⟩, fun is => ?_, fun is => ?_,
    fun is => ?_, fun is => ?_, first, fun last is two => full last two is, op, plan, out, buried⟩
  · intro l is
    cases due.symm.trans is
    decide
  · exact absurd ((mem 1).mp is).1 (by decide)
  · exact absurd ((mem 2).mp is).2.2.2 (by decide)
  · exact absurd (((mem 3).mp is).2.1 _ held) (by decide)
  · exact absurd ((mem 4).mp is).2.2.1 (by decide)

end SubRegistry

end CePubsub
