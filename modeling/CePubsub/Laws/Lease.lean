import CePubsub.Subscription
import Mathlib.Data.List.Nodup

/-!
# What one subscription operation does

One law for each operation of `SubscriptionState`, pointwise: what it leaves acknowledged, dead,
leased and counted, as a function of the state before. The runs that follow cite these and unfold no
operation.

Three predicates say what a cursor is to a subscription. `Handled` is at or below the ack floor, or
recorded above it: nothing is left to do for it. `deliverable` and `poisoned` split the cursors a
scan does not pass over, into those a lease hands out and those it dead-letters.
-/

namespace CePubsub.SubscriptionState

/-- Nothing is left to do for the cursor: it is at or below the ack floor, or recorded above it. -/
def Handled (s : SubscriptionState) (c : Nat) : Prop := c ≤ s.acked ∨ c ∈ s.ackedSet ∨ c ∈ s.dead

/-- Recorded above the ack floor, acknowledged or dead. -/
def Recorded (s : SubscriptionState) (c : Nat) : Prop := c ∈ s.ackedSet ∨ c ∈ s.dead

instance (s : SubscriptionState) : DecidablePred s.Recorded :=
  fun _ => inferInstanceAs (Decidable (_ ∨ _))

instance (s : SubscriptionState) : DecidablePred s.Handled :=
  fun _ => inferInstanceAs (Decidable (_ ∨ _ ∨ _))

/-- A cursor the scan hands out. -/
def deliverable (s : SubscriptionState) (now c : Nat) : Bool := !s.withheld now c && !s.exhausted c

/-- A cursor the scan dead-letters. -/
def poisoned (s : SubscriptionState) (now c : Nat) : Bool := !s.withheld now c && s.exhausted c

/-- Past the floor, what the scan does not skip is not handled. -/
theorem not_handled_of_not_withheld {s : SubscriptionState} {now c : Nat}
    (free : s.withheld now c = false) (above : s.acked < c) : ¬ s.Handled c := by
  simp only [withheld, Bool.or_eq_false_iff, decide_eq_false_iff_not] at free
  rintro (low | acked | dead)
  · omega
  · exact free.2 acked
  · exact free.1.2 dead

/-- A cursor not withheld is under no unexpired lease. -/
theorem expired_of_not_withheld {s : SubscriptionState} {now c : Nat} {l : Lease}
    (free : s.withheld now c = false) (leased : s.leases[c]? = some l) : l.expiresAt ≤ now := by
  simp only [withheld, leased, Option.map_some, Option.getD_some, Bool.or_eq_false_iff,
    decide_eq_false_iff_not] at free
  omega

/-! ## The walks of the ack floor -/

/-- Folding changes only the ack floor and what is recorded above it: whatever is recorded past the
new floor is what was recorded there. -/
structure Folds (s t : SubscriptionState) : Prop where
  le : s.acked ≤ t.acked
  leases : t.leases = s.leases
  attempts : t.attempts = s.attempts
  policy : t.policy = s.policy
  ackedSet : ∀ c, t.acked < c → (c ∈ t.ackedSet ↔ c ∈ s.ackedSet)
  dead : ∀ c, t.acked < c → (c ∈ t.dead ↔ c ∈ s.dead)
  recorded : ∀ c, t.Recorded c → s.Recorded c

theorem Folds.refl (s : SubscriptionState) : s.Folds s where
  le := Nat.le_refl _
  leases := rfl
  attempts := rfl
  policy := rfl
  ackedSet _ _ := Iff.rfl
  dead _ _ := Iff.rfl
  recorded _ h := h

/-- Folds compose. -/
theorem Folds.trans {s t u : SubscriptionState} (h : s.Folds t) (k : t.Folds u) : s.Folds u where
  le := Nat.le_trans h.le k.le
  leases := k.leases.trans h.leases
  attempts := k.attempts.trans h.attempts
  policy := k.policy.trans h.policy
  ackedSet c above := (k.ackedSet c above).trans (h.ackedSet c (Nat.lt_of_le_of_lt k.le above))
  dead c above := (k.dead c above).trans (h.dead c (Nat.lt_of_le_of_lt k.le above))
  recorded c mem := h.recorded c (k.recorded c mem)

/-- What a fold leaves at and below its new floor: what was there below the old one, and of what it
passes the dead cursors that were also acknowledged. -/
structure Leaves (s t : SubscriptionState) : Prop where
  below : ∀ c ≤ s.acked, (c ∈ t.ackedSet ↔ c ∈ s.ackedSet) ∧ (c ∈ t.dead ↔ c ∈ s.dead)
  passed : ∀ c, s.acked < c → c ≤ t.acked →
    c ∉ t.ackedSet ∧ (c ∈ t.dead ↔ c ∈ s.dead ∧ c ∈ s.ackedSet)

theorem Leaves.refl (s : SubscriptionState) : s.Leaves s where
  below _ _ := ⟨Iff.rfl, Iff.rfl⟩
  passed _ above le := absurd above (Nat.not_lt_of_le le)

/-- So do the changes beside them. -/
theorem Leaves.trans {s t u : SubscriptionState} (h : s.Leaves t) (k : t.Leaves u) (f : s.Folds t) :
    s.Leaves u where
  below c le := by
    have le' := Nat.le_trans le f.le
    exact ⟨(k.below c le').1.trans (h.below c le).1, (k.below c le').2.trans (h.below c le).2⟩
  passed c above le := by
    by_cases first : c ≤ t.acked
    · have here := h.passed c above first
      exact ⟨fun mem => here.1 ((k.below c first).1.mp mem), (k.below c first).2.trans here.2⟩
    · have later := Nat.lt_of_not_le first
      have here := k.passed c later le
      exact ⟨here.1, here.2.trans (and_congr (f.dead c later) (f.ackedSet c later))⟩

/-- One turn of the loop over a recorded cursor. -/
theorem foldNext_succ (fuel : Nat) {s : SubscriptionState} (next : s.Recorded (s.acked + 1)) :
    ∃ t, foldNext (fuel + 1) s = foldNext fuel t ∧ t.acked = s.acked + 1 ∧ s.Folds t ∧
      s.Leaves t := by
  by_cases acked : s.acked + 1 ∈ s.ackedSet
  · refine ⟨{ s with ackedSet := s.ackedSet.erase (s.acked + 1), acked := s.acked + 1 },
      by rw [foldNext, if_pos acked], rfl, ?_, ?_, ?_⟩
    · refine ⟨Nat.le_succ _, rfl, rfl, rfl, ?_, fun _ _ => Iff.rfl, ?_⟩
      · intro c above
        simp only [Std.ExtTreeMap.mem_erase]
        grind
      · rintro c (mem | mem)
        · exact .inl (Std.ExtTreeMap.mem_of_mem_erase mem)
        · exact .inr mem
    · intro c low
      simp only [Std.ExtTreeMap.mem_erase]
      grind
    · intro c above le
      obtain rfl : c = s.acked + 1 := Nat.le_antisymm le above
      refine ⟨fun mem => ?_, (and_iff_left acked).symm⟩
      exact (Std.ExtTreeMap.mem_erase.mp mem).1 (Nat.compare_eq_eq.mpr rfl)
  · have dead := next.resolve_left acked
    refine ⟨{ s with dead := s.dead.erase (s.acked + 1), acked := s.acked + 1 },
      by rw [foldNext, if_neg acked, if_pos dead], rfl, ?_, ?_, ?_⟩
    · refine ⟨Nat.le_succ _, rfl, rfl, rfl, fun _ _ => Iff.rfl, ?_, ?_⟩
      · intro c above
        simp only [Std.ExtTreeMap.mem_erase]
        grind
      · rintro c (mem | mem)
        · exact .inl mem
        · exact .inr (Std.ExtTreeMap.mem_of_mem_erase mem)
    · intro c low
      simp only [Std.ExtTreeMap.mem_erase]
      grind
    · intro c above le
      obtain rfl : c = s.acked + 1 := Nat.le_antisymm le above
      refine ⟨acked, iff_of_false (fun mem => ?_) fun both => acked both.2⟩
      exact (Std.ExtTreeMap.mem_erase.mp mem).1 (Nat.compare_eq_eq.mpr rfl)

/-- Folding stops at the first cursor that is not recorded. -/
theorem foldNext_of_not_recorded (fuel : Nat) {s : SubscriptionState}
    (next : ¬ s.Recorded (s.acked + 1)) : foldNext fuel s = s := by
  cases fuel with
  | zero => rfl
  | succ fuel => rw [foldNext, if_neg fun h => next (.inl h), if_neg fun h => next (.inr h)]

/-- What a turn of the loop keeps, and none at all, the loop keeps. -/
theorem foldNext_induct {R : SubscriptionState → SubscriptionState → Prop} (refl : ∀ s, R s s)
    (turn : ∀ {s t u : SubscriptionState}, s.Folds t → s.Leaves t → R t u → R s u) (fuel : Nat)
    (s : SubscriptionState) : R s (foldNext fuel s) := by
  induction fuel generalizing s with
  | zero => exact refl s
  | succ fuel ih =>
    by_cases next : s.Recorded (s.acked + 1)
    · obtain ⟨t, is, -, folds, leaves⟩ := foldNext_succ fuel next
      rw [is]
      exact turn folds leaves (ih t)
    · rw [foldNext_of_not_recorded _ next]
      exact refl s

/-- However far it goes, folding is a `Folds`. -/
theorem foldNext_folds (fuel : Nat) (s : SubscriptionState) : s.Folds (foldNext fuel s) :=
  foldNext_induct (R := Folds) .refl (fun folds _ rest => folds.trans rest) fuel s

/-- And it leaves what it does not pass. -/
theorem foldNext_leaves (fuel : Nat) (s : SubscriptionState) : s.Leaves (foldNext fuel s) :=
  foldNext_induct (R := Leaves) .refl (fun folds leaves rest => leaves.trans rest folds) fuel s

/-- The loop walks the floor over the recorded cursors. -/
theorem foldNext_acked (fuel : Nat) (s : SubscriptionState) :
    (foldNext fuel s).acked = Watermark.climb s.Recorded fuel s.acked := by
  induction fuel generalizing s with
  | zero => rfl
  | succ fuel ih =>
    by_cases next : s.Recorded (s.acked + 1)
    · obtain ⟨t, turn, floor, folds, -⟩ := foldNext_succ fuel next
      rw [turn, ih, floor, Watermark.climb, if_pos next]
      exact Watermark.climb_congr fun c above =>
        or_congr (folds.ackedSet c (floor ▸ above)) (folds.dead c (floor ▸ above))
    · rw [foldNext_of_not_recorded _ next, Watermark.climb, if_neg next]

theorem advanceAcked_folds (s : SubscriptionState) : s.Folds s.advanceAcked := foldNext_folds _ s

/-- **The fold goes all the way**: it ends before a cursor that is not recorded. -/
theorem advanceAcked_stops (s : SubscriptionState) :
    ¬ s.advanceAcked.Recorded (s.advanceAcked.acked + 1) := by
  intro next
  have := s.advanceAcked_folds.recorded _ next
  rw [advanceAcked, foldNext_acked] at this
  refine Watermark.climb_stops (l := s.ackedSet.keys ++ s.dead.keys) ?_ ?_ this
  · rintro c - (acked | dead)
    · exact List.mem_append_left _ (Std.ExtTreeMap.mem_keys.mpr acked)
    · exact List.mem_append_right _ (Std.ExtTreeMap.mem_keys.mpr dead)
  · simp only [List.length_append, Std.ExtTreeMap.length_keys, Nat.le_refl]

/-- Folding handles nothing more and nothing less. -/
theorem handled_advanceAcked (s : SubscriptionState) (c : Nat) :
    s.advanceAcked.Handled c ↔ s.Handled c := by
  have folds := s.advanceAcked_folds
  constructor
  · rintro (low | recorded)
    · by_cases above : s.acked < c
      · rw [advanceAcked, foldNext_acked] at low
        exact .inr (Watermark.of_le_climb above low)
      · exact .inl (Nat.le_of_not_lt above)
    · exact .inr (folds.recorded c recorded)
  · rintro (low | recorded)
    · exact .inl (Nat.le_trans low folds.le)
    · by_cases above : s.advanceAcked.acked < c
      · exact .inr (recorded.imp (folds.ackedSet c above).mpr (folds.dead c above).mpr)
      · exact .inl (Nat.le_of_not_lt above)

/-! ## Acknowledging -/

/-- `ack` up to the fold: the cursor forgotten, and recorded if it is above the floor. -/
def recordAck (s : SubscriptionState) (x : Nat) : SubscriptionState :=
  { s with
    leases := s.leases.erase x
    attempts := s.attempts.erase x
    ackedSet := if x > s.acked then s.ackedSet.insert x () else s.ackedSet }

/-- An ack records the cursor and folds the floor over it. -/
theorem ack_eq (s : SubscriptionState) (x : Nat) :
    s.ack x = (s.recordAck x).advanceAcked := by
  by_cases above : x > s.acked
  · simp only [ack, recordAck, if_pos above]
  · simp only [ack, recordAck, if_neg above]

/-- Recording an ack handles that cursor and no other. -/
theorem handled_recordAck (s : SubscriptionState) (x c : Nat) :
    (s.recordAck x).Handled c ↔ s.Handled c ∨ c = x := by
  simp only [Handled, recordAck]
  by_cases above : x > s.acked
  · rw [if_pos above, Std.ExtTreeMap.mem_insert, Nat.compare_eq_eq]
    tauto
  · rw [if_neg above]
    constructor
    · exact .inl
    · rintro (handled | rfl)
      · exact handled
      · exact .inl (Nat.le_of_not_lt above)

/-- An ack handles its cursor and no other. -/
theorem handled_ack (s : SubscriptionState) (x c : Nat) :
    (s.ack x).Handled c ↔ s.Handled c ∨ c = x := by
  rw [ack_eq, handled_advanceAcked, handled_recordAck]

/-- After an ack the next cursor is not recorded. -/
theorem ack_stops (s : SubscriptionState) (x : Nat) :
    ¬ (s.ack x).Recorded ((s.ack x).acked + 1) := by
  rw [ack_eq]
  exact advanceAcked_stops _

/-- An ack never lowers the floor. -/
theorem acked_le_ack (s : SubscriptionState) (x : Nat) : s.acked ≤ (s.ack x).acked := by
  rw [ack_eq]
  exact (s.recordAck x).advanceAcked_folds.le

@[simp] theorem ack_leases (s : SubscriptionState) (x : Nat) :
    (s.ack x).leases = s.leases.erase x := by
  rw [ack_eq, (s.recordAck x).advanceAcked_folds.leases, recordAck]

@[simp] theorem ack_attempts (s : SubscriptionState) (x : Nat) :
    (s.ack x).attempts = s.attempts.erase x := by
  rw [ack_eq, (s.recordAck x).advanceAcked_folds.attempts, recordAck]

@[simp] theorem ack_policy (s : SubscriptionState) (x : Nat) : (s.ack x).policy = s.policy := by
  rw [ack_eq, (s.recordAck x).advanceAcked_folds.policy, recordAck]

/-! ## Nacking -/

/-- A nack handles nothing. -/
@[simp] theorem handled_nack (s : SubscriptionState) (x c : Nat) :
    (s.nack x).Handled c ↔ s.Handled c := Iff.rfl

@[simp] theorem nack_attempts (s : SubscriptionState) (x : Nat) :
    (s.nack x).attempts = s.attempts := rfl

/-- A nack touches the lease of its cursor only. -/
theorem nack_leases_of_ne (s : SubscriptionState) {x c : Nat} (ne : c ≠ x) :
    (s.nack x).leases[c]? = s.leases[c]? := by
  rw [nack, Std.ExtTreeMap.getElem?_modify, if_neg (by simpa using Ne.symm ne)]

/-! ## Planning -/

/-- A full batch ends the scan. -/
theorem scan_of_full (s : SubscriptionState) (now expiresAt cap left c : Nat) {b : Batch}
    (full : ¬ b.leasedOut.length < cap) : s.scan now expiresAt cap left c b = b := by
  cases left with
  | zero => rw [scan]
  | succ left => rw [scan, if_neg full]

/-- What the scan adds to its batch: of some cursors from `c` on, those it hands out and those it
dead-letters, all there are unless the batch is full; and if the scan fills it, the last cursor it
looks at is one it hands out. -/
theorem scan_spec (s : SubscriptionState) (now expiresAt cap left c : Nat) (b : Batch) :
    ∃ n ≤ left,
      (s.scan now expiresAt cap left c b).leasedStamped = b.leasedStamped ++
        ((List.range' c n).filter (s.deliverable now)).map (·, expiresAt) ∧
      (s.scan now expiresAt cap left c b).leasedOut = b.leasedOut ++
        ((List.range' c n).filter (s.deliverable now)).map (fun c => (c, s.nextAttempt c)) ∧
      (s.scan now expiresAt cap left c b).dead =
        b.dead ++ (List.range' c n).filter (s.poisoned now) ∧
      (b.leasedOut.length ≤ cap → (s.scan now expiresAt cap left c b).leasedOut.length ≤ cap) ∧
      (n = left ∨ cap ≤ (s.scan now expiresAt cap left c b).leasedOut.length) ∧
      (b.leasedOut.length < cap → cap ≤ (s.scan now expiresAt cap left c b).leasedOut.length →
        ∃ m, n = m + 1 ∧ s.deliverable now (c + m)) := by
  induction left generalizing c b with
  | zero =>
    refine ⟨0, Nat.le_refl 0, ?_⟩
    rw [scan]
    simp
  | succ left ih =>
    by_cases room : b.leasedOut.length < cap
    · rw [scan, if_pos room]
      -- the last cursor of the rest is the last of the whole
      have later {n : Nat} : (∃ m, n = m + 1 ∧ s.deliverable now (c + 1 + m)) →
          ∃ m, n + 1 = m + 1 ∧ s.deliverable now (c + m) := by
        rintro ⟨m, rfl, last⟩
        exact ⟨m + 1, rfl, by rwa [← Nat.add_assoc, Nat.add_right_comm]⟩
      cases withheld : s.withheld now c with
      | true =>
        obtain ⟨n, le, stamped, out, dead, bounded, all, last⟩ := ih (c + 1) b
        refine ⟨n + 1, Nat.succ_le_succ le, ?_, ?_, ?_, bounded, by simpa using all, ?_⟩
        · simpa [List.range'_succ, deliverable, withheld] using stamped
        · simpa [List.range'_succ, deliverable, withheld] using out
        · simpa [List.range'_succ, poisoned, withheld] using dead
        · exact fun _ full => later (last room full)
      | false =>
        cases exhausted : s.exhausted c with
        | true =>
          obtain ⟨n, le, stamped, out, dead, bounded, all, last⟩ :=
            ih (c + 1) { b with dead := b.dead ++ [c] }
          refine ⟨n + 1, Nat.succ_le_succ le, ?_, ?_, ?_, bounded, by simpa using all, ?_⟩
          · simpa [List.range'_succ, deliverable, withheld, exhausted] using stamped
          · simpa [List.range'_succ, deliverable, withheld, exhausted] using out
          · simpa [List.range'_succ, poisoned, withheld, exhausted] using dead
          · exact fun _ full => later (last room full)
        | false =>
          have given : s.deliverable now c = true := by simp [deliverable, withheld, exhausted]
          have kept : s.poisoned now c = false := by simp [poisoned, exhausted]
          simp only [Bool.false_eq_true, if_false]
          by_cases more : b.leasedOut.length + 1 < cap
          · obtain ⟨n, le, stamped, out, dead, bounded, all, last⟩ := ih (c + 1)
              { b with
                leasedStamped := b.leasedStamped ++ [(c, expiresAt)]
                leasedOut := b.leasedOut ++ [(c, s.nextAttempt c)] }
            have room' : (b.leasedOut ++ [(c, s.nextAttempt c)]).length < cap := by
              rwa [List.length_append]
            refine ⟨n + 1, Nat.succ_le_succ le, ?_, ?_, ?_, ?_, by simpa using all, ?_⟩
            · simpa [List.range'_succ, given] using stamped
            · simpa [List.range'_succ, given] using out
            · simpa [List.range'_succ, kept] using dead
            · exact fun _ => bounded (Nat.le_of_lt room')
            · exact fun _ full => later (last room' full)
          · -- it is the one that fills the batch
            rw [scan_of_full _ _ _ _ _ _ (by rwa [List.length_append])]
            refine ⟨1, Nat.succ_le_succ (Nat.zero_le left), ?_, ?_, ?_, ?_, .inr ?_, ?_⟩
            · simp [given]
            · simp [given]
            · simp [kept]
            · exact fun _ => by rw [List.length_append]; exact room
            · rw [List.length_append]
              exact Nat.le_of_not_lt more
            · exact fun _ _ => ⟨0, rfl, given⟩
    · rw [scan_of_full _ _ _ _ _ _ room]
      refine ⟨0, Nat.zero_le _, ?_⟩
      simpa [room] using Nat.le_of_not_lt room

/-- The scan hands out the first `cap` cursors there are to deliver. -/
theorem scan_leasedOut (s : SubscriptionState) (now expiresAt cap left c : Nat) :
    (s.scan now expiresAt cap left c {}).leasedOut =
      (((List.range' c left).filter (s.deliverable now)).take cap).map
        fun c => (c, s.nextAttempt c) := by
  obtain ⟨n, le, -, given, -, bounded, all, -⟩ := s.scan_spec now expiresAt cap left c {}
  have short := bounded (Nat.zero_le cap)
  rw [given, List.nil_append, List.length_map] at short all
  rw [given, List.nil_append]
  have split : (List.range' c left).filter (s.deliverable now) =
      (List.range' c n).filter (s.deliverable now) ++
        (List.range' (c + n) (left - n)).filter (s.deliverable now) := by
    rw [← List.filter_append, List.range'_append_1, Nat.add_sub_of_le le]
  rcases all with rfl | full
  · rw [List.take_of_length_le short]
  · rw [split, List.take_append_of_le_length full, List.take_of_length_le short]

/-- What a lease has to hand out: the first cursors above both floors that are free and not
exhausted, each with its next attempt. -/
def due (s : SubscriptionState) (high floor now max : Nat) : List (Nat × UInt32) :=
  (((List.range' (Max.max s.acked floor + 1) (high - Max.max s.acked floor)).filter
    (s.deliverable now)).take (min max maxLeaseBatch)).map fun c => (c, s.nextAttempt c)

/-- The scan leases what is due. -/
theorem scan_due (s : SubscriptionState) (high floor now max expiresAt : Nat) :
    (s.scan now expiresAt (min max maxLeaseBatch) (high + 1 - (Max.max s.acked floor + 1))
      (Max.max s.acked floor + 1) {}).leasedOut = s.due high floor now max := by
  rw [scan_leasedOut, due, show high + 1 - (Max.max s.acked floor + 1) =
    high - Max.max s.acked floor by omega]

/-- A plan hands out what is due. -/
theorem leased_of_planLease {s : SubscriptionState} {name : String} {high floor now max : Nat}
    {op : SubOp} {out : LeaseOutcome}
    (plan : s.planLease name high floor now max = some (op, out)) :
    out.leased = s.due high floor now max := by
  simp only [planLease] at plan
  split at plan
  · cases plan
  · cases plan
    exact s.scan_due high floor now max _

/-- And there is no plan only if nothing is due. -/
theorem due_of_unplanned {s : SubscriptionState} {name : String} {high floor now max : Nat}
    (plan : s.planLease name high floor now max = none) : s.due high floor now max = [] := by
  simp only [planLease] at plan
  split at plan
  · next idle =>
    obtain ⟨n, -, stamped, out, -⟩ := s.scan_spec now (min (now + s.policy.deadline) u64Max)
      (min max maxLeaseBatch) (high + 1 - (Max.max s.acked floor + 1)) (Max.max s.acked floor + 1) {}
    have nothing := List.isEmpty_iff.mp (Bool.and_eq_true_iff.mp idle).1
    rw [stamped, List.nil_append, List.map_eq_nil_iff] at nothing
    rw [← s.scan_due high floor now max, out, nothing]
    rfl
  · cases plan

/-- When a lease planned at `now` expires. -/
def expiry (s : SubscriptionState) (now : Nat) : Nat := min (now + s.policy.deadline) u64Max

/-- What a lease plan is: it hands out cursors above both floors, free and not exhausted, each with
its next attempt and one expiry; dead-letters the free and exhausted ones; and leaves the floor the
bridge finds. -/
structure Planned (s : SubscriptionState) (high floor now : Nat) (leased : List (Nat × Nat))
    (dead : List Nat) (newAcked : Nat) (out : LeaseOutcome) : Prop where
  stamped : leased = out.leased.map fun x => (x.1, s.expiry now)
  dead_eq : dead = out.deadLettered
  newAcked_eq : newAcked = s.bridge floor dead
  of_leased : ∀ x ∈ out.leased,
    max s.acked floor < x.1 ∧ x.1 ≤ high ∧ s.deliverable now x.1 ∧ x.2 = s.nextAttempt x.1
  of_dead : ∀ c ∈ out.deadLettered, max s.acked floor < c ∧ c ≤ high ∧ s.poisoned now c
  nodup_leased : (out.leased.map Prod.fst).Nodup
  nodup_dead : out.deadLettered.Nodup

/-- A plan is an `applyLease` of what it says it is. -/
theorem planned_of_planLease {s : SubscriptionState} {name : String} {high floor now max : Nat}
    {op : SubOp} {out : LeaseOutcome}
    (plan : s.planLease name high floor now max = some (op, out)) :
    ∃ leased dead newAcked, op = .applyLease name leased dead newAcked ∧
      s.Planned high floor now leased dead newAcked out := by
  simp only [planLease] at plan
  obtain ⟨n, le, stamped, given, dead, -⟩ := s.scan_spec now (s.expiry now) (min max maxLeaseBatch)
    (high + 1 - (Max.max s.acked floor + 1)) (Max.max s.acked floor + 1) {}
  simp only [expiry] at stamped given dead
  split at plan
  · cases plan
  · cases plan
    refine ⟨_, _, _, rfl, ?_⟩
    have inRange : ∀ {c}, c ∈ List.range' (Max.max s.acked floor + 1) n →
        Max.max s.acked floor < c ∧ c ≤ high := fun mem => by
      obtain ⟨lo, hi⟩ := List.mem_range'_1.mp mem
      omega
    simp only [stamped, given, dead, List.nil_append]
    constructor
    · simp only [List.map_map]
      rfl
    · rfl
    · rfl
    · intro x mem
      obtain ⟨c, scanned, rfl⟩ := List.mem_map.mp mem
      obtain ⟨ranged, deliverable⟩ := List.mem_filter.mp scanned
      exact ⟨(inRange ranged).1, (inRange ranged).2, deliverable, rfl⟩
    · intro c mem
      obtain ⟨ranged, poisoned⟩ := List.mem_filter.mp mem
      exact ⟨(inRange ranged).1, (inRange ranged).2, poisoned⟩
    · simp only [List.map_map, Function.comp_def, List.map_id']
      exact List.Nodup.filter _ List.nodup_range'
    · exact List.Nodup.filter _ List.nodup_range'

/-! ## Applying a lease -/

section Apply

variable (s : SubscriptionState)

/-- Burying moves its cursors to the dead and touches no other. -/
theorem foldl_bury (dead : List Nat) :
    (dead.foldl bury s).acked = s.acked ∧
    (dead.foldl bury s).ackedSet = s.ackedSet ∧
    (dead.foldl bury s).policy = s.policy ∧
    (∀ c, c ∈ (dead.foldl bury s).dead ↔ c ∈ s.dead ∨ c ∈ dead) ∧
    (∀ c, (dead.foldl bury s).leases[c]? = if c ∈ dead then none else s.leases[c]?) ∧
    (∀ c, (dead.foldl bury s).attempts[c]? = if c ∈ dead then none else s.attempts[c]?) := by
  induction dead generalizing s with
  | nil => simp
  | cons x dead ih =>
    obtain ⟨acked, ackedSet, policy, mem, leases, attempts⟩ := ih (s.bury x)
    refine ⟨acked, ackedSet, policy, fun c => ?_, fun c => ?_, fun c => ?_⟩
    · rw [List.foldl_cons, mem, bury]
      grind
    · rw [List.foldl_cons, leases, bury]
      grind
    · rw [List.foldl_cons, attempts, bury]
      grind

/-- Delivering writes a lease and a counted attempt for each of its cursors, and touches no other. -/
theorem foldl_deliver (leased : List (Nat × Nat)) (nodup : (leased.map Prod.fst).Nodup) :
    (leased.foldl deliver s).acked = s.acked ∧
    (leased.foldl deliver s).ackedSet = s.ackedSet ∧
    (leased.foldl deliver s).policy = s.policy ∧
    (leased.foldl deliver s).dead = s.dead ∧
    (∀ x ∈ leased, (leased.foldl deliver s).leases[x.1]? = some ⟨x.1, x.2, s.nextAttempt x.1⟩) ∧
    (∀ x ∈ leased, (leased.foldl deliver s).attempts[x.1]? = some (s.nextAttempt x.1)) ∧
    (∀ c ∉ leased.map Prod.fst, (leased.foldl deliver s).leases[c]? = s.leases[c]? ∧
      (leased.foldl deliver s).attempts[c]? = s.attempts[c]?) := by
  induction leased generalizing s with
  | nil => simp
  | cons x leased ih =>
    obtain ⟨fresh, nodup⟩ := List.nodup_cons.mp nodup
    obtain ⟨acked, ackedSet, policy, dead, leases, attempts, frame⟩ := ih (s.deliver x) nodup
    have first := frame x.1 fresh
    have lease : (s.deliver x).leases[x.1]? = some ⟨x.1, x.2, s.nextAttempt x.1⟩ := by
      simp [deliver]
    have count : (s.deliver x).attempts[x.1]? = some (s.nextAttempt x.1) := by simp [deliver]
    have other {c} (ne : c ≠ x.1) : (s.deliver x).leases[c]? = s.leases[c]? ∧
        (s.deliver x).attempts[c]? = s.attempts[c]? := by
      constructor <;> simp only [deliver] <;> grind
    have same {y} (mem : y ∈ leased) : (s.deliver x).nextAttempt y.1 = s.nextAttempt y.1 := by
      have ne : y.1 ≠ x.1 := fun eq => fresh (eq ▸ List.mem_map_of_mem mem)
      rw [nextAttempt, nextAttempt, (other ne).2]
    refine ⟨acked, ackedSet, policy, dead, ?_, ?_, ?_⟩
    · rintro y (_ | ⟨_, mem⟩)
      · exact first.1.trans lease
      · rw [List.foldl_cons, leases y mem, same mem]
    · rintro y (_ | ⟨_, mem⟩)
      · exact first.2.trans count
      · rw [List.foldl_cons, attempts y mem, same mem]
    · intro c absent
      obtain ⟨ne, absent⟩ := not_or.mp (mt List.mem_cons.mpr absent)
      exact ⟨(frame c absent).1.trans (other ne).1, (frame c absent).2.trans (other ne).2⟩

@[simp] theorem raise_leases (k : Nat) : (s.raise k).leases = s.leases := by
  rw [raise]; split <;> rfl

@[simp] theorem raise_attempts (k : Nat) : (s.raise k).attempts = s.attempts := by
  rw [raise]; split <;> rfl

@[simp] theorem raise_policy (k : Nat) : (s.raise k).policy = s.policy := by
  rw [raise]; split <;> rfl

/-- The floor is raised, never lowered. -/
theorem raise_acked (k : Nat) : (s.raise k).acked = max s.acked k := by
  rw [raise]
  split
  · next up => exact (Nat.max_eq_right (Nat.le_of_lt up)).symm
  · next low => exact (Nat.max_eq_left (Nat.le_of_not_lt low)).symm

/-- Raising the floor drops only what the new floor covers. -/
theorem raise_recorded (k c : Nat) :
    (s.raise k).Recorded c ↔ s.Recorded c ∧ (s.acked < k → k < c) := by
  rw [raise]
  split
  · simp only [Recorded]
    grind
  · next low => exact ⟨fun h => ⟨h, fun up => absurd up low⟩, And.left⟩

end Apply

/-- The bridge starts at both floors and jumps only over handled cursors. -/
theorem le_bridge (s : SubscriptionState) (floor : Nat) (dead : List Nat) :
    max s.acked floor ≤ s.bridge floor dead :=
  Watermark.le_climb _ _

/-- What the plan counts as done: what is recorded, and what it gives up itself. -/
theorem mem_handled (s : SubscriptionState) (dead : List Nat) (c : Nat) :
    c ∈ s.handled dead ↔ s.Recorded c ∨ c ∈ dead := by
  simp only [handled, Recorded, Std.ExtTreeSet.mem_ofList, List.contains_iff_mem, List.mem_append,
    Std.ExtTreeMap.mem_keys]
  tauto

/-- **The bridge goes all the way**: it ends before a cursor that is not handled. -/
theorem bridge_stops (s : SubscriptionState) (floor : Nat) (dead : List Nat) :
    s.bridge floor dead + 1 ∉ s.handled dead := by
  refine Watermark.climb_stops (l := (s.handled dead).toList) ?_ ?_
  · exact fun c _ mem => Std.ExtTreeSet.mem_toList.mpr mem
  · exact Nat.le_of_eq Std.ExtTreeSet.length_toList

namespace Planned

variable {s : SubscriptionState} {high floor now newAcked : Nat} {leased : List (Nat × Nat)}
  {dead : List Nat} {out : LeaseOutcome}

/-- No cursor is leased twice in one plan. -/
theorem nodup_stamped (h : s.Planned high floor now leased dead newAcked out) :
    (leased.map Prod.fst).Nodup := by
  rw [h.stamped, List.map_map]
  exact h.nodup_leased

/-- What a plan hands out it does not dead-letter. -/
theorem not_dead_of_leased (h : s.Planned high floor now leased dead newAcked out)
    {x : Nat × UInt32} (mem : x ∈ out.leased) : x.1 ∉ out.deadLettered := by
  intro poison
  have given := (h.of_leased x mem).2.2.1
  have refused := (h.of_dead x.1 poison).2.2
  simp only [deliverable, poisoned, Bool.and_eq_true, Bool.not_eq_true'] at given refused
  rw [given.2] at refused
  exact Bool.noConfusion refused.2

/-- The planned floor is at least the subscription's own and the log's. -/
theorem floors_le (h : s.Planned high floor now leased dead newAcked out) :
    max s.acked floor ≤ newAcked := by
  rw [h.newAcked_eq]
  exact s.le_bridge floor dead

/-- The committed floor is the planned one. -/
theorem acked_eq (h : s.Planned high floor now leased dead newAcked out) :
    (s.applyLease leased dead newAcked).acked = newAcked := by
  have := h.floors_le
  rw [applyLease, raise_acked, (foldl_deliver _ leased h.nodup_stamped).1, (foldl_bury s dead).1]
  omega

/-- What is acknowledged out of order a lease keeps above the floor it leaves. -/
theorem mem_ackedSet (h : s.Planned high floor now leased dead newAcked out) (c : Nat) :
    c ∈ (s.applyLease leased dead newAcked).ackedSet ↔
      c ∈ s.ackedSet ∧ (s.acked < newAcked → newAcked < c) := by
  obtain ⟨acked, ackedSet, -⟩ := foldl_deliver (dead.foldl bury s) leased h.nodup_stamped
  obtain ⟨acked₀, ackedSet₀, -⟩ := foldl_bury s dead
  rw [applyLease, raise, acked, acked₀, ackedSet₀.symm, ← ackedSet]
  split
  · next up => grind
  · next low => exact ⟨fun mem => ⟨mem, fun up => absurd up low⟩, And.left⟩

/-- What is recorded after a commit: as before and the dead, if not passed by the floor. -/
theorem recorded_iff (h : s.Planned high floor now leased dead newAcked out) (c : Nat) :
    (s.applyLease leased dead newAcked).Recorded c ↔
      (s.Recorded c ∨ c ∈ out.deadLettered) ∧ (s.acked < newAcked → newAcked < c) := by
  obtain ⟨acked, ackedSet, -, dead', -, -⟩ := foldl_deliver (dead.foldl bury s) leased h.nodup_stamped
  obtain ⟨acked₀, ackedSet₀, -, dead₀, -, -⟩ := foldl_bury s dead
  rw [applyLease, raise_recorded, acked, acked₀, Recorded, ackedSet, ackedSet₀, dead', dead₀,
    h.dead_eq, Recorded]
  tauto

/-- **What a lease handles**: what it dead-letters, and everything retention has pruned. -/
theorem handled_iff (h : s.Planned high floor now leased dead newAcked out) (c : Nat) :
    (s.applyLease leased dead newAcked).Handled c ↔
      s.Handled c ∨ c ∈ out.deadLettered ∨ c ≤ floor := by
  have floors := h.floors_le
  constructor
  · rintro (low | recorded)
    · rw [h.acked_eq] at low
      by_cases above : max s.acked floor < c
      · -- the bridge walked over it
        rw [h.newAcked_eq] at low
        have walked := (s.mem_handled dead c).mp (Watermark.of_le_climb above low)
        rw [h.dead_eq] at walked
        exact walked.elim (fun r => .inl (.inr r)) (fun d => .inr (.inl d))
      · rcases Nat.le_total s.acked floor with le | le
        · exact .inr (.inr (by omega))
        · exact .inl (.inl (by omega))
    · obtain ⟨before | now, -⟩ := (h.recorded_iff c).mp recorded
      · exact .inl (.inr before)
      · exact .inr (.inl now)
  · intro handled
    by_cases low : c ≤ newAcked
    · exact .inl (by rwa [h.acked_eq])
    · refine .inr ((h.recorded_iff c).mpr ⟨?_, fun _ => Nat.lt_of_not_le low⟩)
      rcases handled with (below | recorded) | dead | below
      · omega
      · exact .inl recorded
      · exact .inr dead
      · omega

/-- After a commit the next cursor is not recorded. -/
theorem stops (h : s.Planned high floor now leased dead newAcked out) :
    ¬ (s.applyLease leased dead newAcked).Recorded
      ((s.applyLease leased dead newAcked).acked + 1) := by
  rw [h.acked_eq, h.recorded_iff, ← h.dead_eq, ← s.mem_handled dead, h.newAcked_eq]
  exact fun next => s.bridge_stops floor dead next.1

/-- A plan touches only what is above both floors, assigned and free. -/
theorem met (h : s.Planned high floor now leased dead newAcked out) {c : Nat}
    (mem : c ∈ out.leased.map Prod.fst ∨ c ∈ out.deadLettered) :
    (max s.acked floor < c ∧ c ≤ high) ∧ s.withheld now c = false := by
  rcases mem with mem | mem
  · obtain ⟨x, entry, rfl⟩ := List.mem_map.mp mem
    obtain ⟨above, le, free, -⟩ := h.of_leased x entry
    simp only [deliverable, Bool.and_eq_true, Bool.not_eq_true'] at free
    exact ⟨⟨above, le⟩, free.1⟩
  · obtain ⟨above, le, free⟩ := h.of_dead c mem
    simp only [poisoned, Bool.and_eq_true, Bool.not_eq_true'] at free
    exact ⟨⟨above, le⟩, free.1⟩

/-- A plan touches nothing already handled. -/
theorem fresh (h : s.Planned high floor now leased dead newAcked out) {c : Nat}
    (mem : c ∈ out.leased.map Prod.fst ∨ c ∈ out.deadLettered) : ¬ s.Handled c ∧ floor < c := by
  obtain ⟨⟨above, -⟩, free⟩ := h.met mem
  exact ⟨not_handled_of_not_withheld free (by omega), by omega⟩

/-- What a plan hands out is under no unexpired lease. -/
theorem expired (h : s.Planned high floor now leased dead newAcked out) {c : Nat} {l : Lease}
    (mem : c ∈ out.leased.map Prod.fst) (before : s.leases[c]? = some l) : l.expiresAt ≤ now :=
  expired_of_not_withheld (h.met (.inl mem)).2 before

/-- What a lease hands out is leased and counted, with the attempt the outcome reports. -/
theorem of_handed (h : s.Planned high floor now leased dead newAcked out) {x : Nat × UInt32}
    (mem : x ∈ out.leased) :
    (s.applyLease leased dead newAcked).leases[x.1]? = some ⟨x.1, s.expiry now, x.2⟩ ∧
      (s.applyLease leased dead newAcked).attempts[x.1]? = some x.2 := by
  obtain ⟨-, -, -, -, leases, attempts, -⟩ :=
    foldl_deliver (dead.foldl bury s) leased h.nodup_stamped
  obtain ⟨-, -, -, -, -, counted⟩ := foldl_bury s dead
  have entry : (x.1, s.expiry now) ∈ leased := by
    rw [h.stamped]
    exact List.mem_map_of_mem (f := fun x : Nat × UInt32 => (x.1, s.expiry now)) mem
  -- the count `apply` starts from is the one the plan read: nothing it delivers was buried
  have attempt : (dead.foldl bury s).nextAttempt x.1 = x.2 := by
    rw [nextAttempt, counted, if_neg (h.dead_eq ▸ h.not_dead_of_leased mem), (h.of_leased x mem).2.2.2,
      nextAttempt]
  rw [applyLease, raise_leases, raise_attempts, leases _ entry, attempts _ entry, attempt]
  exact ⟨rfl, rfl⟩

/-- What a lease does not hand out has no lease and no count if it is dead-lettered, and is left alone
if it is not. -/
theorem of_unhanded (h : s.Planned high floor now leased dead newAcked out) {c : Nat}
    (free : c ∉ out.leased.map Prod.fst) :
    (s.applyLease leased dead newAcked).leases[c]? =
        (if c ∈ out.deadLettered then none else s.leases[c]?) ∧
      (s.applyLease leased dead newAcked).attempts[c]? =
        if c ∈ out.deadLettered then none else s.attempts[c]? := by
  obtain ⟨-, -, -, -, -, -, frame⟩ := foldl_deliver (dead.foldl bury s) leased h.nodup_stamped
  obtain ⟨-, -, -, -, leases, attempts⟩ := foldl_bury s dead
  have absent : c ∉ leased.map Prod.fst := by
    rw [h.stamped, List.map_map]
    exact free
  rw [applyLease, raise_leases, raise_attempts, (frame c absent).1, (frame c absent).2, leases,
    attempts, h.dead_eq]
  exact ⟨rfl, rfl⟩

/-- What a lease dead-letters is under no lease and has no count. -/
theorem of_buried (h : s.Planned high floor now leased dead newAcked out) {c : Nat}
    (mem : c ∈ out.deadLettered) :
    (s.applyLease leased dead newAcked).leases[c]? = none ∧
      (s.applyLease leased dead newAcked).attempts[c]? = none := by
  have free : c ∉ out.leased.map Prod.fst := by
    intro handed
    obtain ⟨x, given, rfl⟩ := List.mem_map.mp handed
    exact h.not_dead_of_leased given mem
  have left := h.of_unhanded free
  rwa [if_pos mem, if_pos mem] at left

/-- Every cursor a lease leaves alone keeps its lease and its count. -/
theorem of_other (h : s.Planned high floor now leased dead newAcked out) {c : Nat}
    (free : c ∉ out.leased.map Prod.fst) (alive : c ∉ out.deadLettered) :
    (s.applyLease leased dead newAcked).leases[c]? = s.leases[c]? ∧
      (s.applyLease leased dead newAcked).attempts[c]? = s.attempts[c]? := by
  have left := h.of_unhanded free
  rwa [if_neg alive, if_neg alive] at left

/-- A commit keeps the policy. -/
theorem policy_eq (h : s.Planned high floor now leased dead newAcked out) :
    (s.applyLease leased dead newAcked).policy = s.policy := by
  rw [applyLease, raise_policy, (foldl_deliver _ leased h.nodup_stamped).2.2.1,
    (foldl_bury s dead).2.2.1]

end Planned

end CePubsub.SubscriptionState
