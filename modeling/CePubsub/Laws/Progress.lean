import CePubsub.Laws.History
import CePubsub.Lib.Watermark

/-!
# Subscription progress is a low-water mark

What a subscription is finished with is a set of cursors, the `handled` of its history: those it
acknowledged, those dead-lettered, and those retention had pruned when a lease looked. The source
keeps the set as a floor, `acked`, and two maps above it, and moves the floor in two places.
The module proves that the three represent the set exactly (`Progress`): the floor is the greatest
`k` with `1, …, k` all handled, and the maps hold the rest.
-/

namespace CePubsub

/-- The cursors an event finishes with. -/
def Event.Handles (c : Nat) : Event → Prop
  | .acked c' => c = c'
  | .nacked _ => False
  | .leased floor _ _ out => c ∈ out.deadLettered ∨ c ≤ floor

/-- The cursors a history has finished with. -/
def handled (past : List Event) : Set Nat := {c | 1 ≤ c ∧ ∃ e ∈ past, e.Handles c}

theorem mem_handled_concat {past : List Event} {e : Event} {c : Nat} :
    c ∈ handled (past ++ [e]) ↔ c ∈ handled past ∨ 1 ≤ c ∧ e.Handles c := by
  simp only [handled, Set.mem_ofPred_eq, List.mem_append, List.mem_singleton, or_and_right,
    exists_or, exists_eq_left, and_or_left]

/-- **The representation**: the subscription is finished with what its history is, and the cursor
after the floor is not recorded, so the floor could not be higher. -/
structure Progress (s : SubscriptionState) (past : List Event) : Prop where
  handled_iff : ∀ c, 1 ≤ c → (s.Handled c ↔ c ∈ handled past)
  stops : ¬ s.Recorded (s.acked + 1)

namespace Progress

variable {s : SubscriptionState} {past : List Event}

theorem of_lived (lived : Lived s past) : Progress s past := by
  induction lived with
  | created policy =>
    refine ⟨fun c pos => ⟨?_, fun ⟨_, _, mem, _⟩ => nomatch mem⟩, ?_⟩
    · rintro (low | acked | dead)
      · exact absurd low (Nat.not_le_of_lt pos)
      · exact absurd acked Std.ExtTreeMap.not_mem_empty
      · exact absurd dead Std.ExtTreeMap.not_mem_empty
    · rintro (acked | dead)
      · exact absurd acked Std.ExtTreeMap.not_mem_empty
      · exact absurd dead Std.ExtTreeMap.not_mem_empty
  | recreated policy _ ih => exact ⟨ih.handled_iff, ih.stops⟩
  | acked x _ ih =>
    refine ⟨fun c pos => ?_, SubscriptionState.ack_stops _ x⟩
    rw [SubscriptionState.handled_ack, ih.handled_iff c pos, mem_handled_concat, Event.Handles,
      and_iff_right pos]
  | nacked x _ ih =>
    refine ⟨fun c pos => ?_, ih.stops⟩
    rw [SubscriptionState.handled_nack, ih.handled_iff c pos, mem_handled_concat, Event.Handles,
      and_false, or_false]
  | leased _ planned ih =>
    refine ⟨fun c pos => ?_, planned.stops⟩
    rw [planned.handled_iff, ih.handled_iff c pos, mem_handled_concat, Event.Handles,
      and_iff_right pos]

/-- The floor is the mark of the handled cursors. -/
theorem isMark (h : Progress s past) : Watermark.IsMark (handled past) s.acked := by
  refine Watermark.isMark_iff.mpr ⟨fun c pos low => (h.handled_iff c pos).mp (.inl low), fun next => ?_⟩
  rcases (h.handled_iff _ (Nat.le_add_left 1 _)).mpr next with low | recorded
  · omega
  · exact h.stops recorded

/-- The maps hold the handled cursors above the floor. -/
theorem recorded_iff (h : Progress s past) {c : Nat} (above : s.acked < c) :
    s.Recorded c ↔ c ∈ handled past := by
  rw [← h.handled_iff c (by omega), SubscriptionState.Handled]
  exact ⟨.inr, fun handled => handled.resolve_left (Nat.not_le_of_lt above)⟩

end Progress

namespace SubRegistry

/-- **Progress refines the set of handled cursors.** After any run of the owner's operations, with
any cursors, floors, times and limits, and for every subscription there is: `acked` is the greatest
`k` with `1, …, k` all handled since the subscription was created, and the cursors recorded above it
are the handled ones; `acked` does not decrease while the subscription is there; and the next lease,
whatever it is given, neither hands out nor dead-letters a handled cursor. -/
theorem progress_refines_handled (ops : List OwnerOp) (name : String) (s : SubscriptionState)
    (found : (replay ops).get name = some s) :
    Watermark.IsMark (handled (history name ops)) s.acked ∧
    (∀ c, s.acked < c → (c ∈ s.ackedSet ∨ c ∈ s.dead ↔ c ∈ handled (history name ops))) ∧
    (∀ more t, OwnerOp.delete name ∉ more → (replay (ops ++ more)).get name = some t →
      s.acked ≤ t.acked) ∧
    (∀ high floor now max op out,
      (replay ops).planLease name high floor now max = some (op, out) →
      ∀ c, c ∈ out.leased.map Prod.fst ∨ c ∈ out.deadLettered → c ∉ handled (history name ops)) := by
  have progress := Progress.of_lived (lived_of_get ops found)
  refine ⟨progress.isMark, fun c above => progress.recorded_iff above, ?_, ?_⟩
  · intro more t kept later
    have grown := history_append (Option.isSome_of_eq_some found) kept
    have mark := (Progress.of_lived (lived_of_get _ later)).isMark
    refine progress.isMark.mono mark ?_
    exact fun c ⟨pos, e, mem, handles⟩ => ⟨pos, e, grown.subset mem, handles⟩
  · intro high floor now max op out plan c mem mem_handled
    obtain ⟨s', leased, dead, newAcked, there, -, planned⟩ := planned_of_planLease plan
    obtain rfl : s = s' := Option.some.inj (found.symm.trans there)
    exact (planned.fresh mem).1 ((progress.handled_iff c mem_handled.1).mpr mem_handled)

/-- A run with an acknowledgement out of order and a dead letter on each side of it: the floor walks
over all three, and the cursors are all handled. -/
theorem progress_refines_handled_run :
    Watermark.IsMark (handled (history "jobs" [.create "jobs" { maxDeliveryAttempts := 1 },
      .lease "jobs" 3 0 10 3, .ack "jobs" 2, .lease "jobs" 3 0 100 3])) 3 := by
  have there : ((replay [.create "jobs" { maxDeliveryAttempts := 1 }, .lease "jobs" 3 0 10 3,
      .ack "jobs" 2, .lease "jobs" 3 0 100 3]).get "jobs").map (·.acked) = some 3 := by
    decide +kernel
  obtain ⟨s, found, acked⟩ := Option.map_eq_some_iff.mp there
  exact acked ▸ (progress_refines_handled _ "jobs" s found).1

end SubRegistry

end CePubsub
