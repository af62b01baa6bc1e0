import CePubsub.Laws.AckBound
import CePubsub.Laws.Batch
import CePubsub.Laws.Registry

/-!
# Draining a subscription

A consumer that leases a batch, acknowledges all of it in whatever order, and leases again until
nothing comes. Every round that leases or dead-letters something finishes with one cursor more at
least, so there are no more rounds than cursors above the ack floor; when there is no more to lease,
nothing up to the high cursor is left, and the floor is there.

The last step is exact because the floor is always as far as it can be (`Tidy`), and because nothing
above the high cursor is finished with. The second is a promise of the consumer: that it acknowledges
what it was leased (`AcksLeased`).
-/

namespace CePubsub

namespace LeaseOutcome

/-- The cursors a lease is about. -/
def touched (out : LeaseOutcome) : List Nat := out.leased.map Prod.fst ++ out.deadLettered

end LeaseOutcome

namespace SubscriptionState

/-- A subscription that can be drained at `now`: nothing above `high` is finished with, retention is
not ahead of the ack floor, and every lease has expired. -/
structure Drainable (s : SubscriptionState) (high floor now : Nat) : Prop extends s.Tidy where
  within : s.Within high
  floor_le : floor ≤ s.acked
  expired : ∀ (c : Nat) (l : Lease), s.leases[c]? = some l → l.expiresAt ≤ now

/-- What is left to finish with. -/
def undone (s : SubscriptionState) (high : Nat) : List Nat :=
  (List.range' (s.acked + 1) (high - s.acked)).filter fun c => ¬ s.Handled c

/-- Undone is what the log has and the subscription has not handled. -/
theorem mem_undone {s : SubscriptionState} {high c : Nat} :
    c ∈ s.undone high ↔ c ≤ high ∧ ¬ s.Handled c := by
  rw [undone, List.mem_filter, List.mem_range'_1, decide_eq_true_eq]
  constructor
  · rintro ⟨ranged, unhandled⟩
    exact ⟨by omega, unhandled⟩
  · rintro ⟨le, unhandled⟩
    have above : s.acked < c := Nat.lt_of_not_le fun low => unhandled (.inl low)
    exact ⟨by omega, unhandled⟩

/-- Nothing is undone twice. -/
theorem nodup_undone (s : SubscriptionState) (high : Nat) : (s.undone high).Nodup :=
  List.Nodup.filter _ List.nodup_range'

/-- No more is undone than lies above the floor. -/
theorem length_undone_le (s : SubscriptionState) (high : Nat) :
    (s.undone high).length ≤ high - s.acked := by
  refine (List.length_filter_le _ _).trans ?_
  rw [List.length_range']

/-! ## Acknowledging a batch -/

section AckAll

variable (s : SubscriptionState) (acks : List Nat)

/-- Acks handle their cursors and no other. -/
theorem handled_foldl_ack (c : Nat) : (acks.foldl ack s).Handled c ↔ s.Handled c ∨ c ∈ acks := by
  induction acks generalizing s with
  | nil => simp
  | cons x acks ih =>
    rw [List.foldl_cons, ih, handled_ack, List.mem_cons]
    tauto

/-- Acks end the leases of their cursors and no other. -/
theorem leases_foldl_ack (c : Nat) :
    (acks.foldl ack s).leases[c]? = if c ∈ acks then none else s.leases[c]? := by
  induction acks generalizing s with
  | nil => simp
  | cons x acks ih =>
    rw [List.foldl_cons, ih, ack_leases, Std.ExtTreeMap.getElem?_erase]
    grind

/-- Acks never lower the floor. -/
theorem acked_le_foldl_ack : s.acked ≤ (acks.foldl ack s).acked := by
  induction acks generalizing s with
  | nil => exact Nat.le_refl _
  | cons x acks ih => exact (s.acked_le_ack x).trans (ih (s.ack x))

/-- Acks keep a subscription tidy. -/
theorem Tidy.foldl_ack {s : SubscriptionState} (h : s.Tidy) (acks : List Nat) :
    (acks.foldl SubscriptionState.ack s).Tidy := by
  induction acks generalizing s with
  | nil => exact h
  | cons x acks ih => exact ih (h.ack x)

end AckAll

/-! ## One round -/

section Round

variable {s : SubscriptionState} {high floor now newAcked : Nat} {leased : List (Nat × Nat)}
  {dead : List Nat} {out : LeaseOutcome} {acks : List Nat}

/-- A round finishes with what its lease is about. -/
theorem Drainable.handled_round (h : s.Drainable high floor now)
    (planned : s.Planned high floor now leased dead newAcked out)
    (all : acks.Perm (out.leased.map Prod.fst)) (c : Nat) :
    (acks.foldl ack (s.applyLease leased dead newAcked)).Handled c ↔ s.Handled c ∨ c ∈ out.touched := by
  have pruned : c ≤ floor → s.Handled c := fun le => .inl (Nat.le_trans le h.floor_le)
  rw [handled_foldl_ack, planned.handled_iff, all.mem_iff, LeaseOutcome.touched, List.mem_append]
  tauto

/-- A round of leasing and acking all of it can be followed by another. -/
theorem Drainable.round (h : s.Drainable high floor now)
    (planned : s.Planned high floor now leased dead newAcked out)
    (all : acks.Perm (out.leased.map Prod.fst)) :
    (acks.foldl ack (s.applyLease leased dead newAcked)).Drainable high floor now := by
  refine ⟨(h.toTidy.lease planned).foldl_ack acks, fun c handled => ?_, ?_, fun c l found => ?_⟩
  · rcases (h.handled_round planned all c).mp handled with before | touched
    · exact h.within c before
    · exact (planned.met (List.mem_append.mp touched)).1.2
  · have floors := planned.floors_le
    have raised := acked_le_foldl_ack (s.applyLease leased dead newAcked) acks
    rw [planned.acked_eq] at raised
    omega
  · rw [leases_foldl_ack] at found
    split at found
    · cases found
    · next kept =>
      have unleased : c ∉ out.leased.map Prod.fst := fun mem => kept (all.mem_iff.mpr mem)
      by_cases buried : c ∈ out.deadLettered
      · rw [(planned.of_buried buried).1] at found
        cases found
      · rw [(planned.of_other unleased buried).1] at found
        exact h.expired c l found

/-- A plan touches no cursor twice. -/
theorem Planned.nodup_touched (planned : s.Planned high floor now leased dead newAcked out) :
    out.touched.Nodup := by
  refine List.nodup_append.mpr ⟨planned.nodup_leased, planned.nodup_dead, ?_⟩
  rintro c handed d buried rfl
  obtain ⟨x, mem, rfl⟩ := List.mem_map.mp handed
  exact planned.not_dead_of_leased mem buried

/-- A round leaves less undone. -/
theorem Drainable.undone_round (h : s.Drainable high floor now)
    (planned : s.Planned high floor now leased dead newAcked out)
    (all : acks.Perm (out.leased.map Prod.fst)) {c : Nat} (touched : c ∈ out.touched) :
    ((acks.foldl ack (s.applyLease leased dead newAcked)).undone high).length + 1 ≤
      (s.undone high).length := by
  have handled := h.handled_round planned all
  have new : c ∉ (acks.foldl ack (s.applyLease leased dead newAcked)).undone high := fun mem =>
    (mem_undone.mp mem).2 ((handled c).mpr (.inr touched))
  refine (List.subperm_of_subset (List.nodup_cons.mpr ⟨new, nodup_undone _ _⟩) ?_).length_le
  intro d mem
  rcases List.mem_cons.mp mem with rfl | mem
  · have met := List.mem_append.mp touched
    exact mem_undone.mpr ⟨(planned.met met).1.2, (planned.fresh met).1⟩
  · obtain ⟨le, unhandled⟩ := mem_undone.mp mem
    exact mem_undone.mpr ⟨le, fun before => unhandled ((handled d).mpr (.inl before))⟩

/-- **Nothing to lease means nothing left**: the floor is at the high cursor, and nothing is acknowledged
above it. -/
theorem Drainable.drained (h : s.Drainable high floor now) (nothing : ¬ s.Offers high floor now) :
    s.acked = high ∧ s.ackedSet = ∅ := by
  have all : ∀ c, c ≤ high → s.Handled c := by
    intro c le
    by_contra unhandled
    have above : s.acked < c := Nat.lt_of_not_le fun low => unhandled (.inl low)
    refine nothing ⟨c, ⟨Nat.max_lt.mpr ⟨above, Nat.lt_of_le_of_lt h.floor_le above⟩, le⟩, ?_⟩
    exact (s.not_withheld_iff now c).mpr ⟨h.expired c, fun dead => unhandled (.inr (.inr dead)),
      fun acked => unhandled (.inr (.inl acked))⟩
  have acked : s.acked = high := by
    refine Nat.le_antisymm (h.within _ (.inl (Nat.le_refl _))) ?_
    by_contra low
    exact (all (s.acked + 1) (Nat.lt_of_not_le low)).elim (Nat.not_succ_le_self _) h.stops
  refine ⟨acked, Std.ExtTreeMap.eq_empty_iff_forall_not_mem.mpr fun c mem => ?_⟩
  have above := h.above c mem
  have below := h.within c (.inr (.inl mem))
  omega

/-- And so nothing undone. -/
theorem Drainable.undone_of_drained (h : s.Drainable high floor now)
    (nothing : ¬ s.Offers high floor now) (c : Nat) : c ∉ s.undone high := by
  intro mem
  obtain ⟨le, unhandled⟩ := mem_undone.mp mem
  exact unhandled (.inl (le.trans (Nat.le_of_eq (h.drained nothing).1.symm)))

/-- What is on offer is undone. -/
theorem undone_of_offers (offers : s.Offers high floor now) : ∃ c, c ∈ s.undone high := by
  obtain ⟨c, ⟨above, le⟩, free⟩ := offers
  exact ⟨c, mem_undone.mpr ⟨le, not_handled_of_not_withheld free (by omega)⟩⟩

end Round

end SubscriptionState

namespace SubRegistry

/-- Lease, apply, acknowledge what was leased in the order chosen, and go on, for up to `rounds` rounds
that lease or dead-letter something. -/
def drain (name : String) (high floor now max : Nat) (order : Nat → List Nat → List Nat) :
    Nat → SubRegistry → List LeaseOutcome × SubRegistry
  | 0, r => ([], r)
  | rounds + 1, r =>
    match r.planLease name high floor now max with
    | none => ([], r)
    | some (op, out) =>
      let acked := (order rounds (out.leased.map Prod.fst)).foldl (fun r c => r.apply (.ack name c))
        (r.apply op)
      let (outs, r) := drain name high floor now max order rounds acked
      (out :: outs, r)

/-- Acks of a subscription, seen from the registry. -/
theorem get_foldl_ack (name : String) (acks : List Nat) {r : SubRegistry} {s : SubscriptionState}
    (found : r.get name = some s) :
    (acks.foldl (fun r c => r.apply (.ack name c)) r).get name =
      some (acks.foldl SubscriptionState.ack s) := by
  induction acks generalizing r s with
  | nil => exact found
  | cons c acks ih =>
    refine ih (r := r.apply (.ack name c)) ?_
    rw [apply, get_modify, if_pos rfl, found]
    rfl

/-- **Draining ends**, with as many rounds as there are cursors left to finish with: then there is no
plan, the subscription is drained, and the rounds were about each of those cursors once and about
no other. -/
theorem drain_spec {name : String} {high floor now max : Nat} (pos : 1 ≤ max)
    {order : Nat → List Nat → List Nat} (all : ∀ n l, (order n l).Perm l) (rounds : Nat)
    {r : SubRegistry} {s : SubscriptionState} (found : r.get name = some s)
    (h : s.Drainable high floor now) (enough : (s.undone high).length ≤ rounds) :
    ∃ s', (drain name high floor now max order rounds r).2.get name = some s' ∧
      s'.Drainable high floor now ∧ ¬ s'.Offers high floor now ∧
      ((drain name high floor now max order rounds r).1.flatMap LeaseOutcome.touched).Nodup ∧
      ∀ c, c ∈ (drain name high floor now max order rounds r).1.flatMap LeaseOutcome.touched ↔
        c ∈ s.undone high := by
  induction rounds generalizing r s with
  | zero =>
    have nothing : ¬ s.Offers high floor now := by
      intro offers
      obtain ⟨c, mem⟩ := SubscriptionState.undone_of_offers offers
      rw [List.length_eq_zero_iff.mp (Nat.le_zero.mp enough)] at mem
      cases mem
    refine ⟨s, found, h, nothing, List.nodup_nil, fun c => ?_⟩
    exact iff_of_false List.not_mem_nil (h.undone_of_drained nothing c)
  | succ rounds ih =>
    rw [drain]
    have plan_eq := planLease_of_get found high floor now max
    cases plan : r.planLease name high floor now max with
    | none =>
      have nothing := (s.planLease_eq_none_iff name high floor now pos).mp (plan_eq.symm.trans plan)
      refine ⟨s, found, h, nothing, List.nodup_nil, fun c => ?_⟩
      exact iff_of_false List.not_mem_nil (h.undone_of_drained nothing c)
    | some planned =>
      obtain ⟨op, out⟩ := planned
      have planLeased := plan_eq.symm.trans plan
      obtain ⟨c₀, touched₀⟩ := SubscriptionState.nonempty_of_planLease planLeased
      obtain ⟨leased, dead, newAcked, rfl, planned⟩ := SubscriptionState.planned_of_planLease planLeased
      have acks := all rounds (out.leased.map Prod.fst)
      have applied : (r.apply (.applyLease name leased dead newAcked)).get name =
          some (s.applyLease leased dead newAcked) := by
        rw [apply, get_modify, if_pos rfl, found]
        rfl
      have less := h.undone_round planned acks (List.mem_append.mpr touched₀)
      have handled := h.handled_round planned acks
      obtain ⟨s', there, drainable, nothing, nodup, about⟩ :=
        ih (get_foldl_ack name _ applied) (h.round planned acks) (by omega)
      refine ⟨s', there, drainable, nothing, ?_, fun c => ?_⟩
      · rw [List.flatMap_cons]
        refine List.nodup_append.mpr ⟨planned.nodup_touched, nodup, ?_⟩
        rintro c now d later rfl
        exact (SubscriptionState.mem_undone.mp ((about c).mp later)).2 ((handled c).mpr (.inr now))
      · rw [List.flatMap_cons, List.mem_append, about, SubscriptionState.mem_undone, handled,
          SubscriptionState.mem_undone]
        constructor
        · rintro (touched | ⟨le, unhandled⟩)
          · have met := List.mem_append.mp touched
            exact ⟨(planned.met met).1.2, (planned.fresh met).1⟩
          · exact ⟨le, fun before => unhandled (.inl before)⟩
        · rintro ⟨le, unhandled⟩
          by_cases touched : c ∈ out.touched
          · exact .inl touched
          · exact .inr ⟨le, fun done => done.elim unhandled touched⟩

/-- A drain takes no more rounds than it is given. -/
theorem length_drain_le (name : String) (high floor now max : Nat) (order : Nat → List Nat → List Nat)
    (rounds : Nat) (r : SubRegistry) :
    (drain name high floor now max order rounds r).1.length ≤ rounds := by
  induction rounds generalizing r with
  | zero => exact Nat.le_refl 0
  | succ rounds ih =>
    rw [drain]
    cases r.planLease name high floor now max with
    | none => exact Nat.zero_le _
    | some planned => exact Nat.succ_le_succ (ih _)

end SubRegistry

namespace Topic

variable {Link : Type} (host : Host Link)

/-- What an input leases, and to which subscription. -/
def handsOut (t : Topic) : Input → List (String × Nat)
  | .control node payloadHex requester now =>
    match decodeControl host payloadHex with
    | .ok (.pull name maxMessages grant) =>
      match t.gate host node requester abilitySubscribe grant now, node.commitSubs,
        t.subs.planLease name t.writer.highCursor t.writer.floor now maxMessages with
      | .ok (), .ok (), some (_, out) => out.leased.map fun x => (name, x.1)
      | _, _, _ => []
    | _ => []
  | _ => []

/-- A topic, with everything it has leased so far. -/
def tally : Topic × List (String × Nat) → Input → Topic × List (String × Nat)
  | (t, given), i => (t.step host i, given ++ t.handsOut host i)

/-- The tally follows the run of the topic. -/
theorem run_tally (t : Topic) (inputs : List Input) :
    (Run.run (tally host) (t, []) inputs).1 = Run.run (Topic.step host) t inputs :=
  Run.run_simulation (R := fun (a : Topic × List (String × Nat)) t => a.1 = t)
    (fun _ _ i eq => congrArg (Topic.step host · i) eq) rfl inputs

/-- An ack that takes effect names a cursor that has been leased to that subscription. -/
def AcksLeased (a : Topic × List (String × Nat)) : Input → Prop
  | .control node payloadHex requester now => ∀ name cursor grant,
      decodeControl host payloadHex = .ok (.ack name cursor grant) →
      a.1.gate host node requester abilitySubscribe grant now = .ok () →
      (a.1.subs.get name).isSome → node.commitSubs = .ok () → (name, cursor) ∈ a.2
  | _ => True

/-- What is leased has been assigned. -/
theorem le_of_handsOut {t : Topic} {i : Input} {p : String × Nat} (mem : p ∈ t.handsOut host i) :
    p.2 ≤ t.highCursor := by
  cases i with
  | control node payloadHex requester now =>
    rw [handsOut] at mem
    cases decoded : decodeControl host payloadHex with
    | error e =>
      rw [decoded] at mem
      cases mem
    | ok req =>
      rw [decoded] at mem
      cases req with
      | pull name maxMessages grant =>
        simp only at mem
        split at mem
        · next out _ _ plan =>
          obtain ⟨x, given, rfl⟩ := List.mem_map.mp mem
          obtain ⟨s, leased, dead, newAcked, -, -, planned⟩ := SubRegistry.planned_of_planLease plan
          exact (planned.of_leased x given).2.1
        · cases mem
      | highCursor | createSubscription | deleteSubscription | listSubscriptions | ack | nack =>
        cases mem
  | publish | publishWith | pruneTo | ingest | requirePublishCap | acceptRoot => cases mem

/-- No input lowers the high cursor. -/
theorem highCursor_le_step (t : Topic) (i : Input) : t.highCursor ≤ (t.step host i).highCursor := by
  rcases t.step_cases host i with advances | ⟨_, _, _, _, _, -, -, -, serves⟩
  · exact advances.high
  · rw [highCursor, highCursor, serves.untouched.writer]

/-- What a consumer that acknowledges what it was leased keeps true. -/
structure Accounted (a : Topic × List (String × Nat)) : Prop where
  given : ∀ p ∈ a.2, p.2 ≤ a.1.highCursor
  acks : a.1.AcksWithin
  tidy : a.1.Tidy

/-- One more input, acking nothing but what was leased. -/
theorem accounted_tally {a : Topic × List (String × Nat)} (h : Accounted a) {i : Input}
    (leased : AcksLeased host a i) : Accounted (tally host a i) := by
  obtain ⟨t, given⟩ := a
  refine ⟨fun p mem => ?_, acksWithin_step host h.acks ?_, tidy_step host h.tidy i⟩
  · refine Nat.le_trans ?_ (highCursor_le_step host t i)
    rcases List.mem_append.mp mem with before | now
    · exact h.given p before
    · exact le_of_handsOut host now
  · cases i with
    | control node payloadHex requester now =>
      intro name cursor grant decoded admitted there commit
      exact h.given _ (leased name cursor grant decoded admitted there commit)
    | publish | publishWith | pruneTo | ingest | requirePublishCap | acceptRoot => trivial

/-- **Leasing and acknowledging drains a subscription**, in every state an owner reaches whose consumers
acknowledge what they were leased, at every time all leases have expired, whatever the size of a batch
and the order of the acks in a round, if retention is not ahead of the ack floor: after at most as many
rounds as there are cursors above the floor there is no plan; each of these cursors not finished with
has been leased and acknowledged once, or dead-lettered once, and no other was touched; the floor is at
the high cursor, and nothing is acknowledged out of order. -/
theorem drain_reaches_high (nodeId topic : String) (t₀ : Topic)
    (new : Topic.create nodeId topic = .ok t₀) (inputs : List Input) (t : Topic)
    (given : List (String × Nat)) (reached : Run.run (tally host) (t₀, []) inputs = (t, given))
    (honest : Run.Along (tally host) (AcksLeased host) (t₀, []) inputs) (name : String)
    (s : SubscriptionState) (found : t.subs.get name = some s) (max now : Nat) (pos : 1 ≤ max)
    (expired : ∀ (c : Nat) (l : Lease), s.leases[c]? = some l → l.expiresAt ≤ now)
    (floor_le : t.writer.floor ≤ s.acked) (order : Nat → List Nat → List Nat)
    (all : ∀ n l, (order n l).Perm l) :
    ∃ outs r s', SubRegistry.drain name t.highCursor t.writer.floor now max order
        (t.highCursor - s.acked) t.subs = (outs, r) ∧
      outs.length ≤ t.highCursor - s.acked ∧
      r.planLease name t.highCursor t.writer.floor now max = none ∧
      (outs.flatMap LeaseOutcome.touched).Nodup ∧
      (∀ c, c ∈ outs.flatMap LeaseOutcome.touched ↔
        (s.acked < c ∧ c ≤ t.highCursor) ∧ c ∉ s.ackedSet ∧ c ∉ s.dead) ∧
      r.get name = some s' ∧ s'.acked = t.highCursor ∧ s'.ackedSet = ∅ := by
  have accounted : Accounted (t, given) := by
    rw [← reached]
    refine Run.run_invariant_along (P := Accounted) (fun _ _ h leased => accounted_tally host h leased)
      ?_ honest
    rw [eq_of_create new]
    refine ⟨fun p mem => absurd mem List.not_mem_nil, ?_, tidy_create nodeId topic⟩
    rintro name s ⟨⟩
  have drainable : s.Drainable t.highCursor t.writer.floor now :=
    ⟨accounted.tidy name s found, accounted.acks name s found, floor_le, expired⟩
  obtain ⟨s', there, drained, nothing, nodup, about⟩ :=
    SubRegistry.drain_spec pos all (t.highCursor - s.acked) found drainable (s.length_undone_le _)
  refine ⟨_, _, s', rfl, SubRegistry.length_drain_le _ _ _ _ _ _ _ _, ?_, nodup, fun c => ?_, there,
    drained.drained nothing⟩
  · rw [SubRegistry.planLease_of_get there]
    exact (s'.planLease_eq_none_iff name _ _ now pos).mpr nothing
  · rw [about, SubscriptionState.mem_undone, SubscriptionState.Handled]
    constructor
    · rintro ⟨le, unhandled⟩
      obtain ⟨above, unrecorded⟩ := not_or.mp unhandled
      exact ⟨⟨Nat.lt_of_not_le above, le⟩, not_or.mp unrecorded⟩
    · rintro ⟨⟨above, le⟩, unacked, alive⟩
      exact ⟨le, not_or.mpr ⟨Nat.not_le_of_lt above, not_or.mpr ⟨unacked, alive⟩⟩⟩

section

open Orders

/-- A subscription is created and two messages are published. -/
private def choresInputs : List Input :=
  [asks subscribing 10, .publish {} [104, 105] 11, .publish {} [104, 105] 12]

/-- A topic with two messages and a subscription that has seen neither. -/
private def chores : Topic := (published.publish {} [104, 105] 12).2

private theorem run_chores : Run.run (Topic.step Host.compact) orders choresInputs = chores := by
  rw [choresInputs, Run.run_cons, step_subscribing, Run.run_cons, step_publishing, Run.run_cons, step,
    Run.run_nil, chores]

/-- A new subscription with two messages to see, drained one at a time. -/
theorem drain_reaches_high_one_by_one :
    ∃ outs r, SubRegistry.drain "jobs" 2 0 100 1 (fun _ l => l.reverse) 2 chores.subs = (outs, r) ∧
      r.planLease "jobs" 2 0 100 1 = none := by
  have reached := run_tally Host.compact orders choresInputs
  rw [run_chores] at reached
  have honest : Run.Along (tally Host.compact) (AcksLeased Host.compact) (orders, []) choresInputs := by
    refine ⟨?_, trivial, trivial, trivial⟩
    intro name cursor grant decoded
    rw [decode_asks size_subscribing] at decoded
    cases decoded
  have found : chores.subs.get "jobs" = some {} := by decide
  have unpruned : chores.writer.floor ≤ 0 := by decide
  generalize ran : Run.run (tally Host.compact) (orders, []) choresInputs = tallied at reached
  obtain ⟨t, given⟩ := tallied
  obtain rfl : t = chores := reached
  obtain ⟨outs, r, s', drained, -, idle, -⟩ := drain_reaches_high Host.compact "aa" "orders" _ created
    choresInputs chores given ran honest "jobs" {} found 1 100 (by decide)
    (fun c l lease => by cases lease) unpruned (fun _ l => l.reverse) fun _ l => l.reverse_perm
  exact ⟨outs, r, drained, idle⟩

end

end Topic

end CePubsub
