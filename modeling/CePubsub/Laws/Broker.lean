import CePubsub.Broker
import CePubsub.Laws.Batch
import CePubsub.Laws.Live
import CePubsub.Lib.MapRel

/-!
# The owner is a broker

The owner keeps an ack floor, two sets above it, a map of leases and a map of counts; the broker a set
of settled cursors and two functions. `Stands` says when the one stands for the other, and it speaks of
retained cursors only: of a pruned one nothing can be told any more, and no pull looks at it.
`Represents` is the same for a topic as a whole.

Every call is answered alike and leaves what it should (`Represents.serve`).
-/

namespace CePubsub

open SubscriptionState

/-- **The representation of a subscription**, above the retention floor: the same policy and the same
cursors settled, and of one that is not, the same times at which it is to be had and the same
number on its next delivery. -/
structure Broker.Stands (floor : Nat) (s : SubscriptionState) (q : Broker.Sub) : Prop where
  policy : s.policy = q.policy
  settled : ∀ c, floor < c → (s.Handled c ↔ c ∈ q.queue.settled)
  back : ∀ c, floor < c → c ∉ q.queue.settled → ∀ now,
    ((∀ l, s.leases[c]? = some l → l.expiresAt ≤ now) ↔
      ∀ e, q.queue.leasedUntil c = some e → e ≤ now)
  counted : ∀ c, floor < c → c ∉ q.queue.settled → s.nextAttempt c = q.attempt c

namespace Broker.Stands

variable {floor : Nat} {s : SubscriptionState} {q : Broker.Sub}

/-- A new subscription stands for a new one. -/
theorem new (floor : Nat) (policy : SubscriptionPolicy) :
    Stands floor { policy } { policy } where
  policy := rfl
  settled c above := by
    refine iff_of_false ?_ (Set.notMem_empty c)
    rintro (low | acked | dead)
    · exact absurd (Nat.lt_of_lt_of_le above low) (Nat.not_lt_zero floor)
    · exact Std.ExtTreeMap.not_mem_empty acked
    · exact Std.ExtTreeMap.not_mem_empty dead
  back c _ _ now := by
    refine iff_of_true (fun l found => ?_) nofun
    rw [Std.ExtTreeMap.getElem?_empty] at found
    cases found
  counted c _ _ := by
    rw [nextAttempt, Std.ExtTreeMap.getElem?_empty]
    rfl

/-- Another policy may be given on both sides. -/
theorem withPolicy (h : Stands floor s q) (policy : SubscriptionPolicy) :
    Stands floor { s with policy } { q with policy } :=
  ⟨rfl, h.settled, h.back, h.counted⟩

/-- A prune leaves less to tell. -/
theorem mono (h : Stands floor s q) {floor' : Nat} (le : floor ≤ floor') : Stands floor' s q :=
  ⟨h.policy, fun c above => h.settled c (Nat.lt_of_le_of_lt le above),
    fun c above => h.back c (Nat.lt_of_le_of_lt le above),
    fun c above => h.counted c (Nat.lt_of_le_of_lt le above)⟩

/-- An ack settles the cursor. -/
theorem ack (h : Stands floor s q) (x : Nat) :
    Stands floor (s.ack x) { q with queue := q.queue.settle {x} } where
  policy := (s.ack_policy x).trans h.policy
  settled c above := by
    rw [s.handled_ack, h.settled c above]
    rfl
  back c above free now := by
    obtain ⟨free, ne⟩ := not_or.mp free
    rw [s.ack_leases, Std.ExtTreeMap.getElem?_erase,
      if_neg fun same => ne (Std.compare_eq_iff_eq.mp same).symm]
    exact h.back c above free now
  counted c above free := by
    obtain ⟨free, ne⟩ := not_or.mp free
    rw [nextAttempt, s.ack_attempts, Std.ExtTreeMap.getElem?_erase,
      if_neg fun same => ne (Std.compare_eq_iff_eq.mp same).symm]
    exact h.counted c above free

/-- A nack releases it. -/
theorem nack (h : Stands floor s q) (x : Nat) :
    Stands floor (s.nack x) { q with queue := q.queue.release x } where
  policy := h.policy
  settled c above := h.settled c above
  back c above free now := by
    by_cases same : c = x
    · subst same
      refine iff_of_true (fun l found => ?_) fun e lent => ?_
      · rw [SubscriptionState.nack, Std.ExtTreeMap.getElem?_modify, if_pos Std.ReflCmp.compare_self,
          Option.map_eq_some_iff] at found
        obtain ⟨before, -, rfl⟩ := found
        exact Nat.zero_le now
      · have back := q.queue.leasedUntil_release_self c
        rw [show (q.queue.release c).leasedUntil c = some e from lent] at back
        cases back
    · show _ ↔ ∀ e, (q.queue.release x).leasedUntil c = some e → e ≤ now
      rw [s.nack_leases_of_ne same, q.queue.leasedUntil_release_of_ne same]
      exact h.back c above free now
  counted c above free := h.counted c above free

/-! ### What a pull finds -/

/-- The scan passes over a cursor exactly if it is not to be had. -/
theorem free_iff (h : Stands floor s q) (now : Nat) {c : Nat} (above : floor < c) :
    max s.acked floor < c ∧ s.withheld now c = false ↔ q.queue.Free now c := by
  rw [s.not_withheld_iff, LeaseQueue.Free]
  by_cases settled : c ∈ q.queue.settled
  · refine iff_of_false ?_ fun free => free.1 settled
    rintro ⟨high, -, alive, unacked⟩
    rcases (h.settled c above).mpr settled with low | acked | dead
    · omega
    · exact unacked acked
    · exact alive dead
  · have open_ := mt (h.settled c above).mp settled
    rw [← h.back c above settled, and_iff_right settled]
    refine ⟨fun both => both.2.1, fun expired => ⟨?_, expired, ?_, ?_⟩⟩
    · have := Nat.lt_of_not_le fun low => open_ (.inl low)
      omega
    · exact fun dead => open_ (.inr (.inr dead))
    · exact fun acked => open_ (.inr (.inl acked))

/-- The retained cursors to be had are those the scan does not pass over. -/
theorem eligible_eq (h : Stands floor s q) (high now : Nat) :
    s.eligible high floor now = q.queue.offered now (List.range' (floor + 1) (high - floor)) := by
  refine List.Perm.eq_of_pairwise (fun a b _ _ lt gt => ?_)
    (s.pairwise_eligible high floor now) (List.Pairwise.filter _ List.pairwise_lt_range') ?_
  · exact absurd lt (Nat.lt_asymm gt)
  · have nodup : (q.queue.offered now (List.range' (floor + 1) (high - floor))).Nodup :=
      List.Nodup.filter _ List.nodup_range'
    rw [List.perm_ext_iff_of_nodup ((s.pairwise_eligible high floor now).imp Nat.ne_of_lt) nodup]
    intro c
    rw [LeaseQueue.mem_offered, List.mem_range'_1, eligible, List.mem_filter, List.mem_range'_1,
      Bool.not_eq_true']
    constructor
    · rintro ⟨ranged, free⟩
      exact ⟨by omega, (h.free_iff now (by omega)).mp ⟨by omega, free⟩⟩
    · rintro ⟨ranged, free⟩
      obtain ⟨above, free⟩ := (h.free_iff now (c := c) (by omega)).mpr free
      exact ⟨by omega, free⟩

/-- Past the floor the attempts of a cursor are spent on both sides. -/
theorem exhausted_iff (h : Stands floor s q) {c : Nat} (above : floor < c)
    (free : c ∉ q.queue.settled) : s.exhausted c = true ↔ q.Spent c := by
  simp only [exhausted, Sub.Spent, Bool.and_eq_true, bne_iff_ne, decide_eq_true_eq,
    h.counted c above free, h.policy]

/-- What the scan is made over, and what is to be had. -/
theorem filter_free (s : SubscriptionState) (high floor now : Nat) (p : Nat → Bool) :
    (List.range' (max s.acked floor + 1) (high - max s.acked floor)).filter
        (fun c => !s.withheld now c && p c) = (s.eligible high floor now).filter p := by
  rw [eligible, List.filter_filter]
  exact List.filter_congr fun c _ => Bool.and_comm _ _

/-- So they are for every cursor on offer. -/
theorem exhausted_of_offered (h : Stands floor s q) {high now c : Nat}
    (mem : c ∈ q.queue.offered now (List.range' (floor + 1) (high - floor))) :
    s.exhausted c = true ↔ q.Spent c := by
  obtain ⟨ranged, free, -⟩ := LeaseQueue.mem_offered.mp mem
  have := (List.mem_range'_1.mp ranged).1
  exact h.exhausted_iff (by omega) free

open Classical in
/-- **A pull hands out what the broker takes.** -/
theorem leasedOut_eq (h : Stands floor s q) (high now maxMessages : Nat) :
    (s.planScan high floor now maxMessages).leasedOut =
      (q.queue.taken now (List.range' (floor + 1) (high - floor)) q.Spent
        (min maxMessages maxLeaseBatch)).map fun c => (c, q.attempt c) := by
  have given : (List.range' (max s.acked floor + 1) (high - max s.acked floor)).filter
      (s.deliverable now) = (q.queue.offered now (List.range' (floor + 1) (high - floor))).filter
        fun c => ¬ q.Spent c := by
    rw [← h.eligible_eq, show s.deliverable now = fun c => !s.withheld now c && !s.exhausted c from rfl,
      filter_free, h.eligible_eq]
    refine List.filter_congr fun c mem => ?_
    rw [Bool.eq_iff_iff, Bool.not_eq_true', decide_eq_true_iff, ← h.exhausted_of_offered mem,
      Bool.not_eq_true]
  rw [planScan, scan_leasedOut, given]
  refine List.map_congr_left fun c mem => ?_
  obtain ⟨ranged, free, -⟩ := LeaseQueue.mem_offered.mp (LeaseQueue.offered_of_mem_taken mem)
  have := (List.mem_range'_1.mp ranged).1
  rw [h.counted c (by omega) free]

open Classical in
/-- **And dead-letters what the broker gives up.** -/
theorem dead_eq (h : Stands floor s q) (high now maxMessages : Nat) :
    (s.planScan high floor now maxMessages).dead =
      q.queue.givenUp now (List.range' (floor + 1) (high - floor)) q.Spent
        (min maxMessages maxLeaseBatch) := by
  have poisoned : ∀ p : Nat → Bool,
      (List.range' (max s.acked floor + 1) (high - max s.acked floor)).filter
        (fun c => s.poisoned now c && p c) =
      (q.queue.offered now (List.range' (floor + 1) (high - floor))).filter
        fun c => decide (q.Spent c) && p c := by
    intro p
    rw [← h.eligible_eq, show (fun c => s.poisoned now c && p c) =
      fun c => !s.withheld now c && (s.exhausted c && p c) from
        funext fun c => Bool.and_assoc _ _ _, filter_free, h.eligible_eq]
    refine List.filter_congr fun c mem => ?_
    rw [Bool.eq_iff_iff, Bool.and_eq_true, Bool.and_eq_true, h.exhausted_of_offered mem,
      decide_eq_true_iff]
  have length := congrArg List.length (h.leasedOut_eq high now maxMessages)
  rw [List.length_map] at length
  rcases Nat.eq_zero_or_pos (min maxMessages maxLeaseBatch) with none | pos
  · rw [planScan, none, scan_of_full _ _ _ _ _ _ (Nat.lt_irrefl 0), LeaseQueue.givenUp_zero]
  by_cases room : (s.planScan high floor now maxMessages).leasedOut.length <
      min maxMessages maxLeaseBatch
  · have all := poisoned fun _ => true
    simp only [Bool.and_true] at all
    rw [LeaseQueue.givenUp_of_room (by rwa [← length]), planScan,
      scan_dead_of_room s now _ _ _ _ room]
    exact all
  · obtain ⟨last, is, dead⟩ := scan_dead_of_full s now (s.expiry now) pos (Nat.le_of_not_lt room)
    have taken : (s.planScan high floor now maxMessages).leasedOut.map Prod.fst =
        q.queue.taken now (List.range' (floor + 1) (high - floor)) q.Spent
          (min maxMessages maxLeaseBatch) := by
      rw [h.leasedOut_eq, List.map_map]
      exact List.map_id _
    have full : (q.queue.taken now (List.range' (floor + 1) (high - floor)) q.Spent
        (min maxMessages maxLeaseBatch)).length = min maxMessages maxLeaseBatch :=
      Nat.le_antisymm (List.length_take_le _ _) (by rw [← length]; exact Nat.le_of_not_lt room)
    rw [LeaseQueue.givenUp_of_full List.pairwise_lt_range' full (taken ▸ is), planScan, dead,
      poisoned]
    refine List.filter_congr fun c _ => ?_
    rw [Bool.decide_and]

/-- **A committed lease** is a pull of the broker's. -/
theorem lease (h : Stands floor s q) {high now newAcked : Nat} {leased : List (Nat × Nat)}
    {dead : List Nat} {out : LeaseOutcome}
    (planned : s.Planned high floor now leased dead newAcked out) {delivered : List Nat}
    (given : out.leased = delivered.map fun c => (c, q.attempt c)) :
    Stands floor (s.applyLease leased dead newAcked) (q.pulled delivered out.deadLettered now) := by
  have handed : out.leased.map Prod.fst = delivered := by
    rw [given, List.map_map]
    exact List.map_id _
  refine ⟨planned.policy_eq.trans h.policy, fun c above => ?_, fun c above free now' => ?_,
    fun c above free => ?_⟩
  · rw [planned.handled_iff, h.settled c above, or_iff_left (Nat.not_le_of_lt above)]
    rfl
  · obtain ⟨free, alive⟩ := not_or.mp free
    show _ ↔ ∀ e, ((q.queue.settle _).lend delivered _).leasedUntil c = some e → e ≤ now'
    rw [LeaseQueue.leasedUntil_lend]
    split
    · next mem =>
      have entry : (c, q.attempt c) ∈ out.leased := by
        rw [given]
        exact List.mem_map_of_mem mem
      rw [(planned.of_handed entry).1, expiry, h.policy]
      constructor
      · rintro expired e ⟨⟩
        exact expired _ rfl
      · rintro expired l ⟨⟩
        exact expired _ rfl
    · next absent =>
      rw [(planned.of_other (by rwa [handed]) alive).1]
      exact h.back c above free now'
  · obtain ⟨free, alive⟩ := not_or.mp free
    show _ = UInt32.ofNat (((q.queue.settle _).lend delivered _).lent c + 1)
    rw [LeaseQueue.lent_lend]
    split
    · next mem =>
      have entry : (c, q.attempt c) ∈ out.leased := by
        rw [given]
        exact List.mem_map_of_mem mem
      rw [nextAttempt, (planned.of_handed entry).2, LeaseQueue.lent_settle, UInt32.ofNat_add _ 1]
      rfl
    · next absent =>
      rw [nextAttempt, (planned.of_other (by rwa [handed]) alive).2]
      exact h.counted c above free

end Broker.Stands

/-- **The representation of a topic**: the log is the journal, the registry the subscriptions, and what
was broadcast is what was broadcast. -/
structure Broker.Represents (t : Topic) (b : Broker) : Prop where
  log : t.writer.Represents b.log
  subs : MapRel (Broker.Stands b.log.floor) t.subs.subs b.subs
  live : t.streams.getD (streamName t.topic t.nodeId) [] = b.live
  dead : t.streams.getD (streamName (deadLetterTopic t.topic) t.nodeId) [] = b.dead

namespace Broker.Represents

open Topic

variable {t : Topic} {b : Broker}

/-- A new topic is the broker nothing was published to. -/
theorem new {nodeId topic : String} {t : Topic} (new : Topic.create nodeId topic = .ok t) :
    Represents t {} := by
  obtain rfl := eq_of_create new
  exact ⟨TopicLog.represents_empty, .empty, Std.ExtTreeMap.getD_empty, Std.ExtTreeMap.getD_empty⟩

theorem get_eq (h : Represents t b) : t.writer.get = b.log.get := funext h.log.get

/-- A subscription of the broker is one of the topic. -/
theorem found_some (h : Represents t b) {name : String} {q : Sub} (found : b.subs[name]? = some q) :
    ∃ s, t.subs.get name = some s ∧ Stands b.log.floor s q := by
  cases there : t.subs.subs[name]? with
  | none =>
    rw [h.subs.get_none there] at found
    cases found
  | some s =>
    obtain ⟨q', found', stands⟩ := h.subs.get_some there
    obtain rfl := Option.some.inj (found.symm.trans found')
    exact ⟨s, there, stands⟩

/-- The topic has no others. -/
theorem found_none (h : Represents t b) {name : String} (absent : b.subs[name]? = none) :
    t.subs.get name = none := by
  cases there : t.subs.subs[name]? with
  | none => exact there
  | some s =>
    obtain ⟨q, found, -⟩ := h.subs.get_some there
    cases found.symm.trans absent

/-- The names of the live stream and of the dead-letter stream differ. -/
theorem streams_differ (topic owner : String) :
    streamName topic owner ≠ streamName (deadLetterTopic topic) owner := by
  intro same
  have size := congrArg String.utf8ByteSize same
  simp only [streamName_eq, String.utf8ByteSize_append, size_deadLetterTopic] at size
  omega

/-- A change of the registry alone. -/
theorem withSubs (h : Represents t b) {subs : SubRegistry} {subs' : BTreeMap String Sub}
    (related : MapRel (Stands b.log.floor) subs.subs subs') :
    Represents { t with subs } { b with subs := subs' } :=
  ⟨h.log, related, h.live, h.dead⟩

/-! ### Publishes and prunes -/

/-- A message goes out live on both sides. -/
theorem broadcast (h : Represents t b) (m : Message) :
    Represents (t.broadcast (streamName t.topic t.nodeId) m) { b with live := b.live ++ [m] } := by
  have heard := fun name => streams_broadcasts t (streamName t.topic t.nodeId) name [m]
  have differ := (streams_differ t.topic t.nodeId).symm
  refine ⟨h.log, h.subs, (heard (streamName t.topic t.nodeId)).trans ?_,
    (heard (streamName (deadLetterTopic t.topic) t.nodeId)).trans ?_⟩
  · rw [if_pos rfl, h.live]
  · rw [if_neg differ, List.append_nil, h.dead]

/-- A message is logged on both sides. -/
theorem append (h : Represents t b) (msg : Message) :
    Represents { t with writer := t.writer.apply (.append msg) }
      { b with log := b.log.append { msg with cursor := b.log.high + 1 } } :=
  ⟨h.log.append msg, h.subs, h.live, h.dead⟩

/-- The owner's publish, appended and sent out on both sides. -/
theorem publish (h : Represents t b) (node : Answers) (msg : Message) :
    (t.serve (.publish node msg)).1 = (b.serve (.publish node msg)).1 ∧
      Represents (t.serve (.publish node msg)).2 (b.serve (.publish node msg)).2 := by
  have next : t.writer.nextCursor = b.log.high + 1 := by rw [TopicLog.nextCursor, h.log.highCursor]
  rw [Topic.serve, Broker.serve, appendAndFanout, next]
  cases node.commitLog with
  | error e => exact ⟨rfl, h⟩
  | ok u =>
    have appended := h.append { msg with cursor := b.log.high + 1 }
    cases node.live with
    | false => exact ⟨rfl, appended⟩
    | true => exact ⟨rfl, appended.broadcast { msg with cursor := b.log.high + 1 }⟩

/-- A prune on both sides. -/
theorem prune (h : Represents t b) (node : Answers) (upTo : Nat) :
    (t.serve (.prune node upTo)).1 = (b.serve (.prune node upTo)).1 ∧
      Represents (t.serve (.prune node upTo)).2 (b.serve (.prune node upTo)).2 := by
  rw [Topic.serve, Broker.serve, pruneTo]
  cases node.commitLog with
  | error e => exact ⟨rfl, h⟩
  | ok u =>
    refine ⟨rfl, h.log.pruneTo upTo, h.subs.mono fun s q stands => stands.mono ?_, h.live, h.dead⟩
    exact Nat.le_max_left _ _

/-! ### Control requests -/

/-- A proposal to the registry that the broker makes, too. -/
theorem propose (h : Represents t b) (node : Answers) (what : String) {op : SubOp}
    {subs' : BTreeMap String Sub} (related : MapRel (Stands b.log.floor) (t.subs.apply op).subs subs') :
    (t.proposeSubs node what op).1 = (b.commit node what { b with subs := subs' }).1 ∧
      Represents (t.proposeSubs node what op).2 (b.commit node what { b with subs := subs' }).2 := by
  rw [proposeSubs, Broker.commit]
  cases node.commitSubs with
  | error e => exact ⟨rfl, h⟩
  | ok u => exact ⟨rfl, h.withSubs related⟩

/-- A subscription is created on both sides, or refused for the same reason. -/
theorem create (h : Represents t b) (node : Answers) (now : Nat) (name : String)
    (policy : SubscriptionPolicy) (grant : Option String) :
    (t.serveControl node now (.createSubscription name policy grant)).1 =
        (b.control node now (.createSubscription name policy grant)).1 ∧
      Represents (t.serveControl node now (.createSubscription name policy grant)).2
        (b.control node now (.createSubscription name policy grant)).2 := by
  rw [serveControl, Broker.control]
  cases policy.validate with
  | error e => exact ⟨rfl, h⟩
  | ok u =>
    cases validateTopic name with
    | error e => exact ⟨rfl, h⟩
    | ok u =>
      have full : t.subs.atCapacity name = true ↔ name ∉ b.subs ∧ maxSubscriptions ≤ b.subs.size := by
        rw [SubRegistry.atCapacity, Bool.and_eq_true, Bool.not_eq_true', decide_eq_true_iff,
          ← h.subs.mem_iff, ← h.subs.size_eq, ge_iff_le, ← Bool.not_eq_true,
          Std.ExtTreeMap.contains_iff_mem]
      simp only
      by_cases limit : name ∉ b.subs ∧ maxSubscriptions ≤ b.subs.size
      · rw [if_pos limit, if_pos (full.mpr limit)]
        exact ⟨rfl, h⟩
      · rw [if_neg limit, if_neg (mt full.mp limit)]
        refine h.propose node "create" (h.subs.insert ?_ name)
        cases there : t.subs.subs[name]? with
        | none =>
          rw [h.subs.get_none there]
          exact Stands.new b.log.floor policy
        | some s =>
          obtain ⟨q, found, stands⟩ := h.subs.get_some there
          rw [found]
          exact stands.withPolicy policy

/-- An ack or a nack, on a subscription there is. -/
theorem update (h : Represents t b) (node : Answers) (what name : String) {op : SubOp}
    {f : SubscriptionState → SubscriptionState} {g : Sub → Sub}
    (applies : (t.subs.apply op).subs = t.subs.subs.modify name f)
    (keeps : ∀ s q, Stands b.log.floor s q → Stands b.log.floor (f s) (g q)) :
    let served := if (t.subs.get name).isNone then
        (ControlReply.rejected s!"no such subscription '{name}'", t)
      else t.proposeSubs node what op
    let served' := match b.subs[name]? with
      | none => (ControlReply.rejected s!"no such subscription '{name}'", b)
      | some q => b.commit node what { b with subs := b.subs.insert name (g q) }
    served.1 = served'.1 ∧ Represents served.2 served'.2 := by
  cases found : b.subs[name]? with
  | none =>
    rw [h.found_none found]
    exact ⟨rfl, h⟩
  | some q =>
    obtain ⟨s, there, stands⟩ := h.found_some found
    rw [there]
    refine h.propose node what ?_
    rw [applies]
    exact h.subs.modify there (keeps s q stands)

/-- Routing dead letters, none of them among them. -/
theorem route (h : Represents t b) (node : Answers) (buried : List Nat) :
    Represents (if buried.isEmpty then t else t.routeDeadLetters node buried)
      { b with
        dead :=
          if node.deadLetterStream then b.dead ++ (b.messages buried).filter node.deadLetter
          else b.dead } := by
  have routed : t.routed node buried =
      if node.deadLetterStream then (b.messages buried).filter node.deadLetter else [] := by
    rw [Topic.routed, messages, h.get_eq]
  have heard := t.streams_routeDeadLetters node buried
  obtain ⟨untouched, subs⟩ := t.routeDeadLetters_frame node buried
  have all : Represents (t.routeDeadLetters node buried)
      { b with
        dead :=
          if node.deadLetterStream then b.dead ++ (b.messages buried).filter node.deadLetter
          else b.dead } := by
    refine ⟨untouched.writer ▸ h.log, subs ▸ h.subs, ?_, ?_⟩
    · rw [untouched.topic, untouched.nodeId, heard, if_neg (streams_differ t.topic t.nodeId),
        List.append_nil, h.live]
    · rw [untouched.topic, untouched.nodeId, heard, if_pos rfl, routed, h.dead]
      split
      · rfl
      · rw [List.append_nil]
  cases buried with
  | nil =>
    refine ⟨h.log, h.subs, h.live, h.dead.trans ?_⟩
    simp only [messages, List.filterMap_nil, List.filter_nil, List.append_nil, ite_self]
  | cons c buried => exact all

/-- **A pull** is answered as the broker answers it. -/
theorem pull (h : Represents t b) (node : Answers) {name : String} {q : Sub}
    (found : b.subs[name]? = some q) (maxMessages now : Nat) :
    (t.handleLease node name maxMessages now).1 = (b.pull node name q maxMessages now).1 ∧
      Represents (t.handleLease node name maxMessages now).2
        (b.pull node name q maxMessages now).2 := by
  obtain ⟨s, there, stands⟩ := h.found_some found
  have given : (s.planScan t.writer.highCursor t.writer.floor now maxMessages).leasedOut =
      (b.delivers q maxMessages now).map fun c => (c, q.attempt c) := by
    rw [h.log.highCursor, h.log.floor]
    exact stands.leasedOut_eq b.log.high now maxMessages
  have gone : (s.planScan t.writer.highCursor t.writer.floor now maxMessages).dead =
      b.buries q maxMessages now := by
    rw [h.log.highCursor, h.log.floor]
    exact stands.dead_eq b.log.high now maxMessages
  have plan := s.planLease_eq name t.writer.highCursor t.writer.floor now maxMessages
  rw [given, gone] at plan
  have nothing : (b.delivers q maxMessages now).map (fun c => (c, q.attempt c)) = [] ∧
      b.buries q maxMessages now = [] ↔
        b.delivers q maxMessages now = [] ∧ b.buries q maxMessages now = [] := by
    rw [List.map_eq_nil_iff]
  rw [handleLease, if_neg (by rw [there]; exact Bool.false_ne_true),
    SubRegistry.planLease_of_get there, Broker.pull]
  by_cases idle : b.delivers q maxMessages now = [] ∧ b.buries q maxMessages now = []
  · rw [if_pos (nothing.mpr idle)] at plan
    rw [plan, if_pos idle]
    exact ⟨rfl, h⟩
  rw [if_neg (mt nothing.mp idle)] at plan
  rw [plan, if_neg idle]
  cases node.commitSubs with
  | error e => exact ⟨rfl, h⟩
  | ok u =>
    obtain ⟨leased, dead, newAcked, op_eq, planned⟩ := SubscriptionState.planned_of_planLease plan
    have related : MapRel (Stands b.log.floor) (t.subs.apply (.applyLease name leased dead newAcked)).subs
        (b.subs.insert name (q.pulled (b.delivers q maxMessages now) (b.buries q maxMessages now) now)) := by
      have lease := (h.log.floor ▸ stands).lease planned rfl
      exact h.subs.modify there (h.log.floor ▸ lease)
    have routed := (h.withSubs related).route node (b.buries q maxMessages now)
    rw [op_eq]
    refine ⟨congrArg ControlReply.pulled ?_, routed⟩
    -- what is leased is resolved in the log, which routing does not touch
    have writer : ∀ u : Topic, u = { t with subs := t.subs.apply (.applyLease name leased dead newAcked) } →
        (if (b.buries q maxMessages now).isEmpty then u
          else u.routeDeadLetters node (b.buries q maxMessages now)).writer = t.writer := by
      rintro u rfl
      split
      · rfl
      · exact (routeDeadLetters_frame _ _ _).1.writer
    rw [resolve, List.filterMap_map]
    refine List.filterMap_congr fun c _ => ?_
    show Option.map _ (TopicLog.get _ c) = _
    rw [writer _ rfl, h.log.get]

/-- **Every admitted control request is answered as the broker answers it**, and the owner goes on
standing for the broker. -/
theorem control (h : Represents t b) (node : Answers) (now : Nat) (req : ControlRequest) :
    (t.serveControl node now req).1 = (b.control node now req).1 ∧
      Represents (t.serveControl node now req).2 (b.control node now req).2 := by
  cases req with
  | highCursor grant => exact ⟨congrArg ControlReply.high h.log.highCursor, h⟩
  | createSubscription name policy grant => exact h.create node now name policy grant
  | deleteSubscription name grant => exact h.propose node "delete" (h.subs.erase name)
  | listSubscriptions grant => exact ⟨congrArg ControlReply.subscriptions h.subs.keys_eq, h⟩
  | pull name maxMessages grant =>
    rw [serveControl, Broker.control]
    cases found : b.subs[name]? with
    | none =>
      rw [handleLease, h.found_none found]
      exact ⟨rfl, h⟩
    | some q => exact h.pull node found maxMessages now
  | ack name cursor grant =>
    exact h.update node "ack" name rfl fun s q stands => stands.ack cursor
  | nack name cursor grant =>
    exact h.update node "nack" name rfl fun s q stands => stands.nack cursor

/-- **The step**: a call is answered alike, and leaves what it should. -/
theorem serve (h : Represents t b) (c : Call) :
    (t.serve c).1 = (b.serve c).1 ∧ Represents (t.serve c).2 (b.serve c).2 := by
  cases c with
  | publish node msg => exact h.publish node msg
  | prune node upTo => exact h.prune node upTo
  | control node now req =>
    obtain ⟨reply, left⟩ := h.control node now req
    exact ⟨congrArg Answer.controlled reply, left⟩

end Broker.Represents

end CePubsub
