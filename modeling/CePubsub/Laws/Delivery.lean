import CePubsub.Laws.Refinement
import CePubsub.Laws.Wire
import Mathlib.Data.List.DropRight

/-!
# At least once

What a consumer can rely on, told from outside: by what the owner was asked and what it answered, since
the subscription was last deleted. `Told` is what those exchanges say of a subscription, and every run
keeps it (`Knows.exchanges`): a cursor is settled if it was acked, and otherwise only if it was delivered
as often as a policy allows, and it is lent out for no longer than ten minutes after a delivery.

So a retained message that was not acked, whose deliveries have all lapsed and are fewer than the policies
allow, is in the next batch, unless earlier messages fill it (`unacked_delivered`).
-/

namespace CePubsub

variable {Link : Type} (host : Host Link)

/-- A call and what it was answered. -/
structure Exchange where
  call : Call
  answer : Answer

namespace Exchange

/-- A subscription was deleted. -/
def deletes (name : String) : Exchange → Bool
  | ⟨.control _ _ (.deleteSubscription n _), .controlled .ok⟩ => n = name
  | _ => false

/-- The policy a subscription was created or updated with. -/
def creates (name : String) : Exchange → Option SubscriptionPolicy
  | ⟨.control _ _ (.createSubscription n policy _), .controlled .ok⟩ =>
    if n = name then some policy else none
  | _ => none

/-- A cursor was acked. -/
def acks (name : String) (x : Nat) : Exchange → Bool
  | ⟨.control _ _ (.ack n cursor _), .controlled .ok⟩ => n = name ∧ cursor = x
  | _ => false

/-- When a cursor was delivered. -/
def lends (name : String) (x : Nat) : Exchange → Option Nat
  | ⟨.control _ now (.pull n _ _), .controlled (.pulled leased)⟩ =>
    if n = name ∧ x ∈ leased.map (·.message.cursor) then some now else none
  | _ => none

/-- An exchange that says nothing of a subscription. -/
structure Quiet (name : String) (e : Exchange) : Prop where
  deletes : e.deletes name = false
  creates : e.creates name = none
  acks : ∀ x, e.acks name x = false
  lends : ∀ x, e.lends name x = none

/-- The exchanges after the last that deleted a subscription. -/
def since (name : String) (es : List Exchange) : List Exchange :=
  es.rtakeWhile fun e => !e.deletes name

/-- The times at which a cursor was delivered. -/
def deliveries (name : String) (x : Nat) (es : List Exchange) : List Nat :=
  es.filterMap (·.lends name x)

/-- After a deletion there is nothing yet. -/
theorem since_deleted {name : String} {e : Exchange} (deleted : e.deletes name = true)
    (es : List Exchange) : since name (es ++ [e]) = [] :=
  List.rtakeWhile_concat_neg _ _ _ (by rw [deleted]; exact Bool.false_ne_true)

/-- Any other exchange is one more. -/
theorem since_kept {name : String} {e : Exchange} (kept : e.deletes name = false)
    (es : List Exchange) : since name (es ++ [e]) = since name es ++ [e] :=
  List.rtakeWhile_concat_pos _ _ _ (by rw [kept]; rfl)

/-- The deliveries of a cursor, one exchange later. -/
theorem deliveries_concat (name : String) (x : Nat) (es : List Exchange) (e : Exchange) :
    deliveries name x (es ++ [e]) = deliveries name x es ++ (e.lends name x).toList := by
  rw [deliveries, deliveries, List.filterMap_append]
  cases lent : e.lends name x <;> simp only [List.filterMap_cons, lent, List.filterMap_nil, Option.toList]

end Exchange

open Exchange

namespace Broker

/-! ## What a call makes of a subscription -/

variable {b : Broker} {name : String}

/-- A pull that hands out and gives up nothing leaves a subscription as it was. -/
theorem Sub.pulled_nil (s : Sub) (now : Nat) : s.pulled [] [] now = s := by
  have none : {c | c ∈ ([] : List Nat)} = (∅ : Set Nat) :=
    Set.eq_empty_of_forall_notMem fun _ => List.not_mem_nil
  rw [pulled, none, LeaseQueue.settle_empty, LeaseQueue.lend_nil]

/-- Retained is what lies above the floor, up to the end of the log. -/
theorem mem_retained {c : Nat} : c ∈ b.retained ↔ b.log.floor < c ∧ c ≤ b.log.high := by
  have fits : b.log.floor ≤ b.log.high := b.log.floor_le
  rw [retained, List.mem_range'_1]
  omega

/-- Only retained messages are delivered. -/
theorem retained_of_delivers {s : Sub} {maxMessages now c : Nat} (mem : c ∈ b.delivers s maxMessages now) :
    c ∈ b.retained :=
  (LeaseQueue.mem_offered.mp (LeaseQueue.offered_of_mem_taken mem)).1

/-- A retained cursor has its message. -/
theorem get_of_retained (numbered : Journal.Numbered Message.cursor 0 b.log.entries) {c : Nat}
    (mem : c ∈ b.retained) : ∃ m, b.log.get c = some m ∧ m.cursor = c := by
  obtain ⟨above, inside⟩ := mem_retained.mp mem
  have bound : c - 1 < b.log.entries.length := by
    rw [Journal.high] at inside
    omega
  refine ⟨b.log.entries[c - 1], ?_, ?_⟩
  · rw [Journal.get, if_pos above, List.getElem?_eq_getElem bound]
  · have := numbered.getElem? (List.getElem?_eq_getElem bound)
    omega

/-- The cursors of what a pull hands out. -/
theorem cursors_handed (numbered : Journal.Numbered Message.cursor 0 b.log.entries) (s : Sub)
    {cursors : List Nat} (sub : ∀ c ∈ cursors, c ∈ b.retained) :
    (cursors.filterMap fun c => (b.log.get c).map (LeasedMessage.mk · (s.attempt c))).map
      (·.message.cursor) = cursors := by
  induction cursors with
  | nil => rfl
  | cons c cursors ih =>
    obtain ⟨m, found, is⟩ := get_of_retained numbered (sub c List.mem_cons_self)
    rw [List.filterMap_cons, found, Option.map_some, List.map_cons, is,
      ih fun d mem => sub d (List.mem_cons_of_mem c mem)]

/-- **What an exchange makes of a subscription.** -/
inductive Becomes (b : Broker) (name : String) : Exchange → Option Sub → Prop where
  | quiet {e : Exchange} (silent : e.Quiet name) : Becomes b name e b.subs[name]?
  | deleted {node : Answers} {now : Nat} {grant : Option String} :
    Becomes b name ⟨.control node now (.deleteSubscription name grant), .controlled .ok⟩ none
  | created {node : Answers} {now : Nat} {policy : SubscriptionPolicy} {grant : Option String} :
    Becomes b name ⟨.control node now (.createSubscription name policy grant), .controlled .ok⟩
      (some { b.subs[name]?.getD {} with policy })
  | acked {node : Answers} {now x : Nat} {grant : Option String} {s : Sub}
    (found : b.subs[name]? = some s) :
    Becomes b name ⟨.control node now (.ack name x grant), .controlled .ok⟩
      (some { s with queue := s.queue.settle {x} })
  | released {node : Answers} {now x : Nat} {grant : Option String} {s : Sub}
    (found : b.subs[name]? = some s) :
    Becomes b name ⟨.control node now (.nack name x grant), .controlled .ok⟩
      (some { s with queue := s.queue.release x })
  | pulled {node : Answers} {now maxMessages : Nat} {grant : Option String} {s : Sub}
    {leased : List LeasedMessage} (found : b.subs[name]? = some s)
    (handed : leased.map (·.message.cursor) = b.delivers s maxMessages now) :
    Becomes b name ⟨.control node now (.pull name maxMessages grant), .controlled (.pulled leased)⟩
      (some (s.pulled (b.delivers s maxMessages now) (b.buries s maxMessages now) now))

/-- A rejection says nothing. -/
theorem quiet_of_rejected (name : String) (node : Answers) (now : Nat) (req : ControlRequest)
    (why : String) : Quiet name ⟨.control node now req, .controlled (.rejected why)⟩ := by
  cases req <;> exact ⟨rfl, rfl, fun _ => rfl, fun _ => rfl⟩

/-- A commit that goes through, or else a rejection. -/
theorem commit_becomes {node : Answers} {now : Nat} {req : ControlRequest} {what : String} {b' : Broker}
    (done : Becomes b name ⟨.control node now req, .controlled .ok⟩ b'.subs[name]?) :
    Becomes b name ⟨.control node now req, .controlled (b.commit node what b').1⟩
      (b.commit node what b').2.subs[name]? := by
  rw [commit]
  cases node.commitSubs with
  | error e => exact .quiet (quiet_of_rejected name node now req _)
  | ok u => exact done

/-- Another subscription is left alone. -/
theorem get_insert_of_ne {n : String} (other : n ≠ name) (s : Sub) :
    (b.subs.insert n s)[name]? = b.subs[name]? := by
  rw [Std.ExtTreeMap.getElem?_insert, if_neg fun same => other (Std.compare_eq_iff_eq.mp same)]

/-- The subscription is as it was put. -/
theorem get_insert_self (s : Sub) : (b.subs.insert name s)[name]? = some s := by
  rw [Std.ExtTreeMap.getElem?_insert_self]

/-- **What a call makes of a subscription.** -/
theorem control_becomes (numbered : Journal.Numbered Message.cursor 0 b.log.entries) (node : Answers)
    (now : Nat) (req : ControlRequest) :
    Becomes b name ⟨.control node now req, .controlled (b.control node now req).1⟩
      (b.control node now req).2.subs[name]? := by
  cases req with
  | highCursor grant => exact .quiet ⟨rfl, rfl, fun _ => rfl, fun _ => rfl⟩
  | listSubscriptions grant => exact .quiet ⟨rfl, rfl, fun _ => rfl, fun _ => rfl⟩
  | createSubscription n policy grant =>
    rw [control]
    cases policy.validate with
    | error e => exact .quiet (quiet_of_rejected name node now _ _)
    | ok u =>
      cases validateTopic n with
      | error e => exact .quiet (quiet_of_rejected name node now _ _)
      | ok u =>
        simp only
        split
        · exact .quiet (quiet_of_rejected name node now _ _)
        · refine commit_becomes ?_
          by_cases same : n = name
          · subst same
            rw [get_insert_self]
            exact .created
          · rw [get_insert_of_ne same]
            exact .quiet ⟨rfl, if_neg same, fun _ => rfl, fun _ => rfl⟩
  | deleteSubscription n grant =>
    refine commit_becomes ?_
    rw [Std.ExtTreeMap.getElem?_erase]
    by_cases same : n = name
    · subst same
      rw [if_pos Std.ReflCmp.compare_self]
      exact .deleted
    · rw [if_neg fun equal => same (Std.compare_eq_iff_eq.mp equal)]
      exact .quiet ⟨decide_eq_false same, rfl, fun _ => rfl, fun _ => rfl⟩
  | ack n x grant =>
    rw [control]
    cases found : b.subs[n]? with
    | none => exact .quiet (quiet_of_rejected name node now _ _)
    | some s =>
      refine commit_becomes ?_
      by_cases same : n = name
      · subst same
        rw [get_insert_self]
        exact .acked found
      · rw [get_insert_of_ne same]
        exact .quiet ⟨rfl, rfl, fun _ => decide_eq_false fun both => same both.1, fun _ => rfl⟩
  | nack n x grant =>
    rw [control]
    cases found : b.subs[n]? with
    | none => exact .quiet (quiet_of_rejected name node now _ _)
    | some s =>
      refine commit_becomes ?_
      by_cases same : n = name
      · subst same
        rw [get_insert_self]
        exact .released found
      · rw [get_insert_of_ne same]
        exact .quiet ⟨rfl, rfl, fun _ => rfl, fun _ => rfl⟩
  | pull n maxMessages grant =>
    rw [control]
    cases found : b.subs[n]? with
    | none => exact .quiet (quiet_of_rejected name node now _ _)
    | some s =>
      have elsewhere : ∀ leased, n ≠ name →
          Quiet name ⟨.control node now (.pull n maxMessages grant), .controlled (.pulled leased)⟩ :=
        fun leased other => ⟨rfl, rfl, fun _ => rfl, fun _ => if_neg fun both => other both.1⟩
      simp only [pull]
      split
      · next idle =>
        by_cases same : n = name
        · subst same
          have handed : Becomes b n
              ⟨.control node now (.pull n maxMessages grant), .controlled (.pulled [])⟩ _ :=
            .pulled found idle.1.symm
          rw [idle.1, idle.2, s.pulled_nil, ← found] at handed
          exact handed
        · exact .quiet (elsewhere [] same)
      · cases node.commitSubs with
        | error e => exact .quiet (quiet_of_rejected name node now _ _)
        | ok u =>
          by_cases same : n = name
          · subst same
            simp only [get_insert_self]
            exact .pulled found (cursors_handed numbered s fun c mem => retained_of_delivers mem)
          · simp only [get_insert_of_ne same]
            exact .quiet (elsewhere _ same)

/-- One call, seen from one subscription. -/
theorem serve_becomes (numbered : Journal.Numbered Message.cursor 0 b.log.entries) (c : Call) :
    Becomes b name ⟨c, (b.serve c).1⟩ (b.serve c).2.subs[name]? := by
  cases c with
  | publish node msg =>
    rw [serve]
    cases node.commitLog <;> exact .quiet ⟨rfl, rfl, fun _ => rfl, fun _ => rfl⟩
  | prune node upTo =>
    rw [serve]
    cases node.commitLog <;> exact .quiet ⟨rfl, rfl, fun _ => rfl, fun _ => rfl⟩
  | control node now req => exact control_becomes numbered node now req

/-! ## What the exchanges say of it -/

/-- Some policy allows no more deliveries of a cursor than `n`. -/
def Outspent (name : String) (es : List Exchange) (n : Nat) : Prop :=
  ∃ e ∈ es, ∃ p, e.creates name = some p ∧ p.maxDeliveryAttempts ≠ 0 ∧ p.maxDeliveryAttempts.toNat ≤ n

/-- What the exchanges since its deletion say of a subscription's queue. -/
structure Counted (name : String) (es : List Exchange) (q : LeaseQueue Nat Nat) : Prop where
  acked : ∀ e ∈ es, ∀ x, e.acks name x = true → x ∈ q.settled
  settled : ∀ x ∈ q.settled, (∃ e ∈ es, e.acks name x = true) ∨
    Outspent name es (deliveries name x es).length
  lent : ∀ x, q.lent x = (deliveries name x es).length
  back : ∀ x expiry, q.leasedUntil x = some expiry →
    ∃ past ∈ deliveries name x es, expiry ≤ past + maxAckDeadlineSecs

/-- And of its policy: it was created, or updated, with it. -/
structure Told (name : String) (es : List Exchange) (s : Sub) : Prop where
  policy : ∃ e ∈ es, e.creates name = some s.policy
  queue : Counted name es s.queue

/-- What the exchanges say of every subscription there is, and of those there are not. -/
def Knows (b : Broker) (es : List Exchange) : Prop :=
  ∀ name, match b.subs[name]? with
    | none => ∀ e ∈ since name es, e.Quiet name
    | some s => Told name (since name es) s

section Concat

variable {es : List Exchange} {e : Exchange} {q q' : LeaseQueue Nat Nat} {s : Sub}

/-- What the deliveries have outspent stays so. -/
theorem Outspent.concat {n m : Nat} (h : Outspent name es n) (le : n ≤ m) (e : Exchange) :
    Outspent name (es ++ [e]) m := by
  obtain ⟨e', before, p, created, some, often⟩ := h
  exact ⟨e', List.mem_append_left _ before, p, created, some, often.trans le⟩

/-- A cursor whose attempts are spent has been delivered as often as its policy allows. -/
theorem outspent_of_spent (h : Told name es s) {x : Nat} (spent : s.Spent x) :
    Outspent name es (s.queue.lent x) := by
  obtain ⟨e, mem, created⟩ := h.policy
  refine ⟨e, mem, s.policy, created, spent.1, ?_⟩
  -- the attempt wraps where the count does not
  have outspent := UInt32.lt_iff_toNat_lt.mp spent.2
  have wraps : (s.attempt x).toNat ≤ s.queue.lent x + 1 := by
    rw [Sub.attempt, UInt32.toNat_ofNat']
    exact Nat.mod_le _ _
  omega

/-- Where nothing was said, a new queue counts right. -/
theorem counted_of_quiet (silent : ∀ e ∈ es, e.Quiet name) : Counted name es .new where
  acked e mem x acked := by cases ((silent e mem).acks x).symm.trans acked
  settled x mem := absurd mem (Set.notMem_empty x)
  lent x := by
    rw [deliveries, List.filterMap_eq_nil_iff.mpr fun e mem => (silent e mem).lends x]
    rfl
  back x expiry lent := nomatch lent

/-- One more exchange, and what it does to the queue. -/
theorem Counted.concat (h : Counted name es q) (kept : q.settled ⊆ q'.settled)
    (acks : ∀ x, e.acks name x = true → x ∈ q'.settled)
    (settles : ∀ x ∈ q'.settled,
      x ∈ q.settled ∨ e.acks name x = true ∨ Outspent name es (q.lent x))
    (lends : ∀ x, q'.lent x = q.lent x + (e.lends name x).toList.length)
    (leases : ∀ x expiry, q'.leasedUntil x = some expiry →
      q.leasedUntil x = some expiry ∨
        ∃ past, e.lends name x = some past ∧ expiry ≤ past + maxAckDeadlineSecs) :
    Counted name (es ++ [e]) q' where
  acked e' mem x acked := by
    rcases List.mem_append.mp mem with before | last
    · exact kept (h.acked e' before x acked)
    · obtain rfl := List.mem_singleton.mp last
      exact acks x acked
  settled x mem := by
    have more : (deliveries name x es).length ≤ (deliveries name x (es ++ [e])).length := by
      rw [deliveries_concat, List.length_append]
      exact Nat.le_add_right _ _
    rcases settles x mem with old | acked | often
    · rcases h.settled x old with ⟨e', before, acked⟩ | often
      · exact .inl ⟨e', List.mem_append_left _ before, acked⟩
      · exact .inr (often.concat more e)
    · exact .inl ⟨e, List.mem_append_right _ List.mem_cons_self, acked⟩
    · rw [h.lent] at often
      exact .inr (often.concat more e)
  lent x := by rw [lends, h.lent, deliveries_concat, List.length_append]
  back x expiry lent := by
    rw [deliveries_concat]
    rcases leases x expiry lent with old | ⟨past, now, within⟩
    · obtain ⟨past, mem, within⟩ := h.back x expiry old
      exact ⟨past, List.mem_append_left _ mem, within⟩
    · rw [now]
      exact ⟨past, List.mem_append_right _ List.mem_cons_self, within⟩

/-- An exchange that leaves the queue as it is. -/
theorem Counted.same (h : Counted name es q) (acks : ∀ x, e.acks name x = false)
    (lends : ∀ x, e.lends name x = none) : Counted name (es ++ [e]) q := by
  refine h.concat subset_rfl (fun x acked => ?_) (fun x mem => .inl mem) (fun x => ?_)
    fun x expiry lent => .inl lent
  · cases (acks x).symm.trans acked
  · rw [lends]
    rfl

/-- One exchange more that keeps the policy. -/
theorem Told.concat (h : Told name es s) {s' : Sub} (queue : Counted name (es ++ [e]) s'.queue)
    (policy : s'.policy = s.policy) : Told name (es ++ [e]) s' := by
  obtain ⟨e', before, created⟩ := h.policy
  exact ⟨⟨e', List.mem_append_left _ before, policy ▸ created⟩, queue⟩

/-- An ack counts as one. -/
theorem counted_acked (h : Told name es s) (node : Answers) (now x : Nat) (grant : Option String) :
    Counted name (es ++ [⟨.control node now (.ack name x grant), .controlled .ok⟩])
      (s.queue.settle {x}) := by
  refine h.queue.concat Set.subset_union_left (fun c acked => ?_) (fun c mem => ?_) (fun _ => rfl)
    fun c expiry lent => .inl lent
  · exact .inr (Set.mem_singleton_iff.mpr (decide_eq_true_iff.mp acked).2.symm)
  · rcases mem with old | same
    · exact .inl old
    · obtain rfl := Set.mem_singleton_iff.mp same
      exact .inr (.inl (decide_eq_true ⟨rfl, rfl⟩))

/-- A nack takes the lease back and counts as nothing else. -/
theorem counted_released (h : Told name es s) (node : Answers) (now x : Nat) (grant : Option String) :
    Counted name (es ++ [⟨.control node now (.nack name x grant), .controlled .ok⟩])
      (s.queue.release x) := by
  refine h.queue.concat subset_rfl (fun c acked => nomatch acked) (fun c mem => .inl mem)
    (fun _ => rfl) fun c expiry lent => .inl ?_
  by_cases same : c = x
  · subst same
    rw [LeaseQueue.leasedUntil_release_self] at lent
    cases lent
  · rwa [s.queue.leasedUntil_release_of_ne same] at lent

/-- A pull counts as a delivery of each message in its batch. -/
theorem counted_pulled (h : Told name es s) (node : Answers) {now maxMessages : Nat}
    (grant : Option String) {leased : List LeasedMessage}
    (handed : leased.map (·.message.cursor) = b.delivers s maxMessages now) :
    Counted name
      (es ++ [⟨.control node now (.pull name maxMessages grant), .controlled (.pulled leased)⟩])
      (s.pulled (b.delivers s maxMessages now) (b.buries s maxMessages now) now).queue := by
  have lends : ∀ x, Exchange.lends name x
      ⟨.control node now (.pull name maxMessages grant), .controlled (.pulled leased)⟩ =
        if x ∈ b.delivers s maxMessages now then some now else none := by
    intro x
    simp only [Exchange.lends, handed, true_and]
  refine h.queue.concat Set.subset_union_left (fun c acked => nomatch acked) (fun c mem => ?_)
    (fun c => ?_) fun c expiry lent => ?_
  · rcases mem with old | buried
    · exact .inl old
    · exact .inr (.inr (outspent_of_spent h (LeaseQueue.spent_of_mem_givenUp buried)))
  · rw [lends, Sub.pulled, LeaseQueue.lent_lend, LeaseQueue.lent_settle]
    split <;> rfl
  · rw [Sub.pulled, LeaseQueue.leasedUntil_lend] at lent
    rw [lends]
    split at lent
    · next mem =>
      obtain rfl := Option.some.inj lent
      have short : s.policy.deadline ≤ maxAckDeadlineSecs :=
        Nat.max_le.mpr ⟨by decide, Nat.min_le_right _ _⟩
      refine .inr ⟨now, if_pos mem, ?_⟩
      omega
    · exact .inl lent

end Concat

/-- **One more exchange** is known. -/
theorem Knows.concat {es : List Exchange} (h : Knows b es) {b' : Broker} {e : Exchange}
    (becomes : ∀ name, Becomes b name e b'.subs[name]?) : Knows b' (es ++ [e]) := by
  intro name
  have known := h name
  have after := becomes name
  generalize b'.subs[name]? = left at after ⊢
  cases after with
  | quiet silent =>
    rw [since_kept silent.deletes]
    cases there : b.subs[name]? with
    | none =>
      rw [there] at known
      exact List.forall_mem_append.mpr ⟨known, List.forall_mem_singleton.mpr silent⟩
    | some s =>
      rw [there] at known
      exact known.concat (known.queue.same silent.acks silent.lends) rfl
  | @deleted node now grant =>
    have gone : Exchange.deletes name
        ⟨.control node now (.deleteSubscription name grant), .controlled .ok⟩ = true :=
      decide_eq_true rfl
    rw [since_deleted gone]
    exact List.forall_mem_nil _
  | created =>
    rw [since_kept rfl]
    refine ⟨⟨_, List.mem_append_right _ List.mem_cons_self, if_pos rfl⟩, ?_⟩
    cases there : b.subs[name]? with
    | none =>
      rw [there] at known
      exact (counted_of_quiet known).same (fun _ => rfl) fun _ => rfl
    | some s =>
      rw [there] at known
      exact known.queue.same (fun _ => rfl) fun _ => rfl
  | acked found =>
    rw [found] at known
    rw [since_kept rfl]
    exact known.concat (counted_acked known _ _ _ _) rfl
  | released found =>
    rw [found] at known
    rw [since_kept rfl]
    exact known.concat (counted_released known _ _ _ _) rfl
  | pulled found handed =>
    rw [found] at known
    rw [since_kept rfl]
    exact known.concat (counted_pulled known _ _ handed) rfl

/-- Nothing is known of a new broker. -/
theorem knows_nothing : Knows {} [] := by
  intro name
  rw [show ({} : Broker).subs[name]? = none from Std.ExtTreeMap.getElem?_empty]
  exact List.forall_mem_nil _

end Broker

/-! ## Runs -/

/-- The calls a run of inputs comes to, with what they were answered. -/
def Topic.exchanges (t : Topic) : List Input → List Exchange
  | [] => []
  | i :: is => (t.call host i).toList.map (fun c => ⟨c, (t.serve c).1⟩) ++ (t.step host i).exchanges is

namespace Topic

variable {host}

/-- The exchanges of a run in two parts. -/
theorem exchanges_append (t : Topic) (is js : List Input) :
    t.exchanges host (is ++ js) =
      t.exchanges host is ++ (Run.run (step host) t is).exchanges host js := by
  induction is generalizing t with
  | nil => rfl
  | cons i is ih => rw [List.cons_append, exchanges, exchanges, ih, List.append_assoc, Run.run_cons]

end Topic

namespace Broker

variable {host}

/-- One input. -/
theorem Knows.step {t : Topic} {b : Broker} {es : List Exchange} (h : Knows b es) (stands : Represents t b)
    (i : Input) :
    Knows (Run.run Broker.step b (t.call host i).toList)
      (es ++ (t.call host i).toList.map fun c => ⟨c, (t.serve c).1⟩) := by
  cases t.call host i with
  | none =>
    rw [Option.toList, List.map_nil, List.append_nil]
    exact h
  | some c =>
    rw [Option.toList, List.map_cons, List.map_nil, (stands.serve c).1]
    exact h.concat fun name => serve_becomes stands.log.numbered c

/-- A whole run. -/
theorem Knows.exchanges {t : Topic} {b : Broker} {es : List Exchange} (h : Knows b es)
    (stands : Represents t b) (is : List Input) :
    Knows (Run.run Broker.step b (t.calls host is)) (es ++ t.exchanges host is) := by
  induction is generalizing t b es with
  | nil =>
    rw [Topic.exchanges, List.append_nil]
    exact h
  | cons i is ih =>
    rw [Topic.calls, Run.run_append, Topic.exchanges, ← List.append_assoc]
    exact ih (h.step stands i) (stands.step i)

/-- **What every run of the owner says of its subscriptions.** -/
theorem knows_run {nodeId topic : String} {t : Topic} (new : Topic.create nodeId topic = .ok t)
    (is : List Input) : Knows (after (t.calls host is)) (t.exchanges host is) := by
  have known : Knows (Run.run Broker.step {} (t.calls host is)) ([] ++ t.exchanges host is) :=
    knows_nothing.exchanges (.new new) is
  rwa [List.nil_append] at known

end Broker

/-! ## The next batch -/

namespace Broker

variable {b : Broker} {name : String} {s : Sub} {x : Nat}

/-- A message that is found is retained. -/
theorem retained_of_get {m : Message} (found : b.log.get x = some m) : x ∈ b.retained := by
  rw [Journal.get] at found
  split at found
  · next above =>
    have inside := (List.getElem?_eq_some_iff.mp found).1
    rw [mem_retained, Journal.high]
    omega
  · cases found

/-- A message to be had that is not spent is handed out, unless earlier ones fill the batch. -/
theorem delivers_or_full {m : Message} (found : b.log.get x = some m) {now : Nat}
    (free : s.queue.Free now x) (unspent : ¬ s.Spent x) (maxMessages : Nat) :
    x ∈ b.delivers s maxMessages now ∨
      (b.delivers s maxMessages now).length = min maxMessages maxLeaseBatch ∧
        ∀ c ∈ b.delivers s maxMessages now, c < x :=
  LeaseQueue.taken_or_full List.pairwise_lt_range'
    (LeaseQueue.mem_offered.mpr ⟨retained_of_get found, free⟩) unspent

/-- The reply of a committed pull, by the cursors it hands out. -/
theorem pull_reply {node : Answers} (commits : node.commitSubs = .ok ()) (name : String) (s : Sub)
    (maxMessages now : Nat) :
    (b.pull node name s maxMessages now).1 =
      .pulled ((b.delivers s maxMessages now).filterMap fun c =>
        (b.log.get c).map (⟨·, s.attempt c⟩)) := by
  rw [pull, commits]
  split
  · next idle => rw [idle.1, List.filterMap_nil]
  · rfl

/-- And so is its message. -/
theorem pull_delivers (numbered : Journal.Numbered Message.cursor 0 b.log.entries) {m : Message}
    (found : b.log.get x = some m) {now : Nat} (free : s.queue.Free now x) (unspent : ¬ s.Spent x)
    {node : Answers} (commits : node.commitSubs = .ok ()) (name : String) (maxMessages : Nat) :
    ∃ leased, (b.pull node name s maxMessages now).1 = .pulled leased ∧
      ((∃ l ∈ leased, l.message = m) ∨
        leased.length = min maxMessages maxLeaseBatch ∧ ∀ l ∈ leased, l.message.cursor < x) := by
  refine ⟨_, pull_reply commits name s maxMessages now, ?_⟩
  have inside : ∀ c ∈ b.delivers s maxMessages now, c ∈ b.retained := fun _ => retained_of_delivers
  have cursors := cursors_handed numbered s inside
  rcases delivers_or_full found free unspent maxMessages with early | ⟨full, before⟩
  · refine .inl ⟨⟨m, s.attempt x⟩, List.mem_filterMap.mpr ⟨x, early, ?_⟩, rfl⟩
    rw [found, Option.map_some]
  · refine .inr ⟨?_, fun l mem => before _ ?_⟩
    · rw [← full]
      exact (List.length_map _).symm.trans (congrArg List.length cursors)
    · rw [← cursors]
      exact List.mem_map_of_mem mem

/-- What was not acked, nor delivered as often as allowed, and has lapsed, is to be had. -/
theorem Told.free {es : List Exchange} (h : Told name es s)
    (unacked : ∀ e ∈ es, e.acks name x = false)
    (allowed : ¬ Outspent name es (deliveries name x es).length) {now : Nat}
    (lapsed : ∀ past ∈ deliveries name x es, past + maxAckDeadlineSecs ≤ now) :
    s.queue.Free now x ∧ ¬ s.Spent x := by
  refine ⟨⟨fun settled => ?_, fun expiry lent => ?_⟩, fun spent => ?_⟩
  · rcases h.queue.settled x settled with ⟨e, mem, acked⟩ | often
    · cases (unacked e mem).symm.trans acked
    · exact allowed often
  · obtain ⟨past, mem, within⟩ := h.queue.back x expiry lent
    exact within.trans (lapsed past mem)
  · exact allowed (h.queue.lent x ▸ outspent_of_spent h spent)

end Broker

/-- **At least once.** A retained message that was not acked on a subscription, whose deliveries there are
ten minutes past and fewer than any of its policies allows, is in the next batch that is committed,
unless messages before it fill that. -/
theorem unacked_delivered {nodeId topic name payloadHex requester : String} {t : Topic}
    (new : Topic.create nodeId topic = .ok t) (is : List Input) {x now maxMessages : Nat} {m : Message}
    {node : Answers} {grant : Option String}
    (retained : (Run.run (Topic.step host) t is).writer.get x = some m)
    (created : ∃ e ∈ since name (t.exchanges host is), e.creates name ≠ none)
    (unacked : ∀ e ∈ since name (t.exchanges host is), e.acks name x = false)
    (allowed : ∀ e ∈ since name (t.exchanges host is), ∀ policy, e.creates name = some policy →
      policy.maxDeliveryAttempts = 0 ∨
        (deliveries name x (since name (t.exchanges host is))).length <
          policy.maxDeliveryAttempts.toNat)
    (lapsed : ∀ past ∈ deliveries name x (since name (t.exchanges host is)),
      past + maxAckDeadlineSecs ≤ now)
    (comes : (Run.run (Topic.step host) t is).call host (.control node payloadHex requester now) =
      some (.control node now (.pull name maxMessages grant)))
    (commits : node.commitSubs = .ok ()) :
    ∃ leased, ((Run.run (Topic.step host) t is).handleControl host node payloadHex requester now).1 =
        .pulled leased ∧
      ((∃ l ∈ leased, l.message = m) ∨
        leased.length = min maxMessages maxLeaseBatch ∧ ∀ l ∈ leased, l.message.cursor < x) := by
  obtain ⟨stands, answers⟩ := owner_is_broker host new is
  have answered := answers _ _ comes
  have known : Broker.Knows (Broker.after (t.calls host is)) (t.exchanges host is) :=
    Broker.knows_run new is
  generalize Broker.after (t.calls host is) = b at stands answered known
  have numbered := stands.log.numbered
  rw [stands.log.get] at retained
  have told := known name
  cases there : b.subs[name]? with
  | none =>
    rw [there] at told
    obtain ⟨e, mem, creates⟩ := created
    exact absurd (told e mem).creates creates
  | some s =>
    rw [there] at told
    have notOutspent : ¬ Broker.Outspent name (since name (t.exchanges host is))
        (deliveries name x (since name (t.exchanges host is))).length := by
      rintro ⟨e, mem, policy, creates, some, often⟩
      rcases allowed e mem policy creates with zero | room
      · exact some zero
      · exact absurd often (Nat.not_le_of_lt room)
    obtain ⟨free, unspent⟩ := told.free unacked notOutspent lapsed
    obtain ⟨leased, replied, holds⟩ :=
      Broker.pull_delivers numbered retained free unspent commits name maxMessages
    refine ⟨leased, Reply.controlled.inj (answered.trans ?_), holds⟩
    rw [Broker.serve, Broker.control, there]
    exact congrArg Reply.controlled replied

section

open Orders

/-- The topic with one message published, and with a subscription created after. -/
private def openedOne : Topic := (orders.publish {} [104, 105] 11).2

/-- The topic with one message, once there is a subscription. -/
private def openedJobs : Topic := (openedOne.serveControl {} 12 subscribing).2

/-- The message. -/
private def job : Message := (Message.new 0 "aa" [104, 105] 11).authenticated true

/-- A publish, the subscription, and a pull. -/
private def history : List Input :=
  [.publish {} [104, 105] 11, asks subscribing 12, asks (pulling 10) 13]

/-- What the first pull replies with, and leaves. -/
private def firstBatch : List LeasedMessage := [⟨{ job with cursor := 1 }, 1⟩]

/-- The topic once the message is leased. -/
private def leasedJobs : Topic := (openedJobs.serveControl {} 13 (pulling 10)).2

private theorem step_publish : orders.step Host.compact (.publish {} [104, 105] 11) = openedOne := by
  rw [Topic.step, openedOne]

private theorem run_history : Run.run (Topic.step Host.compact) orders history = leasedJobs := by
  rw [history, Run.run_cons, step_publish, Run.run_cons, step_asks size_subscribing (by decide),
    Run.run_cons, show (openedOne.serveControl {} 12 subscribing).2 = openedJobs from rfl,
    step_asks (size_pulling (by decide)) (by decide), Run.run_nil, leasedJobs]

/-- The calls of the history, and how each was answered. -/
private theorem exchanges_history : orders.exchanges Host.compact history =
    [⟨.publish {} job, .published (.ok 1)⟩, ⟨.control {} 12 subscribing, .controlled .ok⟩,
      ⟨.control {} 13 (pulling 10), .controlled (.pulled firstBatch)⟩] := by
  have comes : orders.call Host.compact (.publish {} [104, 105] 11) = some (.publish {} job) := rfl
  have subscribes : openedOne.call Host.compact (asks subscribing 12) = some (.control {} 12 subscribing) :=
    Topic.call_control Host.compact (decode_asks size_subscribing) (by decide) {} "bb" 12
  have pulls : openedJobs.call Host.compact (asks (pulling 10) 13) = some (.control {} 13 (pulling 10)) :=
    Topic.call_control Host.compact (decode_asks (size_pulling (by decide))) (by decide) {} "bb" 13
  rw [history, Topic.exchanges, Topic.exchanges, Topic.exchanges, Topic.exchanges, comes, step_publish,
    subscribes, step_asks size_subscribing (by decide),
    show (openedOne.serveControl {} 12 subscribing).2 = openedJobs from rfl, pulls]
  rfl

/-- A message that was handed out, and not acked in time, is handed out again. -/
theorem unacked_delivered_jobs :
    ∃ t m leased, Topic.create "aa" "orders" = .ok t ∧
      ((Run.run (Topic.step Host.compact) t [.publish {} [104, 105] 11,
          .control {} (Hex.encode (ControlRequest.createSubscription "jobs" {} none).encode) "bb" 12,
          .control {} (Hex.encode (ControlRequest.pull "jobs" 10 none).encode) "bb" 13]).handleControl
        Host.compact {} (Hex.encode (ControlRequest.pull "jobs" 10 none).encode) "bb" 700).1 =
          .pulled leased ∧
      ((∃ l ∈ leased, l.message = m) ∨ leased.length = 10 ∧ ∀ l ∈ leased, l.message.cursor < 1) := by
  have run := run_history
  have told : since "jobs" (orders.exchanges Host.compact history) =
      [⟨.publish {} job, .published (.ok 1)⟩, ⟨.control {} 12 subscribing, .controlled .ok⟩,
        ⟨.control {} 13 (pulling 10), .controlled (.pulled firstBatch)⟩] := by
    rw [exchanges_history]
    rfl
  have there : (leasedJobs.writer.get 1).isSome := by decide
  obtain ⟨m, found⟩ := Option.isSome_iff_exists.mp there
  have comes : leasedJobs.call Host.compact (.control {} (Hex.encode (pulling 10).encode) "bb" 700) =
      some (.control {} 700 (pulling 10)) :=
    Topic.call_control Host.compact (decode_asks (size_pulling (by decide))) (by decide) {} "bb" 700
  have opened : creates "jobs" ⟨.control {} 12 subscribing, .controlled .ok⟩ = some {} := by
    decide
  have once : deliveries "jobs" 1 (since "jobs" (orders.exchanges Host.compact history)) = [13] := by
    rw [told]
    rfl
  obtain ⟨leased, replied, holds⟩ := @unacked_delivered Unit Host.compact "aa" "orders" "jobs"
    (Hex.encode (pulling 10).encode) "bb" orders created history 1 700 10 m {} .none
    (by rw [run]; exact found)
    (by
      rw [told]
      exact ⟨_, List.mem_cons_of_mem _ List.mem_cons_self, by rw [opened]; exact nofun⟩)
    (by
      rw [told]
      exact List.forall_mem_cons.mpr ⟨rfl, List.forall_mem_cons.mpr
        ⟨rfl, List.forall_mem_singleton.mpr rfl⟩⟩)
    (by
      rw [once, told]
      refine List.forall_mem_cons.mpr ⟨nofun, List.forall_mem_cons.mpr ⟨fun policy is => ?_,
        List.forall_mem_singleton.mpr nofun⟩⟩
      obtain rfl := Option.some.inj (opened.symm.trans is)
      exact .inr (by decide))
    (by
      rw [once]
      exact List.forall_mem_singleton.mpr (by decide))
    (by rw [run]; exact comes) rfl
  exact ⟨orders, m, leased, created, replied, holds⟩

end

end CePubsub
