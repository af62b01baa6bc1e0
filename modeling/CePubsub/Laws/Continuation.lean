import CePubsub.Laws.Pull

/-!
# Where a complete page says to go on

The last message of a complete page is the last one appended, if the page has a message: the log keeps
the messages past its floor without a gap, up to its high cursor. Only a page whose every message past
the start has been pruned has no last message to go on from, and it says to go on from where it began.
-/

namespace CePubsub

open TopicLog (replay)

namespace Replay

variable {ops : List LogOp} {after limit : Nat} {target : Option Nat} {converged : Bool} {r : Replay}

/-- A complete page from inside the log has a message unless there is none to read, or none left. -/
theorem messages_eq_nil_iff (is : r = page (replay ops) after limit target converged)
    (complete : r.truncated = false) :
    r.messages = [] ↔ (replay ops).highCursor ≤ max after (replay ops).floor := by
  rw [messages_of_complete is complete, TopicLog.since_replay, TopicLog.highCursor_replay,
    List.drop_eq_nil_iff]

/-- **The end of a complete page** is the high cursor exactly if the page began there, or the log keeps
a message. -/
theorem next_eq_high_iff (is : r = page (replay ops) after limit target converged)
    (complete : r.truncated = false) (inside : after ≤ (replay ops).highCursor) :
    r.next = r.high ↔
      after = (replay ops).highCursor ∨ (replay ops).floor < (replay ops).highCursor := by
  have high : r.high = (replay ops).highCursor := congrArg Replay.high is
  have empty := messages_eq_nil_iff is complete
  have floor : (replay ops).floor ≤ (replay ops).highCursor := Nat.le_add_right _ _
  have next := next_page is
  rw [high]
  by_cases none : r.messages = []
  · rw [if_pos none] at next
    have := empty.mp none
    omega
  · rw [if_neg none, messages_of_complete is complete, TopicLog.since_replay, List.length_drop,
      ← TopicLog.highCursor_replay] at next
    have := mt empty.mpr none
    omega

end Replay

namespace PubSub

/-- Where a complete page says to go on: at the high cursor, past everything pruned so far, so that no
message a later page from there finds pruned was in this page's log already. -/
structure Continues (serde : Serde) (nodeId topic owner : String) (ops : List LogOp) (r : Replay) :
    Prop where
  high : r.next = r.high
  past : r.floor ≤ r.next
  fresh : ∀ (more : List LogOp) (remote : Remote) (shown : Shown TopicLog) (limit : Nat) (r' : Replay),
    remote.reader = .ok shown → shown.read = replay (ops ++ more) →
    pullLimited serde nodeId topic owner remote r.next limit = .ok r' →
    ∀ c, r.next < c → c ≤ r'.floor → r.high < c

/-- **A complete page says to go on at the high cursor, unless all it was asked for is pruned.** A
replica shows the log after any history of appends and prunes, and a page from a cursor in it is not cut
short. The page says to go on at the replica's high cursor, past everything pruned so far, so that a
later page from there never finds pruned what the log had already, exactly if it began at the high
cursor or the log keeps a message. -/
theorem continues_iff (serde : Serde) (nodeId topic owner : String) (ops : List LogOp) (remote : Remote)
    (shown : Shown TopicLog) (opened : remote.reader = .ok shown) (read : shown.read = replay ops)
    (after limit : Nat) (inside : after ≤ (replay ops).highCursor) (r : Replay)
    (pulled : pullLimited serde nodeId topic owner remote after limit = .ok r)
    (complete : r.truncated = false) :
    Continues serde nodeId topic owner ops r ↔
      after = (replay ops).highCursor ∨ (replay ops).floor < (replay ops).highCursor := by
  obtain ⟨shown', opened', is⟩ := pullLimited_eq_ok pulled
  cases opened'.symm.trans opened
  rw [read] at is
  rw [← Replay.next_eq_high_iff is complete inside]
  refine ⟨Continues.high, fun high => ⟨high, ?_, ?_⟩⟩
  · have floor : r.floor = (replay ops).floor := congrArg Replay.floor is
    have top : r.high = (replay ops).highCursor := congrArg Replay.high is
    rw [high, floor, top]
    exact Nat.le_add_right _ _
  · intro more remote shown limit r' _ _ _ c past _
    exact high ▸ past

private def prunedOrders : List LogOp :=
  [.append (.new 0 "aa" [104] 10), .append (.new 0 "aa" [105] 11), .pruneTo 1, .pruneTo 2]

private def afterPrune (n : Nat) : Remote where
  reader := .ok (.of prunedOrders { polls := [], last := n, again := n, read := n })
  fresh := .error "not the owner"
  request := fun _ => .error "no reply"

private def orderSerde : Serde := (Host.reading [] [] : Host Unit).serde

private theorem afterPrune_pulled (n : Nat) :
    pullLimited orderSerde "bb" "orders" "aa" (afterPrune n) 0 10 =
      .ok (.page (replay (prunedOrders.take n)) 0 10 none false) := by
  have target : (fetchHighCursor orderSerde "bb" "aa" (afterPrune n)).toOption = none := by
    rw [fetchHighCursor, if_neg (by decide)]
    rfl
  rw [pullLimited_of_reader (by decide) rfl, target]
  rfl

/-- One of two messages is pruned, and a page from the start says to go on past both. -/
theorem continues_with_message :
    Continues orderSerde "bb" "orders" "aa" (prunedOrders.take 3)
      (.page (replay (prunedOrders.take 3)) 0 10 none false) :=
  (continues_iff orderSerde "bb" "orders" "aa" (prunedOrders.take 3) (afterPrune 3) _ rfl rfl 0 10
    (by decide) _ (afterPrune_pulled 3) (by decide)).mpr (.inr (by decide))

/-- **A complete page that stays behind what is pruned**: both messages are pruned, and a page from the
start says to go on from the start, though the high cursor is two. -/
theorem behind_pruned_tail :
    ∃ r, pullLimited orderSerde "bb" "orders" "aa" (afterPrune 4) 0 10 = .ok r ∧
      r.truncated = false ∧ r.next = 0 ∧ r.high = 2 ∧ r.floor = 2 ∧
      ¬ Continues orderSerde "bb" "orders" "aa" prunedOrders r := by
  refine ⟨_, afterPrune_pulled 4, by decide, by decide, by decide, by decide, ?_⟩
  intro continues
  exact absurd continues.high (by decide)

end PubSub

end CePubsub
