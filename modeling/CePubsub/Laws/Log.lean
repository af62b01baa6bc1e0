import CePubsub.Lib.Journal
import CePubsub.Lib.Run
import CePubsub.Log

/-!
# The topic log is an append-only journal

`TopicLog` keeps two things, a list of messages and a count, and answers three questions three ways:
`get` computes an index from the floor, `since` and a prune look at the cursor each message carries,
and `highCursor` adds the count to the length. They agree because every retained message sits at
`floor + index + 1`, and the log keeps that whatever it is given: an append is re-stamped, a prune
counts what its filter removed.

The module says it against the abstract log (`Journal`): every log reached from the empty one
represents the journal of the same operations (`replay_represents`), where nothing is ever moved.
The refinement theorem then reads every query off the list of all messages ever appended, the `i`th
stamped `i`, and the running maximum of what the prunes asked for.
-/

namespace CePubsub

/-- The log a replica shows after a sequence of operations from the empty log. -/
def TopicLog.replay (ops : List LogOp) : TopicLog := Run.run TopicLog.apply {} ops

/-- The replay of one operation more. -/
theorem TopicLog.replay_concat (ops : List LogOp) (op : LogOp) :
    replay (ops ++ [op]) = (replay ops).apply op :=
  Run.run_concat apply {} ops op

namespace LogOp

/-- The message an operation appends, if it appends one. -/
def message? : LogOp → Option Message
  | .append m => some m
  | .pruneTo _ => none

/-- Every message a sequence of operations appends, the `i`th carrying cursor `i`. -/
def appended (ops : List LogOp) : List Message :=
  (ops.filterMap message?).mapIdx fun i m => { m with cursor := i + 1 }

/-- The running maximum, over the prunes, of the smaller of their bound and the number of messages
appended before them. -/
def pruned (ops : List LogOp) : Nat :=
  (ops.foldl (fun (n, f) op =>
    match op with
    | .append _ => (n + 1, f)
    | .pruneTo upTo => (n, max f (min upTo n))) (0, 0)).2

/-- One append more. -/
theorem appended_append (ops : List LogOp) (m : Message) :
    appended (ops ++ [.append m]) =
      appended ops ++ [{ m with cursor := (appended ops).length + 1 }] := by
  simp only [appended, List.filterMap_append, message?, List.filterMap_cons, List.filterMap_nil,
    List.mapIdx_concat, List.length_mapIdx]

theorem appended_pruneTo (ops : List LogOp) (upTo : Nat) :
    appended (ops ++ [.pruneTo upTo]) = appended ops := by
  simp only [appended, List.filterMap_append, message?, List.filterMap_cons, List.filterMap_nil,
    List.append_nil]

/-- What an operation does to the abstract log. -/
def record (j : Journal Message) : LogOp → Journal Message
  | .append m => j.append { m with cursor := j.high + 1 }
  | .pruneTo upTo => j.prune upTo

/-- The abstract log of a sequence of operations. -/
def journal (ops : List LogOp) : Journal Message := Run.run record Journal.empty ops

theorem journal_concat (ops : List LogOp) (op : LogOp) :
    journal (ops ++ [op]) = record (journal ops) op :=
  Run.run_concat record Journal.empty ops op

/-- No operation takes anything back. -/
theorem before_record (j : Journal Message) (op : LogOp) : j.Before (record j op) := by
  cases op with
  | append m => exact Journal.before_append j _
  | pruneTo upTo => exact Journal.before_prune j upTo

/-- The abstract log of a run is the past of the abstract log of any longer one. -/
theorem journal_before (ops more : List LogOp) : (journal ops).Before (journal (ops ++ more)) := by
  rw [journal, journal, Run.run_append]
  exact Run.run_invariant (P := fun k => (journal ops).Before k)
    (fun k op h => h.trans (before_record k op)) (Journal.Before.refl _) more

/-- The abstract log holds the messages appended, each at its own cursor. -/
theorem journal_entries (ops : List LogOp) : (journal ops).entries = appended ops := by
  induction ops using List.reverseRecOn with
  | nil => rfl
  | append_singleton ops op ih =>
    rw [journal_concat]
    cases op with
    | append m =>
      rw [appended_append]
      simp only [record, Journal.entries_append, Journal.high, ih]
    | pruneTo upTo =>
      rw [appended_pruneTo]
      simp only [record, Journal.entries_prune, ih]

/-- And its floor is the running maximum of what the prunes asked for. -/
theorem journal_floor (ops : List LogOp) : (journal ops).floor = pruned ops := by
  suffices h : ops.foldl (fun (n, f) op =>
      match op with
      | .append _ => (n + 1, f)
      | .pruneTo upTo => (n, max f (min upTo n))) (0, 0) =
        ((journal ops).entries.length, (journal ops).floor) by
    rw [pruned, h]
  induction ops using List.reverseRecOn with
  | nil => rfl
  | append_singleton ops op ih =>
    rw [List.foldl_append, ih, journal_concat]
    cases op with
    | append m =>
      simp only [List.foldl_cons, List.foldl_nil, record, Journal.entries_append,
        Journal.floor_append, List.length_append, List.length_cons, List.length_nil]
    | pruneTo upTo =>
      simp only [List.foldl_cons, List.foldl_nil, record, Journal.entries_prune,
        Journal.floor_prune]

end LogOp

namespace TopicLog

/-- **The representation**: the log holds what the journal retains, and every entry of the journal
carries the cursor it was appended at. -/
structure Represents (s : TopicLog) (j : Journal Message) : Prop where
  messages : s.messages = j.retained
  floor : s.floor = j.floor
  numbered : Journal.Numbered Message.cursor 0 j.entries

theorem represents_empty : Represents {} Journal.empty := ⟨rfl, rfl, trivial⟩

namespace Represents

variable {s : TopicLog} {j : Journal Message}

/-- Log and journal have the same end. -/
theorem highCursor (h : Represents s j) : s.highCursor = j.high := by
  have := j.floor_le
  simp only [TopicLog.highCursor, h.messages, h.floor, Journal.retained, Journal.high,
    List.length_drop]
  omega

/-- The retained messages are numbered from the floor. -/
theorem numbered_messages (h : Represents s j) :
    Journal.Numbered Message.cursor j.floor s.messages := by
  have := h.numbered.drop j.floor
  rwa [Nat.zero_add, ← Journal.retained, ← h.messages] at this

/-- An append on both sides. -/
theorem append (h : Represents s j) (m : Message) :
    Represents (s.apply (.append m)) (j.append { m with cursor := j.high + 1 }) where
  messages := by
    simp only [apply, nextCursor, h.highCursor, Journal.retained, Journal.entries_append,
      Journal.floor_append, List.drop_append_of_le_length j.floor_le, h.messages]
  floor := h.floor
  numbered := by
    simp only [Journal.entries_append, Journal.numbered_append, h.numbered, Journal.Numbered,
      Journal.high, Nat.zero_add, and_self]

/-- A prune drops the prefix its bound reaches, and counts it. -/
theorem pruneTo (h : Represents s j) (upTo : Nat) :
    Represents (s.apply (.pruneTo upTo)) (j.prune upTo) := by
  have fits := j.floor_le
  have kept : (s.messages.filter fun m => decide (m.cursor > upTo)) =
      j.entries.drop (j.floor + (upTo - j.floor)) := by
    rw [h.numbered_messages.filter_above, h.messages, Journal.retained, List.drop_drop]
  constructor
  · simp only [apply, kept, Journal.retained, Journal.entries_prune, Journal.floor_prune]
    -- past the last entry both sides are empty, before it the two bounds are one
    by_cases past : upTo ≤ j.entries.length
    · rw [Nat.min_eq_left past]
      congr 1
      omega
    · rw [List.drop_eq_nil_of_le (by omega), List.drop_eq_nil_of_le (by omega)]
  · simp only [apply, kept, List.length_drop]
    simp only [h.messages, h.floor, Journal.retained, List.length_drop, Journal.floor_prune]
    omega
  · exact h.numbered

/-- Any operation on both sides. -/
theorem record (h : Represents s j) (op : LogOp) : Represents (s.apply op) (op.record j) := by
  cases op with
  | append m => exact h.append m
  | pruneTo upTo => exact h.pruneTo upTo

/-- The indexed lookup finds the journal's entry. -/
theorem get (h : Represents s j) (c : Nat) : s.get c = j.get c := by
  have fits := j.floor_le
  simp only [TopicLog.get, h.highCursor, h.floor, Journal.get, Journal.high]
  by_cases below : j.floor < c
  · rw [if_pos below]
    by_cases past : j.entries.length < c
    · rw [if_pos (.inr past), List.getElem?_eq_none (by omega)]
    · rw [if_neg (by omega), h.messages, Journal.retained, List.getElem?_drop]
      congr 1
      omega
  · rw [if_neg below, if_pos (.inl (by omega))]

/-- The replay slice is the journal's tail. -/
theorem since (h : Represents s j) (after : Nat) : s.since after = j.since after := by
  rw [TopicLog.since, h.numbered_messages.filter_above, h.messages, Journal.retained,
    List.drop_drop, Journal.since]
  congr 1
  omega

end Represents

/-- Every log reached from the empty one represents the journal of the same operations. -/
theorem replay_represents (ops : List LogOp) : Represents (replay ops) (LogOp.journal ops) :=
  Run.run_simulation (R := Represents) (fun _ _ op h => h.record op) represents_empty ops

/-- An appended message is found under the cursor it was given. -/
theorem get_append (s : TopicLog) (m : Message) :
    (s.apply (.append m)).get s.nextCursor = some { m with cursor := s.nextCursor } := by
  have index : s.floor + s.messages.length + 1 - s.floor - 1 = s.messages.length := by omega
  simp only [get, apply, nextCursor, highCursor, List.length_append, List.length_cons,
    List.length_nil, index, List.getElem?_concat_length]
  rw [if_neg (by omega)]

/-! ## Reading a replica off the history -/

/-- The end of a log is the number of its appends. -/
theorem highCursor_replay (ops : List LogOp) :
    (replay ops).highCursor = (LogOp.appended ops).length := by
  rw [(replay_represents ops).highCursor, Journal.high, LogOp.journal_entries]

/-- What is read after a cursor is what was appended after it and not pruned. -/
theorem since_replay (ops : List LogOp) (after : Nat) :
    (replay ops).since after = (LogOp.appended ops).drop (max after (replay ops).floor) := by
  rw [(replay_represents ops).since, Journal.since, LogOp.journal_entries,
    (replay_represents ops).floor]

/-- The cursor of a message is its place, counted from one. -/
theorem cursor_appended {ops : List LogOp} {i : Nat} {m : Message}
    (found : (LogOp.appended ops)[i]? = some m) : m.cursor = i + 1 := by
  rw [← LogOp.journal_entries] at found
  have := (replay_represents ops).numbered.getElem? found
  omega

theorem cursor_le_of_mem {ops : List LogOp} {m : Message} (mem : m ∈ LogOp.appended ops) :
    m.cursor ≤ (LogOp.appended ops).length := by
  obtain ⟨i, found⟩ := List.mem_iff_getElem?.mp mem
  have inside := (List.getElem?_eq_some_iff.mp found).1
  rw [cursor_appended found]
  exact inside

theorem pairwise_appended (ops : List LogOp) :
    ((LogOp.appended ops).map (·.cursor)).Pairwise (· < ·) := by
  rw [List.pairwise_map, List.pairwise_iff_getElem]
  intro i j hi hj lt
  rw [cursor_appended (List.getElem?_eq_getElem hi), cursor_appended (List.getElem?_eq_getElem hj)]
  omega

/-- Past the first `n` appended are those whose cursors are past `n`. -/
theorem mem_drop_appended {ops : List LogOp} {n : Nat} {m : Message} :
    m ∈ (LogOp.appended ops).drop n ↔ m ∈ LogOp.appended ops ∧ n < m.cursor := by
  constructor
  · intro mem
    obtain ⟨i, found⟩ := List.mem_iff_getElem?.mp mem
    rw [List.getElem?_drop] at found
    have cursor := cursor_appended found
    exact ⟨List.mem_of_getElem? found, by omega⟩
  · rintro ⟨mem, past⟩
    obtain ⟨i, found⟩ := List.mem_iff_getElem?.mp mem
    have cursor := cursor_appended found
    refine List.mem_of_getElem? (i := i - n) ?_
    rw [List.getElem?_drop, show n + (i - n) = i by omega, found]

/-- What is appended in a history is appended, at the same cursors, in a longer one. -/
theorem appended_of_prefixes (ops more : List LogOp) :
    LogOp.appended ops <+: LogOp.appended (ops ++ more) := by
  rw [← LogOp.journal_entries, ← LogOp.journal_entries]
  exact (LogOp.journal_before ops more).1

/-- A longer prefix is a shorter one and what follows it. -/
theorem take_split (ops : List LogOp) {n k : Nat} (le : n ≤ k) :
    ops.take k = ops.take n ++ (ops.take k).drop n := by
  calc ops.take k = (ops.take k).take n ++ (ops.take k).drop n := (List.take_append_drop n _).symm
    _ = ops.take n ++ (ops.take k).drop n := by rw [List.take_take, Nat.min_eq_left le]

theorem appended_take_le (ops : List LogOp) {n k : Nat} (le : n ≤ k) :
    LogOp.appended (ops.take n) <+: LogOp.appended (ops.take k) := by
  rw [take_split ops le]
  exact appended_of_prefixes _ _

/-- What a prefix lacks of a longer one is what the operations between them append. -/
theorem length_appended_take (ops : List LogOp) {n k : Nat} (le : n ≤ k) :
    (LogOp.appended (ops.take k)).length = (LogOp.appended (ops.take n)).length +
      (((ops.take k).drop n).filterMap LogOp.message?).length := by
  have split := congrArg (fun l => (LogOp.appended l).length) (take_split ops le)
  simp only [LogOp.appended, List.filterMap_append, List.length_mapIdx, List.length_append] at split
  simpa only [LogOp.appended, List.length_mapIdx] using split

theorem highCursor_take_le (ops : List LogOp) {n k : Nat} (le : n ≤ k) :
    (replay (ops.take n)).highCursor ≤ (replay (ops.take k)).highCursor := by
  rw [highCursor_replay, highCursor_replay]
  exact (appended_take_le ops le).length_le

/-- Two prefixes of a history have the same message at a cursor both have reached. -/
theorem mem_appended_take {ops : List LogOp} {n k : Nat} {m : Message}
    (mem : m ∈ LogOp.appended (ops.take k)) (le : m.cursor ≤ (LogOp.appended (ops.take n)).length) :
    m ∈ LogOp.appended (ops.take n) := by
  rcases Nat.le_total k n with le' | le'
  · exact (appended_take_le ops le').subset mem
  · obtain ⟨i, found⟩ := List.mem_iff_getElem?.mp mem
    have cursor := cursor_appended found
    obtain ⟨rest, split⟩ := appended_take_le ops le'
    rw [← split, List.getElem?_append_left (by omega)] at found
    exact List.mem_of_getElem? found

/-- A message is kept at the cursor. -/
def Retained (s : TopicLog) (c : Nat) : Prop := ∃ m ∈ s.messages, m.cursor = c

instance (s : TopicLog) : DecidablePred s.Retained :=
  fun c => inferInstanceAs (Decidable (∃ m ∈ s.messages, m.cursor = c))

namespace Represents

variable {s : TopicLog} {j : Journal Message}

/-- The message kept at `floor + i + 1` is the one at index `i`. -/
theorem mem_messages (h : Represents s j) {m : Message} (mem : m ∈ s.messages) :
    s.floor < m.cursor ∧ m.cursor ≤ s.highCursor ∧ s.messages[m.cursor - s.floor - 1]? = some m := by
  obtain ⟨i, found⟩ := List.mem_iff_getElem?.mp mem
  have cursor := h.numbered_messages.getElem? found
  have inside := (List.getElem?_eq_some_iff.mp found).1
  rw [← h.floor] at cursor
  have index : m.cursor - s.floor - 1 = i := by omega
  rw [index, TopicLog.highCursor]
  exact ⟨by omega, by omega, found⟩

/-- A lookup finds the message kept at its cursor, and nothing else. -/
theorem get_eq_some_iff (h : Represents s j) {c : Nat} {m : Message} :
    s.get c = some m ↔ m ∈ s.messages ∧ m.cursor = c := by
  rw [TopicLog.get]
  constructor
  · intro found
    split at found
    · cases found
    · have cursor := h.numbered_messages.getElem? found
      rw [← h.floor] at cursor
      exact ⟨List.mem_of_getElem? found, by omega⟩
  · rintro ⟨mem, rfl⟩
    obtain ⟨above, assigned, found⟩ := h.mem_messages mem
    rw [if_neg (by omega), found]

/-- A lookup answers where a message is kept. -/
theorem retained_iff_get (h : Represents s j) (c : Nat) : s.Retained c ↔ (s.get c).isSome := by
  rw [Option.isSome_iff_exists]
  exact exists_congr fun m => h.get_eq_some_iff.symm

/-- Every cursor above the floor is kept, up to the highest. -/
theorem retained_iff (h : Represents s j) (c : Nat) :
    s.Retained c ↔ s.floor < c ∧ c ≤ s.highCursor := by
  constructor
  · rintro ⟨m, mem, rfl⟩
    exact ⟨(h.mem_messages mem).1, (h.mem_messages mem).2.1⟩
  · rintro ⟨above, assigned⟩
    rw [TopicLog.highCursor] at assigned
    have inside : c - s.floor - 1 < s.messages.length := by omega
    rw [h.retained_iff_get, TopicLog.get, if_neg (by rw [TopicLog.highCursor]; omega),
      List.getElem?_eq_getElem inside]
    rfl

end Represents

/-- **The log refines an append-only log with a retention floor.** Whatever cursors the appended
messages carry and whatever the prunes ask for: the floor is the running maximum of what the prunes
could reach, the high cursor counts the appends, the retained messages are those past the floor, a
lookup answers exactly between the floor and the high cursor, a replay slice starts past the later
of its bound and the floor, and what a cursor once answered it answers in every later state until
it is pruned. -/
theorem replay_refines_appendOnly (ops : List LogOp) :
    (replay ops).floor = LogOp.pruned ops ∧
    (replay ops).highCursor = (LogOp.appended ops).length ∧
    (∀ i m, (LogOp.appended ops)[i]? = some m → m.cursor = i + 1) ∧
    (replay ops).messages = (LogOp.appended ops).drop (LogOp.pruned ops) ∧
    (∀ c, (replay ops).get c =
      if LogOp.pruned ops < c ∧ c ≤ (LogOp.appended ops).length
      then (LogOp.appended ops)[c - 1]? else none) ∧
    (∀ after, (replay ops).since after =
      (LogOp.appended ops).drop (max after (LogOp.pruned ops))) ∧
    (∀ more c m, (replay ops).get c = some m →
      (replay (ops ++ more)).get c =
        if (replay (ops ++ more)).floor < c then some m else none) := by
  have rep := replay_represents ops
  have entries := LogOp.journal_entries ops
  have floor := LogOp.journal_floor ops
  refine ⟨rep.floor.trans floor, ?_, ?_, ?_, ?_, ?_, ?_⟩
  · rw [rep.highCursor, Journal.high, entries]
  · intro i m found
    rw [← entries] at found
    have := rep.numbered.getElem? found
    omega
  · rw [rep.messages, Journal.retained, entries, floor]
  · intro c
    rw [rep.get, Journal.get, entries, floor]
    by_cases above : LogOp.pruned ops < c
    · by_cases past : c ≤ (LogOp.appended ops).length
      · rw [if_pos above, if_pos ⟨above, past⟩]
      · rw [if_pos above, if_neg (fun h => past h.2), List.getElem?_eq_none (by omega)]
    · rw [if_neg above, if_neg (fun h => above h.1)]
  · intro after
    rw [rep.since, Journal.since, entries, floor]
  · intro more c m found
    rw [rep.get] at found
    rw [(replay_represents (ops ++ more)).get, (replay_represents (ops ++ more)).floor]
    exact (LogOp.journal_before ops more).get_eq found

end TopicLog

end CePubsub
