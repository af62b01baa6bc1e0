import CePubsub.Laws.Log
import CePubsub.Topic
import Mathlib.Logic.Function.Basic

/-!
# Publishing at once

`append_and_fanout` reads the next cursor, proposes the append, and broadcasts what it stamped: three
steps, with nothing held between the first and the second. `Publishing` is any number of such calls
taking their steps in any order, among prunes: `ops` is the one serial order `ce-coord` applies
proposals in, `live` what has gone out on the live stream.

A call alone does what `Topic.appendAndFanout` computes (`appendAndFanout_alone`). Two calls that
both read before either appends return one cursor, and one of the two messages is broadcast under a
cursor at which the log holds the other (`two_publishes_one_cursor`). Where the log's next cursor is
still the one the call read (`Undisturbed`), every call gets its own (`publishes_own_cursor`).
-/

namespace CePubsub

/-- Where a call of `append_and_fanout` has got to. -/
inductive Phase where
  | stamped (msg : Message)
  | appended (msg : Message)
  | returned (outcome : Except String Nat)

/-- Calls under way, and what they share. -/
structure Publishing where
  ops : List LogOp
  live : List Message := []
  calls : Nat → Option Phase := fun _ => none

/-- One step of one call, or a prune. -/
inductive PublishStep where
  | read (call : Nat) (msg : Message)
  | propose (call : Nat) (commitLog : Except String Unit)
  | broadcast (call : Nat) (live : Bool)
  | pruneTo (upTo : Nat)

namespace Publishing

/-- The log every replica shows. -/
def log (s : Publishing) : TopicLog := TopicLog.replay s.ops

/-- Every message ever appended, at its own cursor. -/
def durable (s : Publishing) : List Message := LogOp.appended s.ops

/-- `ce-coord` applies one more proposal. -/
def propose (s : Publishing) (op : LogOp) : Publishing := { s with ops := s.ops ++ [op] }

def fanOut (s : Publishing) (msg : Message) : Publishing := { s with live := s.live ++ [msg] }

def enter (s : Publishing) (call : Nat) (phase : Phase) : Publishing :=
  { s with calls := Function.update s.calls call (some phase) }

/-- A call's next step, if that is the one it is at. -/
def step (s : Publishing) : PublishStep → Publishing
  | .read call msg =>
    match s.calls call with
    | none => s.enter call (.stamped { msg with cursor := s.log.nextCursor })
    | some _ => s
  | .propose call commitLog =>
    match s.calls call with
    | some (.stamped msg) =>
      match commitLog with
      | .ok () => (s.propose (.append msg)).enter call (.appended msg)
      | .error e => s.enter call (.returned (.error s!"durable append: {e}"))
    | _ => s
  | .broadcast call live =>
    match s.calls call with
    | some (.appended msg) =>
      (if live then s.fanOut msg else s).enter call (.returned (.ok msg.cursor))
    | _ => s
  | .pruneTo upTo => s.propose (.pruneTo upTo)

/-- What a step can do. -/
inductive Does (s : Publishing) : PublishStep → Publishing → Prop
  | nothing {act} : Does s act s
  | read {call msg} : s.calls call = none →
      Does s (.read call msg) (s.enter call (.stamped { msg with cursor := s.log.nextCursor }))
  | append {call msg} : s.calls call = some (.stamped msg) →
      Does s (.propose call (.ok ())) ((s.propose (.append msg)).enter call (.appended msg))
  | fail {call msg e} : s.calls call = some (.stamped msg) →
      Does s (.propose call (.error e)) (s.enter call (.returned (.error s!"durable append: {e}")))
  | broadcast {call msg live} : s.calls call = some (.appended msg) →
      Does s (.broadcast call live)
        ((if live then s.fanOut msg else s).enter call (.returned (.ok msg.cursor)))
  | prune {upTo} : Does s (.pruneTo upTo) (s.propose (.pruneTo upTo))

theorem step_does (s : Publishing) (act : PublishStep) : Does s act (s.step act) := by
  cases act with
  | read call msg =>
    rw [step]
    split
    · next idle => exact .read idle
    · exact .nothing
  | propose call commitLog =>
    rw [step]
    split
    · next stamped =>
      cases commitLog with
      | ok u => exact .append stamped
      | error e => exact .fail stamped
    · exact .nothing
  | broadcast call live =>
    rw [step]
    split
    · next appended => exact .broadcast appended
    · exact .nothing
  | pruneTo upTo => exact .prune

/-- The cursor a call has returned, or is to. -/
def cursorOf : Phase → Option Nat
  | .stamped _ => none
  | .appended msg => some msg.cursor
  | .returned outcome => outcome.toOption

/-- The cursor a call took, once it has appended. -/
def took (s : Publishing) (call : Nat) : Option Nat := (s.calls call).bind cursorOf

/-- An append finds the log's next cursor the one its call read. -/
def Undisturbed (s : Publishing) : PublishStep → Prop
  | .propose call (.ok ()) =>
    ∀ msg, s.calls call = some (.stamped msg) → s.log.nextCursor = msg.cursor
  | _ => True

theorem calls_enter (s : Publishing) (call : Nat) (phase : Phase) :
    (s.enter call phase).calls call = some phase :=
  Function.update_self _ _ _

theorem calls_enter_of_ne (s : Publishing) {call other : Nat} (phase : Phase) (ne : other ≠ call) :
    (s.enter call phase).calls other = s.calls other :=
  Function.update_of_ne ne _ _

theorem log_propose (s : Publishing) (op : LogOp) : (s.propose op).log = s.log.apply op :=
  Run.run_concat _ _ _ _

/-- **A call whose steps follow one another** does to the log, and to the topic's live stream, what
the owner's append does, and returns what it returns. -/
theorem appendAndFanout_alone {t : Topic} {s : Publishing} {call : Nat} (node : Answers)
    (msg : Message) (idle : s.calls call = none) (log : t.writer = s.log)
    (live : t.streams.getD (streamName t.topic t.nodeId) [] = s.live) :
    let s' := Run.run step s [.read call msg, .propose call node.commitLog, .broadcast call node.live]
    let t' := (t.appendAndFanout node msg).2
    s'.calls call = some (.returned (t.appendAndFanout node msg).1) ∧ t'.writer = s'.log ∧
      t'.streams.getD (streamName t'.topic t'.nodeId) [] = s'.live := by
  intro s' t'
  have stamped : s.step (.read call msg) =
      s.enter call (.stamped { msg with cursor := s.log.nextCursor }) := by
    rw [step, idle]
  simp only [s', t', Run.run_cons, Run.run_nil, stamped, Topic.appendAndFanout, log]
  rw [step, calls_enter]
  cases node.commitLog with
  | error e =>
    simp only [step, calls_enter]
    exact ⟨trivial, log, live⟩
  | ok u =>
    simp only [step, calls_enter]
    have logged := (s.log_propose (.append { msg with cursor := s.log.nextCursor })).symm
    cases node.live with
    | false => exact ⟨trivial, logged, live⟩
    | true =>
      refine ⟨trivial, logged, ?_⟩
      simp only [if_true, Topic.broadcast, Std.ExtTreeMap.getD_insert_self, live]
      rfl

/-! ## The durable messages -/

theorem nextCursor_eq (s : Publishing) : s.log.nextCursor = s.durable.length + 1 := by
  rw [TopicLog.nextCursor, log, (TopicLog.replay_represents s.ops).highCursor, Journal.high,
    LogOp.journal_entries, durable]

/-- Nothing durable moves when a proposal is applied. -/
theorem durable_prefix (s : Publishing) (op : LogOp) : s.durable <+: (s.propose op).durable := by
  have before := (LogOp.before_record (LogOp.journal s.ops) op).1
  rwa [← LogOp.journal_concat, LogOp.journal_entries, LogOp.journal_entries] at before

/-- A message stamped with the next cursor is durable there as it is. -/
theorem durable_append {s : Publishing} {msg : Message} (next : s.log.nextCursor = msg.cursor) :
    (s.propose (.append msg)).durable = s.durable ++ [msg] := by
  have entries : (s.propose (.append msg)).durable =
      s.durable ++ [{ msg with cursor := s.durable.length + 1 }] := by
    rw [durable, ← LogOp.journal_entries, propose, LogOp.journal_concat]
    simp only [LogOp.record, Journal.entries_append, Journal.high, LogOp.journal_entries, durable]
  rw [entries, ← s.nextCursor_eq, next]

/-- And it is what the log answers there at that moment, since no prune reaches past the end. -/
theorem get_append {s : Publishing} {msg : Message} (next : s.log.nextCursor = msg.cursor) :
    (s.propose (.append msg)).log.get msg.cursor = some msg := by
  have high : msg.cursor = (LogOp.journal s.ops).entries.length + 1 := by
    rw [← next, s.nextCursor_eq, durable, LogOp.journal_entries]
  rw [log, propose, (TopicLog.replay_represents _).get, LogOp.journal_concat, high]
  refine (Journal.get_append_self _ _).trans ?_
  rw [Journal.high, ← high]

/-- A message is durable under the cursor it carries. -/
def Stored (s : Publishing) (msg : Message) : Prop :=
  0 < msg.cursor ∧ s.durable[msg.cursor - 1]? = some msg

theorem Stored.mono {s s' : Publishing} {msg : Message} (h : s.Stored msg)
    (before : s.durable <+: s'.durable) : s'.Stored msg := by
  obtain ⟨more, grown⟩ := before
  refine ⟨h.1, ?_⟩
  rw [← grown, List.getElem?_append_left (List.getElem?_eq_some_iff.mp h.2).1, h.2]

/-- What the log answers at a stored message's cursor is that message. -/
theorem Stored.get_eq {s : Publishing} {msg found : Message} (h : s.Stored msg)
    (get : s.log.get msg.cursor = some found) : found = msg := by
  rw [log, (TopicLog.replay_represents s.ops).get, Journal.get, LogOp.journal_entries] at get
  split at get
  · exact (Option.some.inj (h.2.symm.trans get)).symm
  · cases get

/-! ## Every call its own cursor -/

/-- Calls that have appended hold different cursors, each of its own message, and what has been
broadcast is what is durable. -/
structure Owned (s : Publishing) : Prop where
  assigned : ∀ i c, s.took i = some c → c ≤ s.durable.length
  own : ∀ i j c, s.took i = some c → s.took j = some c → i = j
  appended : ∀ i msg, s.calls i = some (.appended msg) → s.Stored msg
  live : ∀ m ∈ s.live, s.Stored m

theorem owned_start (before : List LogOp) : Owned { ops := before } where
  assigned _ _ took := nomatch took
  own _ _ _ took := nomatch took
  appended _ _ is := nomatch is
  live _ mem := nomatch mem

theorem Owned.propose {s : Publishing} (h : s.Owned) (op : LogOp) : (s.propose op).Owned where
  assigned i c took := Nat.le_trans (h.assigned i c took) (s.durable_prefix op).length_le
  own := h.own
  appended i msg is := (h.appended i msg is).mono (s.durable_prefix op)
  live m mem := (h.live m mem).mono (s.durable_prefix op)

/-- A call may enter a phase whose cursor, if it has one, is assigned and nobody else's. -/
theorem Owned.enter {s : Publishing} (h : s.Owned) {call : Nat} {phase : Phase}
    (mine : ∀ c, cursorOf phase = some c → c ≤ s.durable.length ∧ ∀ i, s.took i = some c → i = call)
    (stored : ∀ msg, phase = .appended msg → s.Stored msg) : (s.enter call phase).Owned := by
  have took_self : (s.enter call phase).took call = cursorOf phase := by
    rw [took, calls_enter, Option.bind_some]
  have took_other : ∀ i, i ≠ call → (s.enter call phase).took i = s.took i := fun i ne => by
    rw [took, took, calls_enter_of_ne s phase ne]
  refine ⟨?_, ?_, ?_, h.live⟩
  · intro i c holds
    by_cases self : i = call
    · subst self
      exact (mine c (took_self ▸ holds)).1
    · exact h.assigned i c (took_other i self ▸ holds)
  · intro i j c holds holds'
    by_cases self : i = call
    · subst self
      by_cases self' : j = i
      · exact self'.symm
      · exact ((mine c (took_self ▸ holds)).2 j (took_other j self' ▸ holds')).symm
    · by_cases self' : j = call
      · subst self'
        exact (mine c (took_self ▸ holds')).2 i (took_other i self ▸ holds)
      · exact h.own i j c (took_other i self ▸ holds) (took_other j self' ▸ holds')
  · intro i msg is
    by_cases self : i = call
    · subst self
      rw [calls_enter] at is
      exact stored msg (Option.some.inj is)
    · rw [calls_enter_of_ne s phase self] at is
      exact h.appended i msg is

theorem Owned.fanOut {s : Publishing} (h : s.Owned) {msg : Message} (stored : s.Stored msg) :
    (s.fanOut msg).Owned := by
  refine ⟨h.assigned, h.own, h.appended, ?_⟩
  intro m mem
  rcases List.mem_append.mp mem with before | new
  · exact h.live m before
  · rw [List.mem_singleton.mp new]
    exact stored

/-- A message stamped with the next cursor is appended under it, and nobody has it. -/
theorem Owned.append {s : Publishing} (h : s.Owned) {call : Nat} {msg : Message}
    (next : s.log.nextCursor = msg.cursor) :
    ((s.propose (.append msg)).enter call (.appended msg)).Owned := by
  have grown := durable_append next
  have cursor : msg.cursor = s.durable.length + 1 := by rw [← next, s.nextCursor_eq]
  refine (h.propose (.append msg)).enter ?_ ?_
  · rintro c ⟨⟩
    refine ⟨by rw [grown, List.length_append, cursor]; exact Nat.le_refl _, ?_⟩
    -- what was taken before lies below the cursor read
    intro i holds
    have := h.assigned i _ holds
    omega
  · rintro _ ⟨⟩
    refine ⟨by omega, ?_⟩
    rw [grown, cursor, Nat.add_sub_cancel, List.getElem?_concat_length]

/-- An undisturbed step leaves every call its own cursor. -/
theorem owned_step {s : Publishing} (h : s.Owned) {act : PublishStep} (undisturbed : s.Undisturbed act) :
    (s.step act).Owned := by
  have does := s.step_does act
  generalize s.step act = s' at does
  cases does with
  | nothing => exact h
  | read idle => exact h.enter (fun _ holds => nomatch holds) (fun _ is => nomatch is)
  | append stamped => exact h.append (undisturbed _ stamped)
  | fail stamped => exact h.enter (fun _ holds => nomatch holds) (fun _ is => nomatch is)
  | @broadcast call msg live appended =>
    have took : s.took call = some msg.cursor := by
      rw [Publishing.took, appended]
      rfl
    have fanned : (if live then s.fanOut msg else s).Owned ∧
        (if live then s.fanOut msg else s).took = s.took := by
      cases live with
      | false => exact ⟨h, rfl⟩
      | true => exact ⟨h.fanOut (h.appended call msg appended), rfl⟩
    refine fanned.1.enter ?_ (fun _ is => nomatch is)
    rintro c ⟨⟩
    refine ⟨fanned.1.assigned call _ (fanned.2 ▸ took), fun i holds => ?_⟩
    exact h.own i call _ (fanned.2 ▸ holds) took
  | prune => exact h.propose _

/-- A call that has appended returns the cursor it appended under, if it returns. -/
theorem returned_of_appended {s : Publishing} {call : Nat} {msg : Message}
    (appended : s.calls call = some (.appended msg)) (acts : List PublishStep) :
    (Run.run step s acts).calls call = some (.appended msg) ∨
      (Run.run step s acts).calls call = some (.returned (.ok msg.cursor)) := by
  refine Run.run_invariant (P := fun s : Publishing => s.calls call = some (.appended msg) ∨
    s.calls call = some (.returned (.ok msg.cursor))) ?_ (.inl appended) acts
  intro s act h
  have does := s.step_does act
  generalize s.step act = s' at does
  have other : ∀ {i phase s'}, s.calls i = phase → phase ≠ some (.appended msg) →
      phase ≠ some (.returned (.ok msg.cursor)) → s'.calls = s.calls → ∀ p,
      (enter s' i p).calls call = some (.appended msg) ∨
        (enter s' i p).calls call = some (.returned (.ok msg.cursor)) := by
    rintro i phase s' rfl not_appended not_returned same p
    have ne : call ≠ i := by
      rintro rfl
      exact h.elim not_appended not_returned
    rw [calls_enter_of_ne s' p ne, same]
    exact h
  cases does with
  | nothing => exact h
  | read idle => exact other idle (fun is => nomatch is) (fun is => nomatch is) rfl _
  | append stamped => exact other stamped (fun is => nomatch is) (fun is => nomatch is) rfl _
  | fail stamped => exact other stamped (fun is => nomatch is) (fun is => nomatch is) rfl _
  | @broadcast i m live is =>
    have same : (if live then s.fanOut m else s).calls = s.calls := by cases live <;> rfl
    by_cases self : call = i
    · subst self
      rw [calls_enter]
      rcases h with before | before
      · cases before.symm.trans is
        exact .inr rfl
      · cases before.symm.trans is
    · rw [calls_enter_of_ne _ _ self, same]
      exact h
  | prune => exact h

/-- **Concurrent publishes get their own cursor**, over any log, in every run in which no append comes
between a call's read and its own append. The cursors returned are different; at the moment of an
append the log answers the cursor its call returns with the message it stamped; and what is broadcast
under a cursor is what is durable there. -/
theorem publishes_own_cursor (before : List LogOp) (acts : List PublishStep)
    (undisturbed : Run.Along step Undisturbed { ops := before } acts) :
    (∀ i j c, (Run.run step { ops := before } acts).calls i = some (.returned (.ok c)) →
      (Run.run step { ops := before } acts).calls j = some (.returned (.ok c)) → i = j) ∧
    (∀ pre i post msg, acts = pre ++ .propose i (.ok ()) :: post →
      (Run.run step { ops := before } pre).calls i = some (.stamped msg) →
      (Run.run step { ops := before } (pre ++ [.propose i (.ok ())])).log.get msg.cursor = some msg ∧
      ∀ c, (Run.run step { ops := before } acts).calls i = some (.returned (.ok c)) →
        c = msg.cursor) ∧
    (∀ m ∈ (Run.run step { ops := before } acts).live,
      0 < m.cursor ∧ (Run.run step { ops := before } acts).durable[m.cursor - 1]? = some m ∧
      ∀ found, (Run.run step { ops := before } acts).log.get m.cursor = some found → found = m) := by
  have owned : ∀ {acts}, Run.Along step Undisturbed { ops := before } acts →
      (Run.run step { ops := before } acts).Owned :=
    Run.run_invariant_along (fun _ _ h along => owned_step h along) (owned_start before)
  refine ⟨?_, ?_, ?_⟩
  · intro i j c returned returned'
    refine (owned undisturbed).own i j c ?_ ?_
    · rw [took, returned]
      rfl
    · rw [took, returned']
      rfl
  · intro pre i post msg split stamped
    rw [List.append_cons] at split
    subst split
    have next := (Run.along_concat.mp undisturbed.of_append).2 msg stamped
    have stepped : (Run.run step { ops := before } (pre ++ [.propose i (.ok ())])) =
        ((Run.run step { ops := before } pre).propose (.append msg)).enter i (.appended msg) := by
      rw [Run.run_concat, step, stamped]
    have appended : (Run.run step { ops := before } (pre ++ [.propose i (.ok ())])).calls i =
        some (.appended msg) := by
      rw [stepped, calls_enter]
    constructor
    · rw [stepped]
      exact get_append next
    · intro c returned
      rw [Run.run_append] at returned
      rcases returned_of_appended appended post with under | under
      · cases returned.symm.trans under
      · cases returned.symm.trans under
        rfl
  · intro m mem
    have stored := (owned undisturbed).live m mem
    exact ⟨stored.1, stored.2, fun found get => stored.get_eq get⟩

private def fromA : Message := .new 0 "aa" [97] 10

private def fromB : Message := .new 0 "bb" [98] 10

/-- The steps of two publishes, the second begun before the first is broadcast, among prunes. -/
private def interleaved : List PublishStep :=
  [.read 0 fromA, .pruneTo 0, .propose 0 (.ok ()), .read 1 fromB, .pruneTo 1, .broadcast 0 true,
    .propose 1 (.ok ()), .broadcast 1 true]

/-- Two publishes that overlap where they may: each returns a cursor of its own, and what is broadcast
under the second one is what is durable there. -/
theorem publishes_own_cursor_run :
    let s := Run.run step { ops := [] } interleaved
    s.calls 0 = some (.returned (.ok 1)) ∧ s.calls 1 = some (.returned (.ok 2)) ∧
      (∀ i c, s.calls i = some (.returned (.ok c)) → c = 1 → i = 0) ∧
      s.durable[1]? = some { fromB with cursor := 2 } := by
  intro s
  have undisturbed : Run.Along step Undisturbed { ops := [] } interleaved := by
    refine ⟨trivial, trivial, ?_, trivial, trivial, trivial, ?_, trivial, trivial⟩
    · rintro msg ⟨⟩
      rfl
    · rintro msg ⟨⟩
      rfl
  obtain ⟨own, -, heard⟩ := publishes_own_cursor [] interleaved undisturbed
  have second := (heard { fromB with cursor := 2 }
    (List.mem_append_right [{ fromA with cursor := 1 }] (List.mem_singleton_self _))).2.1
  refine ⟨rfl, rfl, fun i c returned one => ?_, second⟩
  subst one
  exact own i 0 1 returned rfl

/-- **Two publishers, one cursor**: both read before either appends. Both return cursor 1, the log
holds the first publisher's message there, and the second's is broadcast under it. -/
theorem two_publishes_one_cursor :
    let s := Run.run step { ops := [] } [.read 0 fromA, .read 1 fromB, .propose 0 (.ok ()),
      .propose 1 (.ok ()), .broadcast 0 true, .broadcast 1 true]
    s.calls 0 = some (.returned (.ok 1)) ∧ s.calls 1 = some (.returned (.ok 1)) ∧
      s.log.get 1 = some { fromA with cursor := 1 } ∧
      s.live = [{ fromA with cursor := 1 }, { fromB with cursor := 1 }] ∧ fromA ≠ fromB := by
  refine ⟨rfl, rfl, rfl, rfl, ?_⟩
  decide +kernel

end Publishing

end CePubsub
