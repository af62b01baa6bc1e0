import CePubsub.Laws.Owner
import CePubsub.Pull

/-!
# What a pull shows of a topic

A page is read from whatever state the replica happens to show, and everything a puller may conclude
from it rests on two facts about histories: a replica shows the owner's log after some number of its
operations, and the high cursor counts the appends among them, whatever was pruned. A replica whose
high cursor has reached the owner's answer has therefore replayed every message the owner had when it
answered.
-/

namespace CePubsub

open TopicLog (replay)

namespace Shown

/-- The log a reader shows, from the number of the owner's operations it has applied at each look. -/
def of (ops : List LogOp) (applied : Shown Nat) : Shown TopicLog where
  polls := applied.polls.map fun n => replay (ops.take n)
  last := replay (ops.take applied.last)
  again := replay (ops.take applied.again)
  version := applied.version
  versions := applied.versions
  read := replay (ops.take applied.read)

/-- A reader only moves forward. -/
structure Forward (applied : Shown Nat) : Prop where
  polls : ∀ n ∈ applied.polls, n ≤ applied.last
  again : applied.last ≤ applied.again
  read : applied.again ≤ applied.read
  sorted : applied.polls.Pairwise (· ≤ ·)

end Shown

namespace Replay

section Page

variable {ops : List LogOp} {after limit : Nat} {target : Option Nat} {converged : Bool} {r : Replay}
  (is : r = page (replay ops) after limit target converged)

include is

/-- The messages of a page: the first ones appended past its start and past the floor. -/
theorem messages_page :
    r.messages = ((LogOp.appended ops).drop (max after (replay ops).floor)).take limit := by
  simp only [is, page, TopicLog.since_replay, decide_eq_true_eq]
  split
  · rfl
  · rw [List.take_of_length_le (by omega)]

/-- The message at index `i` of a page. -/
theorem getElem?_page {i : Nat} {m : Message} (found : r.messages[i]? = some m) :
    (LogOp.appended ops)[max after (replay ops).floor + i]? = some m ∧
      m.cursor = max after (replay ops).floor + i + 1 := by
  rw [messages_page is, List.getElem?_take] at found
  split at found
  · rw [List.getElem?_drop] at found
    exact ⟨found, TopicLog.cursor_appended found⟩
  · cases found

/-- The next page begins past the messages of this one, or where this one began. -/
theorem next_page :
    r.next = if r.messages = [] then after else max after (replay ops).floor + r.messages.length := by
  have next : r.next = (r.messages.getLast?.map (·.cursor)).getD after := is ▸ rfl
  rw [next]
  split
  · next none => rw [none]; rfl
  · next some =>
    have last : r.messages[r.messages.length - 1]? = r.messages.getLast? :=
      List.getLast?_eq_getElem?.symm
    rw [List.getLast?_eq_some_getLast some] at last ⊢
    have cursor := (getElem?_page is last).2
    have pos := List.length_pos_of_ne_nil some
    rw [Option.map_some, Option.getD_some, cursor]
    omega

/-- A page lists messages of the owner's, from past its start up to where the next one begins. -/
theorem mem_page {m : Message} (mem : m ∈ r.messages) :
    m ∈ LogOp.appended ops ∧ after < m.cursor ∧ m.cursor ≤ r.next := by
  obtain ⟨i, found⟩ := List.mem_iff_getElem?.mp mem
  obtain ⟨owned, cursor⟩ := getElem?_page is found
  have inside := (List.getElem?_eq_some_iff.mp found).1
  have next := next_page is
  rw [if_neg (List.ne_nil_of_mem mem)] at next
  exact ⟨List.mem_of_getElem? owned, by omega, by omega⟩

theorem pairwise_page : (r.messages.map (·.cursor)).Pairwise (· < ·) := by
  rw [messages_page is]
  refine List.Pairwise.sublist (List.Sublist.map _ ?_) (TopicLog.pairwise_appended ops)
  exact (List.take_sublist _ _).trans (List.drop_sublist _ _)

theorem le_next_page : after ≤ r.next := by
  have next := next_page is
  split at next <;> omega

/-- **A page skips only what is pruned**: it holds every message between its start and where the next
page begins that the log still keeps. -/
theorem page_complete {c : Nat} (above : after < c) (le : c ≤ r.next) (kept : r.floor < c) :
    ∃ m ∈ r.messages, m.cursor = c := by
  have floor : r.floor = (replay ops).floor := is ▸ rfl
  have next := next_page is
  split at next
  · omega
  · have inside : c - max after (replay ops).floor - 1 < r.messages.length := by omega
    refine ⟨_, List.getElem_mem inside, ?_⟩
    rw [(getElem?_page is (List.getElem?_eq_getElem inside)).2]
    omega

theorem length_page_le : r.messages.length ≤ limit := by
  rw [messages_page is]
  exact List.length_take_le _ _

/-- A page that is cut short is followed by the rest. -/
theorem since_next_of_truncated (pos : 0 < limit) (truncated : r.truncated = true) :
    after < r.next ∧ r.messages ++ (replay ops).since r.next = (replay ops).since after ∧
      ((replay ops).since r.next).length < ((replay ops).since after).length := by
  have more : limit < ((replay ops).since after).length := by
    rw [is] at truncated
    exact of_decide_eq_true truncated
  have next := next_page is
  have messages := messages_page is
  rw [TopicLog.since_replay, List.length_drop] at more
  have full : r.messages.length = limit := by
    rw [messages, List.length_take, List.length_drop]
    omega
  have some : r.messages ≠ [] := List.ne_nil_of_length_pos (full ▸ pos)
  rw [if_neg some, full] at next
  have rest : max r.next (replay ops).floor = max after (replay ops).floor + limit := by omega
  rw [TopicLog.since_replay, TopicLog.since_replay, rest, messages]
  refine ⟨by omega, ?_, ?_⟩
  · rw [← List.drop_drop, List.take_append_drop]
  · rw [List.length_drop, List.length_drop]
    omega

/-- A page that is not cut short is all there is. -/
theorem messages_of_complete (complete : r.truncated = false) :
    r.messages = (replay ops).since after := by
  have few : ¬ ((replay ops).since after).length > limit := by
    rw [is] at complete
    exact of_decide_eq_false complete
  rw [messages_page is, ← TopicLog.since_replay, List.take_of_length_le (Nat.le_of_not_lt few)]

end Page

end Replay

namespace PubSub

variable {serde : Serde} {nodeId topic owner : String} {remote : Remote} {after limit : Nat}
  {r : Replay}

/-- The bound on a page, whatever was asked for. -/
def pageLimit (limit : Nat) : Nat := max 1 (min limit maxPullLimit)

/-- What a pull returns is a page of what its reader shows last. -/
theorem pullLimited_eq_ok (pulled : pullLimited serde nodeId topic owner remote after limit = .ok r) :
    ∃ shown, remote.reader = .ok shown ∧
      r = .page shown.read after (pageLimit limit)
        (fetchHighCursor serde nodeId owner remote).toOption
        (convergeTo shown (fetchHighCursor serde nodeId owner remote).toOption) := by
  simp only [pullLimited, bind, Except.bind] at pulled
  cases valid : validateTopic topic with
  | error e => simp only [valid, reduceCtorEq] at pulled
  | ok u =>
    simp only [valid] at pulled
    cases opened : remote.reader with
    | error e => simp only [opened, Except.mapError, reduceCtorEq] at pulled
    | ok shown =>
      simp only [opened, Except.mapError, Except.ok.injEq] at pulled
      exact ⟨shown, rfl, pulled.symm⟩

/-- And a pull of a topic whose reader opens returns one. -/
theorem pullLimited_of_reader (valid : validateTopic topic = .ok ()) {shown : Shown TopicLog}
    (opened : remote.reader = .ok shown) :
    pullLimited serde nodeId topic owner remote after limit =
      .ok (.page shown.read after (pageLimit limit)
        (fetchHighCursor serde nodeId owner remote).toOption
        (convergeTo shown (fetchHighCursor serde nodeId owner remote).toOption)) := by
  simp only [pullLimited, bind, Except.bind, valid, opened, Except.mapError, pageLimit]

theorem eq_ok_of_toOption {e : Except String Nat} {c : Nat} (h : e.toOption = some c) : e = .ok c := by
  cases e with
  | error why => cases h
  | ok c' => exact congrArg Except.ok (Option.some.inj h)

theorem awaitQuiet_eq (last stable : Nat) (versions : List Nat) :
    awaitQuiet last stable versions = false := by
  induction versions generalizing last stable with
  | nil => rfl
  | cons v versions ih =>
    rw [awaitQuiet]
    split
    · split
      · rfl
      · exact ih last (stable + 1)
    · exact ih v 0

/-- Waiting for a target succeeds exactly if some look shows it reached. -/
theorem awaitHigh_iff (target : Nat) (last again : TopicLog) (polls : List TopicLog) :
    awaitHigh target last again polls = true ↔
      ∃ log ∈ polls ++ [last, again], target ≤ log.highCursor := by
  induction polls with
  | nil => simp [awaitHigh]
  | cons log polls ih => simp [awaitHigh, ih]

/-- **A replica that has converged stays so**: what a reader shows last has reached the target. -/
theorem target_le_of_converged {ops : List LogOp} {applied : Shown Nat} (forward : applied.Forward)
    {target : Option Nat} (converged : convergeTo (.of ops applied) target = true) :
    ∃ t, target = some t ∧ t ≤ (replay (ops.take applied.read)).highCursor := by
  cases target with
  | none =>
    rw [convergeTo, awaitQuiet_eq] at converged
    cases converged
  | some t =>
    refine ⟨t, rfl, ?_⟩
    have later : ∀ {n}, n ≤ applied.read → t ≤ (replay (ops.take n)).highCursor →
        t ≤ (replay (ops.take applied.read)).highCursor := fun le reached =>
      reached.trans (TopicLog.highCursor_take_le ops le)
    obtain ⟨log, mem, reached⟩ := (awaitHigh_iff t _ _ _).mp converged
    simp only [Shown.of, List.mem_append, List.mem_map, List.mem_cons, List.not_mem_nil,
      or_false] at mem
    have lastLe := forward.again.trans forward.read
    rcases mem with ⟨n, polled, rfl⟩ | rfl | rfl
    · exact later ((forward.polls n polled).trans lastLe) reached
    · exact later lastLe reached
    · exact later forward.read reached

/-- Whatever reply the request for the high cursor gets is the one the owner makes at point `k` of its
history. -/
def AnsweredAt {Link : Type} (host : Host Link) (ops : List LogOp) (k : Nat)
    (request : Bytes → Except String Bytes) : Prop :=
  ∀ bytes, request (ControlRequest.highCursor none).encode = .ok bytes →
    ∃ (t : Topic) (node : Answers) (payloadHex requester : String) (now : Nat) (grant : Option String),
      t.writer = replay (ops.take k) ∧
        Topic.decodeControl host payloadHex = .ok (.highCursor grant) ∧
        bytes = (t.handleControl host node payloadHex requester now).1.encode

/-- The reader of the reply reads what the owner wrote. -/
def ReadsHigh (serde : Serde) (c : Nat) : Prop :=
  serde.controlReply (ControlReply.high c).encode = .ok (.high c)

variable {Link : Type} {host : Host Link} {ops : List LogOp} {k : Nat}

/-- **The target another node gets** is the owner's high cursor when it answered. -/
theorem fetchHighCursor_of_answered (other : owner ≠ nodeId)
    (answered : AnsweredAt host ops k remote.request)
    (lossless : ReadsHigh serde (LogOp.appended (ops.take k)).length) {target : Nat}
    (fetched : fetchHighCursor serde nodeId owner remote = .ok target) :
    target = (LogOp.appended (ops.take k)).length := by
  rw [fetchHighCursor, if_neg other] at fetched
  cases asked : remote.request (ControlRequest.highCursor none).encode with
  | error e => simp only [asked, Except.mapError, bind, Except.bind, reduceCtorEq] at fetched
  | ok bytes =>
    obtain ⟨t, node, payloadHex, requester, now, grant, writer, decoded, rfl⟩ := answered bytes asked
    have reply : (t.handleControl host node payloadHex requester now).1 =
        .high (LogOp.appended (ops.take k)).length := by
      rw [Topic.handleControl, decoded]
      simp only [writer, TopicLog.highCursor_replay]
    rw [reply] at asked
    simp only [asked, Except.mapError, bind, Except.bind] at fetched
    cases read : ControlReply.decode serde
        (ControlReply.high (LogOp.appended (ops.take k)).length).encode with
    | error e => simp only [read, reduceCtorEq] at fetched
    | ok v =>
      have same : v = .high (LogOp.appended (ops.take k)).length := by
        rw [ControlReply.decode] at read
        split at read
        · cases read
        · exact Except.ok.inj (read.symm.trans lossless)
      simp only [read, same, Except.ok.injEq] at fetched
      exact fetched.symm

/-- **A remote pull tells honestly how far it got.** The owner has any history of appends and prunes, and
answers at point `k` of it; the replica shows the log after any number of the owner's operations at each
look, and only moves forward. If the pull reports convergence to a known target, nothing is missing, and
its messages are the first of a list, within the limit, that has every message the owner had when it
answered and that is past the start and past the floor; and the list is all of it unless the pull says it
cut it. If the replica is short of the target, the pull does not report convergence, and reports as
missing the number of messages the owner had appended when it answered that the replica has not. -/
theorem pull_converges_honestly (serde : Serde) (host : Host Link) (nodeId topic owner : String)
    (other : owner ≠ nodeId) (ops : List LogOp) (k : Nat) (applied : Shown Nat)
    (forward : applied.Forward) (remote : Remote) (replica : remote.reader = .ok (.of ops applied))
    (answered : AnsweredAt host ops k remote.request)
    (lossless : ReadsHigh serde (LogOp.appended (ops.take k)).length) (after limit : Nat) (r : Replay)
    (pulled : pullLimited serde nodeId topic owner remote after limit = .ok r) (target : Nat)
    (known : r.target = some target) :
    (r.converged = true → r.missing = 0 ∧ ∃ all : List Message,
      r.messages = all.take (max 1 (min limit maxPullLimit)) ∧
      (all.map (·.cursor)).Pairwise (· < ·) ∧
      (∀ m ∈ all, m ∈ LogOp.appended ops ∧ after < m.cursor) ∧
      (∀ m ∈ LogOp.appended (ops.take k),
        max after r.floor < m.cursor → m.cursor ≤ target → m ∈ all) ∧
      (r.truncated = false → r.messages = all)) ∧
    (r.high < target → r.converged = false ∧ r.missing = target - r.high ∧
      r.missing = (((ops.take k).drop applied.read).filterMap LogOp.message?).length) := by
  obtain ⟨shown, opened, is⟩ := pullLimited_eq_ok pulled
  cases opened.symm.trans replica
  have fetched : fetchHighCursor serde nodeId owner remote = .ok target := by
    have same : r.target = (fetchHighCursor serde nodeId owner remote).toOption :=
      congrArg Replay.target is
    rw [known] at same
    exact eq_ok_of_toOption same.symm
  rw [fetched] at is
  have reached := fetchHighCursor_of_answered other answered lossless fetched
  have high : r.high = (LogOp.appended (ops.take applied.read)).length := by
    rw [← TopicLog.highCursor_replay]
    exact congrArg Replay.high is
  have missing : r.missing = target - r.high := by rw [is]; rfl
  have waited : r.converged = convergeTo (.of ops applied) (some target) :=
    congrArg Replay.converged is
  have enough : r.converged = true → target ≤ r.high := by
    intro converged
    obtain ⟨t, same, enough⟩ := target_le_of_converged forward (waited.symm.trans converged)
    cases same
    rw [high, ← TopicLog.highCursor_replay]
    exact enough
  have floor : r.floor = (replay (ops.take applied.read)).floor := congrArg Replay.floor is
  have taken := Replay.messages_page is
  rw [← floor] at taken
  constructor
  · intro converged
    refine ⟨?_, (LogOp.appended (ops.take applied.read)).drop (max after r.floor), taken, ?_, ?_, ?_, ?_⟩
    · rw [missing, Nat.sub_eq_zero_of_le (enough converged)]
    · exact ((TopicLog.pairwise_appended _).sublist (List.Sublist.map _ (List.drop_sublist _ _)))
    · intro m mem
      obtain ⟨owned, past⟩ := TopicLog.mem_drop_appended.mp mem
      refine ⟨?_, by omega⟩
      rw [← List.take_append_drop applied.read ops]
      exact (TopicLog.appended_of_prefixes _ _).subset owned
    · intro m mem past le
      refine TopicLog.mem_drop_appended.mpr ⟨?_, past⟩
      have le' : m.cursor ≤ (LogOp.appended (ops.take applied.read)).length :=
        high ▸ le.trans (enough converged)
      exact TopicLog.mem_appended_take mem le'
    · intro complete
      rw [Replay.messages_of_complete is complete, TopicLog.since_replay, floor]
  · intro short
    refine ⟨?_, missing, ?_⟩
    · exact Bool.eq_false_iff.mpr fun converged => Nat.not_lt_of_le (enough converged) short
    · have behind : applied.read ≤ k := by
        by_contra ahead
        have := (TopicLog.appended_take_le ops (Nat.le_of_not_le ahead)).length_le
        omega
      have lacking := TopicLog.length_appended_take ops behind
      omega

private def firstOrder : List LogOp := [.append (.new 0 "aa" [104] 10)]

private def askHigh : ControlRequest := .highCursor none

private def highHost : Host Unit := .reading [] [askHigh]

/-- Two messages, of which the first is pruned, and two more. -/
private def laterOrders : List LogOp :=
  [.append (.new 0 "aa" [104] 10), .append (.new 0 "bb" [105] 11), .pruneTo 1,
    .append (.new 0 "aa" [106] 12), .append (.new 0 "bb" [107] 13)]

/-- The owner replies when three messages are in its log. -/
private def highRequest (bytes : Bytes) : Except String Bytes :=
  if bytes = askHigh.encode then .ok (ControlReply.high 3).encode else .error "no reply"

private def highSerde : Serde :=
  { highHost.serde with
    controlReply := fun bytes =>
      if bytes = (ControlReply.high 3).encode then .ok (.high 3) else .error "not a reply" }

/-- A replica that is behind at the first look and past the owner's reply in the end, and one that stays
behind. -/
private def ahead : Shown Nat := { polls := [1, 3], last := 5, again := 5, read := 5 }

private def behind : Shown Nat := { polls := [1], last := 2, again := 3, read := 3 }

private def remoteShowing (applied : Shown Nat) : Remote where
  reader := .ok (.of laterOrders applied)
  fresh := .error "not the owner"
  request := highRequest

private theorem highRequest_answered : AnsweredAt highHost laterOrders 4 highRequest := by
  intro bytes asked
  rw [highRequest, askHigh, if_pos rfl] at asked
  cases asked
  have small : askHigh.encode.length ≤ maxControlBodyBytes := by
    rw [ControlRequest.length_encode]
    decide
  have decoded : Topic.decodeControl highHost (Hex.encode askHigh.encode) = .ok askHigh :=
    Topic.decodeControl_encode small (Host.reads_head [] askHigh [])
  refine ⟨{ nodeId := "aa", topic := "orders", writer := replay (laterOrders.take 4) }, {},
    Hex.encode askHigh.encode, "bb", 10, none, rfl, decoded, ?_⟩
  rw [Topic.handleControl, decoded]
  rfl

private theorem pulled_showing (applied : Shown Nat) :
    pullLimited highSerde "bb" "orders" "aa" (remoteShowing applied) 0 10 =
      .ok (.page (replay (laterOrders.take applied.read)) 0 10 (some 3)
        (convergeTo (.of laterOrders applied) (some 3))) := by
  have fits : ControlReply.decode highSerde (ControlReply.high 3).encode = .ok (.high 3) := by
    refine (ControlReply.decode_encode ?_).mpr ?_
    · simp only [highSerde, if_pos]
    · rw [ControlReply.Fits]
      decide
  have fetched : fetchHighCursor highSerde "bb" "aa" (remoteShowing applied) = .ok 3 := by
    rw [fetchHighCursor, if_neg (by decide)]
    simp only [remoteShowing, highRequest, askHigh, if_pos, Except.mapError, bind, Except.bind, fits]
  rw [pullLimited_of_reader (by decide) rfl, fetched]
  rfl

/-- Two pulls of another node's topic, of which one has the replica past the owner's reply, and one a
message short of it. -/
theorem pull_converges_honestly_lagging :
    (∃ r, pullLimited highSerde "bb" "orders" "aa" (remoteShowing ahead) 0 10 = .ok r ∧
      r.converged = true ∧ r.missing = 0 ∧ r.messages.map (·.cursor) = [2, 3, 4]) ∧
    ∃ r, pullLimited highSerde "bb" "orders" "aa" (remoteShowing behind) 0 10 = .ok r ∧
      r.converged = false ∧ r.missing = 1 ∧ r.messages.map (·.cursor) = [2] := by
  have reads : ReadsHigh highSerde 3 := by
    simp only [ReadsHigh, highSerde, if_pos]
  constructor
  · have forward : ahead.Forward := ⟨by decide, by decide, by decide, by decide⟩
    have honest := pull_converges_honestly highSerde highHost "bb" "orders" "aa" (by decide) laterOrders 4
      ahead forward (remoteShowing ahead) rfl highRequest_answered reads 0 10 _ (pulled_showing ahead) 3 rfl
    have converged : convergeTo (.of laterOrders ahead) (some 3) = true := by decide
    exact ⟨_, pulled_showing ahead, converged, (honest.1 converged).1, by decide⟩
  · have forward : behind.Forward := ⟨by decide, by decide, by decide, by decide⟩
    have honest := pull_converges_honestly highSerde highHost "bb" "orders" "aa" (by decide) laterOrders 4
      behind forward (remoteShowing behind) rfl highRequest_answered reads 0 10 _ (pulled_showing behind) 3
      rfl
    obtain ⟨converged, missing, -⟩ := honest.2 (by decide)
    exact ⟨_, pulled_showing behind, converged, missing, by decide⟩

/-- What is promised of a pull called when the owner's history was at `calledAt`: a converged replay has
reached where the owner's log was at some moment since, and a converged replay with nothing missing has
every message accepted before. -/
def Authoritative (ops : List LogOp) (calledAt applied : Nat) (r : Replay) : Prop :=
  r.converged = true →
    (∃ moment, calledAt ≤ moment ∧ (replay (ops.take moment)).highCursor ≤ r.high) ∧
    (r.missing = 0 → ∀ m ∈ LogOp.appended (ops.take calledAt), m ∈ LogOp.appended (ops.take applied))

/-- **The target is authoritative, unless the owner's own replica lags.** A node pulls a topic, its replica
shows the owner's log after any number of its operations at each look and only moves forward, and so does
the second one it opens if it is the owner; another node's request is answered at some moment after the
call. Whatever the replica does, a converged replay has reached where the owner's log was when the pull
was called, exactly if the second replica, where it is the one asked, has. -/
theorem converged_authoritative_iff (serde : Serde) (host : Host Link) (nodeId topic owner : String)
    (valid : validateTopic topic = .ok ()) (ops : List LogOp) (calledAt : Nat)
    (fresh : Except String Nat) (request : Bytes → Except String Bytes)
    (answered : owner ≠ nodeId → ∃ k, calledAt ≤ k ∧ AnsweredAt host ops k request ∧
      ReadsHigh serde (LogOp.appended (ops.take k)).length) (after limit : Nat) :
    (∀ applied : Shown Nat, applied.Forward → ∀ r,
      pullLimited serde nodeId topic owner
        ⟨.ok (.of ops applied), fresh.map fun n => replay (ops.take n), request⟩ after limit = .ok r →
      Authoritative ops calledAt applied.read r) ↔
    (owner = nodeId → ∀ n, fresh = .ok n →
      (replay (ops.take calledAt)).highCursor ≤ (replay (ops.take n)).highCursor) := by
  constructor
  · rintro promised rfl n rfl
    -- a replica that never gets past what the second one shows
    let applied : Shown Nat := { polls := [], last := n, again := n, read := n }
    have forward : applied.Forward := ⟨by simp [applied], le_refl n, le_refl n, .nil⟩
    have fetched : fetchHighCursor serde owner owner
        ⟨.ok (.of ops applied), .ok (replay (ops.take n)), request⟩ =
          .ok (replay (ops.take n)).highCursor := by
      rw [fetchHighCursor, if_pos rfl]
      rfl
    have page : pullLimited serde owner topic owner
        ⟨.ok (.of ops applied), .ok (replay (ops.take n)), request⟩ after limit = _ :=
      pullLimited_of_reader valid rfl
    rw [fetched] at page
    have converged : convergeTo (.of ops applied) (some (replay (ops.take n)).highCursor) = true :=
      (awaitHigh_iff _ _ _ _).mpr ⟨_, List.mem_cons_self, le_refl _⟩
    obtain ⟨⟨moment, since, le⟩, -⟩ := promised applied forward _ page converged
    exact (TopicLog.highCursor_take_le ops since).trans le
  · intro fresh_enough applied forward r pulled converged
    obtain ⟨shown, opened, is⟩ := pullLimited_eq_ok pulled
    cases opened
    have waited := (congrArg Replay.converged is).symm.trans converged
    obtain ⟨t, target, enough⟩ := target_le_of_converged forward waited
    have high : r.high = (replay (ops.take applied.read)).highCursor := congrArg Replay.high is
    have fetched := eq_ok_of_toOption target
    have past : (replay (ops.take calledAt)).highCursor ≤ t := by
      by_cases own : owner = nodeId
      · rw [fetchHighCursor, if_pos own] at fetched
        cases fresh with
        | error e => cases fetched
        | ok n =>
          cases fetched
          exact fresh_enough own n rfl
      · obtain ⟨k, since, reply, lossless⟩ := answered own
        rw [fetchHighCursor_of_answered own reply lossless fetched, ← TopicLog.highCursor_replay]
        exact TopicLog.highCursor_take_le ops since
    have reached := past.trans enough
    refine ⟨⟨calledAt, le_refl _, high ▸ reached⟩, fun _ m mem => TopicLog.mem_appended_take mem ?_⟩
    rw [← TopicLog.highCursor_replay]
    refine le_trans ?_ reached
    rw [TopicLog.highCursor_replay]
    exact TopicLog.cursor_le_of_mem mem

/-- The owner pulls its own topic: the replica it asks has a message more than there were when it called,
and the one it reads falls behind and catches up. -/
theorem converged_authoritative_fresh :
    ∃ r, pullLimited highHost.serde "aa" "orders" "aa"
        ⟨.ok (.of laterOrders ahead), .ok (replay (laterOrders.take 4)), fun _ => .error "no reply"⟩
          0 10 = .ok r ∧
      r.converged = true ∧ Authoritative laterOrders 3 5 r := by
  have promised := (converged_authoritative_iff highHost.serde highHost "aa" "orders" "aa" (by decide)
    laterOrders 3 (.ok 4) (fun _ => .error "no reply") (fun other => absurd rfl other) 0 10).mpr ?_
  · have forward : ahead.Forward := ⟨by decide, by decide, by decide, by decide⟩
    have pulled : pullLimited highHost.serde "aa" "orders" "aa"
        ⟨.ok (.of laterOrders ahead), .ok (replay (laterOrders.take 4)), fun _ => .error "no reply"⟩
        0 10 = _ :=
      pullLimited_of_reader (by decide) rfl
    exact ⟨_, pulled, by decide, promised ahead forward _ pulled⟩
  · intro _ n same
    cases same
    decide

private def staleRemote : Remote where
  reader := .ok (.of firstOrder { polls := [], last := 0, again := 0, read := 0 })
  fresh := .ok (replay (firstOrder.take 0))
  request := fun _ => .error "no reply"

/-- **An owner's replay that lacks its own message**: the owner has accepted a message, neither of the two
replicas it opens has applied it, and the pull reports convergence with nothing missing. -/
theorem converged_without_message :
    ∃ r, pullLimited highHost.serde "aa" "orders" "aa" staleRemote 0 10 = .ok r ∧
      r.converged = true ∧ r.target = some 0 ∧ r.missing = 0 ∧ r.messages = [] ∧
      (replay (firstOrder.take 1)).highCursor = 1 ∧ ¬ Authoritative firstOrder 1 0 r := by
  refine ⟨_, pullLimited_of_reader (by decide) rfl, ?_⟩
  have fetched : fetchHighCursor highHost.serde "aa" "aa" staleRemote = .ok 0 := by
    rw [fetchHighCursor, if_pos rfl]
    rfl
  rw [fetched]
  refine ⟨by decide, rfl, rfl, rfl, by decide, ?_⟩
  intro promised
  obtain ⟨-, all⟩ := promised (by decide)
  have mem : Message.mk 1 "aa" (Hex.encode [104]) 10 none ∅ false ∈ LogOp.appended (firstOrder.take 1) :=
    List.mem_singleton.mpr rfl
  exact List.not_mem_nil (all rfl _ mem)

/-! ## Page after page -/

/-- Pull a page for each call in turn, each from where the last one says the next begins. -/
def paginate (serde : Serde) (nodeId topic owner : String) :
    Nat → List (Remote × Nat) → Except String (List Replay)
  | _, [] => .ok []
  | after, (remote, limit) :: calls => do
    let r ← pullLimited serde nodeId topic owner remote after limit
    let rs ← paginate serde nodeId topic owner r.next calls
    .ok (r :: rs)

/-- Where the page after these begins. -/
def nextOf (after : Nat) (rs : List Replay) : Nat := (rs.getLast?.map (·.next)).getD after

theorem nextOf_cons (after : Nat) (r : Replay) (rs : List Replay) :
    nextOf after (r :: rs) = nextOf r.next rs := by
  cases rs with
  | nil => rfl
  | cons r' rs => rw [nextOf, List.getLast?_cons_cons]; rfl

theorem paginate_cons_ok {calls : List (Remote × Nat)} {rs : List Replay}
    (pulled : paginate serde nodeId topic owner after ((remote, limit) :: calls) = .ok rs) :
    ∃ r rest, rs = r :: rest ∧ pullLimited serde nodeId topic owner remote after limit = .ok r ∧
      paginate serde nodeId topic owner r.next calls = .ok rest := by
  simp only [paginate, bind, Except.bind] at pulled
  cases first : pullLimited serde nodeId topic owner remote after limit with
  | error e => simp only [first, reduceCtorEq] at pulled
  | ok r =>
    simp only [first] at pulled
    cases others : paginate serde nodeId topic owner r.next calls with
    | error e => simp only [others, reduceCtorEq] at pulled
    | ok rest =>
      simp only [others, Except.ok.injEq] at pulled
      exact ⟨r, rest, pulled.symm, rfl, others⟩

/-- What consecutive pages make together, from `after` on. -/
structure Pages (ops : List LogOp) (after : Nat) (rs : List Replay) : Prop where
  starts : after ≤ nextOf after rs
  within : ∀ m ∈ rs.flatMap (·.messages), m ∈ LogOp.appended ops ∧ after < m.cursor
  ascending : ((rs.flatMap (·.messages)).map (·.cursor)).Pairwise (· < ·)
  complete : ∀ c, after < c → c ≤ nextOf after rs → ∃ pre r post, rs = pre ++ r :: post ∧
    nextOf after pre < c ∧ c ≤ r.next ∧ (c ≤ r.floor ∨ ∃ m ∈ r.messages, m.cursor = c)
  advances : ∀ pre r post, rs = pre ++ r :: post → r.truncated = true → nextOf after pre < r.next

/-- One page more in front. -/
theorem Pages.cons {n : Nat} {target : Option Nat} {converged : Bool} {rs : List Replay}
    (is : r = .page (replay (ops.take n)) after (pageLimit limit) target converged)
    (h : Pages ops r.next rs) : Pages ops after (r :: rs) := by
  have start := Replay.le_next_page is
  have owned : ∀ m ∈ r.messages, m ∈ LogOp.appended ops := by
    intro m mem
    rw [← List.take_append_drop n ops]
    exact (TopicLog.appended_of_prefixes _ _).subset (Replay.mem_page is mem).1
  constructor
  case starts =>
    rw [nextOf_cons]
    exact start.trans h.starts
  case within =>
    intro m mem
    rw [List.flatMap_cons] at mem
    rcases List.mem_append.mp mem with here | later
    · exact ⟨owned m here, (Replay.mem_page is here).2.1⟩
    · obtain ⟨owned, past⟩ := h.within m later
      exact ⟨owned, Nat.lt_of_le_of_lt start past⟩
  case ascending =>
    rw [List.flatMap_cons, List.map_append, List.pairwise_append]
    refine ⟨Replay.pairwise_page is, h.ascending, ?_⟩
    intro c here d later
    obtain ⟨m, mem, rfl⟩ := List.mem_map.mp here
    obtain ⟨m', mem', rfl⟩ := List.mem_map.mp later
    exact Nat.lt_of_le_of_lt (Replay.mem_page is mem).2.2 (h.within m' mem').2
  case complete =>
    intro c above le
    rw [nextOf_cons] at le
    rcases Nat.lt_or_ge r.next c with past | before
    · obtain ⟨pre, r', post, rfl, passed, le', found⟩ := h.complete c past le
      exact ⟨r :: pre, r', post, rfl, (nextOf_cons after r pre).symm ▸ passed, le', found⟩
    · refine ⟨[], r, rs, rfl, above, before, ?_⟩
      rcases Nat.lt_or_ge r.floor c with kept | pruned
      · exact .inr (Replay.page_complete is above before kept)
      · exact .inl pruned
  case advances =>
    intro pre r' post split truncated
    cases pre with
    | nil =>
      obtain ⟨rfl, -⟩ := List.cons.inj split
      exact (Replay.since_next_of_truncated is (Nat.lt_of_lt_of_le Nat.one_pos (Nat.le_max_left _ _))
        truncated).1
    | cons first pre =>
      obtain ⟨rfl, rest⟩ := List.cons.inj split
      rw [nextOf_cons]
      exact h.advances pre r' post rest truncated

/-- Every call's reader shows, when its page is taken, the owner's log after some of its operations. -/
def ReadsPrefixes (ops : List LogOp) (calls : List (Remote × Nat)) : Prop :=
  ∀ call ∈ calls, ∀ shown, call.1.reader = .ok shown → ∃ n, shown.read = replay (ops.take n)

/-- **The run of pages**: whatever state each page is read from. -/
theorem pages_of_paginate {calls : List (Remote × Nat)} (prefixes : ReadsPrefixes ops calls)
    {rs : List Replay} (pulled : paginate serde nodeId topic owner after calls = .ok rs) :
    Pages ops after rs ∧
      List.Forall₂ (fun call r => r.messages.length ≤ pageLimit call.2) calls rs := by
  induction calls generalizing after rs with
  | nil =>
    cases pulled
    refine ⟨⟨le_refl _, by simp, .nil, ?_, by simp⟩, .nil⟩
    intro c above le
    exact absurd above (Nat.not_lt_of_le le)
  | cons call calls ih =>
    obtain ⟨remote, limit⟩ := call
    obtain ⟨r, rest, rfl, first, others⟩ := paginate_cons_ok pulled
    obtain ⟨shown, opened, is⟩ := pullLimited_eq_ok first
    obtain ⟨n, read⟩ := prefixes (remote, limit) List.mem_cons_self shown opened
    rw [read] at is
    obtain ⟨pages, lengths⟩ := ih (fun call mem => prefixes call (List.mem_cons_of_mem _ mem)) others
    exact ⟨.cons is pages, .cons (Replay.length_page_le is) lengths⟩

/-- **Paging a log that does not change ends**: after one page for each message left, and one, at most. -/
theorem paginate_fixed (valid : validateTopic topic = .ok ()) (ops : List LogOp)
    (calls : Nat → Remote × Nat)
    (fixed : ∀ i, ∃ shown, (calls i).1.reader = .ok shown ∧ shown.read = replay ops) (after : Nat) :
    ∃ count rs, count ≤ ((replay ops).since after).length + 1 ∧
      paginate serde nodeId topic owner after ((List.range count).map calls) = .ok rs ∧
      rs.flatMap (·.messages) = (replay ops).since after ∧
      rs.getLast?.map (·.truncated) = some false := by
  induction left : ((replay ops).since after).length using Nat.strong_induction_on
    generalizing after calls with
  | _ left' ih =>
    obtain ⟨shown, opened, read⟩ := fixed 0
    have first : pullLimited serde nodeId topic owner (calls 0).1 after (calls 0).2 = _ :=
      pullLimited_of_reader valid opened
    rw [read] at first
    generalize is : Replay.page (replay ops) after _ _ _ = r at first
    cases cut : r.truncated with
    | false =>
      refine ⟨1, [r], by omega, ?_, ?_, by simp [cut]⟩
      · simp only [List.range_one, List.map_cons, List.map_nil, paginate, first, bind, Except.bind]
      · rw [List.flatMap_singleton, Replay.messages_of_complete is.symm cut]
    | true =>
      obtain ⟨-, rest, shorter⟩ := Replay.since_next_of_truncated is.symm
        (Nat.lt_of_lt_of_le Nat.one_pos (Nat.le_max_left _ _)) cut
      obtain ⟨count, rs, few, pulled, messages, last⟩ :=
        ih _ (left ▸ shorter) (fun i => calls (i + 1)) (fun i => fixed (i + 1)) r.next rfl
      refine ⟨count + 1, r :: rs, by omega, ?_, ?_, ?_⟩
      · rw [List.range_succ_eq_map, List.map_cons, List.map_map]
        simp only [paginate, first, bind, Except.bind]
        rw [show calls ∘ Nat.succ = fun i => calls (i + 1) from rfl, pulled]
      · rw [List.flatMap_cons, messages, rest]
      · cases rs with
        | nil => cases last
        | cons r' rs => rw [List.getLast?_cons_cons, last]

/-- **Paging loses and repeats nothing.** Each page of a topic is read from the owner's log after any
number of its operations, one after another from where the last one ended. The pages list messages of
the owner's past the start, in strictly ascending order, no page more than its limit; every cursor up to
where the last page ends is in the page that passed it, or was pruned in the state that page was read
from; and a page that is cut short ends past where it began. If the log does not change, some page is
not cut short, and the pages up to it are exactly what the log keeps past the start. -/
theorem paginate_lossless (serde : Serde) (nodeId topic owner : String)
    (valid : validateTopic topic = .ok ()) (ops : List LogOp) (after : Nat) :
    (∀ calls rs, ReadsPrefixes ops calls →
      paginate serde nodeId topic owner after calls = .ok rs →
      Pages ops after rs ∧
        List.Forall₂ (fun call r => r.messages.length ≤ max 1 (min call.2 maxPullLimit)) calls rs) ∧
    ∀ (n : Nat) (calls : Nat → Remote × Nat),
      (∀ i, ∃ shown, (calls i).1.reader = .ok shown ∧ shown.read = replay (ops.take n)) →
      ∃ count rs, count ≤ ((replay (ops.take n)).since after).length + 1 ∧
        paginate serde nodeId topic owner after ((List.range count).map calls) = .ok rs ∧
        rs.flatMap (·.messages) = (replay (ops.take n)).since after ∧
        rs.getLast?.map (·.truncated) = some false := by
  constructor
  · intro calls rs prefixes pulled
    exact pages_of_paginate prefixes pulled
  · intro n calls fixed
    exact paginate_fixed valid (ops.take n) calls fixed after

private def threeOrders : List LogOp :=
  [.append (.new 0 "aa" [104] 10), .append (.new 0 "aa" [105] 11), .append (.new 0 "aa" [106] 12),
    .pruneTo 2]

private def showing (n : Nat) : Remote where
  reader := .ok (.of threeOrders { polls := [], last := n, again := n, read := n })
  fresh := .error "not the owner"
  request := fun _ => .error "no reply"

private def firstPage : Replay := .page (replay (threeOrders.take 3)) 0 1 none false

private def secondPage : Replay := .page (replay threeOrders) 1 10 none false

/-- Two pages of a topic: the first of one message, and the second after a prune of the next. -/
theorem paginate_lossless_pruned :
    paginate highHost.serde "bb" "orders" "aa" 0 [(showing 3, 0), (showing 4, 10)] =
        .ok [firstPage, secondPage] ∧
      [firstPage, secondPage].map (fun r => r.messages.map (·.cursor)) = [[1], [3]] ∧
      Pages threeOrders 0 [firstPage, secondPage] := by
  have target : ∀ n, (fetchHighCursor highHost.serde "bb" "aa" (showing n)).toOption = none := by
    intro n
    rw [fetchHighCursor, if_neg (by decide)]
    rfl
  have first : pullLimited highHost.serde "bb" "orders" "aa" (showing 3) 0 0 = .ok firstPage := by
    rw [pullLimited_of_reader (by decide) rfl, target]
    rfl
  have second : pullLimited highHost.serde "bb" "orders" "aa" (showing 4) firstPage.next 10 =
      .ok secondPage := by
    rw [show firstPage.next = 1 by decide, pullLimited_of_reader (by decide) rfl, target]
    rfl
  have pulled : paginate highHost.serde "bb" "orders" "aa" 0 [(showing 3, 0), (showing 4, 10)] =
      .ok [firstPage, secondPage] := by
    simp only [paginate, first, second, bind, Except.bind]
  have prefixes : ReadsPrefixes threeOrders [(showing 3, 0), (showing 4, 10)] := by
    intro call mem shown opened
    simp only [List.mem_cons, List.not_mem_nil, or_false] at mem
    rcases mem with rfl | rfl
    · cases opened
      exact ⟨3, rfl⟩
    · cases opened
      exact ⟨4, rfl⟩
  have lossless := paginate_lossless highHost.serde "bb" "orders" "aa" (by decide) threeOrders 0
  exact ⟨pulled, by decide, (lossless.1 _ _ prefixes pulled).1⟩

end PubSub

end CePubsub
