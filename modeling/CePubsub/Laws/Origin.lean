import CePubsub.Laws.Ingest
import CePubsub.Laws.Refinement

/-!
# Where a reply comes from

An input that comes to no call is refused, or it is an ingest request whose key the cache knows. In the
second case the cursor it is answered with was given, earlier in the run, to the message of a request
with the same key (`Landed`). Nothing is assumed of keys, of times or of the capacity: a cache that
forgets answers less, not otherwise.
-/

namespace CePubsub

variable {Link : Type} (host : Host Link)

/-- A run put an ingest request with this key, which published its message under this cursor. -/
inductive Landed (t : Topic) (key : String) (c : Nat) : List Input → Prop where
  | intro {before rest : List Input} {node : Answers} {token now : Nat} {payloadHex publisher : String}
    {req : IngestRequest} {msg : Message}
    (decoded : IngestRequest.decodeHex host.serde payloadHex = .ok req)
    (same : Topic.dedupKey req token = key)
    (comes : (Run.run (Topic.step host) t before).call host
      (.ingest node token payloadHex publisher now) = some (.publish node msg))
    (accepted : ((Run.run (Topic.step host) t before).serve (.publish node msg)).1 = .published (.ok c)) :
    Landed t key c (before ++ .ingest node token payloadHex publisher now :: rest)

/-- A reply that says no. -/
def Reply.Rejects : Reply → Prop
  | .ingested (.rejected _) | .controlled (.rejected _) => True
  | _ => False

variable {host}

theorem Landed.append {t : Topic} {key : String} {c : Nat} {is : List Input}
    (h : Landed host t key c is) (more : List Input) : Landed host t key c (is ++ more) := by
  obtain ⟨decoded, same, comes, accepted⟩ := h
  rw [List.append_assoc, List.cons_append]
  exact .intro decoded same comes accepted

/-- Where the message of a request under a key was published, and how. -/
theorem Landed.place {t : Topic} {key : String} {c : Nat} {is : List Input} (h : Landed host t key c is) :
    ∃ before rest node token now payloadHex publisher req msg,
      is = before ++ .ingest node token payloadHex publisher now :: rest ∧
      IngestRequest.decodeHex host.serde payloadHex = .ok req ∧ Topic.dedupKey req token = key ∧
      (Run.run (Topic.step host) t before).call host
        (.ingest node token payloadHex publisher now) = some (.publish node msg) ∧
      ((Run.run (Topic.step host) t before).serve (.publish node msg)).1 = .published (.ok c) := by
  obtain ⟨decoded, same, comes, accepted⟩ := h
  exact ⟨_, _, _, _, _, _, _, _, _, rfl, decoded, same, comes, accepted⟩

/-! ## What the cache remembers -/

theorem input_of_attempt {t : Topic} {i : Input} {a : Attempt host}
    (attempt : t.attempt? host i = some a) :
    i = .ingest a.node a.token a.payloadHex a.publisher a.now := by
  cases i with
  | ingest node token payloadHex publisher now =>
    rw [Topic.attempt?] at attempt
    split at attempt
    · cases attempt
      rfl
    · cases attempt
  | publish | publishWith | pruneTo | control | requirePublishCap | acceptRoot => cases attempt

/-- What the broker answered, where that made an ingest request accepted. -/
theorem answer_of_accepted {node : Answers} {token now c : Nat} {payloadHex publisher : String}
    {answer : Answer}
    (replied : Input.reply (.ingest node token payloadHex publisher now) answer =
      .ingested (.accepted c)) :
    answer = .published (.ok c) := by
  cases answer with
  | published outcome =>
    cases outcome <;> cases replied
    rfl
  | pruned outcome => cases replied
  | controlled reply => cases replied

/-- A request that is accepted, and not from the cache, is a call to publish its message. -/
theorem call_of_produced {a : Attempt host} {c : Nat} (produced : a.Produced (.cursor c)) :
    ∃ msg, a.owner.call host (.ingest a.node a.token a.payloadHex a.publisher a.now) =
        some (.publish a.node msg) ∧
      (a.owner.serve (.publish a.node msg)).1 = .published (.ok c) := by
  obtain ⟨missed, replied⟩ := produced
  have looked : (a.owner.dedup.get (Topic.dedupKey a.req a.token) a.now).1 = none := missed
  rcases Topic.handleIngest_of_unseen a.node a.publisher a.decoded (Prod.ext looked rfl) with
    ⟨why, rejected⟩ | ⟨msg, t', -, gate, checked, -⟩
  · rw [Attempt.reply, rejected] at replied
    cases replied
  · have comes : a.owner.call host (.ingest a.node a.token a.payloadHex a.publisher a.now) =
        some (.publish a.node msg) := by
      rw [Topic.call, a.decoded]
      simp only [looked, gate, checked]
    have accepted : a.owner.reply host (.ingest a.node a.token a.payloadHex a.publisher a.now) =
        .ingested (.accepted c) := congrArg Reply.ingested replied
    exact ⟨msg, comes, answer_of_accepted ((Topic.step_of_some host comes).1.symm.trans accepted)⟩

/-- **Every cursor in the cache is that of a message published under its key.** -/
theorem landed_of_cached {nodeId topic : String} {t : Topic} (new : Topic.create nodeId topic = .ok t)
    (is : List Input) {key : String} {c recordedAt : Nat}
    (there : (Run.run (Topic.step host) t is).dedup.map[key]? = some (.cursor c, recordedAt)) :
    Landed host t key c is := by
  induction is using List.reverseRecOn generalizing key c recordedAt with
  | nil =>
    rw [Run.run_nil, Topic.eq_of_create new] at there
    cases there
  | append_singleton is i ih =>
    rw [Run.run_concat] at there
    rcases attempt_cases host (Run.run (Topic.step host) t is) i with
      ⟨-, dedup⟩ | ⟨a, attempt, owner, step⟩
    · rw [dedup] at there
      exact (ih there).append [i]
    · rw [step] at there
      cases cached : a.cached with
      | some hit =>
        rw [(a.reply_of_cached cached).2.1, owner] at there
        exact (ih there).append [i]
      | none =>
        obtain ⟨seen, cache, looked, produced, dedup, -⟩ := a.reply_of_uncached cached
        rw [dedup] at there
        rcases IdempotencyCache.getElem?_of_insert there with ⟨same, entry⟩ | ⟨-, kept⟩
        · cases entry
          obtain ⟨msg, comes, accepted⟩ := call_of_produced produced
          rw [input_of_attempt attempt]
          rw [owner] at comes accepted
          exact .intro a.decoded same.symm comes accepted
        · have before := IdempotencyCache.getElem?_of_get looked kept
          rw [owner] at before
          exact (ih before).append [i]

/-! ## What is not a call -/

/-- **An ingest request that comes to no call** is rejected, or repeats the cursor of a message published
under its key. -/
theorem ingest_of_no_call {nodeId topic : String} {t : Topic} (new : Topic.create nodeId topic = .ok t)
    (is : List Input) {node : Answers} {token now : Nat} {payloadHex publisher : String}
    (comes : (Run.run (Topic.step host) t is).call host (.ingest node token payloadHex publisher now) =
      none) :
    ((Run.run (Topic.step host) t is).reply host
        (.ingest node token payloadHex publisher now)).Rejects ∨
      ∃ req c, IngestRequest.decodeHex host.serde payloadHex = .ok req ∧
        (Run.run (Topic.step host) t is).reply host (.ingest node token payloadHex publisher now) =
          .ingested (.accepted c) ∧
        Landed host t (Topic.dedupKey req token) c is := by
  rw [Topic.reply]
  cases decoded : IngestRequest.decodeHex host.serde payloadHex with
  | error e =>
    rw [Topic.handleIngest, decoded]
    exact .inl trivial
  | ok req =>
    cases looked : (Run.run (Topic.step host) t is).dedup.get (Topic.dedupKey req token) now with
    | mk hit cache =>
      cases hit with
      | some seen =>
        rw [Topic.handleIngest_of_seen node publisher decoded looked]
        cases seen with
        | handled => exact .inl trivial
        | cursor c =>
          obtain ⟨-, recordedAt, there⟩ := IdempotencyCache.of_get_some looked
          exact .inr ⟨req, c, rfl, rfl, landed_of_cached new is there⟩
      | none =>
        rcases Topic.handleIngest_of_unseen node publisher decoded looked with
          ⟨why, rejected⟩ | ⟨msg, t', -, gate, checked, -⟩
        · rw [rejected]
          exact .inl trivial
        · rw [Topic.call, decoded] at comes
          simp only [looked, gate, checked, reduceCtorEq] at comes

/-- A control request that comes to no call is rejected. -/
theorem control_of_no_call {t : Topic} {node : Answers} {payloadHex requester : String} {now : Nat}
    (comes : t.call host (.control node payloadHex requester now) = none) :
    (t.reply host (.control node payloadHex requester now)).Rejects := by
  rw [Topic.call] at comes
  cases decoded : Topic.decodeControl host payloadHex with
  | error why =>
    rw [Topic.reply, Topic.handleControl, decoded]
    trivial
  | ok req =>
    rw [decoded] at comes
    cases req with
    | highCursor grant => cases comes
    | createSubscription | deleteSubscription | listSubscriptions | pull | ack | nack =>
      simp only at comes
      split at comes
      · next why refused =>
        rw [Topic.reply, Topic.handleControl, decoded]
        simp only [refused]
        trivial
      · cases comes

/-! ## What is accepted -/

/-- An ingest request comes to a call to publish the message it asks for. -/
theorem publish_of_call {t : Topic} {node : Answers} {token now : Nat} {payloadHex publisher : String}
    {c : Call} (comes : t.call host (.ingest node token payloadHex publisher now) = some c) :
    ∃ req msg, c = .publish node msg ∧ IngestRequest.decodeHex host.serde payloadHex = .ok req ∧
      Topic.ingestMessage host req publisher t.requireCap now = .ok msg := by
  rw [Topic.call] at comes
  split at comes
  · cases comes
  · next req decoded =>
    split at comes
    · cases comes
    · split at comes
      · cases comes
      · split at comes
        · cases comes
        · next msg checked =>
          cases comes
          exact ⟨req, msg, rfl, decoded, checked⟩

/-- **A cursor a request is answered with is that of a message published under its key**, then or
before. -/
theorem landed_of_accepted {nodeId topic : String} {t : Topic} (new : Topic.create nodeId topic = .ok t)
    (is : List Input) {node : Answers} {token now c : Nat} {payloadHex publisher : String}
    {req : IngestRequest} (decoded : IngestRequest.decodeHex host.serde payloadHex = .ok req)
    (replied : (Run.run (Topic.step host) t is).reply host
      (.ingest node token payloadHex publisher now) = .ingested (.accepted c)) :
    Landed host t (Topic.dedupKey req token) c
      (is ++ [.ingest node token payloadHex publisher now]) := by
  cases comes : (Run.run (Topic.step host) t is).call host
      (.ingest node token payloadHex publisher now) with
  | none =>
    rcases ingest_of_no_call new is comes with rejects | ⟨req', c', decoded', repeats, landed⟩
    · rw [replied] at rejects
      exact rejects.elim
    · cases decoded.symm.trans decoded'
      cases replied.symm.trans repeats
      exact landed.append _
  | some call =>
    obtain ⟨req', msg, rfl, -, -⟩ := publish_of_call comes
    have answered := (Topic.step_of_some host comes).1
    exact .intro decoded rfl comes (answer_of_accepted (answered.symm.trans replied))

end CePubsub
