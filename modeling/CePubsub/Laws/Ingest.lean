import CePubsub.Laws.Log
import CePubsub.Laws.Owner

/-!
# Who an ingest request is answered for

The owner looks a request's key up before it authorizes anything, and the key is the publisher's own
choice or `tok:` and the reply token. Every entry of the cache was put there by an earlier request
with that key, which missed (`Kept`); nothing says by whom. A publisher that sends another's key is
answered with the other's cursor, and its message is never appended (`answered_from_another`).

`SameUser` asks of a request whose key the cache still knows that the last request with that key came
from the same publisher, and like it did or did not choose the key. In every run whose requests
meet it, a request is answered from the cache only for an earlier sending of the same request, and
an accepted cursor is one where the publisher's own message was appended, past the gate if there was
one (`answered_for_own`).
-/

namespace CePubsub

/-! ## The cache, entry by entry -/

namespace IdempotencyCache

variable {c c' : IdempotencyCache} {key k : String} {now : Nat} {entry : Seen × Nat}

/-- A hit is an entry, and leaves the cache as it was. -/
theorem of_get_some {seen : Seen} (hit : c.get key now = (some seen, c')) :
    c' = c ∧ ∃ recordedAt, c.map[key]? = some (seen, recordedAt) := by
  rw [get] at hit
  cases found : c.map[key]? with
  | none =>
    rw [found] at hit
    cases hit
  | some e =>
    obtain ⟨s, recordedAt⟩ := e
    rw [found] at hit
    simp only at hit
    split at hit
    · cases hit
    · cases hit
      exact ⟨rfl, recordedAt, rfl⟩

theorem getElem?_of_get {hit : Option Seen} (looked : c.get key now = (hit, c'))
    (there : c'.map[k]? = some entry) : c.map[k]? = some entry := by
  rw [get] at looked
  split at looked
  · split at looked
    · cases looked
      exact Fifo.getElem?_of_erase there
    · cases looked
      exact there
  · cases looked
    exact there

/-- What an insert leaves: the entry inserted, and entries there were. -/
theorem getElem?_of_insert {seen : Seen} (there : (c.insert key seen now).map[k]? = some entry) :
    (k = key ∧ entry = (seen, now)) ∨ (k ≠ key ∧ c.map[k]? = some entry) := by
  have split_insert : ∀ {map : HashMap String (Seen × Nat)},
      (map.insert key (seen, now))[k]? = some entry → (k = key ∧ entry = (seen, now)) ∨
        (k ≠ key ∧ map[k]? = some entry) := by
    intro map there
    rcases Fifo.getElem?_insert_eq_some_iff.mp there with ⟨same, is⟩ | ⟨other, before⟩
    · exact .inl ⟨same.symm, is.symm⟩
    · exact .inr ⟨other.symm, before⟩
  rw [insert] at there
  split at there
  · exact split_insert there
  · rcases split_insert there with new | ⟨ne, kept⟩
    · exact .inl new
    · exact .inr ⟨ne, Fifo.getElem?_of_makeRoom kept⟩

end IdempotencyCache

/-! ## Requests -/

variable {Link : Type}

/-- An ingest request that decodes, and the owner it was put to. -/
structure Attempt (host : Host Link) where
  owner : Topic
  node : Answers
  token : Nat
  payloadHex : String
  publisher : String
  now : Nat
  req : IngestRequest
  decoded : IngestRequest.decodeHex host.serde payloadHex = .ok req

namespace Attempt

variable {host : Host Link}

/-- The key the request is de-duplicated under. -/
def key (a : Attempt host) : String := Topic.dedupKey a.req a.token

/-- What the cache knows the request resolved to. -/
def cached (a : Attempt host) : Option Seen := (a.owner.dedup.get a.key a.now).1

/-- What the request is answered. -/
def reply (a : Attempt host) : IngestReply :=
  (a.owner.handleIngest host a.node a.token a.payloadHex a.publisher a.now).1

/-- The topic once it is answered. -/
def after (a : Attempt host) : Topic :=
  (a.owner.handleIngest host a.node a.token a.payloadHex a.publisher a.now).2

/-- From one publisher, and both or neither under a key the publisher chose. -/
structure Kin (a b : Attempt host) : Prop where
  publisher : a.publisher = b.publisher
  chosen : a.req.idempotencyKey.isSome = b.req.idempotencyKey.isSome

/-- From one publisher, and under the same key of its own, or the same reply token and no key. -/
structure Repeats (a b : Attempt host) : Prop where
  publisher : b.publisher = a.publisher
  key : (∃ k, a.req.idempotencyKey = some k ∧ b.req.idempotencyKey = some k) ∨
    (a.req.idempotencyKey = none ∧ b.req.idempotencyKey = none ∧ b.token = a.token)

/-- The request was not answered from the cache, and this is what came of it. -/
def Produced (a : Attempt host) (seen : Seen) : Prop :=
  a.cached = none ∧
    match seen with
    | .cursor c => a.reply = .accepted c
    | .handled => ∃ why, a.reply = .rejected why

/-- The request appended a message of its publisher under `c`, on a gated topic with a grant that
verified. -/
structure Filled (a : Attempt host) (c : Nat) : Prop where
  next : a.owner.writer.nextCursor = c
  appended : ∃ m, a.after.writer.get c = some m ∧ m.publisher = a.publisher
  granted : a.owner.requireCap = true → ∃ grant, a.req.grant = some grant ∧
    a.owner.authorize host a.node a.publisher abilityPublish grant a.now = .ok ()

theorem Repeats.refl (a : Attempt host) : a.Repeats a := by
  refine ⟨rfl, ?_⟩
  cases a.req.idempotencyKey with
  | some k => exact .inl ⟨k, rfl, rfl⟩
  | none => exact .inr ⟨rfl, rfl, rfl⟩

theorem Kin.refl (a : Attempt host) : a.Kin a := ⟨rfl, rfl⟩

theorem Kin.symm {a b : Attempt host} (h : a.Kin b) : b.Kin a :=
  ⟨h.publisher.symm, h.chosen.symm⟩

theorem Kin.trans {a b c : Attempt host} (h : a.Kin b) (h' : b.Kin c) : a.Kin c :=
  ⟨h.publisher.trans h'.publisher, h.chosen.trans h'.chosen⟩

/-- The key made for a token is made for no other. -/
theorem token_eq_of_key {m n : Nat} (same : s!"tok:{m}" = s!"tok:{n}") : m = n := by
  simp only [toString, String.append_right_inj] at same
  have digits : Nat.toDigits 10 m = Nat.toDigits 10 n := by
    rw [← Nat.toList_repr, ← Nat.toList_repr, same]
  calc m = Nat.ofDigitChars 10 (Nat.toDigits 10 m) 0 := Nat.ofDigitChars_ten_toDigits.symm
    _ = Nat.ofDigitChars 10 (Nat.toDigits 10 n) 0 := by rw [digits]
    _ = n := Nat.ofDigitChars_ten_toDigits

/-- Kin under one de-duplication key send the same request. -/
theorem Kin.repeats {a b : Attempt host} (kin : b.Kin a) (same : b.key = a.key) : a.Repeats b := by
  refine ⟨kin.publisher, ?_⟩
  have chosen := kin.chosen
  rw [key, key, Topic.dedupKey, Topic.dedupKey] at same
  cases mine : a.req.idempotencyKey with
  | some k =>
    cases other : b.req.idempotencyKey with
    | none => rw [mine, other] at chosen; cases chosen
    | some k' =>
      rw [mine, other] at same
      exact .inl ⟨k, rfl, congrArg some same⟩
  | none =>
    cases other : b.req.idempotencyKey with
    | some k' => rw [mine, other] at chosen; cases chosen
    | none =>
      rw [mine, other] at same
      exact .inr ⟨rfl, rfl, token_eq_of_key same⟩

/-- A request the cache knows is answered from it, and changes nothing. -/
theorem reply_of_cached {a : Attempt host} {seen : Seen} (hit : a.cached = some seen) :
    a.reply = Topic.seenAnswer seen ∧ a.after = a.owner ∧
      ∃ recordedAt, a.owner.dedup.map[a.key]? = some (seen, recordedAt) := by
  cases looked : a.owner.dedup.get a.key a.now with
  | mk hit' cache =>
    rw [cached, looked] at hit
    cases hit
    obtain ⟨rfl, entry⟩ := IdempotencyCache.of_get_some looked
    rw [reply, after, Topic.handleIngest_of_seen a.node a.publisher a.decoded looked]
    exact ⟨rfl, rfl, entry⟩

/-- A request the cache does not know is recorded with what came of it; if that is a cursor, a
message of its publisher was appended there. -/
theorem reply_of_uncached {a : Attempt host} (missed : a.cached = none) :
    ∃ seen cache, a.owner.dedup.get a.key a.now = (none, cache) ∧ a.Produced seen ∧
      a.after.dedup = cache.insert a.key seen a.now ∧ (∀ c, a.reply = .accepted c → a.Filled c) := by
  cases looked : a.owner.dedup.get a.key a.now with
  | mk hit cache =>
    have miss := missed
    rw [cached, looked] at miss
    cases miss
    rcases Topic.handleIngest_of_unseen a.node a.publisher a.decoded looked with
      ⟨why, rejected⟩ | ⟨msg, t', accepted, gate, checked, is⟩
    · have reply_eq : a.reply = .rejected why := congrArg Prod.fst rejected
      refine ⟨.handled, cache, rfl, ⟨missed, why, reply_eq⟩, ?_, ?_⟩
      · rw [after, rejected]
        rfl
      · intro c accepted
        cases reply_eq.symm.trans accepted
    · have reply_eq : a.reply = .accepted a.owner.writer.nextCursor := congrArg Prod.fst accepted
      refine ⟨.cursor _, cache, rfl, ⟨missed, reply_eq⟩, ?_, ?_⟩
      · rw [after, accepted]
        rfl
      · intro c replied
        cases reply_eq.symm.trans replied
        refine ⟨rfl, ?_, ?_⟩
        · obtain ⟨-, -, payload, -, -, made⟩ := Topic.ingestMessage_ok checked
          refine ⟨{ msg with cursor := a.owner.writer.nextCursor }, ?_, made ▸ rfl⟩
          rw [after, accepted]
          simp only [is.writer]
          exact a.owner.writer.get_append msg
        · intro gated
          unfold Topic.gate at gate
          rw [if_pos gated] at gate
          split at gate
          · cases gate
          · next grant presented => exact ⟨grant, presented, gate⟩

end Attempt

/-! ## Requests along a run -/

variable (host : Host Link)

/-- The request an input is, if it is one and decodes. -/
def Topic.attempt? (t : Topic) : Input → Option (Attempt host)
  | .ingest node token payloadHex publisher now =>
    match decoded : IngestRequest.decodeHex host.serde payloadHex with
    | .ok req => some ⟨t, node, token, payloadHex, publisher, now, req, decoded⟩
    | .error _ => none
  | _ => none

/-- The owner, and the requests put to it so far. -/
def audit (s : Topic × List (Attempt host)) (i : Input) : Topic × List (Attempt host) :=
  (s.1.step host i, s.2 ++ (s.1.attempt? host i).toList)

variable {host}

/-- The last request with a key. -/
def lastUse (past : List (Attempt host)) (key : String) : Option (Attempt host) :=
  past.reverse.find? fun a => a.key = key

variable (host) in
/-- If the cache knows a request's key, the last request with that key is kin. -/
def SameUser (s : Topic × List (Attempt host)) (i : Input) : Prop :=
  ∀ a b, s.1.attempt? host i = some a → a.cached.isSome → lastUse s.2 a.key = some b → b.Kin a

/-- Every entry of the cache was put there by a request with its key, which is kin to the last. -/
def Kept (s : Topic × List (Attempt host)) : Prop :=
  ∀ key seen recordedAt, s.1.dedup.map[key]? = some (seen, recordedAt) →
    ∃ a b, a ∈ s.2 ∧ a.key = key ∧ a.Produced seen ∧ lastUse s.2 key = some b ∧ b.Kin a

/-- A request that decodes is an attempt. -/
theorem attempt_of_decoded {payloadHex : String} {req : IngestRequest} (t : Topic) (node : Answers)
    (token : Nat) (publisher : String) (now : Nat)
    (decoded : IngestRequest.decodeHex host.serde payloadHex = .ok req) :
    t.attempt? host (.ingest node token payloadHex publisher now) =
      some ⟨t, node, token, payloadHex, publisher, now, req, decoded⟩ := by
  rw [Topic.attempt?]
  split
  · next other =>
    cases decoded.symm.trans other
    rfl
  · next other => cases decoded.symm.trans other

variable (host) in
/-- An input is a request, or leaves the cache alone. -/
theorem attempt_cases (t : Topic) (i : Input) :
    (t.attempt? host i = none ∧ (t.step host i).dedup = t.dedup) ∨
      ∃ a, t.attempt? host i = some a ∧ a.owner = t ∧ t.step host i = a.after := by
  cases i with
  | ingest node token payloadHex publisher now =>
    cases decoded : IngestRequest.decodeHex host.serde payloadHex with
    | ok req => exact .inr ⟨_, attempt_of_decoded t node token publisher now decoded, rfl, rfl⟩
    | error e =>
      refine .inl ⟨?_, ?_⟩
      · rw [Topic.attempt?]
        split
        · next other => cases decoded.symm.trans other
        · rfl
      · rw [Topic.step, Topic.handleIngest, decoded]
  | publish | publishWith | pruneTo | control | requirePublishCap | acceptRoot =>
    refine .inl ⟨rfl, t.step_dedup host ?_⟩
    rintro _ _ _ _ _ ⟨⟩

/-- An attempt remembers the topic it was made on. -/
theorem owner_of_attempt {t : Topic} {i : Input} {a : Attempt host}
    (attempt : t.attempt? host i = some a) : a.owner = t := by
  rcases attempt_cases host t i with ⟨idle, -⟩ | ⟨a', attempt', owner, -⟩
  · cases idle.symm.trans attempt
  · cases attempt'.symm.trans attempt
    exact owner

/-- The last use of a key is the latest attempt under it. -/
theorem lastUse_concat (past : List (Attempt host)) (a : Attempt host) (key : String) :
    lastUse (past ++ [a]) key = if a.key = key then some a else lastUse past key := by
  rw [lastUse, List.reverse_append, List.reverse_singleton, List.singleton_append,
    List.find?_cons]
  by_cases same : a.key = key
  · rw [if_pos same, decide_eq_true same]
  · rw [if_neg same, decide_eq_false same]
    rfl

/-- A request whose key the cache does not know, or whose key was last used by kin, keeps it so. -/
theorem kept_audit {s : Topic × List (Attempt host)} (h : Kept s) {i : Input}
    (user : SameUser host s i) : Kept (audit host s i) := by
  obtain ⟨t, past⟩ := s
  rcases attempt_cases host t i with ⟨idle, dedup⟩ | ⟨a, attempt, rfl, step⟩
  · intro key seen recordedAt there
    rw [audit, idle] at there ⊢
    rw [dedup] at there
    rw [Option.toList_none, List.append_nil]
    exact h key seen recordedAt there
  · have audited : audit host (a.owner, past) i = (a.after, past ++ [a]) := by
      rw [audit, attempt, step, Option.toList_some]
    rw [audited]
    have earlier : ∀ {key seen recordedAt}, a.owner.dedup.map[key]? = some (seen, recordedAt) →
        key ≠ a.key → ∃ b l, b ∈ past ++ [a] ∧ b.key = key ∧ b.Produced seen ∧
          lastUse (past ++ [a]) key = some l ∧ l.Kin b := by
      intro key seen recordedAt there ne
      obtain ⟨b, l, mem, key_eq, produced, last, kin⟩ := h key seen recordedAt there
      refine ⟨b, l, List.mem_append_left _ mem, key_eq, produced, ?_, kin⟩
      rw [lastUse_concat, if_neg (Ne.symm ne), last]
    intro key seen recordedAt there
    simp only at there ⊢
    cases cached : a.cached with
    | some hit =>
      obtain ⟨-, same_owner, -⟩ := a.reply_of_cached cached
      rw [same_owner] at there
      by_cases same : key = a.key
      · subst same
        obtain ⟨b, l, mem, key_eq, produced, last, kin⟩ := h _ seen recordedAt there
        have own := user a l attempt (cached ▸ rfl) last
        refine ⟨b, a, List.mem_append_left _ mem, key_eq, produced, ?_, own.symm.trans kin⟩
        rw [lastUse_concat, if_pos rfl]
      · exact earlier there same
    | none =>
      obtain ⟨recorded, cache, looked, produced, dedup, -⟩ := a.reply_of_uncached cached
      rw [dedup] at there
      rcases IdempotencyCache.getElem?_of_insert there with ⟨rfl, entry⟩ | ⟨ne, kept⟩
      · cases entry
        refine ⟨a, a, List.mem_append_right _ (List.mem_singleton_self a), rfl, produced, ?_, .refl a⟩
        rw [lastUse_concat, if_pos rfl]
      · exact earlier (IdempotencyCache.getElem?_of_get looked kept) ne

variable (host) in
/-- The owner's part of an audited run is the run. -/
theorem audit_run (t : Topic) (inputs : List Input) :
    (Run.run (audit host) (t, []) inputs).1 = Run.run (Topic.step host) t inputs :=
  Run.run_simulation (R := fun (s : Topic × List (Attempt host)) t => s.1 = t)
    (fun _ _ i same => congrArg (Topic.step host · i) same) rfl inputs

/-- Nothing is cached before the first attempt. -/
theorem kept_start {nodeId topic : String} {t : Topic} (new : Topic.create nodeId topic = .ok t) :
    Kept (t, ([] : List (Attempt host))) := by
  rw [Topic.eq_of_create new]
  intro key seen recordedAt there
  cases there

/-- **A publisher is answered for its own requests**, in every run of a new topic in which a key the
cache still knows was last used by kin of the request at hand, open or gated. What a request is
answered from the cache, an earlier request of its publisher produced, with the same key or the same
reply token; and a cursor it is told is one where its publisher's message was appended, on a gated
topic with a grant that verified. -/
theorem answered_for_own (nodeId topic : String) (t : Topic)
    (new : Topic.create nodeId topic = .ok t) (inputs : List Input) (i : Input)
    (users : Run.Along (audit host) (SameUser host) (t, []) (inputs ++ [i])) (a : Attempt host)
    (attempt : (Run.run (Topic.step host) t inputs).attempt? host i = some a) :
    (∀ seen, a.cached = some seen → a.reply = Topic.seenAnswer seen ∧
      ∃ b ∈ (Run.run (audit host) (t, []) inputs).2, a.Repeats b ∧ b.Produced seen) ∧
    (∀ c, a.reply = .accepted c →
      ∃ b ∈ (Run.run (audit host) (t, []) inputs).2 ++ [a], a.Repeats b ∧ b.Filled c) := by
  obtain ⟨along, user⟩ := Run.along_concat.mp users
  have kept := Run.run_invariant_along (P := Kept) (fun _ _ h user => kept_audit h user)
    (kept_start new) along
  rw [← audit_run host] at attempt
  have answered : ∀ seen, a.cached = some seen → a.reply = Topic.seenAnswer seen ∧
      ∃ b ∈ (Run.run (audit host) (t, []) inputs).2, a.Repeats b ∧ b.Produced seen := by
    intro seen cached
    obtain ⟨reply, -, recordedAt, there⟩ := a.reply_of_cached cached
    rw [owner_of_attempt attempt] at there
    obtain ⟨b, l, mem, key, produced, last, kin⟩ := kept _ _ _ there
    have own := user a l attempt (cached ▸ rfl) last
    exact ⟨reply, b, mem, (kin.symm.trans own).repeats key, produced⟩
  refine ⟨answered, ?_⟩
  intro c accepted
  cases cached : a.cached with
  | none =>
    obtain ⟨-, -, -, -, -, filled⟩ := a.reply_of_uncached cached
    exact ⟨a, List.mem_append_right _ (List.mem_singleton_self a), .refl a, filled c accepted⟩
  | some seen =>
    obtain ⟨reply, b, mem, repeats, produced⟩ := answered seen cached
    cases seen with
    | handled => cases accepted.symm.trans reply
    | cursor c' =>
      cases accepted.symm.trans reply
      obtain ⟨-, -, -, -, -, filled⟩ := b.reply_of_uncached produced.1
      exact ⟨b, List.mem_append_left _ mem, repeats, filled c produced.2⟩

/-- A remote publish under a key of its own. -/
private def keyed : IngestRequest where
  payloadHex := "6869"
  grant := none
  idempotencyKey := some "k"
  orderingKey := none
  attributes := ∅

/-- A host that reads this request only. -/
private def keyedHost : Host Unit := .reading [keyed] []

private theorem decode_keyed :
    IngestRequest.decodeHex keyedHost.serde (Hex.encode keyed.encode) = .ok keyed := by
  refine (IngestRequest.decodeHex_encode (Host.reads_ingest keyed [] []) ?_).mpr ?_
  · rintro k ⟨⟩
    decide
  · rw [IngestRequest.length_encode]
    decide

/-- The request as one publisher sends it. -/
private abbrev put (owner : Topic) (token : Nat) (publisher : String) (now : Nat) : Attempt keyedHost :=
  ⟨owner, {}, token, Hex.encode keyed.encode, publisher, now, keyed, decode_keyed⟩

/-- The input it arrives as. -/
private def sent (token : Nat) (publisher : String) (now : Nat) : Input :=
  .ingest {} token (Hex.encode keyed.encode) publisher now

private theorem attempt_sent (t : Topic) (token : Nat) (publisher : String) (now : Nat) :
    t.attempt? keyedHost (sent token publisher now) = some (put t token publisher now) :=
  attempt_of_decoded t {} token publisher now decode_keyed

private def empty : Topic := { nodeId := "aa", topic := "orders" }

/-- The topic after the first publisher's request. -/
private def appended : Topic := (empty.serveIngest keyedHost {} 1 keyed "bb" 10).2

private theorem after_put : (put empty 1 "bb" 10).after = appended := by
  rw [Attempt.after, Topic.handleIngest_of_decoded decode_keyed, appended]

private theorem appended_cached : (appended.dedup.get "k" 11).1 = some (.cursor 1) := by
  decide

/-- Whoever sends the key again finds the first outcome. -/
private theorem put_cached (publisher : String) :
    (put appended 2 publisher 11).cached = some (.cursor 1) := by
  have key : (put appended 2 publisher 11).key = "k" := rfl
  rw [Attempt.cached, key]
  exact appended_cached

private theorem appended_publishers : appended.writer.messages.map (·.publisher) = ["bb"] := by
  decide

private theorem audit_first :
    audit keyedHost (empty, []) (sent 1 "bb" 10) = (appended, [put empty 1 "bb" 10]) := by
  rw [audit, attempt_sent, Option.toList_some, List.nil_append, ← after_put, sent]
  rfl

/-- A publisher that sends its request again, after the reply was lost. -/
theorem answered_for_own_retry :
    ∃ b ∈ [put empty 1 "bb" 10] ++ [put appended 2 "bb" 11],
      (put appended 2 "bb" 11).Repeats b ∧ b.Filled 1 := by
  have new : Topic.create "aa" "orders" = .ok empty := Topic.create_of_valid (by decide) "aa"
  have users : Run.Along (audit keyedHost) (SameUser keyedHost) (empty, [])
      ([sent 1 "bb" 10] ++ [sent 2 "bb" 11]) := by
    rw [Run.along_concat, Run.run_cons, Run.run_nil, audit_first]
    refine ⟨⟨?_, trivial⟩, ?_⟩
    · rintro a b - - ⟨⟩
    · rintro a b attempt - last
      rw [attempt_sent] at attempt
      cases attempt
      have same : (put empty 1 "bb" 10).key = (put appended 2 "bb" 11).key := rfl
      rw [← List.nil_append [put empty 1 "bb" 10], lastUse_concat, if_pos same] at last
      obtain rfl := Option.some.inj last
      exact ⟨rfl, rfl⟩
  have attempt : (Run.run (Topic.step keyedHost) empty [sent 1 "bb" 10]).attempt? keyedHost
      (sent 2 "bb" 11) = some (put appended 2 "bb" 11) := by
    rw [← audit_run keyedHost, Run.run_cons, Run.run_nil, audit_first, attempt_sent]
  have accepted : (put appended 2 "bb" 11).reply = .accepted 1 :=
    (Attempt.reply_of_cached (put_cached "bb")).1
  have filled := (answered_for_own "aa" "orders" empty new _ _ users _ attempt).2 1 accepted
  rwa [Run.run_cons, Run.run_nil, audit_first] at filled

/-- **A publisher answered for another's request**: `bb` publishes under the key `k`, and `cc`, which
has sent nothing before, under the same. `cc` is told cursor 1, where the message is `bb`'s; its
own is nowhere. -/
theorem answered_from_another :
    ∃ a : Attempt keyedHost,
      (Run.run (Topic.step keyedHost) empty [sent 1 "bb" 10]).attempt? keyedHost (sent 2 "cc" 11) =
        some a ∧
      a.publisher = "cc" ∧ a.cached = some (.cursor 1) ∧ a.reply = .accepted 1 ∧
      (∀ b ∈ (Run.run (audit keyedHost) (empty, []) [sent 1 "bb" 10]).2, b.publisher = "bb") ∧
      a.after.writer.messages.map (·.publisher) = ["bb"] := by
  obtain ⟨reply, same, -⟩ := Attempt.reply_of_cached (put_cached "cc")
  refine ⟨put appended 2 "cc" 11, ?_, rfl, put_cached "cc", reply, ?_, ?_⟩
  · rw [← audit_run keyedHost, Run.run_cons, Run.run_nil, audit_first, attempt_sent]
  · rw [Run.run_cons, Run.run_nil, audit_first]
    intro b mem
    rw [List.mem_singleton.mp mem]
  · rw [same]
    exact appended_publishers

end CePubsub
