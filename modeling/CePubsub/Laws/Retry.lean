import CePubsub.Laws.Cache
import CePubsub.Laws.Ingest
import CePubsub.Laws.Wire
import CePubsub.Lib.FifoRecall

/-!
# What a retry is answered

A request whose key the cache does not know is served on its own merits, once, and whatever comes of it
is remembered: a cursor, or that it was rejected. While it is remembered a retry with its key changes
nothing, and is told the same cursor, or that it is a duplicate. So what was appended is appended
once; and what was not is not appended until its record is gone, however soon after the rejection
the request would have succeeded (`refused_after_rejection`).
-/

namespace CePubsub

variable {Link : Type} {host : Host Link}

namespace Topic

variable (host) in
/-- A request comes of its checks and of the append, in this order. -/
theorem applyIngest_ok_iff (t : Topic) (node : Answers) (req : IngestRequest) (publisher : String)
    (now : Nat) :
    (∃ c t', t.applyIngest host node req publisher now = (.ok c, t')) ↔
      ∃ msg, t.gate host node publisher abilityPublish req.grant now = .ok () ∧
        ingestMessage host req publisher t.requireCap now = .ok msg ∧ node.commitLog = .ok () := by
  rw [applyIngest]
  cases t.gate host node publisher abilityPublish req.grant now with
  | error why => simp
  | ok u =>
    cases ingestMessage host req publisher t.requireCap now with
    | error why => simp
    | ok msg =>
      simp only [appendAndFanout]
      cases node.commitLog with
      | error e => simp
      | ok u => simp

end Topic

namespace Attempt

/-- Authorization and validation pass, for a message, and the append goes through. -/
structure Succeeds (a : Attempt host) (msg : Message) : Prop where
  admitted : a.owner.gate host a.node a.publisher abilityPublish a.req.grant a.now = .ok ()
  checked : Topic.ingestMessage host a.req a.publisher a.owner.requireCap a.now = .ok msg
  committed : a.node.commitLog = .ok ()

/-- **A request the cache does not know** is appended, once, if it would succeed, and else rejected with
nothing appended. -/
theorem served {a : Attempt host} (missed : a.cached = none) :
    (∃ msg, a.Succeeds msg ∧ a.reply = .accepted a.owner.writer.nextCursor ∧
      a.after.writer = a.owner.writer.apply (.append msg)) ∨
    ((∀ msg, ¬ a.Succeeds msg) ∧ (∃ why, a.reply = .rejected why) ∧
      a.after.writer = a.owner.writer) := by
  cases looked : a.owner.dedup.get a.key a.now with
  | mk hit cache =>
    rw [cached, looked] at missed
    cases missed
    have ok_iff := Topic.applyIngest_ok_iff host { a.owner with dedup := cache } a.node a.req
      a.publisher a.now
    rw [key] at looked
    rw [reply, after, Topic.handleIngest_of_decoded a.decoded, Topic.serveIngest, looked]
    simp only
    rcases Topic.applyIngest_cases host { a.owner with dedup := cache } a.node a.req a.publisher
      a.now with ⟨why, rejected⟩ | ⟨msg, t', appended, admitted, checked, is⟩
    · rw [rejected] at ok_iff ⊢
      refine .inr ⟨fun msg would => ?_, ⟨why, rfl⟩, rfl⟩
      obtain ⟨c, t', ok⟩ := ok_iff.mpr ⟨msg, would.admitted, would.checked, would.committed⟩
      cases ok
    · obtain ⟨-, -, -, committed⟩ := ok_iff.mp ⟨_, t', appended⟩
      rw [appended]
      exact .inl ⟨msg, ⟨admitted, checked, committed⟩, rfl, is.writer⟩

/-- A request is a use of the cache. -/
theorem dedup_after (a : Attempt host) :
    ∃ seen, a.after.dedup = a.owner.dedup.use ⟨a.key, a.now, some seen⟩ ∧
      (a.cached = none → a.Produced seen) := by
  cases known : a.cached with
  | none =>
    obtain ⟨seen, cache, looked, produced, dedup, -⟩ := a.reply_of_uncached known
    refine ⟨seen, ?_, fun _ => produced⟩
    rw [dedup, IdempotencyCache.use, looked]
  | some seen =>
    refine ⟨seen, ?_, fun missed => by cases missed⟩
    rw [(a.reply_of_cached known).2.1, IdempotencyCache.use]
    cases looked : a.owner.dedup.get a.key a.now with
    | mk hit cache =>
      rw [cached, looked] at known
      cases known
      exact (IdempotencyCache.of_get_some looked).1.symm

end Attempt

/-! ## What the owner remembers of one key -/

namespace Topic

variable (host) in
/-- If a request has to evict, the first queue entry of a key in the map is that key's only one. -/
def SkipsLeftovers (t : Topic) (i : Input) : Prop :=
  ∀ a, t.attempt? host i = some a → a.key ∉ t.dedup.map → t.dedup.map.size ≥ t.dedup.capacity →
    Fifo.FirstOnce { map := t.dedup.map, order := t.dedup.order }

/-- The cache is the source's: a queue of its capacity and TTL. -/
def Caches (t : Topic) (s : Fifo String (Seen × Nat)) : Prop :=
  t.dedup = .build dedupCapacity dedupTtlSecs s ∧ s.Bounded dedupCapacity

/-- A new topic caches nothing. -/
theorem caches_of_create {nodeId topic : String} {t : Topic} (new : create nodeId topic = .ok t) :
    t.Caches {} := by
  rw [eq_of_create new]
  exact ⟨rfl, Fifo.bounded_empty _⟩

/-- The call of the queue that a request makes. -/
theorem caches_after {a : Attempt host} {s : Fifo String (Seen × Nat)} (h : a.owner.Caches s) :
    ∃ seen, a.after.Caches (s.call dedupCapacity dedupTtlSecs Prod.snd
        ⟨a.key, a.now, some (seen, a.now)⟩) ∧
      (a.cached = none → a.Produced seen) := by
  obtain ⟨built, bounded⟩ := h
  obtain ⟨seen, dedup, produced⟩ := a.dedup_after
  refine ⟨seen, ⟨?_, bounded.call (by decide) _⟩, produced⟩
  rw [dedup, built, IdempotencyCache.use_build]
  rfl

/-- What the queue finds for a request's key is what the request is answered from. -/
theorem cached_of_caches {a : Attempt host} {s : Fifo String (Seen × Nat)} (h : a.owner.Caches s) :
    a.cached = (s.look dedupTtlSecs Prod.snd a.key a.now).1.map Prod.fst := by
  rw [Attempt.cached, h.1, IdempotencyCache.get_over]

variable (host) in
/-- The cache stays a queue of that capacity, whatever comes. -/
theorem caches_step {t : Topic} {s : Fifo String (Seen × Nat)} (h : t.Caches s) (i : Input) :
    ∃ s', (t.step host i).Caches s' := by
  rcases attempt_cases host t i with ⟨-, dedup⟩ | ⟨a, -, rfl, step⟩
  · exact ⟨s, dedup.trans h.1, h.2⟩
  · obtain ⟨seen, caches, -⟩ := caches_after h
    exact ⟨_, step ▸ caches⟩

/-- The cache holds what was recorded for a key, which at most `since` others are queued behind. -/
def Recalls (t : Topic) (key : String) (w : Seen × Nat) (since : Nat) : Prop :=
  ∃ s, t.Caches s ∧ s.Recalls key w since

/-- What a request that is served leaves is remembered. -/
theorem recalls_of_missed {a : Attempt host} {s : Fifo String (Seen × Nat)} (h : a.owner.Caches s)
    (missed : a.cached = none) : ∃ seen, a.Produced seen ∧ a.after.Recalls a.key (seen, a.now) 0 := by
  obtain ⟨seen, caches, produced⟩ := caches_after h
  refine ⟨seen, produced missed, _, caches, ?_⟩
  have looked := cached_of_caches h
  rw [missed] at looked
  rw [Fifo.call]
  cases left : s.look dedupTtlSecs Prod.snd a.key a.now with
  | mk hit s' =>
    rw [left] at looked
    cases hit with
    | some w => cases looked
    | none => exact Fifo.recalls_push s' a.key (seen, a.now)

variable (host) in
/-- How many of the requests an input makes are served rather than answered from the cache. -/
def served (t : Topic) (i : Input) : Nat :=
  (t.attempt? host i).toList.countP (·.cached.isNone)

/-- **An input keeps what is remembered of a key**: a request with it before it expires, and any other
that does not evict at a leftover, with fewer than the capacity served since. -/
theorem recalls_step {t : Topic} {key : String} {w : Seen × Nat} {since : Nat}
    (h : t.Recalls key w since) {i : Input} (skips : t.SkipsLeftovers host i)
    (fresh : ∀ a, t.attempt? host i = some a → a.key = key → a.now - w.2 ≤ dedupTtlSecs)
    (recent : since + t.served host i < dedupCapacity) :
    (t.step host i).Recalls key w (since + t.served host i) := by
  obtain ⟨s, caches, recalls⟩ := h
  rcases attempt_cases host t i with ⟨idle, dedup⟩ | ⟨a, attempt, rfl, step⟩
  · rw [served, idle] at recent ⊢
    exact ⟨s, ⟨dedup.trans caches.1, caches.2⟩, recalls⟩
  · have looked := cached_of_caches caches
    have missed : a.cached.isNone = (s.look dedupTtlSecs Prod.snd a.key a.now).1.isNone := by
      rw [looked, Option.isNone_map]
    obtain ⟨seen, after, -⟩ := caches_after caches
    rw [served, attempt, Option.toList_some, List.countP_singleton, missed] at recent ⊢
    rw [step]
    refine ⟨_, after, recalls.call caches.2 ?_ ?_ recent⟩
    · rintro same ⟨-, old⟩
      exact Nat.not_lt_of_le (fresh a attempt same) old
    · intro _ absent full
      have clean := skips a attempt
      rw [caches.1] at clean
      exact clean absent full

/-- What is remembered of a key answers a request with it, before it expires. -/
theorem cached_of_recalls {a : Attempt host} {seen : Seen} {t since : Nat}
    (h : a.owner.Recalls a.key (seen, t) since) (fresh : a.now - t ≤ dedupTtlSecs) :
    a.cached = some seen := by
  obtain ⟨s, caches, recalls⟩ := h
  have unexpired : ¬ Fifo.Expired dedupTtlSecs Prod.snd a.now (seen, t) := fun expired =>
    Nat.not_lt_of_le fresh expired.2
  rw [cached_of_caches caches, Fifo.look_of_fresh recalls.found unexpired]
  rfl

/-- Only `w`, if anything, is remembered of a key. -/
def Only (t : Topic) (key : String) (w : Seen × Nat) : Prop :=
  ∃ s, t.Caches s ∧ ∀ w', s.map[key]? = some w' → w' = w

/-- What is recalled is all that is remembered of the key. -/
theorem Recalls.only {t : Topic} {key : String} {w : Seen × Nat} {since : Nat}
    (h : t.Recalls key w since) : t.Only key w := by
  obtain ⟨s, caches, recalls⟩ := h
  exact ⟨s, caches, fun w' found => Option.some.inj (found.symm.trans recalls.found)⟩

variable (host) in
/-- An input that serves no request with a key records nothing for it. -/
theorem only_step {t : Topic} {key : String} {w : Seen × Nat} (h : t.Only key w) {i : Input}
    (known : ∀ a, t.attempt? host i = some a → a.key = key → a.cached.isSome) :
    (t.step host i).Only key w := by
  obtain ⟨s, caches, only⟩ := h
  rcases attempt_cases host t i with ⟨-, dedup⟩ | ⟨a, attempt, rfl, step⟩
  · exact ⟨s, ⟨dedup.trans caches.1, caches.2⟩, only⟩
  · obtain ⟨seen, after, -⟩ := caches_after caches
    rw [step]
    by_cases same : a.key = key
    · obtain ⟨hit, cached⟩ := Option.isSome_iff_exists.mp (known a attempt same)
      rw [(a.reply_of_cached cached).2.1]
      exact ⟨s, caches, only⟩
    · exact ⟨_, after, fun w' found => only w' (Fifo.getElem?_call same found)⟩

/-- A record that has expired answers nothing. -/
theorem cached_of_expired {a : Attempt host} {seen : Seen} {t : Nat} (h : a.owner.Only a.key (seen, t))
    (expired : dedupTtlSecs < a.now - t) : a.cached = none := by
  obtain ⟨s, caches, only⟩ := h
  rw [cached_of_caches caches]
  cases found : s.map[a.key]? with
  | none => rw [Fifo.look_of_absent found]; rfl
  | some w =>
    obtain rfl := only w found
    rw [Fifo.look_of_expired found ⟨by decide, expired⟩]
    rfl

variable (host) in
/-- The requests made along a run. -/
def requests (t : Topic) (inputs : List Input) : List (Attempt host) :=
  (Run.run (audit host) (t, []) inputs).2

variable (host) in
/-- The requests of a run, one input later. -/
theorem requests_concat (t : Topic) (inputs : List Input) (i : Input) :
    t.requests host (inputs ++ [i]) =
      t.requests host inputs ++ ((Run.run (Topic.step host) t inputs).attempt? host i).toList := by
  rw [requests, Run.run_concat, audit, audit_run]
  rfl

/-- **A run keeps what is remembered of a key**, until it expires or as many other requests have been
served as the cache has room for. -/
theorem recalls_run {t : Topic} {key : String} {w : Seen × Nat} (h : t.Recalls key w 0)
    {inputs : List Input} (skips : Run.Along (step host) (SkipsLeftovers host) t inputs)
    (fresh : ∀ a ∈ t.requests host inputs, a.key = key → a.now - w.2 ≤ dedupTtlSecs)
    (recent : (t.requests host inputs).countP (·.cached.isNone) < dedupCapacity) :
    (Run.run (step host) t inputs).Recalls key w
      ((t.requests host inputs).countP (·.cached.isNone)) := by
  induction inputs using List.reverseRecOn with
  | nil => exact h
  | append_singleton inputs i ih =>
    obtain ⟨skips, last⟩ := Run.along_concat.mp skips
    rw [requests_concat] at fresh
    rw [requests_concat, List.countP_append] at recent ⊢
    have before := ih skips (fun a mem => fresh a (List.mem_append_left _ mem))
      (Nat.lt_of_le_of_lt (Nat.le_add_right _ _) recent)
    rw [Run.run_concat]
    refine recalls_step before last (fun a attempt => ?_) recent
    exact fresh a (List.mem_append_right _ (Option.mem_toList.mpr attempt))

/-- A run that serves no request with a key records nothing for it. -/
theorem only_run {t : Topic} {key : String} {w : Seen × Nat} (h : t.Only key w) {inputs : List Input}
    (known : ∀ a ∈ t.requests host inputs, a.key = key → a.cached.isSome) :
    (Run.run (step host) t inputs).Only key w := by
  induction inputs using List.reverseRecOn with
  | nil => exact h
  | append_singleton inputs i ih =>
    rw [requests_concat] at known
    rw [Run.run_concat]
    refine only_step host (ih fun a mem => known a (List.mem_append_left _ mem)) fun a attempt => ?_
    exact known a (List.mem_append_right _ (Option.mem_toList.mpr attempt))

end Topic

namespace Attempt

/-- What a request is told while the one with its key is remembered. -/
def again (a : Attempt host) : IngestReply :=
  match a.reply with
  | .accepted c => .accepted c
  | .rejected _ => .rejected "duplicate request"

/-- Every request with the key up to this one comes within the TTL, and fewer others than the cache has
room for have been served, none evicting at a leftover. -/
structure Remembered (a : Attempt host) (later : List Input) (b : Attempt host) : Prop where
  ttl : ∀ x ∈ a.after.requests host later ++ [b], x.key = a.key → x.now - a.now ≤ dedupTtlSecs
  capacity : (a.after.requests host later).countP (·.cached.isNone) < dedupCapacity
  skips : Run.Along (Topic.step host) (Topic.SkipsLeftovers host) a.after later

/-- The cached outcome answers as the reply did. -/
theorem again_of_produced {a : Attempt host} {seen : Seen} (produced : a.Produced seen) :
    Topic.seenAnswer seen = a.again := by
  cases seen with
  | cursor c =>
    have reply : a.reply = .accepted c := produced.2
    rw [again, reply]
    rfl
  | handled =>
    obtain ⟨why, reply⟩ : ∃ why, a.reply = .rejected why := produced.2
    rw [again, reply]
    rfl

end Attempt

/-- **A retry is answered for what came of the request.** In any run of the owner, a request whose key the
cache knows changes nothing and is answered from the cache. One whose key it does not know is appended
once and told its cursor, if authorization, validation and the append succeed, and else is rejected with
nothing appended. While that is remembered a later request with the key changes nothing, and is told
the same cursor, or that it is a duplicate of a rejected one; a request after the TTL finds it
forgotten. -/
theorem retry_answered (host : Host Link) (nodeId topic : String) (t : Topic)
    (new : Topic.create nodeId topic = .ok t) (past : List Input) (i : Input) (a : Attempt host)
    (attempt : (Run.run (Topic.step host) t past).attempt? host i = some a) :
    (∀ seen, a.cached = some seen → a.after = a.owner ∧ a.reply = Topic.seenAnswer seen) ∧
    (a.cached = none →
      ((∃ msg, a.Succeeds msg ∧ a.reply = .accepted a.owner.writer.nextCursor ∧
          a.after.writer = a.owner.writer.apply (.append msg)) ∨
        ((∀ msg, ¬ a.Succeeds msg) ∧ (∃ why, a.reply = .rejected why) ∧
          a.after.writer = a.owner.writer)) ∧
      ∀ later j b, (Run.run (Topic.step host) a.after later).attempt? host j = some b →
        b.key = a.key →
        (a.Remembered later b → b.after = b.owner ∧ b.reply = a.again) ∧
        ((∀ x ∈ a.after.requests host later, x.key = a.key → x.cached.isSome) →
          dedupTtlSecs < b.now - a.now → b.cached = none)) := by
  constructor
  · intro seen known
    obtain ⟨reply, same, -⟩ := a.reply_of_cached known
    exact ⟨same, reply⟩
  · intro missed
    refine ⟨a.served missed, fun later j b retried key => ?_⟩
    obtain ⟨s, caches⟩ := Run.run_invariant (P := fun t : Topic => ∃ s, t.Caches s)
      (fun _ i ⟨_, h⟩ => Topic.caches_step host h i) ⟨_, Topic.caches_of_create new⟩ past
    rw [← owner_of_attempt attempt] at caches
    obtain ⟨seen, produced, recalls⟩ := Topic.recalls_of_missed caches missed
    constructor
    · intro remembered
      have still := Topic.recalls_run recalls remembered.skips
        (fun x mem => remembered.ttl x (List.mem_append_left _ mem)) remembered.capacity
      rw [← owner_of_attempt retried, ← key] at still
      have fresh := remembered.ttl b (List.mem_append_right _ (List.mem_singleton_self b)) key
      obtain ⟨reply, same, -⟩ := b.reply_of_cached (Topic.cached_of_recalls still fresh)
      exact ⟨same, reply.trans (Attempt.again_of_produced produced)⟩
    · intro known expired
      have only := Topic.only_run recalls.only known
      rw [← owner_of_attempt retried, ← key] at only
      exact Topic.cached_of_expired only expired

/-- A remote publish under a key of its own. -/
private def order : IngestRequest where
  payloadHex := "6869"
  grant := none
  idempotencyKey := some "k"
  orderingKey := none
  attributes := ∅

/-- A host that reads the compact form. -/
private def orderHost : Host Unit := .compact

private theorem decode_order :
    IngestRequest.decodeHex orderHost.serde (Hex.encode order.encode) = .ok order := by
  refine (IngestRequest.decodeHex_encode (Host.compact_reads_ingest order) ?_).mpr ?_
  · rintro k ⟨⟩
    decide
  · rw [IngestRequest.length_encode]
    decide

/-- The topic it is sent to. -/
private def ordersOwner : Topic := { nodeId := "aa", topic := "orders" }

/-- A node that reaches no quorum. -/
private def down : Answers := { commitLog := .error "no quorum" }

/-- The request, sent to some state of the topic. -/
private abbrev ordered (owner : Topic) (node : Answers) (token now : Nat) : Attempt orderHost :=
  ⟨owner, node, token, Hex.encode order.encode, "bb", now, order, decode_order⟩

/-- The input it arrives as. -/
private def sending (node : Answers) (token now : Nat) : Input :=
  .ingest node token (Hex.encode order.encode) "bb" now

private theorem attempt_sending (t : Topic) (node : Answers) (token now : Nat) :
    t.attempt? orderHost (sending node token now) = some (ordered t node token now) :=
  attempt_of_decoded t node token "bb" now decode_order

private theorem serve_ordered (owner : Topic) (node : Answers) (token now : Nat) :
    owner.handleIngest orderHost node token (Hex.encode order.encode) "bb" now =
      owner.serveIngest orderHost node token order "bb" now :=
  Topic.handleIngest_of_decoded decode_order owner node token "bb" now

/-- The first request, accepted. -/
private abbrev taken : Attempt orderHost := ordered ordersOwner {} 1 10

/-- The first request, rejected for want of a quorum. -/
private abbrev failed : Attempt orderHost := ordered ordersOwner down 1 10

/-- Every copy of the request has one key. -/
private theorem key_ordered (owner : Topic) (node : Answers) (token now : Nat) :
    (ordered owner node token now).key = "k" := rfl

/-- Another node's request, without a key. -/
private def note : IngestRequest := { order with payloadHex := "6e", idempotencyKey := none }

private theorem decode_note :
    IngestRequest.decodeHex orderHost.serde (Hex.encode note.encode) = .ok note := by
  refine (IngestRequest.decodeHex_encode (Host.compact_reads_ingest note) nofun).mpr ?_
  rw [IngestRequest.length_encode]
  decide

/-- The owner publishes, and another node does. -/
private def meanwhile : List Input :=
  [.publish {} [1] 11, .ingest {} 3 (Hex.encode note.encode) "cc" 12]

private theorem taken_after : taken.after = (ordersOwner.serveIngest orderHost {} 1 order "bb" 10).2 := by
  rw [Attempt.after, serve_ordered]

/-- What comes between holds one request, and it is another. -/
private theorem requests_meanwhile : taken.after.requests orderHost meanwhile =
    [⟨(taken.after.publish {} [1] 11).2, {}, 3, Hex.encode note.encode, "cc", 12, note, decode_note⟩] := by
  rw [show meanwhile = ([] ++ [.publish {} [1] 11]) ++ [.ingest {} 3 (Hex.encode note.encode) "cc" 12]
    from rfl, Topic.requests_concat, Topic.requests_concat, attempt_of_decoded _ {} 3 "cc" 12 decode_note]
  rfl

/-- A request that is accepted, and sent again when the owner and another node have published. -/
theorem retry_answered_accepted :
    ∃ b : Attempt orderHost,
      (Run.run (Topic.step orderHost) taken.after meanwhile).attempt? orderHost (sending {} 2 13) =
        some b ∧ b.after = b.owner ∧ b.reply = .accepted 1 := by
  have new : Topic.create "aa" "orders" = .ok ordersOwner := Topic.create_of_valid (by decide) "aa"
  have answered := retry_answered orderHost "aa" "orders" ordersOwner new [] (sending {} 1 10) taken
    (attempt_sending _ _ _ _)
  have missed : taken.cached = none := by decide
  obtain ⟨-, later⟩ := answered.2 missed
  have retried := attempt_sending (Run.run (Topic.step orderHost) taken.after meanwhile) {} 2 13
  have remembered : taken.Remembered meanwhile
      (ordered (Run.run (Topic.step orderHost) taken.after meanwhile) {} 2 13) := by
    refine ⟨fun x mem same => ?_, ?_, fun _ _ _ full => ?_, fun _ _ _ full => ?_, trivial⟩
    · rw [requests_meanwhile] at mem
      rcases List.mem_cons.mp mem with rfl | last
      · exact absurd same (by decide)
      · rw [List.mem_singleton.mp last]
        decide
    · rw [requests_meanwhile]
      exact List.countP_le_length.trans_lt (by decide)
    · rw [taken_after] at full
      exact absurd full (by decide)
    · rw [taken_after] at full
      exact absurd full (by decide)
  obtain ⟨same, reply⟩ := (later meanwhile (sending {} 2 13) _ retried
    ((key_ordered _ _ _ _).trans (key_ordered _ _ _ _).symm)).1 remembered
  have accepted : taken.again = .accepted 1 := by
    rw [Attempt.again, Attempt.reply, serve_ordered]
    rfl
  exact ⟨_, retried, same, reply.trans accepted⟩

/-- **A retry refused because its request failed**: the append of a request fails, and a second later,
with the node back, the same request of the same publisher would succeed. It is told it is a duplicate,
and the log stays empty. -/
theorem refused_after_rejection :
    ∃ a b : Attempt orderHost,
      ordersOwner.attempt? orderHost (sending down 1 10) = some a ∧
      (Run.run (Topic.step orderHost) ordersOwner [sending down 1 10]).attempt? orderHost
        (sending {} 2 11) = some b ∧
      b.publisher = a.publisher ∧ b.req = a.req ∧ b.key = a.key ∧
      a.reply = .rejected "append failed: durable append: no quorum" ∧
      a.after.writer = a.owner.writer ∧ (∃ msg, b.Succeeds msg) ∧
      b.reply = .rejected "duplicate request" ∧ b.after.writer.messages = [] := by
  have rejected : failed.after = (ordersOwner.serveIngest orderHost down 1 order "bb" 10).2 := by
    rw [Attempt.after, serve_ordered]
  have step : Run.run (Topic.step orderHost) ordersOwner [sending down 1 10] = failed.after := rfl
  rw [step, rejected]
  refine ⟨_, _, attempt_sending _ _ _ _, attempt_sending _ _ _ _, rfl, rfl, rfl, ?_, ?_, ?_, ?_, ?_⟩
  · rw [Attempt.reply, serve_ordered]
    rfl
  · rw [rejected]
    rfl
  · exact ⟨_, rfl, rfl, rfl⟩
  · rw [Attempt.reply, serve_ordered]
    decide
  · rw [Attempt.after, serve_ordered]
    decide

end CePubsub
