import CePubsub.Laws.Dedup
import CePubsub.Lib.FifoBound

/-!
# What the de-duplication caches hold

An entry answers for its key only: whatever is looked up and recorded, in any order and at any times,
what a lookup returns is what the last insert of that key stored, unexpired, and the map stays within
its capacity (`answers_last_insert`).

The queue beside the map does not stay within it. An expired entry leaves the map and is still queued,
and while the map has room nothing is popped, so a key that expires and is recorded again is queued
once more each time, for as long as the owner runs (`queue_outgrows_capacity`). `FindsRoom` excludes
that, and is exact (`queues_within_capacity`).
-/

namespace CePubsub

namespace IdempotencyCache

/-- A call of the cache, alone. -/
inductive Call where
  | get (key : String) (now : Nat)
  | insert (key : String) (seen : Seen) (now : Nat)

/-- What a call leaves of the cache. -/
def call (c : IdempotencyCache) : Call → IdempotencyCache
  | .get key now => (c.get key now).2
  | .insert key seen now => c.insert key seen now

/-- The cache inserts as the queue puts. -/
theorem insert_put (capacity ttl : Nat) (s : Fifo String (Seen × Nat)) (key : String) (seen : Seen)
    (now : Nat) :
    (build capacity ttl s).insert key seen now =
      build capacity ttl (s.put capacity key (seen, now)) := by
  by_cases there : key ∈ s.map
  · rw [Fifo.put, if_pos there]
    exact if_pos there
  · rw [Fifo.put, if_neg there]
    exact insert_over capacity ttl s there seen now

/-- The cache is left as the queue is by a look. -/
theorem get_build (capacity ttl : Nat) (s : Fifo String (Seen × Nat)) (key : String) (now : Nat) :
    ((build capacity ttl s).get key now).2 =
      build capacity ttl (s.look ttl Prod.snd key now).2 := by
  rw [get_over]

/-- A cache over a queue of bounded size that holds, for each key, what was inserted last. -/
structure Answers (capacity ttl : Nat) (calls : List Call) (c : IdempotencyCache) : Prop where
  bounded : ∃ s, c = build capacity ttl s ∧ s.Bounded capacity
  last : ∀ key seen t, c.map[key]? = some (seen, t) →
    ∃ before after, calls = before ++ .insert key seen t :: after ∧
      ∀ seen' t', .insert key seen' t' ∉ after

/-- One call more, of another key or of none, leaves the last insert of a key what it was. -/
theorem last_of_concat {calls : List Call} {key : String} {seen : Seen} {t : Nat} {call : Call}
    (last : ∃ before after, calls = before ++ .insert key seen t :: after ∧
      ∀ seen' t', .insert key seen' t' ∉ after)
    (other : ∀ seen' t', call ≠ .insert key seen' t') :
    ∃ before after, calls ++ [call] = before ++ .insert key seen t :: after ∧
      ∀ seen' t', .insert key seen' t' ∉ after := by
  obtain ⟨before, after, rfl, none⟩ := last
  refine ⟨before, after ++ [call], by rw [List.append_assoc, List.cons_append], fun seen' t' mem => ?_⟩
  rcases List.mem_append.mp mem with mem | mem
  · exact none seen' t' mem
  · exact other seen' t' (List.mem_singleton.mp mem).symm

/-- One more call. -/
theorem Answers.step {capacity ttl : Nat} (pos : 0 < capacity) {calls : List Call}
    {c : IdempotencyCache} (h : Answers capacity ttl calls c) (call : Call) :
    Answers capacity ttl (calls ++ [call]) (c.call call) := by
  obtain ⟨s, rfl, bounded⟩ := h.bounded
  cases call with
  | get key now =>
    rw [IdempotencyCache.call, get_build]
    refine ⟨⟨_, rfl, bounded.look key now⟩, fun k seen t found => ?_⟩
    have before : s.map[k]? = some (seen, t) := Fifo.getElem?_of_look found
    exact last_of_concat (h.last k seen t before) fun _ _ eq => by cases eq
  | insert key seen now =>
    rw [IdempotencyCache.call, insert_put]
    refine ⟨⟨_, rfl, bounded.put pos key (seen, now)⟩, fun k seen' t found => ?_⟩
    rcases Fifo.getElem?_put found with ⟨rfl, eq⟩ | ⟨other, before⟩
    · obtain ⟨rfl, rfl⟩ := Prod.mk.inj eq
      exact ⟨calls, [], rfl, fun _ _ mem => absurd mem List.not_mem_nil⟩
    · refine last_of_concat (h.last k seen' t before) fun _ _ eq => other ?_
      exact (Call.insert.inj eq).1.symm

/-- **A lookup returns what the last insert of its key stored, unexpired**, after any calls with any
keys, values and times, and the map stays within the capacity, all its keys queued. -/
theorem answers_last_insert (capacity ttl : Nat) (calls : List Call) :
    (Run.run call (new capacity ttl) calls).map.size ≤ max capacity 1 ∧
    (∀ key ∈ (Run.run call (new capacity ttl) calls).map,
      key ∈ (Run.run call (new capacity ttl) calls).order) ∧
    ∀ key now seen, ((Run.run call (new capacity ttl) calls).get key now).1 = some seen →
      ∃ before t after, calls = before ++ .insert key seen t :: after ∧
        (∀ seen' t', .insert key seen' t' ∉ after) ∧ (ttl = 0 ∨ now - t ≤ ttl) := by
  have answers : Answers (max capacity 1) ttl calls (Run.run call (new capacity ttl) calls) := by
    induction calls using List.reverseRecOn with
    | nil =>
      refine ⟨⟨{}, rfl, Fifo.bounded_empty _⟩, fun key seen t found => ?_⟩
      cases found
    | append_singleton calls c ih =>
      rw [Run.run_concat]
      exact ih.step (Nat.le_max_right capacity 1) c
  obtain ⟨⟨s, built, bounded⟩, last⟩ := answers
  rw [built] at last ⊢
  refine ⟨bounded.size, bounded.queued, fun key now seen hit => ?_⟩
  cases found : s.map[key]? with
  | none =>
    rw [get_over, Fifo.look_of_absent found] at hit
    cases hit
  | some w =>
    obtain ⟨before, after, split, none⟩ := last key w.1 w.2 found
    by_cases expired : Fifo.Expired ttl Prod.snd now w
    · rw [get_over, Fifo.look_of_expired found expired] at hit
      cases hit
    · rw [get_over, Fifo.look_of_fresh found expired] at hit
      obtain rfl := Option.some.inj hit
      refine ⟨before, w.2, after, split, none, ?_⟩
      by_contra old
      obtain ⟨limited, old⟩ := not_or.mp old
      exact expired ⟨limited, Nat.lt_of_not_le old⟩

/-! ## The queue -/

/-- The queue is no longer than the capacity, and holds each key of the map once. -/
def Tight (c : IdempotencyCache) : Prop :=
  c.order.length ≤ c.capacity ∧ ∀ key ∈ c.map, c.order.count key = 1

/-- A use that records finds its key not queued, and room in the queue if there is in the map. -/
def FindsRoom (c : IdempotencyCache) (u : Use) : Prop :=
  u.outcome.isSome → (c.get u.key u.now).1 = none →
    u.key ∉ c.order ∧ (c.map.size < c.capacity → c.order.length < c.capacity)

/-- A use is one call of the queue. -/
theorem use_build (capacity ttl : Nat) (s : Fifo String (Seen × Nat)) (u : Use) :
    (build capacity ttl s).use u = build capacity ttl (s.call capacity ttl Prod.snd u.call) := by
  have step := congrArg Prod.fst (audit_over capacity ttl { cache := s } u)
  rwa [Fifo.Trace.cache_call] at step

/-- The cache is tight exactly if its queue is. -/
theorem tight_build (capacity ttl : Nat) (s : Fifo String (Seen × Nat)) :
    (build capacity ttl s).Tight ↔ s.Tight capacity :=
  ⟨fun h => ⟨h.1, h.2⟩, fun h => ⟨h.length, h.once⟩⟩

/-- A use finds room exactly if its call does. -/
theorem findsRoom_build (capacity ttl : Nat) (s : Fifo String (Seen × Nat)) (u : Use) :
    (build capacity ttl s).FindsRoom u ↔ s.FindsRoom capacity ttl Prod.snd u.call := by
  rw [FindsRoom, get_over, Option.map_eq_none_iff, Fifo.FindsRoom, Use.call, Option.isSome_map]
  exact Iff.rfl

/-- The queue of a cache stays within the capacity exactly as long as what is recorded finds room. -/
theorem tight_iff (capacity ttl : Nat) (uses : List Use) :
    (∀ pre rest, uses = pre ++ rest → (Run.run use (new capacity ttl) pre).Tight) ↔
      Run.Along use FindsRoom (new capacity ttl) uses :=
  Fifo.tight_run_iff (use_build (max capacity 1) ttl) (tight_build _ ttl) (findsRoom_build _ ttl)
    (Nat.le_max_right capacity 1) uses

end IdempotencyCache

namespace TokenSet

/-- What a use leaves of the set. -/
def use (s : TokenSet) (u : Use) : TokenSet := (s.seen u.token u.now).2

/-- The queue is no longer than the capacity, and holds each token of the map once. -/
def Tight (s : TokenSet) : Prop :=
  s.order.length ≤ s.capacity ∧ ∀ token ∈ s.map, s.order.count token = 1

/-- A use that records finds its token not queued, and room in the queue if there is in the map. -/
def FindsRoom (s : TokenSet) (u : Use) : Prop :=
  (s.seen u.token u.now).1 = false →
    u.token ∉ s.order ∧ (s.map.size < s.capacity → s.order.length < s.capacity)

theorem use_build (capacity ttl : Nat) (s : Fifo Nat Nat) (u : Use) :
    (build capacity ttl s).use u = build capacity ttl (s.call capacity ttl id u.call) := by
  have step := congrArg Prod.fst (audit_over capacity ttl { cache := s } u)
  rwa [Fifo.Trace.cache_call] at step

theorem tight_build (capacity ttl : Nat) (s : Fifo Nat Nat) :
    (build capacity ttl s).Tight ↔ s.Tight capacity :=
  ⟨fun h => ⟨h.1, h.2⟩, fun h => ⟨h.length, h.once⟩⟩

theorem findsRoom_build (capacity ttl : Nat) (s : Fifo Nat Nat) (u : Use) :
    (build capacity ttl s).FindsRoom u ↔ s.FindsRoom capacity ttl id u.call := by
  rw [FindsRoom, seen_over, Fifo.FindsRoom, Use.call]
  cases s.look ttl id u.token u.now with
  | mk hit s' =>
    cases hit with
    | some w => exact iff_of_true (fun missed => by cases missed) (fun _ missed => by cases missed)
    | none => exact ⟨fun room _ _ => room rfl, fun room _ => room rfl rfl⟩

/-- The queue of a set stays within the capacity exactly as long as what is recorded finds room. -/
theorem tight_iff (capacity ttl : Nat) (uses : List Use) :
    (∀ pre rest, uses = pre ++ rest → (Run.run use (new capacity ttl) pre).Tight) ↔
      Run.Along use FindsRoom (new capacity ttl) uses :=
  Fifo.tight_run_iff (use_build (max capacity 1) ttl) (tight_build _ ttl) (findsRoom_build _ ttl)
    (Nat.le_max_right capacity 1) uses

end TokenSet

/-- **The queues stay within the capacity exactly as long as what is recorded finds room**: in every
state a run passes through, a queue holds no more keys than the capacity and each key of the map once,
if and only if every use of the run that records finds its key not queued, and room in the queue
wherever there is room in the map. -/
theorem queues_within_capacity (capacity ttl : Nat) :
    (∀ uses : List IdempotencyCache.Use,
      (∀ pre rest, uses = pre ++ rest →
        (Run.run IdempotencyCache.use (.new capacity ttl) pre).order.length ≤
          (Run.run IdempotencyCache.use (.new capacity ttl) pre).capacity ∧
        ∀ key ∈ (Run.run IdempotencyCache.use (.new capacity ttl) pre).map,
          (Run.run IdempotencyCache.use (.new capacity ttl) pre).order.count key = 1) ↔
      Run.Along IdempotencyCache.use IdempotencyCache.FindsRoom (.new capacity ttl) uses) ∧
    (∀ uses : List TokenSet.Use,
      (∀ pre rest, uses = pre ++ rest →
        (Run.run TokenSet.use (.new capacity ttl) pre).order.length ≤
          (Run.run TokenSet.use (.new capacity ttl) pre).capacity ∧
        ∀ token ∈ (Run.run TokenSet.use (.new capacity ttl) pre).map,
          (Run.run TokenSet.use (.new capacity ttl) pre).order.count token = 1) ↔
      Run.Along TokenSet.use TokenSet.FindsRoom (.new capacity ttl) uses) :=
  ⟨IdempotencyCache.tight_iff capacity ttl, TokenSet.tight_iff capacity ttl⟩

/-- **A queue longer than its capacity**: with room for one key and a TTL of 5, one key recorded at 0,
10 and 20 is queued three times, and so is one token. -/
theorem queue_outgrows_capacity :
    (∃ c, c = Run.run IdempotencyCache.use (.new 1 5)
        [⟨"k", 0, some (.cursor 1)⟩, ⟨"k", 10, some (.cursor 2)⟩, ⟨"k", 20, some (.cursor 3)⟩] ∧
      c.capacity = 1 ∧ c.len = 1 ∧ c.order = ["k", "k", "k"]) ∧
    (∃ s, s = Run.run TokenSet.use (.new 1 5) [⟨7, 0⟩, ⟨7, 10⟩, ⟨7, 20⟩] ∧
      s.capacity = 1 ∧ s.len = 1 ∧ s.order = [7, 7, 7]) := by
  exact ⟨⟨_, rfl, by decide⟩, ⟨_, rfl, by decide⟩⟩

end CePubsub
