import CePubsub.Dedup

/-!
# What the de-duplication caches remember

Both caches are the bounded queue of `Lib/Fifo` read through their own functions, and the laws are its
laws. A cache is driven by uses: a lookup, and on a miss what the caller records, if anything. Beside
it a run keeps everything it recorded, oldest first.

The source says that recent tokens are never forgotten, and that a queue entry whose key has expired
is skipped on eviction. It is skipped unless the key was recorded again: then the leftover stands in
front of the entry that counts, and evicting at it forgets the newest recording instead of the
oldest (`forgets_recent`). `SkipsLeftovers` excludes that one branch, and under it the caches
remember what they should (`recent_never_forgotten`).
-/

namespace CePubsub

namespace IdempotencyCache

/-- A lookup, and what the caller records if it misses. -/
structure Use where
  key : String
  now : Nat
  outcome : Option Seen

/-- What a use leaves of the cache. -/
def use (c : IdempotencyCache) (u : Use) : IdempotencyCache :=
  match c.get u.key u.now, u.outcome with
  | (none, c), some seen => c.insert u.key seen u.now
  | (_, c), _ => c

/-- A use, with everything recorded so far. -/
def audit : IdempotencyCache × List (String × Seen × Nat) → Use →
    IdempotencyCache × List (String × Seen × Nat)
  | (c, recorded), u =>
    (c.use u,
      match (c.get u.key u.now).1, u.outcome with
      | none, some seen => recorded ++ [(u.key, seen, u.now)]
      | _, _ => recorded)

/-- If the use has to evict, the first queue entry of a key in the map is that key's only one. -/
def SkipsLeftovers (c : IdempotencyCache) (u : Use) : Prop :=
  u.outcome.isSome → u.key ∉ c.map → c.map.size ≥ c.capacity →
    Fifo.FirstOnce { map := c.map, order := c.order }

/-- The cache over a queue. -/
def build (capacity ttl : Nat) (s : Fifo String (Seen × Nat)) : IdempotencyCache where
  map := s.map
  order := s.order
  capacity := capacity
  ttlSecs := ttl

/-- The call of the queue that a use is. -/
def Use.call (u : Use) : Fifo.Call String (Seen × Nat) where
  key := u.key
  now := u.now
  fill := u.outcome.map (·, u.now)

/-- A lookup of a key that is there: its outcome, unless it has expired. -/
private theorem get_of_found {c : IdempotencyCache} {key : String} {w : Seen × Nat} (now : Nat)
    (found : c.map[key]? = some w) :
    c.get key now = if c.ttlSecs ≠ 0 ∧ now - w.2 > c.ttlSecs
      then (none, { c with map := c.map.erase key }) else (some w.1, c) := by
  rw [get, found]

/-- A lookup is a look into the queue. -/
theorem get_over (capacity ttl : Nat) (s : Fifo String (Seen × Nat)) (key : String) (now : Nat) :
    (build capacity ttl s).get key now = ((s.look ttl Prod.snd key now).1.map Prod.fst,
      build capacity ttl (s.look ttl Prod.snd key now).2) := by
  cases found : s.map[key]? with
  | none =>
    rw [Fifo.look_of_absent found]
    simp only [get, build, found, Option.map_none]
  | some w =>
    have get_eq := get_of_found (c := build capacity ttl s) now found
    by_cases expired : Fifo.Expired ttl Prod.snd now w
    · rw [Fifo.look_of_expired found expired]
      exact get_eq.trans (if_pos expired)
    · rw [Fifo.look_of_fresh found expired]
      exact get_eq.trans (if_neg expired)

/-- A new key is pushed onto the queue. -/
theorem insert_over (capacity ttl : Nat) (s : Fifo String (Seen × Nat)) {key : String}
    (absent : key ∉ s.map) (seen : Seen) (now : Nat) :
    (build capacity ttl s).insert key seen now = build capacity ttl (s.push capacity key (seen, now)) := by
  exact if_neg absent

/-- A use of the cache is a call of its queue. -/
theorem audit_over (capacity ttl : Nat) (t : Fifo.Trace String (Seen × Nat)) (u : Use) :
    audit (build capacity ttl t.cache, t.recorded) u =
      (build capacity ttl (t.call capacity ttl Prod.snd u.call).cache,
        (t.call capacity ttl Prod.snd u.call).recorded) := by
  simp only [audit, use, get_over, Fifo.Trace.call, Use.call]
  cases looked : t.cache.look ttl Prod.snd u.key u.now with
  | mk hit s =>
    cases hit with
    | some w => rfl
    | none =>
      cases u.outcome with
      | none => rfl
      | some seen =>
        simp only [Option.map_none, Option.map_some]
        rw [insert_over _ _ _ (Fifo.not_mem_of_look_eq_none looked)]

/-- The run of the queue under the uses. -/
private abbrev trace (capacity ttl : Nat) (uses : List Use) : Fifo.Trace String (Seen × Nat) :=
  Run.run (Fifo.Trace.call (max capacity 1) ttl Prod.snd) {} (uses.map Use.call)

/-- A run of uses is the run of their calls. -/
private theorem run_eq (capacity ttl : Nat) (uses : List Use) :
    Run.run audit (new capacity ttl, []) uses =
      (build (max capacity 1) ttl (trace capacity ttl uses).cache,
        (trace capacity ttl uses).recorded) :=
  Fifo.run_over (audit_over (max capacity 1) ttl) {} uses

/-- Uses of a new cache that skip leftovers keep its queue's meaning. -/
private theorem retains (capacity ttl : Nat) (uses : List Use)
    (sorted : uses.Pairwise (·.now ≤ ·.now))
    (skips : Run.Along audit (fun a u => a.1.SkipsLeftovers u) (new capacity ttl, []) uses) :
    Fifo.Retains (max capacity 1) ttl Prod.snd (trace capacity ttl uses) :=
  Fifo.Retains.run_over (build (max capacity 1) ttl) (audit_over (max capacity 1) ttl)
    (fun _ u skips fills => skips (by rwa [Use.call, Option.isSome_map] at fills))
    (Nat.le_max_right capacity 1) Fifo.Retains.empty (fun _ _ => Nat.zero_le _) sorted skips

section Law

variable {capacity ttl : Nat} {uses : List Use} {c : IdempotencyCache}
  {recorded : List (String × Seen × Nat)}

/-- A key last recorded with `seen` at `t`, with fewer than `capacity` recorded after it, is answered
until it expires. -/
private theorem get_of_recent (sorted : uses.Pairwise (·.now ≤ ·.now))
    (skips : Run.Along audit (fun a u => a.1.SkipsLeftovers u) (new capacity ttl, []) uses)
    (ran : Run.run audit (new capacity ttl, []) uses = (c, recorded))
    {before after : List (String × Seen × Nat)} {key : String} {seen : Seen} {t now : Nat}
    (split : recorded = before ++ (key, seen, t) :: after) (last : key ∉ after.map Prod.fst)
    (recent : after.length < max capacity 1) (le : ∀ u ∈ uses, u.now ≤ now)
    (fresh : ttl = 0 ∨ now - t ≤ ttl) : (c.get key now).1 = some seen := by
  have kept := retains capacity ttl uses sorted skips
  rw [run_eq] at ran
  obtain ⟨rfl, rfl⟩ := Prod.mk.inj ran
  have unexpired : ¬ Fifo.Expired ttl Prod.snd now (seen, t) := fun ⟨limited, old⟩ =>
    fresh.elim limited (Nat.not_le_of_lt old)
  have clock : (trace capacity ttl uses).clock ≤ now :=
    Fifo.clock_run_le (Nat.zero_le now) (List.forall_mem_map.mpr le)
  rw [get_over, kept.recognised split last recent clock unexpired]
  rfl

/-- A use that evicts takes the entry recorded longest ago. -/
private theorem use_of_full (sorted : uses.Pairwise (·.now ≤ ·.now))
    (skips : Run.Along audit (fun a u => a.1.SkipsLeftovers u) (new capacity ttl, []) uses)
    (ran : Run.run audit (new capacity ttl, []) uses = (c, recorded)) {u : Use}
    (clean : c.SkipsLeftovers u) {seen : Seen} (outcome : u.outcome = some seen)
    (absent : u.key ∉ c.map) (full : c.map.size ≥ c.capacity) :
    ∃ oldest, Fifo.Oldest recorded c.map oldest ∧
      (c.use u).map = (c.map.erase oldest).insert u.key (seen, u.now) := by
  have kept := retains capacity ttl uses sorted skips
  have once := clean (outcome ▸ rfl) absent full
  rw [run_eq] at ran
  obtain ⟨rfl, rfl⟩ := Prod.mk.inj ran
  obtain ⟨oldest, is, evicted⟩ := kept.push_of_full
    (Nat.le_max_right capacity 1) full once u.key (seen, u.now)
  refine ⟨oldest, is, ?_⟩
  rw [use, get_over, Fifo.look_of_absent (Std.ExtTreeMap.getElem?_eq_none absent), outcome]
  simp only [Option.map_none]
  rw [insert_over _ _ _ absent]
  exact evicted

end Law

end IdempotencyCache

namespace TokenSet

/-- A token, and when it is presented. -/
structure Use where
  token : Nat
  now : Nat

/-- A use, with everything recorded so far. -/
def audit : TokenSet × List (Nat × Nat) → Use → TokenSet × List (Nat × Nat)
  | (s, recorded), u =>
    ((s.seen u.token u.now).2,
      if (s.seen u.token u.now).1 then recorded else recorded ++ [(u.token, u.now)])

/-- If the use has to evict, the first queue entry of a token in the map is that token's only one. -/
def SkipsLeftovers (s : TokenSet) (u : Use) : Prop :=
  u.token ∉ s.map → s.map.size ≥ s.capacity → Fifo.FirstOnce { map := s.map, order := s.order }

/-- The set over a queue. -/
def build (capacity ttl : Nat) (s : Fifo Nat Nat) : TokenSet where
  map := s.map
  order := s.order
  capacity := capacity
  ttlSecs := ttl

def Use.call (u : Use) : Fifo.Call Nat Nat where
  key := u.token
  now := u.now
  fill := some u.now

/-- A token that is there has been seen, unless it has expired. -/
private theorem seen_of_found {s : TokenSet} {token recordedAt : Nat} (now : Nat)
    (found : s.map[token]? = some recordedAt) :
    s.seen token now = if s.ttlSecs = 0 ∨ now - recordedAt ≤ s.ttlSecs then (true, s)
      else (false, { s with map := s.map.erase token }.record token now) := by
  rw [seen, found]

/-- A token is looked up, and pushed if it is not found. -/
theorem seen_over (capacity ttl : Nat) (s : Fifo Nat Nat) (token now : Nat) :
    (build capacity ttl s).seen token now =
      match s.look ttl id token now with
      | (some _, s) => (true, build capacity ttl s)
      | (none, s) => (false, build capacity ttl (s.push capacity token now)) := by
  cases found : s.map[token]? with
  | none =>
    rw [Fifo.look_of_absent found]
    simp only [seen, build, found]
    rfl
  | some recordedAt =>
    have seen_eq := seen_of_found (s := build capacity ttl s) now found
    by_cases live : ttl = 0 ∨ now - recordedAt ≤ ttl
    · rw [Fifo.look_of_fresh found fun ⟨limited, old⟩ =>
        live.elim limited (Nat.not_le_of_lt old)]
      exact seen_eq.trans (if_pos live)
    · rw [Fifo.look_of_expired found
        ⟨fun zero => live (.inl zero), Nat.lt_of_not_le fun le => live (.inr le)⟩]
      exact seen_eq.trans (if_neg live)

/-- A use of the set is a call of its queue. -/
theorem audit_over (capacity ttl : Nat) (t : Fifo.Trace Nat Nat) (u : Use) :
    audit (build capacity ttl t.cache, t.recorded) u =
      (build capacity ttl (t.call capacity ttl id u.call).cache,
        (t.call capacity ttl id u.call).recorded) := by
  simp only [audit, seen_over, Fifo.Trace.call, Use.call]
  cases t.cache.look ttl id u.token u.now with
  | mk hit s =>
    cases hit with
    | some w => rfl
    | none => rfl

private abbrev trace (capacity ttl : Nat) (uses : List Use) : Fifo.Trace Nat Nat :=
  Run.run (Fifo.Trace.call (max capacity 1) ttl id) {} (uses.map Use.call)

private theorem run_eq (capacity ttl : Nat) (uses : List Use) :
    Run.run audit (new capacity ttl, []) uses =
      (build (max capacity 1) ttl (trace capacity ttl uses).cache,
        (trace capacity ttl uses).recorded) :=
  Fifo.run_over (audit_over (max capacity 1) ttl) {} uses

/-- Uses of a new set that skip leftovers keep its queue's meaning. -/
private theorem retains (capacity ttl : Nat) (uses : List Use)
    (sorted : uses.Pairwise (·.now ≤ ·.now))
    (skips : Run.Along audit (fun a u => a.1.SkipsLeftovers u) (new capacity ttl, []) uses) :
    Fifo.Retains (max capacity 1) ttl id (trace capacity ttl uses) :=
  Fifo.Retains.run_over (build (max capacity 1) ttl) (audit_over (max capacity 1) ttl)
    (fun _ _ skips _ => skips) (Nat.le_max_right capacity 1) Fifo.Retains.empty
    (fun _ _ => Nat.zero_le _) sorted skips

section Law

variable {capacity ttl : Nat} {uses : List Use} {s : TokenSet} {recorded : List (Nat × Nat)}

/-- A token last recorded at `t`, with fewer than `capacity` recorded after it, is seen until it
expires. -/
private theorem seen_of_recent (sorted : uses.Pairwise (·.now ≤ ·.now))
    (skips : Run.Along audit (fun a u => a.1.SkipsLeftovers u) (new capacity ttl, []) uses)
    (ran : Run.run audit (new capacity ttl, []) uses = (s, recorded))
    {before after : List (Nat × Nat)} {token t now : Nat}
    (split : recorded = before ++ (token, t) :: after) (last : token ∉ after.map Prod.fst)
    (recent : after.length < max capacity 1) (le : ∀ u ∈ uses, u.now ≤ now)
    (fresh : ttl = 0 ∨ now - t ≤ ttl) : (s.seen token now).1 = true := by
  have kept := retains capacity ttl uses sorted skips
  rw [run_eq] at ran
  obtain ⟨rfl, rfl⟩ := Prod.mk.inj ran
  have unexpired : ¬ Fifo.Expired ttl id now t := fun ⟨limited, old⟩ =>
    fresh.elim limited (Nat.not_le_of_lt old)
  have clock : (trace capacity ttl uses).clock ≤ now :=
    Fifo.clock_run_le (Nat.zero_le now) (List.forall_mem_map.mpr le)
  rw [seen_over, kept.recognised split last recent clock unexpired]

/-- A use that evicts takes the entry recorded longest ago. -/
private theorem seen_of_full (sorted : uses.Pairwise (·.now ≤ ·.now))
    (skips : Run.Along audit (fun a u => a.1.SkipsLeftovers u) (new capacity ttl, []) uses)
    (ran : Run.run audit (new capacity ttl, []) uses = (s, recorded)) {u : Use}
    (clean : s.SkipsLeftovers u) (absent : u.token ∉ s.map) (full : s.map.size ≥ s.capacity) :
    ∃ oldest, Fifo.Oldest recorded s.map oldest ∧
      (s.seen u.token u.now).2.map = (s.map.erase oldest).insert u.token u.now := by
  have kept := retains capacity ttl uses sorted skips
  have once := clean absent full
  rw [run_eq] at ran
  obtain ⟨rfl, rfl⟩ := Prod.mk.inj ran
  obtain ⟨oldest, is, evicted⟩ := kept.push_of_full
    (Nat.le_max_right capacity 1) full once u.token u.now
  refine ⟨oldest, is, ?_⟩
  rw [seen_over, Fifo.look_of_absent (Std.ExtTreeMap.getElem?_eq_none absent)]
  exact evicted

end Law

end TokenSet

/-- **The caches remember what is recent, and evict what is oldest**, in every run whose evictions skip
leftovers and whose clock does not go back. A key last recorded at `t` with fewer than `capacity`
recordings after it is recognised for as long as it has not expired, and a use that evicts removes
the entry recorded longest ago. -/
theorem recent_never_forgotten (capacity ttl : Nat) :
    (∀ (uses : List IdempotencyCache.Use) c recorded,
      uses.Pairwise (·.now ≤ ·.now) →
      Run.Along IdempotencyCache.audit (fun a u => a.1.SkipsLeftovers u)
        (.new capacity ttl, []) uses →
      Run.run IdempotencyCache.audit (.new capacity ttl, []) uses = (c, recorded) →
      (∀ before key seen t after now, recorded = before ++ (key, seen, t) :: after →
        key ∉ after.map Prod.fst → after.length < max capacity 1 → (∀ u ∈ uses, u.now ≤ now) →
        (ttl = 0 ∨ now - t ≤ ttl) → (c.get key now).1 = some seen) ∧
      (∀ u seen, c.SkipsLeftovers u → u.outcome = some seen → u.key ∉ c.map →
        c.map.size ≥ c.capacity → ∃ oldest, Fifo.Oldest recorded c.map oldest ∧
          (c.use u).map = (c.map.erase oldest).insert u.key (seen, u.now))) ∧
    (∀ (uses : List TokenSet.Use) s recorded,
      uses.Pairwise (·.now ≤ ·.now) →
      Run.Along TokenSet.audit (fun a u => a.1.SkipsLeftovers u) (.new capacity ttl, []) uses →
      Run.run TokenSet.audit (.new capacity ttl, []) uses = (s, recorded) →
      (∀ before token t after now, recorded = before ++ (token, t) :: after →
        token ∉ after.map Prod.fst → after.length < max capacity 1 → (∀ u ∈ uses, u.now ≤ now) →
        (ttl = 0 ∨ now - t ≤ ttl) → (s.seen token now).1 = true) ∧
      (∀ u, s.SkipsLeftovers u → u.token ∉ s.map → s.map.size ≥ s.capacity →
        ∃ oldest, Fifo.Oldest recorded s.map oldest ∧
          (s.seen u.token u.now).2.map = (s.map.erase oldest).insert u.token u.now)) := by
  constructor
  · intro uses c recorded sorted skips ran
    constructor
    · intro before key seen t after now split last recent le fresh
      exact IdempotencyCache.get_of_recent sorted skips ran split last recent le fresh
    · intro u seen clean outcome absent full
      exact IdempotencyCache.use_of_full sorted skips ran clean outcome absent full
  · intro uses s recorded sorted skips ran
    constructor
    · intro before token t after now split last recent le fresh
      exact TokenSet.seen_of_recent sorted skips ran split last recent le fresh
    · intro u clean absent full
      exact TokenSet.seen_of_full sorted skips ran clean absent full

/-- Two keys, and the younger recorded again once it has expired. -/
private def again : List IdempotencyCache.Use :=
  [⟨"a", 0, some (.cursor 1)⟩, ⟨"b", 0, some (.cursor 2)⟩, ⟨"b", 10, some (.cursor 3)⟩]

/-- The same of two tokens. -/
private def again' : List TokenSet.Use := [⟨1, 0⟩, ⟨2, 0⟩, ⟨2, 10⟩]

/-- Past the older key the queue may hold the younger twice. -/
private theorem firstOnce_again {κ ω : Type} [Ord κ] [Std.TransOrd κ] {map : Std.ExtTreeMap κ ω} {a b : κ}
    (there : a ∈ map) (ne : a ≠ b) : Fifo.FirstOnce { map, order := [a, b, b] } := by
  intro stale key rest split gone _
  cases stale with
  | nil =>
    obtain ⟨rfl, rfl⟩ := List.cons.inj split
    simp [ne]
  | cons k stale =>
    obtain ⟨rfl, -⟩ := List.cons.inj split
    exact absurd there (gone _ List.mem_cons_self)

/-- With room for two and a TTL of five, `b` expires and is recorded again, and recording `c` then evicts
`a`, recorded longest ago. A token set does the same. -/
theorem recent_never_forgotten_again :
    (∃ c recorded, Run.run IdempotencyCache.audit (.new 2 5, []) (again ++ [⟨"c", 11, some .handled⟩]) =
        (c, recorded) ∧ (c.get "b" 12).1 = some (.cursor 3) ∧ (c.get "a" 12).1 = none) ∧
    ∃ s recorded, Run.run TokenSet.audit (.new 2 5, []) (again' ++ [⟨3, 11⟩]) = (s, recorded) ∧
      (s.seen 2 12).1 = true ∧ (s.seen 1 12).1 = false := by
  constructor
  · have skips : Run.Along IdempotencyCache.audit (fun a u => a.1.SkipsLeftovers u) (.new 2 5, [])
        (again ++ [⟨"c", 11, some .handled⟩]) :=
      ⟨fun _ _ full => absurd full (by decide), fun _ _ full => absurd full (by decide),
        fun _ there => absurd (by decide) there, fun _ _ _ => firstOnce_again (by decide) (by decide),
          trivial⟩
    exact ⟨_, _, rfl, ((recent_never_forgotten 2 5).1 _ _ _ (by decide) skips rfl).1
      [("a", .cursor 1, 0), ("b", .cursor 2, 0)] "b" (.cursor 3) 10 [("c", .handled, 11)] 12 (by decide)
      (by decide) (by decide) (by decide) (.inr (by decide)), by decide⟩
  · have skips : Run.Along TokenSet.audit (fun a u => a.1.SkipsLeftovers u) (.new 2 5, [])
        (again' ++ [⟨3, 11⟩]) :=
      ⟨fun _ full => absurd full (by decide), fun _ full => absurd full (by decide),
        fun there => absurd (by decide) there, fun _ _ => firstOnce_again (by decide) (by decide), trivial⟩
    exact ⟨_, _, rfl, ((recent_never_forgotten 2 5).2 _ _ _ (by decide) skips rfl).1
      [(1, 0), (2, 0)] 2 10 [(3, 11)] 12 (by decide) (by decide) (by decide) (by decide)
      (.inr (by decide)), by decide⟩

/-- **A recent key forgotten**: with room for two and a TTL of five, `a` and `b` are recorded, `a`
expires and is recorded again, and recording `c` evicts at `a`'s leftover. The newest but one is gone
while `b`, recorded longest ago, is still there. A token set does the same. -/
theorem forgets_recent :
    (∃ uses c recorded, uses.Pairwise (·.now ≤ ·.now) ∧
      Run.run IdempotencyCache.audit (.new 2 5, []) uses = (c, recorded) ∧
      recorded = [("a", .cursor 1, 0), ("b", .cursor 2, 0)] ++
        ("a", .cursor 3, 10) :: [("c", .cursor 4, 10)] ∧
      (∀ u ∈ uses, u.now ≤ 10) ∧ (c.get "a" 10).1 = none ∧ "b" ∈ c.map) ∧
    (∃ uses s recorded, uses.Pairwise (·.now ≤ ·.now) ∧
      Run.run TokenSet.audit (.new 2 5, []) uses = (s, recorded) ∧
      recorded = [(1, 0), (2, 0)] ++ (1, 10) :: [(3, 10)] ∧
      (∀ u ∈ uses, u.now ≤ 10) ∧ (s.seen 1 10).1 = false ∧ 2 ∈ s.map) := by
  constructor
  · exact ⟨[⟨"a", 0, some (.cursor 1)⟩, ⟨"b", 0, some (.cursor 2)⟩, ⟨"a", 10, some (.cursor 3)⟩,
      ⟨"c", 10, some (.cursor 4)⟩], _, _, by decide, rfl, by decide, by decide,
      by decide, by decide⟩
  · exact ⟨[⟨1, 0⟩, ⟨2, 0⟩, ⟨1, 10⟩, ⟨3, 10⟩], _, _, by decide, rfl, by decide, by decide,
      by decide, by decide⟩

end CePubsub
