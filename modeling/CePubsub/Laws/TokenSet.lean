import CePubsub.Laws.Cache
import CePubsub.Lib.FifoRename

/-!
# The token set is the idempotency cache in one call

The source has the cache twice: `IdempotencyCache`, which leaves it to its caller to record what a
lookup misses, and `TokenSet`, which records in the same call. Given the same tokens at the same times,
under any encoding that keeps them apart, the two answer alike and hold the same, entries and queue
(`seen_iff_get`), whatever expires or is evicted and whichever way the clock goes.
-/

namespace CePubsub

namespace TokenSet

/-- A token presented, as a use of the cache that records no cursor. -/
def Use.handled (key : Nat → String) (u : Use) : IdempotencyCache.Use :=
  ⟨key u.token, u.now, some .handled⟩

/-- The set and the cache hold the same entries, recorded at the same times, and queue them alike. -/
structure Same (key : Nat → String) (s : TokenSet) (c : IdempotencyCache) : Prop where
  entries : ∀ k seen recordedAt, c.map[k]? = some (seen, recordedAt) ↔
    ∃ token, key token = k ∧ seen = .handled ∧ s.map[token]? = some recordedAt
  order : c.order = s.order.map key

/-- What is recorded of a token, with the time it is recorded at. -/
private def handledAt (recordedAt : Nat) : Seen × Nat := (.handled, recordedAt)

private abbrev Twin (key : Nat → String) (tokens : Set Nat) :=
  Fifo.Mirrors key handledAt tokens

private theorem handledAt_time (recordedAt : Nat) : (handledAt recordedAt).2 = id recordedAt := rfl

variable {key : Nat → String}

private theorem same_build {tokens : Set Nat} {capacity ttl : Nat} {s : Fifo Nat Nat}
    {c : Fifo String (Seen × Nat)} (h : Twin key tokens s c) :
    Same key (build capacity ttl s) (IdempotencyCache.build capacity ttl c) where
  entries k seen recordedAt := by
    refine (h.entries k (seen, recordedAt)).trans ⟨?_, ?_⟩
    · rintro ⟨token, at', same, is, found⟩
      cases is
      exact ⟨token, same, rfl, found⟩
    · rintro ⟨token, same, rfl, found⟩
      exact ⟨token, recordedAt, same, rfl, found⟩
  order := h.order

private theorem twin_use {tokens : Set Nat} (inj : Set.InjOn key tokens) {capacity ttl : Nat}
    {s : Fifo Nat Nat} {c : Fifo String (Seen × Nat)} (h : Twin key tokens s c) {u : Use}
    (token : u.token ∈ tokens) :
    Twin key tokens (s.call capacity ttl id u.call) (c.call capacity ttl Prod.snd (u.handled key).call) :=
  h.call inj handledAt_time u.call token

/-- **One list of uses leaves the two alike.** -/
private theorem twin_run {tokens : Set Nat} (inj : Set.InjOn key tokens) {capacity ttl : Nat}
    {uses : List Use} (among : ∀ u ∈ uses, u.token ∈ tokens) {s : Fifo Nat Nat}
    {c : Fifo String (Seen × Nat)} (h : Twin key tokens s c) :
    ∃ s' c', Twin key tokens s' c' ∧
      Run.run use (build capacity ttl s) uses = build capacity ttl s' ∧
      Run.run IdempotencyCache.use (IdempotencyCache.build capacity ttl c) (uses.map (Use.handled key)) =
        IdempotencyCache.build capacity ttl c' := by
  induction uses generalizing s c with
  | nil => exact ⟨s, c, h, rfl, rfl⟩
  | cons u uses ih =>
    obtain ⟨first, later⟩ := List.forall_mem_cons.mp among
    rw [Run.run_cons, List.map_cons, Run.run_cons, use_build, IdempotencyCache.use_build]
    exact ih later (twin_use inj h first)

/-- **The token set answers as the cache does, and holds the same**: after any uses, in any order of
their times, one more is a token seen exactly if the cache has something for its key, and leaves the same
entries, times and queue in both. -/
theorem seen_iff_get (capacity ttl : Nat) (key : Nat → String) (uses : List Use) (u : Use)
    (inj : Set.InjOn key {token | ∃ v ∈ uses ++ [u], v.token = token}) :
    let s := Run.run use (new capacity ttl) uses
    let c := Run.run IdempotencyCache.use (.new capacity ttl) (uses.map (Use.handled key))
    ((s.seen u.token u.now).1 = true ↔ (c.get (key u.token) u.now).1.isSome) ∧
      Same key (s.use u) (c.use (u.handled key)) := by
  have among : ∀ v ∈ uses, v.token ∈ {token | ∃ v ∈ uses ++ [u], v.token = token} := fun v mem =>
    ⟨v, List.mem_append_left _ mem, rfl⟩
  have last : u.token ∈ {token | ∃ v ∈ uses ++ [u], v.token = token} :=
    ⟨u, List.mem_append_right _ (List.mem_singleton_self u), rfl⟩
  obtain ⟨s, c, twin, run, run'⟩ : ∃ s c, Twin key _ s c ∧
      Run.run use (new capacity ttl) uses = build (max capacity 1) ttl s ∧
      Run.run IdempotencyCache.use (.new capacity ttl) (uses.map (Use.handled key)) =
        IdempotencyCache.build (max capacity 1) ttl c :=
    twin_run inj among (Fifo.mirrors_empty _)
  simp only [run, run']
  constructor
  · have hit := (twin.look inj ttl handledAt_time last u.now).1
    rw [IdempotencyCache.get_over, Option.isSome_map, hit, Option.isSome_map, seen_over]
    cases s.look ttl id u.token u.now with
    | mk found s' => cases found <;> simp
  · rw [use_build, IdempotencyCache.use_build]
    exact same_build (twin_use inj twin last)

/-- Two tokens, with room for one and a TTL of five, the first presented again after the second, and at
an earlier time. -/
theorem seen_iff_get_evicted :
    let s := Run.run use (new 1 5) [⟨1, 10⟩, ⟨2, 20⟩]
    let c := Run.run IdempotencyCache.use (.new 1 5) [⟨"1", 10, some .handled⟩, ⟨"2", 20, some .handled⟩]
    ((s.seen 1 12).1 = true ↔ (c.get "1" 12).1.isSome) ∧
      Same toString (s.use ⟨1, 12⟩) (c.use ⟨"1", 12, some .handled⟩) :=
  seen_iff_get 1 5 toString [⟨1, 10⟩, ⟨2, 20⟩] ⟨1, 12⟩ (by
    have apart : ∀ v ∈ [(⟨1, 10⟩ : Use), ⟨2, 20⟩, ⟨1, 12⟩], ∀ w ∈ [(⟨1, 10⟩ : Use), ⟨2, 20⟩, ⟨1, 12⟩],
        toString v.token = toString w.token → v.token = w.token := by decide
    rintro _ ⟨v, mem, rfl⟩ _ ⟨w, mem', rfl⟩ same
    exact apart v mem w mem' same)

end TokenSet

end CePubsub
