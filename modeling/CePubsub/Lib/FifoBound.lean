import CePubsub.Lib.Fifo
import CePubsub.Lib.Run

/-!
# How much a map with a queue holds

The map is bounded, and stays so whatever is recorded, looked up or updated (`Bounded`): recording
pops the queue until there is room, and since every key of the map is queued there is room before the
queue is empty.

The queue is bounded only where it holds no more than the map does. An entry that expires leaves the
map and not the queue, and the queue is popped only when the map is full, so what is recorded while
the map has room is queued on top of what has expired. `Tight` is the bound one would have: no more
keys queued than the capacity, and each key of the map once. Recording keeps it exactly if the key is
not queued already and there is room in the queue wherever there is in the map (`tight_push_iff`).
-/

namespace Fifo

open Std (ExtTreeMap)

variable {κ ω : Type} [Ord κ] [Std.TransOrd κ]

/-- Record a key, in place if it is in the map. -/
def put (capacity : Nat) (s : Fifo κ ω) (key : κ) (w : ω) : Fifo κ ω :=
  if key ∈ s.map then { s with map := s.map.insert key w } else s.push capacity key w

/-- Look a key up and, if it is not there, record what there is to record. -/
def call (capacity ttl : Nat) (stamp : ω → Nat) (s : Fifo κ ω) (c : Call κ ω) : Fifo κ ω :=
  match s.look ttl stamp c.key c.now, c.fill with
  | (none, s), some w => s.push capacity c.key w
  | (_, s), _ => s

/-- The map is no larger than the capacity, and all its keys are queued. -/
structure Bounded (capacity : Nat) (s : Fifo κ ω) : Prop where
  size : s.map.size ≤ capacity
  queued : ∀ key ∈ s.map, key ∈ s.order

/-- The queue is no longer than the capacity, and holds each key of the map once. -/
structure Tight [BEq κ] (capacity : Nat) (s : Fifo κ ω) : Prop where
  length : s.order.length ≤ capacity
  once : ∀ key ∈ s.map, s.order.count key = 1

/-- A call that records finds its key not queued, and room in the queue if there is in the map. -/
def FindsRoom (capacity ttl : Nat) (stamp : ω → Nat) (s : Fifo κ ω) (c : Call κ ω) : Prop :=
  c.fill.isSome → (s.look ttl stamp c.key c.now).1 = none →
    c.key ∉ s.order ∧ (s.map.size < capacity → s.order.length < capacity)

variable {capacity ttl : Nat} {stamp : ω → Nat} {s : Fifo κ ω}

/-- The trace follows the cache. -/
theorem Trace.cache_call (t : Trace κ ω) (c : Call κ ω) :
    (t.call capacity ttl stamp c).cache = t.cache.call capacity ttl stamp c := by
  rw [Trace.call, Fifo.call]
  cases t.cache.look ttl stamp c.key c.now with
  | mk hit s =>
    cases hit with
    | some w => rfl
    | none => cases c.fill <;> rfl

/-- The empty cache is within every capacity. -/
theorem bounded_empty (capacity : Nat) : Bounded capacity ({} : Fifo κ ω) where
  size := Nat.zero_le _
  queued _ mem := absurd mem ExtTreeMap.not_mem_empty

/-- So is its queue. -/
theorem tight_empty [BEq κ] (capacity : Nat) : Tight capacity ({} : Fifo κ ω) where
  length := Nat.zero_le _
  once _ mem := absurd mem ExtTreeMap.not_mem_empty

/-- A lookup drops its own key or nothing. -/
theorem getElem?_of_look {key k : κ} {now : Nat} {v : ω}
    (there : (s.look ttl stamp key now).2.map[k]? = some v) : s.map[k]? = some v := by
  cases found : s.map[key]? with
  | none => rwa [look_of_absent found] at there
  | some w =>
    by_cases expired : Expired ttl stamp now w
    · rw [look_of_expired found expired] at there
      exact getElem?_of_erase there
    · rwa [look_of_fresh found expired] at there

/-- A look adds no key. -/
theorem mem_of_mem_look {key k : κ} {now : Nat}
    (mem : k ∈ (s.look ttl stamp key now).2.map) : k ∈ s.map := by
  obtain ⟨v, there⟩ := Option.isSome_iff_exists.mp (ExtTreeMap.mem_iff_isSome_getElem?.mp mem)
  exact mem_of_getElem? (getElem?_of_look there)

/-- A look does not enlarge the map. -/
theorem size_look_le (s : Fifo κ ω) (key : κ) (now : Nat) :
    (s.look ttl stamp key now).2.map.size ≤ s.map.size := by
  cases found : s.map[key]? with
  | none => exact Nat.le_of_eq (by rw [look_of_absent found])
  | some w =>
    by_cases expired : Expired ttl stamp now w
    · rw [look_of_expired found expired]
      exact ExtTreeMap.size_erase_le
    · exact Nat.le_of_eq (by rw [look_of_fresh found expired])

/-- A lookup of what is not in the map changes nothing. -/
theorem look_of_not_mem {key : κ} {now : Nat} (absent : key ∉ s.map) :
    s.look ttl stamp key now = (none, s) :=
  look_of_absent (ExtTreeMap.getElem?_eq_none absent)

/-- A look keeps the bound. -/
theorem Bounded.look (h : Bounded capacity s) (key : κ) (now : Nat) :
    Bounded capacity (s.look ttl stamp key now).2 where
  size := Nat.le_trans (size_look_le s key now) h.size
  queued k mem := by
    rw [look_order]
    exact h.queued k (mem_of_mem_look mem)

/-- A look keeps the queue. -/
theorem Tight.look [BEq κ] (h : Tight capacity s) (key : κ) (now : Nat) :
    Tight capacity (s.look ttl stamp key now).2 where
  length := by
    rw [look_order]
    exact h.length
  once k mem := by
    rw [look_order]
    exact h.once k (mem_of_mem_look mem)

variable [Std.LawfulEqOrd κ]

/-- **Making room makes room**: there is some before the queue is empty, since every key of the map
is queued, and still is afterwards. -/
theorem makeRoom_spec (pos : 0 < capacity) {order : List κ} {map : ExtTreeMap κ ω}
    (queued : ∀ k ∈ map, k ∈ order) :
    (makeRoom capacity order map).2.size < capacity ∧
      ∀ k ∈ (makeRoom capacity order map).2, k ∈ (makeRoom capacity order map).1 := by
  induction order generalizing map with
  | nil =>
    have none : map.keys = [] :=
      List.eq_nil_iff_forall_not_mem.mpr fun k mem =>
        absurd (queued k (ExtTreeMap.mem_keys.mp mem)) List.not_mem_nil
    refine ⟨?_, queued⟩
    rw [makeRoom, ← ExtTreeMap.length_keys, none]
    exact pos
  | cons oldest order ih =>
    rw [makeRoom]
    split
    · refine ih fun k mem => ?_
      obtain ⟨other, mem⟩ := ExtTreeMap.mem_erase.mp mem
      refine (List.mem_cons.mp (queued k mem)).resolve_left fun same => ?_
      exact other (Std.compare_eq_iff_eq.mpr same.symm)
    · next room => exact ⟨Nat.lt_of_not_le room, queued⟩

/-- A push first makes room. -/
theorem Bounded.push (h : Bounded capacity s) (pos : 0 < capacity) (key : κ) (w : ω) :
    Bounded capacity (s.push capacity key w) := by
  obtain ⟨room, queued⟩ := makeRoom_spec pos h.queued
  refine ⟨Nat.le_trans ExtTreeMap.size_insert_le room, fun k mem => ?_⟩
  rcases ExtTreeMap.mem_insert.mp mem with same | mem
  · rw [← Std.compare_eq_iff_eq.mp same]
    exact List.mem_append_right _ (List.mem_singleton_self key)
  · exact List.mem_append_left _ (queued k mem)

/-- So does a put of a new key. -/
theorem Bounded.put (h : Bounded capacity s) (pos : 0 < capacity) (key : κ) (w : ω) :
    Bounded capacity (s.put capacity key w) := by
  rw [Fifo.put]
  split
  · next there =>
    refine ⟨?_, fun k mem => ?_⟩
    · rw [ExtTreeMap.size_insert, if_pos (ExtTreeMap.contains_iff_mem.mpr there)]
      exact h.size
    · rcases ExtTreeMap.mem_insert.mp mem with same | mem
      · rw [← Std.compare_eq_iff_eq.mp same]
        exact h.queued key there
      · exact h.queued k mem
  · exact h.push pos key w

/-- No call leaves the bound. -/
theorem Bounded.call (h : Bounded capacity s) (pos : 0 < capacity) (c : Call κ ω) :
    Bounded capacity (s.call capacity ttl stamp c) := by
  have looked : Bounded capacity (s.look ttl stamp c.key c.now).2 := h.look c.key c.now
  rw [Fifo.call]
  cases left : s.look ttl stamp c.key c.now with
  | mk hit s' =>
    rw [left] at looked
    cases hit with
    | some w => exact looked
    | none =>
      cases c.fill with
      | none => exact looked
      | some w => exact looked.push pos c.key w

/-- What is found after a recording is what was recorded, or was there before. -/
theorem getElem?_push {key k : κ} {w v : ω}
    (found : (s.push capacity key w).map[k]? = some v) : (k = key ∧ v = w) ∨ s.map[k]? = some v := by
  rcases getElem?_insert_eq_some_iff.mp found with ⟨same, is⟩ | ⟨-, before⟩
  · exact .inl ⟨same.symm, is.symm⟩
  · exact .inr (getElem?_of_makeRoom before)

/-- What is found of another key after a call was there before. -/
theorem getElem?_call {c : Call κ ω} {k : κ} {v : ω} (other : c.key ≠ k)
    (found : (s.call capacity ttl stamp c).map[k]? = some v) : s.map[k]? = some v := by
  rw [Fifo.call] at found
  cases left : s.look ttl stamp c.key c.now with
  | mk hit s' =>
    have before : s'.map[k]? = some v → s.map[k]? = some v := by
      intro there
      have looked : (s.look ttl stamp c.key c.now).2.map[k]? = some v := by rw [left, there]
      exact getElem?_of_look looked
    rw [left] at found
    cases hit with
    | some w => exact before found
    | none =>
      cases fill : c.fill with
      | none =>
        rw [fill] at found
        exact before found
      | some w =>
        rw [fill] at found
        exact before ((getElem?_push found).resolve_left fun new => other new.1.symm)

/-- What is found after a put is the value put, or was there before. -/
theorem getElem?_put {key k : κ} {w v : ω}
    (found : (s.put capacity key w).map[k]? = some v) :
    (k = key ∧ v = w) ∨ (k ≠ key ∧ s.map[k]? = some v) := by
  rw [put] at found
  have inserted : ∀ {m : ExtTreeMap κ ω}, (∀ u : ω, m[k]? = some u → s.map[k]? = some u) →
      (m.insert key w)[k]? = some v → (k = key ∧ v = w) ∨ (k ≠ key ∧ s.map[k]? = some v) := by
    intro m before there
    rcases getElem?_insert_eq_some_iff.mp there with ⟨same, is⟩ | ⟨other, there⟩
    · exact .inl ⟨same.symm, is.symm⟩
    · exact .inr ⟨other.symm, before v there⟩
  split at found
  · exact inserted (fun _ there => there) found
  · exact inserted (fun _ there => getElem?_of_makeRoom there) found

/-! ## The queue -/

variable [BEq κ]

/-- A full map, and a tight queue: the queue is the keys, in some order. -/
theorem Tight.order_perm (h : Tight capacity s) (bounded : Bounded capacity s)
    (full : s.map.size = capacity) : s.map.keys.Perm s.order := by
  have sub : s.map.keys.Subperm s.order :=
    List.subperm_of_subset ExtTreeMap.nodup_keys fun k mem => bounded.queued k (ExtTreeMap.mem_keys.mp mem)
  refine sub.perm_of_length_le ?_
  rw [ExtTreeMap.length_keys, full]
  exact h.length

variable [LawfulBEq κ]

/-- With no room in the map, recording keeps the queue tight: what it queues replaces what it pops. -/
theorem Tight.push_of_full (h : Tight capacity s) (bounded : Bounded capacity s) (pos : 0 < capacity)
    (full : s.map.size = capacity) {key : κ} (absent : key ∉ s.map) (w : ω) :
    Tight capacity (s.push capacity key w) := by
  have perm := h.order_perm bounded full
  have in_map : ∀ k ∈ s.order, k ∈ s.map := fun k mem =>
    ExtTreeMap.mem_keys.mp (perm.mem_iff.mpr mem)
  have length : s.order.length = capacity := by
    rw [← perm.length_eq, ExtTreeMap.length_keys, full]
  cases queue : s.order with
  | nil =>
    rw [queue, List.length_nil] at length
    omega
  | cons oldest rest =>
    have made : makeRoom capacity s.order s.map = (rest, s.map.erase oldest) := by
      have there := in_map oldest (queue ▸ List.mem_cons_self)
      have nothing : ∀ k ∈ ([] : List κ), k ∉ s.map := fun k mem => absurd mem List.not_mem_nil
      rw [queue, ← List.nil_append (oldest :: rest)]
      exact makeRoom_of_full full nothing there
    have unqueued : key ∉ rest := fun mem => absent (in_map key (queue ▸ List.mem_cons_of_mem oldest mem))
    rw [push, made]
    refine ⟨?_, fun k mem => ?_⟩
    · rw [queue, List.length_cons] at length
      rw [List.length_append, List.length_singleton]
      exact Nat.le_of_eq length
    · rw [List.count_append]
      rcases ExtTreeMap.mem_insert.mp mem with same | mem
      · obtain rfl := Std.compare_eq_iff_eq.mp same
        rw [List.count_eq_zero.mpr unqueued, List.count_singleton_self]
      · obtain ⟨other, mem⟩ := ExtTreeMap.mem_erase.mp mem
        have ne : oldest ≠ k := fun same => other (Std.compare_eq_iff_eq.mpr same)
        have ne' : key ≠ k := fun same => absent (same ▸ mem)
        have once := h.once k mem
        rw [queue, List.count_cons_of_ne ne] at once
        rw [once, List.count_singleton, if_neg (by simpa using ne')]

/-- **What recording asks of the queue, to keep it tight.** -/
theorem tight_push_iff (h : Tight capacity s) (bounded : Bounded capacity s) (pos : 0 < capacity)
    {key : κ} (absent : key ∉ s.map) (w : ω) :
    Tight capacity (s.push capacity key w) ↔
      key ∉ s.order ∧ (s.map.size < capacity → s.order.length < capacity) := by
  rcases Nat.lt_or_eq_of_le bounded.size with room | full
  · have queued : (s.push capacity key w).order = s.order ++ [key] := by
      rw [push, makeRoom_of_lt room]
    constructor
    · intro tight
      have length := tight.length
      rw [queued, List.length_append, List.length_singleton] at length
      refine ⟨fun mem => ?_, fun _ => length⟩
      have once := tight.once key (ExtTreeMap.mem_insert_self)
      have positive := List.count_pos_iff.mpr mem
      rw [queued, List.count_append, List.count_singleton_self] at once
      omega
    · rintro ⟨unqueued, fits⟩
      refine ⟨?_, fun k mem => ?_⟩
      · rw [queued, List.length_append, List.length_singleton]
        exact fits room
      · rw [queued, List.count_append]
        rw [push, makeRoom_of_lt room] at mem
        rcases ExtTreeMap.mem_insert.mp mem with same | mem
        · obtain rfl := Std.compare_eq_iff_eq.mp same
          rw [List.count_eq_zero.mpr unqueued, List.count_singleton_self]
        · have ne : key ≠ k := fun same => absent (same ▸ mem)
          rw [h.once k mem, List.count_singleton, if_neg (by simpa using ne)]
  · refine iff_of_true (h.push_of_full bounded pos full absent w) ⟨fun mem => ?_, fun room => ?_⟩
    · exact absent (ExtTreeMap.mem_keys.mp ((h.order_perm bounded full).mem_iff.mpr mem))
    · exact absurd full (Nat.ne_of_lt room)

/-- **What a call asks of the queue, to keep it tight.** -/
theorem tight_call_iff (h : Tight capacity s) (bounded : Bounded capacity s) (pos : 0 < capacity)
    (c : Call κ ω) :
    Tight capacity (s.call capacity ttl stamp c) ↔ s.FindsRoom capacity ttl stamp c := by
  have looked : Bounded capacity (s.look ttl stamp c.key c.now).2 := bounded.look c.key c.now
  have tight : Tight capacity (s.look ttl stamp c.key c.now).2 := h.look c.key c.now
  have order : (s.look ttl stamp c.key c.now).2.order = s.order := look_order s c.key c.now
  rw [call, FindsRoom]
  cases left : s.look ttl stamp c.key c.now with
  | mk hit s' =>
    rw [left] at looked tight order
    cases hit with
    | some w => exact iff_of_true tight fun _ missed => by cases missed
    | none =>
      cases c.fill with
      | none => exact iff_of_true tight fun fills => by cases fills
      | some w =>
        refine (tight_push_iff tight looked pos (not_mem_of_look_eq_none left) w).trans ?_
        rw [order]
        by_cases mem : c.key ∈ s.map
        · -- an entry that has just expired is still queued
          have queued := bounded.queued c.key mem
          exact iff_of_false (fun both => both.1 queued) fun room => (room rfl rfl).1 queued
        · rw [look_of_not_mem mem] at left
          obtain ⟨-, rfl⟩ := Prod.mk.inj left
          exact ⟨fun room _ _ => room, fun room => room rfl rfl⟩

/-- **What a run of a cache over a queue asks of it, to keep it tight**: every use finds room. -/
theorem tight_run_iff {γ υ : Type} {build : Fifo κ ω → γ} {use : γ → υ → γ} {toCall : υ → Call κ ω}
    {T : γ → Prop} {C : γ → υ → Prop}
    (use_build : ∀ s u, use (build s) u = build (s.call capacity ttl stamp (toCall u)))
    (tight_build : ∀ s, T (build s) ↔ s.Tight capacity)
    (room_build : ∀ s u, C (build s) u ↔ s.FindsRoom capacity ttl stamp (toCall u))
    (pos : 0 < capacity) (uses : List υ) :
    (∀ pre rest, uses = pre ++ rest → T (Run.run use (build {}) pre)) ↔
      Run.Along use C (build {}) uses := by
  refine Run.throughout_iff_along (I := fun c => ∃ s, c = build s ∧ s.Bounded capacity) ?_ ?_ ?_ ?_ uses
  · rintro _ u ⟨s, rfl, bounded⟩
    exact ⟨_, use_build s u, bounded.call pos (toCall u)⟩
  · rintro _ u ⟨s, rfl, bounded⟩ tight
    rw [use_build, tight_build, room_build]
    exact tight_call_iff ((tight_build s).mp tight) bounded pos (toCall u)
  · exact ⟨{}, rfl, bounded_empty _⟩
  · exact (tight_build {}).mpr (tight_empty _)

end Fifo
