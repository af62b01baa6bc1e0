import CePubsub.Lib.Run
import Mathlib.Data.List.Nodup
import Mathlib.Data.List.Perm.Subperm
import Mathlib.Tactic.Common
import Std.Data.ExtTreeMap.Lemmas

/-!
# A bounded map with a queue to evict from

A cache keeps a map of at most `capacity` entries and, beside it, the queue of the keys it was told
to record, oldest first. A lookup drops the entry it finds expired, but not the queue's; recording a
key that is absent makes room by popping the queue until an entry goes, then adds the key to both.

The queue can therefore hold entries of keys that are no longer in the map, and eviction skips them.
It can also hold one of a key that expired and was recorded again: a leftover, in front of the
entry that counts, which eviction does not skip. `FirstOnce` says that the entry eviction would stop
at is no leftover. Under it the queue means what it should (`Kept`): eviction takes the entry
recorded longest ago, and a key stays until `capacity` others have been recorded after it.

`capacity`, `ttl` (`0`: never) and `stamp`, which reads off a value when it was recorded, are
parameters throughout.
-/

open Std (ExtTreeMap)

structure Fifo (κ ω : Type) [Ord κ] where
  map : ExtTreeMap κ ω := ∅
  order : List κ := []

namespace Fifo

variable {κ ω : Type} [Ord κ]

/-- Recorded more than `ttl` ago. -/
def Expired (ttl : Nat) (stamp : ω → Nat) (now : Nat) (w : ω) : Prop :=
  ttl ≠ 0 ∧ now - stamp w > ttl

instance (ttl : Nat) (stamp : ω → Nat) (now : Nat) (w : ω) : Decidable (Expired ttl stamp now w) :=
  inferInstanceAs (Decidable (_ ∧ _))

theorem Expired.mono {ttl : Nat} {stamp : ω → Nat} {now later : Nat} {w : ω}
    (h : Expired ttl stamp now w) (le : now ≤ later) : Expired ttl stamp later w :=
  ⟨h.1, by have := h.2; omega⟩

section Operations

variable [Std.TransOrd κ]

/-- Pop the queue until the map is below its capacity, or the queue is empty. -/
def makeRoom (capacity : Nat) : List κ → ExtTreeMap κ ω → List κ × ExtTreeMap κ ω
  | [], map => ([], map)
  | oldest :: order, map =>
    if map.size ≥ capacity then makeRoom capacity order (map.erase oldest)
    else (oldest :: order, map)

/-- Look a key up, dropping its entry if it is expired. -/
def look (ttl : Nat) (stamp : ω → Nat) (s : Fifo κ ω) (key : κ) (now : Nat) : Option ω × Fifo κ ω :=
  match s.map[key]? with
  | some w => if Expired ttl stamp now w then (none, { s with map := s.map.erase key }) else (some w, s)
  | none => (none, s)

/-- Record a key that is not in the map. -/
def push (capacity : Nat) (s : Fifo κ ω) (key : κ) (w : ω) : Fifo κ ω :=
  let (order, map) := makeRoom capacity s.order s.map
  { map := map.insert key w, order := order ++ [key] }

end Operations

/-- One use of the cache: look `key` up and, if it is not there, record `fill` for it. -/
structure Call (κ ω : Type) where
  key : κ
  now : Nat
  fill : Option ω

/-- The cache, and of its past what it is about: everything recorded, oldest first, and the time. -/
structure Trace (κ ω : Type) [Ord κ] where
  cache : Fifo κ ω := {}
  recorded : List (κ × ω) := []
  clock : Nat := 0

/-- What was last recorded for each key. -/
def latest [Std.TransOrd κ] (recorded : List (κ × ω)) : ExtTreeMap κ ω :=
  recorded.foldl (fun m e => m.insert e.1 e.2) ∅

/-- The first queue entry of a key still in the map is that key's only one. -/
def FirstOnce [Std.TransOrd κ] (s : Fifo κ ω) : Prop :=
  ∀ stale key rest, s.order = stale ++ key :: rest → (∀ k ∈ stale, k ∉ s.map) → key ∈ s.map →
    key ∉ rest

section Step

variable [Std.TransOrd κ] (capacity ttl : Nat) (stamp : ω → Nat)

def Trace.call (t : Trace κ ω) (c : Call κ ω) : Trace κ ω :=
  match look ttl stamp t.cache c.key c.now, c.fill with
  | (none, s), some w =>
    { cache := s.push capacity c.key w, recorded := t.recorded ++ [(c.key, w)], clock := c.now }
  | (_, s), _ => { t with cache := s, clock := c.now }

/-- A call that, if it has to evict, does not stop at a leftover. -/
def CleanEviction (s : Fifo κ ω) (c : Call κ ω) : Prop :=
  c.fill.isSome → c.key ∉ s.map → s.map.size ≥ capacity → s.FirstOnce

end Step

/-- Of the keys in the map, `key` is the one last recorded longest ago. -/
def Oldest [Std.TransOrd κ] (recorded : List (κ × ω)) (map : ExtTreeMap κ ω) (key : κ) : Prop :=
  key ∈ map ∧ ∃ before w after, recorded = before ++ (key, w) :: after ∧ key ∉ after.map Prod.fst ∧
    ∀ k ∈ map, k = key ∨ k ∈ after.map Prod.fst

/-! ## What the queue means -/

/-- **What the queue means**: it is the end of what was recorded, and the map holds, of the keys
queued, the last value recorded for each, but for the expired ones. -/
structure Kept [Std.TransOrd κ] (capacity ttl : Nat) (stamp : ω → Nat) (t : Trace κ ω) : Prop where
  suffix : t.cache.order <:+ t.recorded.map Prod.fst
  valued : ∀ (key : κ) (w : ω), t.cache.map[key]? = some w → (latest t.recorded)[key]? = some w
  queued : ∀ key ∈ t.cache.map, key ∈ t.cache.order
  live : ∀ key ∈ t.cache.order, ∀ w : ω, (latest t.recorded)[key]? = some w →
    key ∈ t.cache.map ∨ Expired ttl stamp t.clock w
  size : t.cache.map.size ≤ capacity

/-- **The invariant**: the queue, moreover, is all that was recorded or long enough for `capacity`
entries. -/
structure Retains [Std.TransOrd κ] (capacity ttl : Nat) (stamp : ω → Nat) (t : Trace κ ω) : Prop
    extends Kept capacity ttl stamp t where
  long : t.cache.order = t.recorded.map Prod.fst ∨ capacity ≤ t.cache.order.length

/-! ## The map -/

section Map

variable [Std.TransOrd κ] {m : ExtTreeMap κ ω} {k j : κ} {v w : ω}

theorem mem_of_getElem? (found : m[k]? = some v) : k ∈ m :=
  ExtTreeMap.mem_iff_isSome_getElem?.mpr (Option.isSome_of_eq_some found)

theorem getElem?_of_erase (left : (m.erase k)[j]? = some v) : m[j]? = some v := by
  rw [ExtTreeMap.getElem?_erase] at left
  split at left
  · cases left
  · exact left

variable [Std.LawfulEqOrd κ]

theorem getElem?_erase_eq_some_iff : (m.erase k)[j]? = some v ↔ k ≠ j ∧ m[j]? = some v := by
  rw [ExtTreeMap.getElem?_erase]
  split
  · next same => exact iff_of_false (by rintro ⟨⟩) fun h => h.1 (Std.compare_eq_iff_eq.mp same)
  · next other => exact ⟨fun found => ⟨fun same => other (Std.compare_eq_iff_eq.mpr same), found⟩,
      And.right⟩

theorem getElem?_insert_eq_some_iff :
    (m.insert k w)[j]? = some v ↔ (k = j ∧ w = v) ∨ (k ≠ j ∧ m[j]? = some v) := by
  rw [ExtTreeMap.getElem?_insert]
  split
  · next same =>
    obtain rfl := Std.compare_eq_iff_eq.mp same
    rw [Option.some.injEq]
    exact ⟨fun is => .inl ⟨rfl, is⟩, fun h => h.elim And.right fun h => absurd rfl h.1⟩
  · next other =>
    have differ : k ≠ j := fun same => other (Std.compare_eq_iff_eq.mpr same)
    exact ⟨fun found => .inr ⟨differ, found⟩, fun h => h.elim (fun h => absurd h.1 differ) And.right⟩

end Map

section Lemmas

variable [Std.TransOrd κ] {capacity ttl : Nat} {stamp : ω → Nat}

@[simp] theorem clock_call (t : Trace κ ω) (c : Call κ ω) :
    (t.call capacity ttl stamp c).clock = c.now := by
  rw [Trace.call]
  split <;> rfl

/-- The clock of a run is no later than any time all its calls are before. -/
theorem clock_run_le {t : Trace κ ω} {calls : List (Call κ ω)} {now : Nat} (start : t.clock ≤ now)
    (le : ∀ c ∈ calls, c.now ≤ now) :
    (Run.run (Trace.call capacity ttl stamp) t calls).clock ≤ now := by
  cases calls using List.reverseRecOn with
  | nil => exact start
  | append_singleton calls c =>
    rw [Run.run_concat, clock_call]
    exact le c (List.mem_append_right _ (List.mem_singleton_self c))

theorem look_of_absent {s : Fifo κ ω} {key : κ} {now : Nat} (found : s.map[key]? = none) :
    s.look ttl stamp key now = (none, s) := by
  rw [look, found]

theorem look_of_expired {s : Fifo κ ω} {key : κ} {now : Nat} {w : ω} (found : s.map[key]? = some w)
    (expired : Expired ttl stamp now w) :
    s.look ttl stamp key now = (none, { s with map := s.map.erase key }) := by
  rw [look, found]
  exact if_pos expired

theorem look_of_fresh {s : Fifo κ ω} {key : κ} {now : Nat} {w : ω} (found : s.map[key]? = some w)
    (fresh : ¬ Expired ttl stamp now w) : s.look ttl stamp key now = (some w, s) := by
  rw [look, found]
  exact if_neg fresh

/-- A lookup leaves the queue alone. -/
theorem look_order (s : Fifo κ ω) (key : κ) (now : Nat) :
    (s.look ttl stamp key now).2.order = s.order := by
  rw [look]
  split
  · split <;> rfl
  · rfl

@[simp] theorem latest_concat (recorded : List (κ × ω)) (key : κ) (w : ω) :
    latest (recorded ++ [(key, w)]) = (latest recorded).insert key w := by
  rw [latest, List.foldl_append]
  rfl

theorem makeRoom_of_lt {order : List κ} {map : ExtTreeMap κ ω} (room : map.size < capacity) :
    makeRoom capacity order map = (order, map) := by
  cases order with
  | nil => rfl
  | cons key order => rw [makeRoom, if_neg (Nat.not_le_of_lt room)]

/-- Making room adds nothing. -/
theorem getElem?_of_makeRoom {order : List κ} {map : ExtTreeMap κ ω} {key : κ} {w : ω}
    (there : (makeRoom capacity order map).2[key]? = some w) : map[key]? = some w := by
  induction order generalizing map with
  | nil => exact there
  | cons oldest order ih =>
    rw [makeRoom] at there
    split at there
    · exact getElem?_of_erase (ih there)
    · exact there

theorem Retains.empty : Retains capacity ttl stamp ({} : Trace κ ω) where
  suffix := List.suffix_refl _
  valued key w found := absurd found (by simp)
  queued key mem := absurd mem Std.ExtTreeMap.not_mem_empty
  live key mem := nomatch mem
  size := Nat.zero_le _
  long := .inl rfl

variable [Std.LawfulEqOrd κ]

/-- The last entry of a key is its latest. -/
theorem latest_of_last {before after : List (κ × ω)} {key : κ} {w : ω}
    (last : key ∉ after.map Prod.fst) :
    (latest (before ++ (key, w) :: after))[key]? = some w := by
  induction after using List.reverseRecOn with
  | nil => rw [latest_concat, Std.ExtTreeMap.getElem?_insert_self]
  | append_singleton after e ih =>
    rw [List.map_append, List.mem_append, not_or] at last
    rw [← List.cons_append, ← List.append_assoc, latest_concat, Std.ExtTreeMap.getElem?_insert,
      if_neg, ih last.1]
    rw [Std.compare_eq_iff_eq]
    exact fun same => last.2 (List.mem_singleton.mpr same.symm)

theorem size_erase_lt {map : ExtTreeMap κ ω} {key : κ} (there : key ∈ map) :
    (map.erase key).size < map.size := by
  have : map.size ≠ 0 := by
    intro empty
    rw [← Std.ExtTreeMap.length_keys, List.length_eq_zero_iff] at empty
    exact absurd (Std.ExtTreeMap.mem_keys.mpr there) (empty ▸ List.not_mem_nil)
  rw [Std.ExtTreeMap.size_erase, if_pos (Std.ExtTreeMap.contains_iff_mem.mpr there)]
  omega

/-- A full map gives up the first key of the queue it still holds. -/
theorem makeRoom_of_full {stale rest : List κ} {key : κ} {map : ExtTreeMap κ ω}
    (full : map.size = capacity) (gone : ∀ k ∈ stale, k ∉ map) (there : key ∈ map) :
    makeRoom capacity (stale ++ key :: rest) map = (rest, map.erase key) := by
  induction stale with
  | nil =>
    rw [List.nil_append, makeRoom, if_pos (Nat.le_of_eq full.symm), makeRoom_of_lt]
    exact full ▸ size_erase_lt there
  | cons k stale ih =>
    have absent : map.erase k = map := by
      ext i : 1
      have := gone k List.mem_cons_self
      grind
    rw [List.cons_append, makeRoom, if_pos (Nat.le_of_eq full.symm), absent]
    exact ih fun j mem => gone j (List.mem_cons_of_mem k mem)

/-- The front of the queue, up to the first key still in the map. -/
theorem exists_first {order : List κ} {map : ExtTreeMap κ ω} (queued : ∀ k ∈ map, k ∈ order)
    (pos : 0 < map.size) :
    ∃ key stale rest, (∀ k ∈ stale, k ∉ map) ∧ key ∈ map ∧ order = stale ++ key :: rest := by
  obtain ⟨_, there⟩ : ∃ key, key ∈ map := by
    by_contra! none
    have : map.keys = [] :=
      List.eq_nil_iff_forall_not_mem.mpr fun k mem => none k (Std.ExtTreeMap.mem_keys.mp mem)
    rw [← Std.ExtTreeMap.length_keys, this, List.length_nil] at pos
    omega
  obtain ⟨key, stale, rest, gone, there, split, -⟩ :=
    List.exists_of_eraseP (p := fun k => decide (k ∈ map)) (queued _ there) (decide_eq_true there)
  simp only [decide_eq_true_eq] at gone there
  exact ⟨key, stale, rest, gone, there, split⟩

/-- What a lookup misses is not in the map it leaves. -/
theorem not_mem_of_look_eq_none {s s' : Fifo κ ω} {key : κ} {now : Nat}
    (missed : s.look ttl stamp key now = (none, s')) : key ∉ s'.map := by
  cases found : s.map[key]? with
  | none =>
    rw [look_of_absent found] at missed
    obtain ⟨-, rfl⟩ := Prod.mk.inj missed
    simp only [Std.ExtTreeMap.mem_iff_isSome_getElem?, found, Option.isSome_none,
      Bool.false_eq_true, not_false_eq_true]
  | some w =>
    by_cases expired : Expired ttl stamp now w
    · rw [look_of_expired found expired] at missed
      obtain ⟨-, rfl⟩ := Prod.mk.inj missed
      grind
    · rw [look_of_fresh found expired] at missed
      cases missed

/-- A map that is still full after a miss is one the lookup dropped nothing from. -/
theorem look_of_full {s s' : Fifo κ ω} {key : κ} {now : Nat} (size : s.map.size ≤ capacity)
    (full : capacity ≤ s'.map.size) (missed : s.look ttl stamp key now = (none, s')) : s' = s := by
  rw [look] at missed
  split at missed
  · next found =>
    split at missed
    · obtain ⟨-, rfl⟩ := Prod.mk.inj missed
      have smaller := size_erase_lt (mem_of_getElem? found)
      exact absurd (Nat.lt_of_lt_of_le smaller size) (Nat.not_lt_of_le full)
    · cases missed
  · exact (Prod.mk.inj missed).2.symm

/-! ## The queue keeps its meaning -/

namespace Kept

variable {t : Trace κ ω}

/-- A lookup keeps it, as time goes on. -/
theorem look (h : Kept capacity ttl stamp t) (key : κ) {now : Nat} (le : t.clock ≤ now) :
    Kept capacity ttl stamp { t with cache := (t.cache.look ttl stamp key now).2, clock := now } := by
  have later {k w} (mem : k ∈ t.cache.order) (last : (latest t.recorded)[k]? = some w) :
      k ∈ t.cache.map ∨ Expired ttl stamp now w :=
    (h.live k mem w last).imp_right fun expired => expired.mono le
  cases found : t.cache.map[key]? with
  | none =>
    rw [look_of_absent found]
    exact ⟨h.suffix, h.valued, h.queued, fun k mem w last => later mem last, h.size⟩
  | some w =>
    by_cases expired : Expired ttl stamp now w
    · rw [look_of_expired found expired]
      refine ⟨h.suffix, ?_, ?_, ?_, Nat.le_trans Std.ExtTreeMap.size_erase_le h.size⟩
      · intro k w' found'
        exact h.valued k w' (by grind)
      · exact fun k mem => h.queued k (Std.ExtTreeMap.mem_of_mem_erase mem)
      · intro k mem w' last
        rcases later mem last with there | old
        · by_cases same : k = key
          · subst same
            rw [h.valued k w found] at last
            exact .inr (Option.some.inj last ▸ expired)
          · exact .inl (by grind)
        · exact .inr old
    · rw [look_of_fresh found expired]
      exact ⟨h.suffix, h.valued, h.queued, fun k mem w last => later mem last, h.size⟩

/-- With room, recording an absent key keeps it. -/
theorem record (h : Kept capacity ttl stamp t) (room : t.cache.map.size < capacity) (key : κ)
    (w : ω) :
    Kept capacity ttl stamp
      { t with
        cache := { map := t.cache.map.insert key w, order := t.cache.order ++ [key] }
        recorded := t.recorded ++ [(key, w)] } where
  suffix := by
    obtain ⟨before, split⟩ := h.suffix
    exact ⟨before, by rw [List.map_append, ← split, List.append_assoc]; rfl⟩
  valued k w' found := by
    have := h.valued k w'
    simp only [latest_concat] at found ⊢
    grind
  queued k mem := by
    have := h.queued k
    grind
  live k mem w' last := by
    have := h.live k
    simp only [latest_concat] at last
    grind
  size := Nat.le_trans Std.ExtTreeMap.size_insert_le room

/-- **Eviction takes the entry recorded longest ago**, if it does not stop at a leftover. What it
leaves of the queue is still long enough for what it leaves of the map. -/
theorem evict (h : Kept capacity ttl stamp t) (pos : 0 < capacity)
    (full : t.cache.map.size ≥ capacity) (once : t.cache.FirstOnce) :
    ∃ key order, makeRoom capacity t.cache.order t.cache.map = (order, t.cache.map.erase key) ∧
      Oldest t.recorded t.cache.map key ∧
      Kept capacity ttl stamp { t with cache := { map := t.cache.map.erase key, order } } ∧
      (t.cache.map.erase key).size < capacity ∧ capacity ≤ order.length + 1 := by
  have full := Nat.le_antisymm h.size full
  obtain ⟨key, stale, order, gone, there, split⟩ := exists_first h.queued (full ▸ pos)
  have alone := once stale key order split gone there
  have behind {k} (mem : k ∈ t.cache.map) : k = key ∨ k ∈ order := by
    have queued := h.queued k mem
    rw [split, List.mem_append, List.mem_cons] at queued
    exact queued.resolve_left fun early => gone k early mem
  have size : (t.cache.map.erase key).size = capacity - 1 := by
    rw [Std.ExtTreeMap.size_erase, if_pos (Std.ExtTreeMap.contains_iff_mem.mpr there), full]
  refine ⟨key, order, ?_, ⟨there, ?_⟩, ?_, by omega, ?_⟩
  · rw [split]
    exact makeRoom_of_full full gone there
  · obtain ⟨older, dropped⟩ := h.suffix
    rw [split, ← List.append_assoc] at dropped
    obtain ⟨before, rest, recorded, -, rest_eq⟩ := List.map_eq_append_iff.mp dropped.symm
    obtain ⟨⟨key', w⟩, after, rfl, rfl, rfl⟩ := List.map_eq_cons_iff.mp rest_eq
    exact ⟨before, w, after, recorded, alone, fun k mem => behind mem⟩
  · refine ⟨?_, ?_, ?_, ?_, Nat.le_trans (Nat.le_of_eq size) (Nat.sub_le _ _)⟩
    · refine List.IsSuffix.trans ?_ h.suffix
      rw [split]
      exact (List.suffix_cons key order).trans (List.suffix_append stale _)
    · intro k w found
      exact h.valued k w (by grind)
    · intro k mem
      have other : k ≠ key := by grind
      exact (behind (Std.ExtTreeMap.mem_of_mem_erase mem)).resolve_left other
    · intro k mem w last
      have other : k ≠ key := fun same => alone (same ▸ mem)
      have queued : k ∈ t.cache.order := by
        rw [split]
        exact List.mem_append_right _ (List.mem_cons_of_mem _ mem)
      exact (h.live k queued w last).imp_left fun there => by grind
  · -- the keys left are all still queued
    have sub : (t.cache.map.erase key).keys ⊆ order := by
      intro k mem
      have mem := Std.ExtTreeMap.mem_keys.mp mem
      have other : k ≠ key := by grind
      exact (behind (Std.ExtTreeMap.mem_of_mem_erase mem)).resolve_left other
    have := (List.subperm_of_subset Std.ExtTreeMap.nodup_keys sub).length_le
    rw [Std.ExtTreeMap.length_keys, size] at this
    omega

end Kept

namespace Retains

variable {t : Trace κ ω}

/-- Every clean call keeps the invariant. -/
theorem call (h : Retains capacity ttl stamp t) (pos : 0 < capacity) {c : Call κ ω}
    (le : t.clock ≤ c.now) (clean : t.cache.CleanEviction capacity c) :
    Retains capacity ttl stamp (t.call capacity ttl stamp c) := by
  have kept := h.toKept.look c.key le
  have long := h.long
  rw [← look_order] at long
  rw [Trace.call]
  cases looked : t.cache.look ttl stamp c.key c.now with
  | mk hit s =>
    rw [looked] at kept long
    cases hit with
    | some w => exact ⟨kept, long⟩
    | none =>
      cases fill : c.fill with
      | none => exact ⟨kept, long⟩
      | some w =>
        simp only [push]
        by_cases room : s.map.size < capacity
        · rw [makeRoom_of_lt room]
          refine ⟨kept.record room c.key w, long.imp (fun all => ?_) fun long => ?_⟩
          · rw [List.map_append, ← all]
            rfl
          · exact Nat.le_trans long (List.length_append ▸ Nat.le_add_right _ _)
        · obtain rfl := look_of_full h.size (Nat.le_of_not_lt room) looked
          have full := Nat.le_of_not_lt room
          obtain ⟨key, order, made, -, kept, room, long⟩ := kept.evict pos full
            (clean (fill ▸ rfl) (not_mem_of_look_eq_none looked) full)
          rw [made]
          refine ⟨kept.record room c.key w, .inr ?_⟩
          rw [List.length_append]
          exact long

/-- **A recent key is recognised**: a key last recorded with `w`, not expired, and with fewer than
`capacity` keys recorded after it, is found, with `w`. -/
theorem recognised (h : Retains capacity ttl stamp t) {before after : List (κ × ω)} {key : κ} {w : ω}
    (recorded : t.recorded = before ++ (key, w) :: after) (last : key ∉ after.map Prod.fst)
    (recent : after.length < capacity) {now : Nat} (le : t.clock ≤ now)
    (fresh : ¬ Expired ttl stamp now w) :
    t.cache.look ttl stamp key now = (some w, t.cache) := by
  have latest_eq : (latest t.recorded)[key]? = some w := recorded ▸ latest_of_last last
  have tail : key :: after.map Prod.fst <:+ t.recorded.map Prod.fst := by
    rw [recorded, List.map_append]
    exact List.suffix_append _ _
  have queued : key ∈ t.cache.order := by
    rcases h.long with all | long
    · exact all ▸ tail.mem List.mem_cons_self
    · refine (List.suffix_of_suffix_length_le tail h.suffix ?_).mem List.mem_cons_self
      rw [List.length_cons, List.length_map]
      omega
  have there := (h.live key queued w latest_eq).resolve_right fun old => fresh (old.mono le)
  obtain ⟨w', found⟩ := Option.isSome_iff_exists.mp (Std.ExtTreeMap.mem_iff_isSome_getElem?.mp there)
  obtain rfl := Option.some.inj (latest_eq.symm.trans (h.valued key w' found))
  exact look_of_fresh found fresh

/-- What a clean eviction evicts. -/
theorem push_of_full (h : Retains capacity ttl stamp t) (pos : 0 < capacity)
    (full : t.cache.map.size ≥ capacity) (once : t.cache.FirstOnce) (key : κ) (w : ω) :
    ∃ oldest, Oldest t.recorded t.cache.map oldest ∧
      (t.cache.push capacity key w).map = (t.cache.map.erase oldest).insert key w := by
  obtain ⟨oldest, order, made, is, -⟩ := h.toKept.evict pos full once
  refine ⟨oldest, is, ?_⟩
  rw [push, made]

/-- **Every run of clean calls keeps the invariant**, if time does not go back. -/
theorem run (pos : 0 < capacity) {t : Trace κ ω} (h : Retains capacity ttl stamp t)
    {calls : List (Call κ ω)} (le : ∀ c ∈ calls, t.clock ≤ c.now)
    (sorted : calls.Pairwise (·.now ≤ ·.now))
    (clean : Run.Along (Trace.call capacity ttl stamp) (fun t c => t.cache.CleanEviction capacity c)
      t calls) :
    Retains capacity ttl stamp (Run.run (Trace.call capacity ttl stamp) t calls) := by
  induction calls generalizing t with
  | nil => exact h
  | cons c calls ih =>
    obtain ⟨first, sorted⟩ := List.pairwise_cons.mp sorted
    refine ih (h.call pos (le c List.mem_cons_self) clean.1) (fun d mem => ?_) sorted clean.2
    rw [clock_call]
    exact first d mem

end Retains

/-! ## Caches over a queue -/

section Over

variable {γ υ : Type} {build : Fifo κ ω → γ} {call : υ → Call κ ω}
  {step : γ × List (κ × ω) → υ → γ × List (κ × ω)}

omit [Std.LawfulEqOrd κ] in
/-- If every use of a cache is a call of the queue under it, so is every run. -/
theorem run_over
    (step_over : ∀ (t : Trace κ ω) u, step (build t.cache, t.recorded) u =
      (build (t.call capacity ttl stamp (call u)).cache, (t.call capacity ttl stamp (call u)).recorded))
    (t : Trace κ ω) (uses : List υ) :
    Run.run step (build t.cache, t.recorded) uses =
      (build (Run.run (Trace.call capacity ttl stamp) t (uses.map call)).cache,
        (Run.run (Trace.call capacity ttl stamp) t (uses.map call)).recorded) := by
  induction uses generalizing t with
  | nil => rfl
  | cons u uses ih => rw [List.map_cons, Run.run_cons, Run.run_cons, step_over, ih]

variable (build) in
/-- And a condition on its uses that keeps evictions clean keeps the invariant of the queue. -/
theorem Retains.run_over
    (step_over : ∀ (t : Trace κ ω) u, step (build t.cache, t.recorded) u =
      (build (t.call capacity ttl stamp (call u)).cache, (t.call capacity ttl stamp (call u)).recorded))
    {C : γ × List (κ × ω) → υ → Prop}
    (clean : ∀ (t : Trace κ ω) u, C (build t.cache, t.recorded) u →
      t.cache.CleanEviction capacity (call u))
    (pos : 0 < capacity) {t : Trace κ ω} (h : Retains capacity ttl stamp t) {uses : List υ}
    (le : ∀ u ∈ uses, t.clock ≤ (call u).now)
    (sorted : uses.Pairwise fun u v => (call u).now ≤ (call v).now)
    (along : Run.Along step C (build t.cache, t.recorded) uses) :
    Retains capacity ttl stamp (Run.run (Trace.call capacity ttl stamp) t (uses.map call)) := by
  refine h.run pos (List.forall_mem_map.mpr le) (List.pairwise_map.mpr sorted) ?_
  clear le sorted h
  induction uses generalizing t with
  | nil => trivial
  | cons u uses ih =>
    obtain ⟨first, along⟩ := along
    rw [step_over] at along
    exact ⟨clean t u first, ih along⟩

end Over

end Lemmas

end Fifo
