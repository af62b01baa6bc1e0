import CePubsub.Lib.FifoBound
import Mathlib.Data.Set.Operations

/-!
# One map with a queue under other names

Two caches are one if what is in the one is in the other under another name, and their queues are one
queue (`Mirrors`). The names of two keys that occur must differ, and a value must carry its time over;
then lookups find the same, evictions take the same, and the two stay one through every call
(`Mirrors.look`, `Mirrors.call`). Nothing is asked of the times.
-/

namespace Fifo

open Std (ExtTreeMap)

variable {κ ω κ' ω' : Type} [Ord κ] [Std.TransOrd κ] [Ord κ'] [Std.TransOrd κ'] {name : κ → κ'}
  {value : ω → ω'}

variable (name value) in
/-- What is in the one map is in the other, renamed, and nothing else is. -/
def Renamed (m : ExtTreeMap κ ω) (m' : ExtTreeMap κ' ω') : Prop :=
  ∀ k' v', m'[k']? = some v' ↔ ∃ k v, name k = k' ∧ value v = v' ∧ m[k]? = some v

variable (name value) in
/-- The caches are one, and their keys are among `keys`. -/
structure Mirrors (keys : Set κ) (s : Fifo κ ω) (s' : Fifo κ' ω') : Prop where
  entries : Renamed name value s.map s'.map
  order : s'.order = s.order.map name
  within : ∀ k ∈ s.map, k ∈ keys
  queued : ∀ k ∈ s.order, k ∈ keys

theorem mirrors_empty (keys : Set κ) : Mirrors name value keys {} {} where
  entries k' v' := by
    refine iff_of_false (by rintro ⟨⟩) ?_
    rintro ⟨_, _, -, -, ⟨⟩⟩
  order := rfl
  within k mem := absurd mem ExtTreeMap.not_mem_empty
  queued k mem := absurd mem List.not_mem_nil

/-! ## The maps -/

section Map

variable {keys : Set κ} (inj : Set.InjOn name keys) {m : ExtTreeMap κ ω} {m' : ExtTreeMap κ' ω'}
  (within : ∀ k ∈ m, k ∈ keys)

include inj within

/-- The renamed map answers with the renamed value. -/
theorem Renamed.getElem? (h : Renamed name value m m') {k : κ} (key : k ∈ keys) :
    m'[name k]? = m[k]?.map value := by
  cases found : m[k]? with
  | some v => exact (h _ _).mpr ⟨k, v, rfl, rfl, found⟩
  | none =>
    rw [Option.map_none, Option.eq_none_iff_forall_ne_some]
    intro v' there
    obtain ⟨j, v, same, -, elsewhere⟩ := (h _ _).mp there
    obtain rfl := inj (within j (mem_of_getElem? elsewhere)) key same
    cases found.symm.trans elsewhere

/-- A key is there under its name exactly when it is there. -/
theorem Renamed.mem_iff (h : Renamed name value m m') {k : κ} (key : k ∈ keys) :
    name k ∈ m' ↔ k ∈ m := by
  rw [ExtTreeMap.mem_iff_isSome_getElem?, ExtTreeMap.mem_iff_isSome_getElem?,
    h.getElem? inj within key, Option.isSome_map]

variable [Std.LawfulEqOrd κ] [Std.LawfulEqOrd κ']

/-- Both maps may lose one key. -/
theorem Renamed.erase (h : Renamed name value m m') {k : κ} (key : k ∈ keys) :
    Renamed name value (m.erase k) (m'.erase (name k)) := by
  intro k' v'
  rw [getElem?_erase_eq_some_iff, h]
  constructor
  · rintro ⟨other, j, v, rfl, rfl, found⟩
    exact ⟨j, v, rfl, rfl, getElem?_erase_eq_some_iff.mpr ⟨fun same => other (congrArg name same), found⟩⟩
  · rintro ⟨j, v, rfl, rfl, left⟩
    obtain ⟨other, found⟩ := getElem?_erase_eq_some_iff.mp left
    exact ⟨fun same => other (inj key (within j (mem_of_getElem? found)) same), j, v, rfl, rfl, found⟩

/-- Both maps may take one value. -/
theorem Renamed.insert (h : Renamed name value m m') {k : κ} (key : k ∈ keys) (w : ω) :
    Renamed name value (m.insert k w) (m'.insert (name k) (value w)) := by
  intro k' v'
  rw [getElem?_insert_eq_some_iff, h]
  constructor
  · rintro (⟨rfl, rfl⟩ | ⟨other, j, v, rfl, rfl, found⟩)
    · exact ⟨k, w, rfl, rfl, ExtTreeMap.getElem?_insert_self⟩
    · refine ⟨j, v, rfl, rfl, getElem?_insert_eq_some_iff.mpr (.inr ⟨fun same => ?_, found⟩)⟩
      exact other (congrArg name same)
  · rintro ⟨j, v, rfl, rfl, there⟩
    rcases getElem?_insert_eq_some_iff.mp there with ⟨rfl, rfl⟩ | ⟨other, found⟩
    · exact .inl ⟨rfl, rfl⟩
    · refine .inr ⟨fun same => other ?_, j, v, rfl, rfl, found⟩
      exact inj key (within j (mem_of_getElem? found)) same

/-- Renamed maps are of one size. -/
theorem Renamed.size_eq (h : Renamed name value m m') : m'.size = m.size := by
  have nodup : (m.keys.map name).Nodup :=
    ExtTreeMap.nodup_keys.map_on fun j mem k mem' same =>
      inj (within j (ExtTreeMap.mem_keys.mp mem)) (within k (ExtTreeMap.mem_keys.mp mem')) same
  have perm : m'.keys.Perm (m.keys.map name) := by
    refine (List.perm_ext_iff_of_nodup ExtTreeMap.nodup_keys nodup).mpr fun k' => ?_
    rw [ExtTreeMap.mem_keys, List.mem_map]
    constructor
    · intro mem
      obtain ⟨v', there⟩ := Option.isSome_iff_exists.mp (ExtTreeMap.mem_iff_isSome_getElem?.mp mem)
      obtain ⟨k, v, same, -, found⟩ := (h k' v').mp there
      exact ⟨k, ExtTreeMap.mem_keys.mpr (mem_of_getElem? found), same⟩
    · rintro ⟨k, mem, rfl⟩
      have there := ExtTreeMap.mem_keys.mp mem
      exact (h.mem_iff inj within (within k there)).mpr there
  rw [← ExtTreeMap.length_keys, ← ExtTreeMap.length_keys, perm.length_eq, List.length_map]

end Map

/-! ## The caches -/

/-- A push makes room and queues its key last. -/
theorem push_order (capacity : Nat) (s : Fifo κ ω) (k : κ) (w : ω) :
    (s.push capacity k w).order = (makeRoom capacity s.order s.map).1 ++ [k] := rfl

section Cache

variable [Std.LawfulEqOrd κ] [Std.LawfulEqOrd κ'] {keys : Set κ} (inj : Set.InjOn name keys)
  {s : Fifo κ ω} {s' : Fifo κ' ω'} {capacity ttl : Nat} {stamp : ω → Nat} {stamp' : ω' → Nat}

include inj

variable (capacity) in
/-- The two queues are popped together. -/
theorem Mirrors.makeRoom {order : List κ} {m : ExtTreeMap κ ω} {m' : ExtTreeMap κ' ω'}
    (h : Mirrors name value keys { map := m, order } { map := m', order := order.map name }) :
    Mirrors name value keys
      { map := (makeRoom capacity order m).2, order := (makeRoom capacity order m).1 }
      { map := (Fifo.makeRoom capacity (order.map name) m').2
        order := (Fifo.makeRoom capacity (order.map name) m').1 } := by
  induction order generalizing m m' with
  | nil => exact h
  | cons oldest order ih =>
    have size : m'.size = m.size := h.entries.size_eq inj h.within
    have key : oldest ∈ keys := h.queued oldest List.mem_cons_self
    simp only [Fifo.makeRoom, List.map_cons, size]
    split
    · refine ih ⟨h.entries.erase inj h.within key, rfl, fun k mem => ?_, fun k mem => ?_⟩
      · exact h.within k (ExtTreeMap.mem_of_mem_erase mem)
      · exact h.queued k (List.mem_cons_of_mem _ mem)
    · exact h

/-- A push of a key, and of its name, keeps the two caches in step. -/
theorem Mirrors.push (h : Mirrors name value keys s s') {k : κ} (key : k ∈ keys) (w : ω) :
    Mirrors name value keys (s.push capacity k w) (s'.push capacity (name k) (value w)) := by
  have room := Mirrors.makeRoom inj capacity
    (show Mirrors name value keys { map := s.map, order := s.order }
      { map := s'.map, order := s.order.map name } from h.order ▸ h)
  rw [← h.order] at room
  refine ⟨room.entries.insert inj room.within key w, ?_, fun j mem => ?_, fun j mem => ?_⟩
  · have popped : (Fifo.makeRoom capacity s'.order s'.map).1 =
        (Fifo.makeRoom capacity s.order s.map).1.map name := room.order
    rw [push_order, push_order, popped, List.map_append]
    rfl
  · rcases ExtTreeMap.mem_insert.mp mem with same | before
    · exact Std.compare_eq_iff_eq.mp same ▸ key
    · exact room.within j before
  · rcases List.mem_append.mp mem with before | last
    · exact room.queued j before
    · exact List.mem_singleton.mp last ▸ key

variable (carries : ∀ w, stamp' (value w) = stamp w)

include carries

variable (ttl) in
/-- **A lookup finds the same in both**, and drops the same. -/
theorem Mirrors.look (h : Mirrors name value keys s s') {k : κ} (key : k ∈ keys) (now : Nat) :
    (s'.look ttl stamp' (name k) now).1 = (s.look ttl stamp k now).1.map value ∧
      Mirrors name value keys (s.look ttl stamp k now).2 (s'.look ttl stamp' (name k) now).2 := by
  have there := h.entries.getElem? inj h.within key
  cases found : s.map[k]? with
  | none =>
    rw [found] at there
    rw [look_of_absent found, look_of_absent there]
    exact ⟨rfl, h⟩
  | some w =>
    rw [found] at there
    have same : Expired ttl stamp' now (value w) ↔ Expired ttl stamp now w := by
      rw [Expired, Expired, carries]
    by_cases expired : Expired ttl stamp now w
    · rw [look_of_expired found expired, look_of_expired there (same.mpr expired)]
      refine ⟨rfl, h.entries.erase inj h.within key, h.order, fun j mem => ?_, h.queued⟩
      exact h.within j (ExtTreeMap.mem_of_mem_erase mem)
    · rw [look_of_fresh found expired, look_of_fresh there (mt same.mp expired)]
      exact ⟨rfl, h⟩

/-- **A call keeps the two caches one.** -/
theorem Mirrors.call (h : Mirrors name value keys s s') (c : Call κ ω) (key : c.key ∈ keys) :
    Mirrors name value keys (s.call capacity ttl stamp c)
      (s'.call capacity ttl stamp' ⟨name c.key, c.now, c.fill.map value⟩) := by
  obtain ⟨hit, after⟩ := h.look inj ttl carries key c.now
  rw [Fifo.call, Fifo.call]
  revert hit after
  cases s.look ttl stamp c.key c.now with
  | mk found t =>
    cases s'.look ttl stamp' (name c.key) c.now with
    | mk found' t' =>
      rintro rfl after
      cases found with
      | some w => exact after
      | none =>
        cases c.fill with
        | none => exact after
        | some w => exact after.push inj key w

end Cache

end Fifo
