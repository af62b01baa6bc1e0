import CePubsub.Lib.FifoBound

/-!
# How long a map with a queue remembers one key

One key at a time the queue needs no clock: a key is in the map with what was recorded for it, and
queued among the last, no further from the end than the number of keys recorded since (`Recalls`). An
eviction that does not stop at a leftover stops at the key only if all the map is queued behind it, so
the key stays until as many others as the capacity have been recorded (`Recalls.call`).
-/

namespace Fifo

open Std (ExtTreeMap)

variable {κ ω : Type} [Ord κ] [Std.TransOrd κ]

/-- The map holds `w` for the key, which at most `since` keys are queued behind. -/
structure Recalls (s : Fifo κ ω) (key : κ) (w : ω) (since : Nat) : Prop where
  found : s.map[key]? = some w
  place : ∃ tail, tail <:+ s.order ∧ key ∈ tail ∧ tail.length ≤ since + 1

variable {capacity ttl : Nat} {stamp : ω → Nat} {s : Fifo κ ω} {key k : κ} {w v : ω} {since : Nat}

theorem Recalls.mem (h : s.Recalls key w since) : key ∈ s.map := mem_of_getElem? h.found

/-- What was recorded last is remembered. -/
theorem recalls_push [Std.LawfulEqOrd κ] (s : Fifo κ ω) (key : κ) (w : ω) :
    (s.push capacity key w).Recalls key w 0 where
  found := ExtTreeMap.getElem?_insert_self
  place := ⟨[key], List.suffix_append _ _, List.mem_singleton_self key, Nat.le_refl 1⟩

variable [Std.LawfulEqOrd κ]

/-- A lookup of another key, or of this one before it expires, keeps it. -/
theorem Recalls.look (h : s.Recalls key w since) {now : Nat}
    (fresh : k = key → ¬ Expired ttl stamp now w) : (s.look ttl stamp k now).2.Recalls key w since where
  found := by
    cases found : s.map[k]? with
    | none =>
      rw [look_of_absent found]
      exact h.found
    | some v =>
      by_cases expired : Expired ttl stamp now v
      · have other : k ≠ key := by
          rintro rfl
          obtain rfl := Option.some.inj (found.symm.trans h.found)
          exact fresh rfl expired
        rw [look_of_expired found expired]
        exact getElem?_erase_eq_some_iff.mpr ⟨other, h.found⟩
      · rw [look_of_fresh found expired]
        exact h.found
  place := by
    rw [look_order]
    exact h.place

/-- **Recording another key keeps it**, if the eviction does not stop at a leftover and fewer than
`capacity` have been recorded since. -/
theorem Recalls.push (h : s.Recalls key w since) (bounded : s.Bounded capacity) (other : k ≠ key)
    (once : s.map.size ≥ capacity → s.FirstOnce) (recent : since + 1 < capacity) (v : ω) :
    (s.push capacity k v).Recalls key w (since + 1) := by
  obtain ⟨tail, suffix, mem, short⟩ := h.place
  have kept : ∀ {map : ExtTreeMap κ ω}, map[key]? = some w → (map.insert k v)[key]? = some w :=
    fun found => getElem?_insert_eq_some_iff.mpr (.inr ⟨other, found⟩)
  by_cases room : s.map.size < capacity
  · rw [Fifo.push, makeRoom_of_lt room]
    refine ⟨kept h.found, tail ++ [k], List.suffix_append_self_iff.mpr suffix,
      List.mem_append_left _ mem, ?_⟩
    rw [List.length_append, List.length_singleton]
    exact Nat.succ_le_succ short
  · have full := Nat.le_antisymm bounded.size (Nat.le_of_not_lt room)
    obtain ⟨oldest, stale, rest, gone, there, split⟩ :=
      exists_first bounded.queued (full ▸ Nat.zero_lt_of_lt recent)
    have behind : ∀ {j}, j ∈ s.map → j = oldest ∨ j ∈ rest := by
      intro j mem
      have queued := bounded.queued j mem
      rw [split, List.mem_append, List.mem_cons] at queued
      exact queued.resolve_left fun early => gone j early mem
    have cut : tail <:+ rest ∨ oldest :: rest <:+ tail := by
      have first : oldest :: rest <:+ s.order := split ▸ List.suffix_append _ _
      rcases List.suffix_or_suffix_of_suffix suffix first with inside | outside
      · rcases List.suffix_cons_iff.mp inside with same | inside
        · exact .inr (same ▸ List.suffix_refl tail)
        · exact .inl inside
      · exact .inr outside
    have stays : oldest ≠ key := by
      -- or the whole map would be queued from the key on
      rintro rfl
      have alone := once (Nat.le_of_eq full.symm) stale oldest rest split gone there
      have long := (cut.resolve_left fun inside => alone (inside.mem mem)).length_le
      have sub : s.map.keys ⊆ oldest :: rest := fun j mem =>
        List.mem_cons.mpr (behind (ExtTreeMap.mem_keys.mp mem))
      have many := (List.subperm_of_subset ExtTreeMap.nodup_keys sub).length_le
      rw [ExtTreeMap.length_keys, full] at many
      omega
    rw [Fifo.push, split, makeRoom_of_full full gone there]
    refine ⟨kept ?_, ?_⟩
    · exact getElem?_erase_eq_some_iff.mpr ⟨stays, h.found⟩
    · rcases cut with inside | outside
      · refine ⟨tail ++ [k], List.suffix_append_self_iff.mpr inside, List.mem_append_left _ mem, ?_⟩
        rw [List.length_append, List.length_singleton]
        exact Nat.succ_le_succ short
      · have queued := (behind h.mem).resolve_left (Ne.symm stays)
        refine ⟨rest ++ [k], List.suffix_refl _, List.mem_append_left _ queued, ?_⟩
        have shorter := outside.length_le
        rw [List.length_cons] at shorter
        rw [List.length_append, List.length_singleton]
        omega

/-- **A call keeps it**, of another key or of this one before it expires, if it records nothing or
`Recalls.push` keeps it. -/
theorem Recalls.call (h : s.Recalls key w since) (bounded : s.Bounded capacity) {c : Call κ ω}
    (fresh : c.key = key → ¬ Expired ttl stamp c.now w) (clean : s.CleanEviction capacity c)
    (recent : since + (if (s.look ttl stamp c.key c.now).1.isNone then 1 else 0) < capacity) :
    (s.call capacity ttl stamp c).Recalls key w
      (since + if (s.look ttl stamp c.key c.now).1.isNone then 1 else 0) := by
  have looked := h.look fresh
  have still : (s.look ttl stamp c.key c.now).2.Bounded capacity := bounded.look c.key c.now
  rw [Fifo.call]
  cases left : s.look ttl stamp c.key c.now with
  | mk hit s' =>
    rw [left] at looked still recent
    cases hit with
    | some v => exact looked
    | none =>
      simp only [Option.isNone_none, if_true] at recent ⊢
      cases fill : c.fill with
      | none =>
        obtain ⟨tail, suffix, mem, short⟩ := looked.place
        exact ⟨looked.found, tail, suffix, mem, Nat.le_succ_of_le short⟩
      | some v =>
        have absent := not_mem_of_look_eq_none left
        have other : c.key ≠ key := fun same => absent (same.symm ▸ looked.mem)
        refine looked.push still other (fun full => ?_) recent v
        obtain rfl := look_of_full bounded.size full left
        exact clean (fill ▸ rfl) absent full

end Fifo
