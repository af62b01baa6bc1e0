import CePubsub.Lib.FifoRecall

/-!
# Keys recorded once

Calls that all miss and all record, one after another from the empty map, name every key once, or one of
them is a key again whose time was up, or as many calls after it as the map holds (`Again`). No
clock is assumed: a call may come at any time. Leftovers in the queue are of keys recorded again, so
up to the first of these there are none, and an eviction takes the oldest.
-/

namespace Fifo

variable {κ ω : Type} [Ord κ] [Std.TransOrd κ] (capacity ttl : Nat) (stamp : ω → Nat)

/-- A call that misses and records, at its own time. -/
def Records (s : Fifo κ ω) (c : Call κ ω) : Prop :=
  (s.look ttl stamp c.key c.now).1 = none ∧ ∃ w, c.fill = some w ∧ stamp w = c.now

/-- Of the keys recorded, and when, one was recorded again: its time was up, or as many others as the
capacity had been recorded since. -/
def Again {κ : Type} (recorded : List (κ × Nat)) : Prop :=
  ∃ before key time mid time' later,
    recorded = before ++ (key, time) :: (mid ++ (key, time') :: later) ∧
      ((ttl ≠ 0 ∧ time' - time > ttl) ∨ capacity ≤ mid.length)

/-- The key of a call, and when it came. -/
def Call.entry (c : Call κ ω) : κ × Nat := (c.key, c.now)

variable {capacity ttl stamp} {s : Fifo κ ω} {c : Call κ ω}

theorem Again.append {κ : Type} {recorded : List (κ × Nat)} (h : Again capacity ttl recorded)
    (more : List (κ × Nat)) : Again capacity ttl (recorded ++ more) := by
  obtain ⟨before, key, time, mid, time', later, rfl, far⟩ := h
  refine ⟨before, key, time, mid, time', later ++ more, ?_, far⟩
  simp only [List.append_assoc, List.cons_append]

theorem makeRoom_suffix (order : List κ) (map : Std.ExtTreeMap κ ω) :
    (makeRoom capacity order map).1 <:+ order := by
  induction order generalizing map with
  | nil => exact List.suffix_refl _
  | cons oldest order ih =>
    rw [makeRoom]
    split
    · exact (ih _).trans (List.suffix_cons _ _)
    · exact List.suffix_refl _

variable (capacity) in
/-- What a call that misses and records leaves. -/
theorem Records.call (h : Records ttl stamp s c) : ∃ w, stamp w = c.now ∧
    s.call capacity ttl stamp c = (s.look ttl stamp c.key c.now).2.push capacity c.key w := by
  obtain ⟨missed, w, fill, time⟩ := h
  refine ⟨w, time, ?_⟩
  rw [Fifo.call, fill]
  cases left : s.look ttl stamp c.key c.now with
  | mk hit s' =>
    rw [left] at missed
    cases missed
    rfl

/-- The queue is of the keys last recorded. -/
theorem order_call (h : Records ttl stamp s c) :
    (s.call capacity ttl stamp c).order <:+ s.order ++ [c.key] := by
  obtain ⟨w, -, is⟩ := h.call capacity
  rw [is]
  refine List.suffix_append_self_iff.mpr ?_
  rw [← s.look_order c.key c.now]
  exact makeRoom_suffix _ _

theorem order_run {calls : List (Call κ ω)}
    (records : Run.Along (call capacity ttl stamp) (Records ttl stamp) s calls) :
    (Run.run (call capacity ttl stamp) s calls).order <:+ s.order ++ calls.map Call.key := by
  induction calls generalizing s with
  | nil => exact (List.append_nil s.order).symm ▸ List.suffix_refl _
  | cons c calls ih =>
    refine (ih records.2).trans ?_
    rw [List.map_cons, ← List.singleton_append, ← List.append_assoc]
    exact List.suffix_append_self_iff.mpr (order_call records.1)

/-- A queue that names no key twice has no leftovers. -/
theorem firstOnce_of_nodup (once : s.order.Nodup) : s.FirstOnce := by
  intro stale key rest split _ _ again
  rw [split] at once
  exact (List.nodup_cons.mp (List.nodup_append.mp once).2.1).1 again

variable [Std.LawfulEqOrd κ]

theorem bounded_run {calls : List (Call κ ω)} (pos : 0 < capacity) :
    (Run.run (call capacity ttl stamp) ({} : Fifo κ ω) calls).Bounded capacity :=
  Run.run_invariant (fun _ c bounded => bounded.call pos c) (bounded_empty capacity) calls

/-- **A key stays while other keys are recorded**, each once and fewer than the capacity. -/
theorem Recalls.run {key : κ} {w : ω} {since : Nat} (h : s.Recalls key w since)
    (bounded : s.Bounded capacity) {calls : List (Call κ ω)}
    (records : Run.Along (Fifo.call capacity ttl stamp) (Records ttl stamp) s calls)
    (once : (s.order ++ calls.map Call.key).Nodup) (others : key ∉ calls.map Call.key)
    (recent : since + calls.length < capacity) :
    (Run.run (Fifo.call capacity ttl stamp) s calls).Recalls key w (since + calls.length) := by
  induction calls generalizing s since with
  | nil => exact h
  | cons c calls ih =>
    rw [List.map_cons, List.mem_cons, not_or] at others
    rw [List.length_cons] at recent ⊢
    have missed : (s.look ttl stamp c.key c.now).1.isNone = true := by rw [records.1.1]; rfl
    have alone : s.order.Nodup := (List.nodup_append.mp once).1
    have next := h.call bounded
      (fun same => absurd same.symm others.1)
      (fun _ _ _ => firstOnce_of_nodup alone) (by rw [if_pos missed]; omega)
    rw [if_pos missed] at next
    rw [show since + (calls.length + 1) = since + 1 + calls.length by omega]
    refine ih next (bounded.call (Nat.zero_lt_of_lt recent) c) records.2 ?_ others.2 (by omega)
    rw [List.map_cons, ← List.singleton_append, ← List.append_assoc] at once
    exact once.sublist ((List.IsSuffix.sublist (order_call records.1)).append (List.Sublist.refl _))

/-- **Every key is recorded once, or again** when its time was up or after as many others as the
capacity. -/
theorem once_or_again (pos : 0 < capacity) {calls : List (Call κ ω)}
    (records : Run.Along (call capacity ttl stamp) (Records ttl stamp) ({} : Fifo κ ω) calls) :
    (calls.map Call.key).Nodup ∨ Again capacity ttl (calls.map Call.entry) := by
  induction calls using List.reverseRecOn with
  | nil => exact .inl List.nodup_nil
  | append_singleton calls c' ih =>
    obtain ⟨records, missed, -⟩ := Run.along_concat.mp records
    rcases ih records with once | again
    · by_cases mem : c'.key ∈ calls.map Call.key
      · refine .inr ?_
        obtain ⟨c, inside, same⟩ := List.mem_map.mp mem
        obtain ⟨before, mid, rfl⟩ := List.append_of_mem inside
        refine ⟨before.map Call.entry, c.key, c.now, mid.map Call.entry, c'.now, [], ?_, ?_⟩
        · simp only [List.map_append, List.map_cons, List.map_nil, List.append_assoc, List.cons_append,
            Call.entry, same]
        rw [List.length_map]
        by_contra far
        obtain ⟨early, near⟩ := not_or.mp far
        -- or else the key is still there
        obtain ⟨along, record, after⟩ := Run.along_append.mp records
        obtain ⟨w, time, left⟩ := record.call capacity
        have recalls : ((Run.run (call capacity ttl stamp) {} before).call capacity ttl stamp c).Recalls
            c.key w 0 := left ▸ recalls_push _ _ _
        have queue := order_run (Run.along_concat.mpr ⟨along, record⟩)
        rw [Run.run_concat] at queue
        rw [List.map_append, List.map_cons] at once
        have still := recalls.run ((bounded_run pos).call pos c) after
          (once.sublist (by
            rw [← List.singleton_append, ← List.append_assoc]
            refine (queue.sublist.trans ?_).append (List.Sublist.refl _)
            rw [List.map_append, show ({} : Fifo κ ω).order = [] from rfl, List.nil_append]
            exact List.Sublist.refl _))
          (List.nodup_cons.mp (List.nodup_append.mp once).2.1).1 (by omega)
        rw [Run.run_append, Run.run_cons, look_of_fresh (same ▸ still.found)] at missed
        · cases missed
        · rintro ⟨limited, old⟩
          rw [time] at old
          exact early ⟨limited, old⟩
      · refine .inl ?_
        rw [List.map_append, List.nodup_append]
        refine ⟨once, List.nodup_singleton _, fun k there k' last same => ?_⟩
        rw [same, List.mem_singleton.mp last] at there
        exact mem there
    · have longer := again.append [c'.entry]
      rw [← List.map_singleton, ← List.map_append] at longer
      exact .inr longer

end Fifo
