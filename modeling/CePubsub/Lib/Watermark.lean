import Mathlib.Data.List.Range
import Mathlib.Data.List.Perm.Subperm
import Mathlib.Order.Bounds.Basic

/-!
# A low-water mark over a set of naturals

A consumer of a numbered sequence handles its elements in any order and reports one number: the
mark below which everything is handled. `IsMark H k` says it of a set `H` of handled numbers: `k` is
the greatest such that `1, …, k` all lie in `H`. `isMark_iff` is the form proofs use: everything up
to `k` is handled and `k + 1` is not.

Code that maintains a mark keeps the handled numbers above it aside and, after a change, walks up
while the next number is handled. `climb` is that walk, bounded by fuel. Its three laws say where it
ends: no lower than it began, only over numbers that satisfy the predicate, and, when the fuel
covers a list of everything that does, before a number that does not (`climb_stops`, a pigeonhole).
-/

namespace Watermark

/-- The greatest `k` with `1, …, k` all in `H`. -/
def IsMark (H : Set Nat) (k : Nat) : Prop := IsGreatest {k | ∀ c, 1 ≤ c → c ≤ k → c ∈ H} k

/-- The mark is where the handled numbers first have a gap. -/
theorem isMark_iff {H : Set Nat} {k : Nat} :
    IsMark H k ↔ (∀ c, 1 ≤ c → c ≤ k → c ∈ H) ∧ k + 1 ∉ H := by
  constructor
  · rintro ⟨below, greatest⟩
    refine ⟨below, fun next => ?_⟩
    have : k + 1 ≤ k := greatest fun c pos le => by
      rcases Nat.lt_or_eq_of_le le with lt | rfl
      · exact below c pos (Nat.le_of_lt_succ lt)
      · exact next
    omega
  · rintro ⟨below, gap⟩
    refine ⟨below, fun j hj => ?_⟩
    by_contra above
    exact gap (hj (k + 1) (Nat.le_add_left 1 k) (by omega))

/-- Handling more never lowers the mark. -/
theorem IsMark.mono {H H' : Set Nat} {k k' : Nat} (h : IsMark H k) (h' : IsMark H' k')
    (sub : H ⊆ H') : k ≤ k' :=
  h'.2 fun c pos le => sub (h.1 c pos le)

/-- Walk up from `k` while the next number satisfies `p`, at most `fuel` steps. -/
def climb (p : Nat → Prop) [DecidablePred p] : Nat → Nat → Nat
  | 0, k => k
  | fuel + 1, k => if p (k + 1) then climb p fuel (k + 1) else k

variable {p : Nat → Prop} [DecidablePred p]

theorem le_climb (fuel k : Nat) : k ≤ climb p fuel k := by
  induction fuel generalizing k with
  | zero => exact Nat.le_refl k
  | succ fuel ih =>
    rw [climb]
    split
    · exact Nat.le_trans (Nat.le_succ k) (ih (k + 1))
    · exact Nat.le_refl k

/-- A walk looks only above where it starts. -/
theorem climb_congr {q : Nat → Prop} [DecidablePred q] {fuel k : Nat}
    (same : ∀ c, k < c → (p c ↔ q c)) : climb p fuel k = climb q fuel k := by
  induction fuel generalizing k with
  | zero => rfl
  | succ fuel ih =>
    rw [climb, climb, ih fun c above => same c (by omega)]
    by_cases next : p (k + 1)
    · rw [if_pos next, if_pos ((same _ (Nat.lt_succ_self k)).mp next)]
    · rw [if_neg next, if_neg fun h => next ((same _ (Nat.lt_succ_self k)).mpr h)]

/-- Everything walked over satisfies the predicate. -/
theorem of_le_climb {fuel k c : Nat} (above : k < c) (le : c ≤ climb p fuel k) : p c := by
  induction fuel generalizing k with
  | zero => rw [climb] at le; omega
  | succ fuel ih =>
    rw [climb] at le
    split at le
    · next next =>
      rcases Nat.lt_or_eq_of_le (Nat.succ_le_of_lt above) with lt | rfl
      · exact ih lt le
      · exact next
    · omega

/-- A walk that has not stopped has used all its fuel. -/
theorem climb_eq_of_next {fuel k : Nat} (next : p (climb p fuel k + 1)) :
    climb p fuel k = k + fuel := by
  induction fuel generalizing k with
  | zero => rfl
  | succ fuel ih =>
    rw [climb] at next ⊢
    split
    · next h =>
      rw [if_pos h] at next
      rw [ih next]
      omega
    · next h =>
      rw [if_neg h] at next
      exact absurd next h

/-- **The walk stops**: with fuel for every number on a list of those that satisfy the predicate,
it ends before one that does not. Otherwise it walked over more numbers than the list holds. -/
theorem climb_stops {fuel k : Nat} {l : List Nat} (covers : ∀ c, k < c → p c → c ∈ l)
    (enough : l.length ≤ fuel) : ¬ p (climb p fuel k + 1) := by
  intro next
  have all := climb_eq_of_next next
  have sub : List.range' (k + 1) (fuel + 1) ⊆ l := by
    intro c hc
    obtain ⟨lo, hi⟩ := List.mem_range'_1.mp hc
    refine covers c (by omega) ?_
    by_cases last : c = climb p fuel k + 1
    · exact last ▸ next
    · exact of_le_climb (by omega) (show c ≤ climb p fuel k by omega)
  have := (List.subperm_of_subset List.nodup_range' sub).length_le
  rw [List.length_range'] at this
  omega

end Watermark
