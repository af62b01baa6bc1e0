import Mathlib.Data.List.Basic
import Std.Data.ExtTreeMap.Lemmas

/-!
# Maps related key by key

Two ordered maps with the same keys, and with values that stand in a relation under each. What is done
to both under one key keeps them related, and they have the same keys in the same order, and as many.
-/

/-- The maps have the same keys, with related values. -/
def MapRel {κ α β : Type} [Ord κ] [Std.TransOrd κ] (R : α → β → Prop) (m : Std.ExtTreeMap κ α)
    (n : Std.ExtTreeMap κ β) : Prop :=
  ∀ k : κ, Option.Rel R m[k]? n[k]?

namespace MapRel

variable {κ α β : Type} [Ord κ] [Std.TransOrd κ] {R : α → β → Prop}
  {m : Std.ExtTreeMap κ α} {n : Std.ExtTreeMap κ β}

theorem empty : MapRel R (∅ : Std.ExtTreeMap κ α) (∅ : Std.ExtTreeMap κ β) := by
  intro k
  rw [Std.ExtTreeMap.getElem?_empty, Std.ExtTreeMap.getElem?_empty]
  exact .none

/-- A finer relation of the values relates the maps as well. -/
theorem mono {S : α → β → Prop} (h : MapRel R m n) (weaker : ∀ a b, R a b → S a b) :
    MapRel S m n := by
  intro k
  have related := h k
  generalize m[k]? = a at related ⊢
  generalize n[k]? = b at related ⊢
  cases related with
  | none => exact .none
  | some related => exact .some (weaker _ _ related)

/-- Related maps have the same keys. -/
theorem mem_iff (h : MapRel R m n) (k : κ) : k ∈ m ↔ k ∈ n := by
  rw [Std.ExtTreeMap.mem_iff_isSome_getElem?, Std.ExtTreeMap.mem_iff_isSome_getElem?]
  have related := h k
  generalize m[k]? = a at related ⊢
  generalize n[k]? = b at related ⊢
  cases related <;> rfl

/-- A key the left map lacks, the right map lacks. -/
theorem get_none (h : MapRel R m n) {k : κ} (absent : m[k]? = none) : n[k]? = none := by
  have related := h k
  rw [absent] at related
  cases found : n[k]? with
  | none => rfl
  | some b =>
    rw [found] at related
    cases related

/-- A value of the left map has a related one under the same key. -/
theorem get_some (h : MapRel R m n) {k : κ} {a : α} (found : m[k]? = some a) :
    ∃ b, n[k]? = some b ∧ R a b := by
  have related := h k
  rw [found] at related
  cases there : n[k]? with
  | none =>
    rw [there] at related
    cases related
  | some b =>
    rw [there] at related
    cases related with
    | some is => exact ⟨b, rfl, is⟩

/-- Related values may be put under any key on both sides. -/
theorem insert (h : MapRel R m n) {a : α} {b : β} (related : R a b) (k : κ) :
    MapRel R (m.insert k a) (n.insert k b) := by
  intro l
  rw [Std.ExtTreeMap.getElem?_insert, Std.ExtTreeMap.getElem?_insert]
  split
  · exact .some related
  · exact h l

/-- Related maps stay so when both lose one key. -/
theorem erase (h : MapRel R m n) (k : κ) : MapRel R (m.erase k) (n.erase k) := by
  intro l
  rw [Std.ExtTreeMap.getElem?_erase, Std.ExtTreeMap.getElem?_erase]
  split
  · exact .none
  · exact h l

/-- A value changed in place on the left, and written anew on the right. -/
theorem modify (h : MapRel R m n) {k : κ} {a : α} {f : α → α} {b : β} (found : m[k]? = some a)
    (related : R (f a) b) : MapRel R (m.modify k f) (n.insert k b) := by
  intro l
  rw [Std.ExtTreeMap.getElem?_modify, Std.ExtTreeMap.getElem?_insert]
  split
  · next same =>
    rw [found]
    exact .some related
  · exact h l

variable [Std.LawfulEqOrd κ]

/-- Related maps have the same keys, in order. -/
theorem keys_eq (h : MapRel R m n) : m.keys = n.keys := by
  have asymm : ∀ a b : κ, a ∈ m.keys → b ∈ n.keys → compare a b = .lt → compare b a = .lt → a = b := by
    intro a b _ _ lt gt
    rw [Std.OrientedCmp.gt_iff_lt.mpr lt] at gt
    cases gt
  refine List.Perm.eq_of_pairwise asymm m.ordered_keys n.ordered_keys ?_
  rw [List.perm_ext_iff_of_nodup m.nodup_keys n.nodup_keys]
  intro k
  rw [Std.ExtTreeMap.mem_keys, Std.ExtTreeMap.mem_keys, h.mem_iff]

/-- Related maps are of one size. -/
theorem size_eq (h : MapRel R m n) : m.size = n.size := by
  rw [← Std.ExtTreeMap.length_keys, h.keys_eq, Std.ExtTreeMap.length_keys]

end MapRel
