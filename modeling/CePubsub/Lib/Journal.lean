import Mathlib.Data.List.Basic

/-!
# An append-only journal with a retention floor

A journal over entries `α` keeps every entry ever appended, in order, and a floor: the number of
entries at the front that retention has let go. Positions count from one, so the entry at position
`c` is the `c`th ever appended, whatever has been pruned since. Nothing is ever moved: an append
adds one position at the end and a prune raises the floor, never past the end.

What a reader can see is what the floor leaves: `retained`, one entry by position (`get`), and the
tail after a position (`since`). `Before` orders journals in time, and `Before.get_eq` says what
that order promises a reader: a position, once filled, answers its own entry until it is pruned and
nothing after that.
-/

/-- Every entry ever appended, and how many of them retention has let go. -/
structure Journal (α : Type*) where
  entries : List α
  floor : Nat
  floor_le : floor ≤ entries.length

namespace Journal

variable {α : Type*}

/-- The journal nothing was appended to. -/
def empty : Journal α := ⟨[], 0, Nat.le_refl 0⟩

/-- The last position filled, pruned or not. -/
def high (j : Journal α) : Nat := j.entries.length

/-- Append one entry, at the next position. -/
def append (j : Journal α) (a : α) : Journal α :=
  ⟨j.entries ++ [a], j.floor, by
    rw [List.length_append]; exact Nat.le_add_right_of_le j.floor_le⟩

/-- Let go of every position up to `upTo`, as far as positions are filled. -/
def prune (j : Journal α) (upTo : Nat) : Journal α :=
  ⟨j.entries, max j.floor (min upTo j.entries.length),
    Nat.max_le.mpr ⟨j.floor_le, Nat.min_le_right _ _⟩⟩

/-- The entries a reader still sees. -/
def retained (j : Journal α) : List α := j.entries.drop j.floor

/-- The entry at one position, while it is retained. -/
def get (j : Journal α) (c : Nat) : Option α :=
  if j.floor < c then j.entries[c - 1]? else none

/-- The retained entries after one position. -/
def since (j : Journal α) (after : Nat) : List α := j.entries.drop (max after j.floor)

@[simp] theorem entries_empty : (empty : Journal α).entries = [] := rfl
@[simp] theorem floor_empty : (empty : Journal α).floor = 0 := rfl

@[simp] theorem entries_append (j : Journal α) (a : α) :
    (j.append a).entries = j.entries ++ [a] := rfl

@[simp] theorem floor_append (j : Journal α) (a : α) : (j.append a).floor = j.floor := rfl

@[simp] theorem entries_prune (j : Journal α) (upTo : Nat) :
    (j.prune upTo).entries = j.entries := rfl

@[simp] theorem floor_prune (j : Journal α) (upTo : Nat) :
    (j.prune upTo).floor = max j.floor (min upTo j.entries.length) := rfl

/-- An append fills the next position, and it is retained. -/
theorem get_append_self (j : Journal α) (a : α) :
    (j.append a).get (j.entries.length + 1) = some a := by
  have above : j.floor < j.entries.length + 1 := Nat.lt_succ_of_le j.floor_le
  simp only [get, floor_append, entries_append, if_pos above, Nat.add_sub_cancel,
    List.getElem?_concat_length]

/-- One journal is a later one's past: the entries are a prefix and the floor has not come down. -/
def Before (j k : Journal α) : Prop := j.entries <+: k.entries ∧ j.floor ≤ k.floor

theorem Before.refl (j : Journal α) : j.Before j := ⟨List.prefix_refl _, Nat.le_refl _⟩

/-- A journal before one is before all that come after it. -/
theorem Before.trans {j k l : Journal α} (h : j.Before k) (h' : k.Before l) : j.Before l :=
  ⟨h.1.trans h'.1, Nat.le_trans h.2 h'.2⟩

/-- An append only adds. -/
theorem before_append (j : Journal α) (a : α) : j.Before (j.append a) :=
  ⟨List.prefix_append _ _, Nat.le_refl _⟩

/-- A prune only raises the floor. -/
theorem before_prune (j : Journal α) (upTo : Nat) : j.Before (j.prune upTo) :=
  ⟨List.prefix_refl _, Nat.le_max_left _ _⟩

/-- **A position is never reused**: what it once answered it answers later, until it is pruned. -/
theorem Before.get_eq {j k : Journal α} (h : j.Before k) {c : Nat} {a : α}
    (found : j.get c = some a) : k.get c = if k.floor < c then some a else none := by
  unfold get at found ⊢
  split at found
  · obtain ⟨rest, hrest⟩ := h.1
    split
    · rw [← hrest, List.getElem?_append_left (List.getElem?_eq_some_iff.mp found).1, found]
    · rfl
  · exact absurd found (by simp only [reduceCtorEq, not_false_eq_true])

/-! ## Numbered entries

A journal of entries that carry their own position can answer `since` by looking at the positions,
which is what a list of records filtered by position does. -/

/-- The entries carry consecutive positions, the first of them `k + 1`. -/
def Numbered (pos : α → Nat) : Nat → List α → Prop
  | _, [] => True
  | k, a :: l => pos a = k + 1 ∧ Numbered pos (k + 1) l

variable {pos : α → Nat}

/-- A numbered list is numbered in its parts. -/
theorem numbered_append {k : Nat} {l l' : List α} :
    Numbered pos k (l ++ l') ↔ Numbered pos k l ∧ Numbered pos (k + l.length) l' := by
  induction l generalizing k with
  | nil => simp only [List.nil_append, Numbered, List.length_nil, Nat.add_zero, true_and]
  | cons a l ih =>
    simp only [List.cons_append, Numbered, ih, List.length_cons, and_assoc, Nat.add_right_comm k,
      Nat.add_assoc]

/-- What is left of a numbered list is numbered on. -/
theorem Numbered.drop {k : Nat} {l : List α} (h : Numbered pos k l) (n : Nat) :
    Numbered pos (k + n) (l.drop n) := by
  induction l generalizing k n with
  | nil => rw [List.drop_nil]; trivial
  | cons a l ih =>
    cases n with
    | zero => exact h
    | succ n =>
      rw [List.drop_succ_cons, show k + (n + 1) = k + 1 + n by omega]
      exact ih h.2 n

/-- The number of an element is its place. -/
theorem Numbered.getElem? {k i : Nat} {l : List α} {a : α} (h : Numbered pos k l)
    (found : l[i]? = some a) : pos a = k + i + 1 := by
  induction l generalizing k i with
  | nil => simp only [List.getElem?_nil, reduceCtorEq] at found
  | cons b l ih =>
    cases i with
    | zero =>
      simp only [List.getElem?_cons_zero, Option.some.injEq] at found
      exact found ▸ h.1
    | succ i =>
      rw [List.getElem?_cons_succ] at found
      rw [ih h.2 found]
      omega

/-- One entry has a position. -/
theorem Numbered.eq_of_pos {k : Nat} {l : List α} {a b : α} (h : Numbered pos k l) (mem : a ∈ l)
    (mem' : b ∈ l) (same : pos b = pos a) : b = a := by
  obtain ⟨i, found⟩ := List.mem_iff_getElem?.mp mem
  obtain ⟨j, found'⟩ := List.mem_iff_getElem?.mp mem'
  have at_ := h.getElem? found
  have at' := h.getElem? found'
  obtain rfl : i = j := by omega
  exact Option.some.inj (found'.symm.trans found)

/-- Filtering numbered entries by position drops a prefix. -/
theorem Numbered.filter_above {k u : Nat} {l : List α} (h : Numbered pos k l) :
    l.filter (fun a => decide (pos a > u)) = l.drop (u - k) := by
  induction l generalizing k with
  | nil => rw [List.drop_nil]; rfl
  | cons a l ih =>
    obtain ⟨ha, hl⟩ := h
    by_cases above : u ≤ k
    · have keep : decide (pos a > u) = true := by rw [ha, decide_eq_true_iff]; omega
      rw [List.filter_cons_of_pos (p := fun a => decide (pos a > u)) keep, ih hl]
      simp only [Nat.sub_eq_zero_of_le above, Nat.sub_eq_zero_of_le (Nat.le_succ_of_le above),
        List.drop_zero]
    · have lose : ¬ decide (pos a > u) = true := by rw [ha, decide_eq_true_iff]; omega
      rw [List.filter_cons_of_neg (p := fun a => decide (pos a > u)) lose, ih hl,
        show u - k = (u - (k + 1)) + 1 by omega, List.drop_succ_cons]

end Journal
