import Mathlib.Data.Set.Insert
import Mathlib.Order.Lattice
import Mathlib.Logic.Function.Basic

/-!
# A queue whose items are lent out

A queue lends its items until a time and takes them back, from the borrower or by the clock, until
each is settled. What is known of an item is three things: whether it is settled, until when it is lent
if it is, and how often it has been lent. There is no front and no order of arrival; whoever takes
items out names the candidates.

`taken` is what one call takes: of the candidates that are free, the first that are not spent, up to
a limit; `givenUp` is the spent ones it meets on its way. A settled item is not to be had
(`not_mem_offered_of_settled`), and no operation takes one back; a lent one is not to be had before its
time (`Held.le_of_offered`), unless it is taken back.
-/

/-- The items of a queue: which are settled, and until when and how often each was lent. -/
structure LeaseQueue (ι τ : Type*) where
  settled : Set ι
  leasedUntil : ι → Option τ
  lent : ι → ℕ

namespace LeaseQueue

variable {ι τ : Type*}

/-- The queue nothing was done to. -/
def new : LeaseQueue ι τ := ⟨∅, fun _ => none, fun _ => 0⟩

/-- Nothing is left to do for these items. -/
def settle (q : LeaseQueue ι τ) (items : Set ι) : LeaseQueue ι τ :=
  { q with settled := q.settled ∪ items }

/-- Take an item back at once. -/
def release [DecidableEq ι] (q : LeaseQueue ι τ) (item : ι) : LeaseQueue ι τ :=
  { q with leasedUntil := Function.update q.leasedUntil item none }

/-- Lend these items. -/
def lend [DecidableEq ι] (q : LeaseQueue ι τ) (items : List ι) (expiry : τ) : LeaseQueue ι τ :=
  { q with
    leasedUntil := fun item => if item ∈ items then some expiry else q.leasedUntil item
    lent := fun item => if item ∈ items then q.lent item + 1 else q.lent item }

section Frames

variable (q : LeaseQueue ι τ)

@[simp] theorem settled_settle (items : Set ι) : (q.settle items).settled = q.settled ∪ items := rfl

@[simp] theorem settle_empty : q.settle ∅ = q := by
  rw [settle, Set.union_empty]

@[simp] theorem leasedUntil_settle (items : Set ι) :
    (q.settle items).leasedUntil = q.leasedUntil := rfl

@[simp] theorem lent_settle (items : Set ι) : (q.settle items).lent = q.lent := rfl

variable [DecidableEq ι]

@[simp] theorem settled_release (item : ι) : (q.release item).settled = q.settled := rfl

@[simp] theorem lent_release (item : ι) : (q.release item).lent = q.lent := rfl

@[simp] theorem leasedUntil_release_self (item : ι) : (q.release item).leasedUntil item = none := by
  simp only [release, Function.update_self]

/-- A release leaves every other lease alone. -/
theorem leasedUntil_release_of_ne {item other : ι} (ne : other ≠ item) :
    (q.release item).leasedUntil other = q.leasedUntil other := by
  simp only [release, Function.update_of_ne ne]

@[simp] theorem settled_lend (items : List ι) (expiry : τ) :
    (q.lend items expiry).settled = q.settled := rfl

@[simp] theorem lend_nil (expiry : τ) : q.lend [] expiry = q := by
  simp only [lend, List.not_mem_nil, if_false]

/-- A lend leases exactly its items, all to the one expiry. -/
theorem leasedUntil_lend (items : List ι) (expiry : τ) (item : ι) :
    (q.lend items expiry).leasedUntil item =
      if item ∈ items then some expiry else q.leasedUntil item := rfl

/-- A lend counts one delivery more of each of its items. -/
theorem lent_lend (items : List ι) (expiry : τ) (item : ι) :
    (q.lend items expiry).lent item = if item ∈ items then q.lent item + 1 else q.lent item := rfl

end Frames

section Taking

variable [LE τ] (q : LeaseQueue ι τ)

/-- An item to be had: not settled, and back if it was lent. -/
def Free (now : τ) (item : ι) : Prop :=
  item ∉ q.settled ∧ ∀ expiry, q.leasedUntil item = some expiry → expiry ≤ now

open Classical in
/-- The candidates to be had. -/
noncomputable def offered (now : τ) (candidates : List ι) : List ι :=
  candidates.filter fun item => q.Free now item

open Classical in
/-- What one call takes: the first candidates to be had that are not spent. -/
noncomputable def taken (now : τ) (candidates : List ι) (spent : ι → Prop) (limit : ℕ) : List ι :=
  ((q.offered now candidates).filter fun item => ¬ spent item).take limit

open Classical in
/-- What it gives up: the spent candidates to be had before which it has not taken enough. -/
noncomputable def givenUp [LinearOrder ι] (now : τ) (candidates : List ι) (spent : ι → Prop) (limit : ℕ) :
    List ι :=
  (q.offered now candidates).filter fun item =>
    spent item ∧
      ((q.offered now candidates).filter fun other => ¬ spent other ∧ other < item).length < limit

variable {q} {now : τ} {candidates : List ι} {spent : ι → Prop} {limit : ℕ} {item : ι}

/-- The offer is what the candidates hold free. -/
theorem mem_offered : item ∈ q.offered now candidates ↔ item ∈ candidates ∧ q.Free now item := by
  simp only [offered, List.mem_filter, decide_eq_true_iff]

/-- Only offered items are taken. -/
theorem offered_of_mem_taken (mem : item ∈ q.taken now candidates spent limit) :
    item ∈ q.offered now candidates :=
  (List.mem_filter.mp (List.mem_of_mem_take mem)).1

/-- An item whose attempts are spent is not taken again. -/
theorem not_spent_of_mem_taken (mem : item ∈ q.taken now candidates spent limit) :
    ¬ spent item := by
  simpa only [decide_eq_true_iff] using (List.mem_filter.mp (List.mem_of_mem_take mem)).2

/-- Only items whose attempts are spent are given up. -/
theorem spent_of_mem_givenUp [LinearOrder ι] (mem : item ∈ q.givenUp now candidates spent limit) :
    spent item := by
  have met := (List.mem_filter.mp mem).2
  simp only [decide_eq_true_iff] at met
  exact met.1

/-- A settled item is never offered. -/
theorem not_mem_offered_of_settled (settled : item ∈ q.settled) : item ∉ q.offered now candidates :=
  fun mem => (mem_offered.mp mem).2.1 settled

end Taking

/-! ## Held back

An item that is settled, or lent until a time at least, is not to be had before it; and it stays so,
whatever else is lent, settled or taken back. -/

section Held

variable [Preorder τ]

/-- The item is not to be had before a time. -/
def Held (q : LeaseQueue ι τ) (item : ι) (expiry : τ) : Prop :=
  item ∈ q.settled ∨ ∃ e, q.leasedUntil item = some e ∧ expiry ≤ e

variable {q : LeaseQueue ι τ} {now expiry : τ} {candidates : List ι} {item : ι}

/-- A held item is offered only once its lease has lapsed. -/
theorem Held.le_of_offered (h : q.Held item expiry) (mem : item ∈ q.offered now candidates) :
    expiry ≤ now := by
  obtain ⟨-, unsettled, back⟩ := mem_offered.mp mem
  rcases h with settled | ⟨e, lent, later⟩
  · exact absurd settled unsettled
  · exact later.trans (back e lent)

/-- Settling items releases no hold. -/
theorem Held.settle (h : q.Held item expiry) (items : Set ι) : (q.settle items).Held item expiry :=
  h.imp_left fun settled => Set.mem_union_left items settled

variable [DecidableEq ι]

/-- The release of another item keeps a hold. -/
theorem Held.release (h : q.Held item expiry) {other : ι} (ne : item ≠ other) :
    (q.release other).Held item expiry := by
  rw [Held, leasedUntil_release_of_ne q ne]
  exact h

/-- Lending it again holds it back for as long, if it is lent for as long. -/
theorem Held.lend (h : q.Held item expiry) {items : List ι} {e : τ} (later : item ∈ items → expiry ≤ e) :
    (q.lend items e).Held item expiry := by
  rw [Held, leasedUntil_lend]
  split
  · next mem => exact .inr ⟨e, rfl, later mem⟩
  · exact h

/-- What was lent is held to the expiry it was lent with. -/
theorem held_of_lent (q : LeaseQueue ι τ) {items : List ι} (mem : item ∈ items) (e : τ) :
    (q.lend items e).Held item e :=
  .inr ⟨e, (q.leasedUntil_lend items e item).trans (if_pos mem), le_rfl⟩

end Held

/-! ## What is given up on the way

Candidates in ascending order: an item is given up if it is spent and comes before the last item
of a full batch, or if the batch is not full. -/

section Ordered

variable [LinearOrder ι]

/-- In an ascending list the item at index `i` is not below `c` exactly if `i` items at most are. -/
theorem le_getElem_iff {l : List ι} (ascends : l.Pairwise (· < ·)) {i : ℕ} (inside : i < l.length)
    (c : ι) : c ≤ l[i] ↔ (l.filter fun d => d < c).length ≤ i := by
  have pairs := List.pairwise_iff_getElem.mp ascends
  have split : l.filter (fun d => d < c) =
      (l.take i).filter (fun d => d < c) ++ (l.drop i).filter fun d => d < c := by
    rw [← List.filter_append, List.take_append_drop]
  constructor
  · intro le
    have none : (l.drop i).filter (fun d => d < c) = [] := by
      refine List.filter_eq_nil_iff.mpr fun d mem low => ?_
      obtain ⟨j, small, rfl⟩ := List.getElem_of_mem mem
      rw [List.getElem_drop, decide_eq_true_iff] at low
      rcases Nat.eq_zero_or_pos j with rfl | pos
      · exact absurd (lt_of_le_of_lt le low) (lt_irrefl c)
      · have above := pairs i (i + j) inside (by rw [List.length_drop] at small; omega) (by omega)
        exact absurd (lt_of_le_of_lt le (above.trans low)) (lt_irrefl c)
    rw [split, none, List.append_nil]
    exact (List.length_filter_le _ _).trans (List.length_take_le _ _)
  · intro few
    by_contra low
    have all : (l.take (i + 1)).filter (fun d => d < c) = l.take (i + 1) := by
      refine List.filter_eq_self.mpr fun d mem => ?_
      obtain ⟨j, small, rfl⟩ := List.getElem_of_mem mem
      rw [List.length_take] at small
      rw [List.getElem_take, decide_eq_true_iff]
      rcases Nat.lt_or_ge j i with before | at_
      · exact (pairs j i (by omega) inside before).trans (lt_of_not_ge low)
      · obtain rfl : j = i := by omega
        exact lt_of_not_ge low
    have sub := ((List.take_sublist (i + 1) l).filter fun d => decide (d < c)).length_le
    rw [all, List.length_take] at sub
    omega

variable [LE τ] {q : LeaseQueue ι τ} {now : τ} {candidates : List ι} {spent : ι → Prop} {limit : ℕ}

open Classical in
/-- The unspent candidates below an item, taken from all that are unspent. -/
theorem unspent_below (l : List ι) (item : ι) :
    (l.filter fun other => ¬ spent other ∧ other < item) =
      (l.filter fun other => ¬ spent other).filter fun other => other < item := by
  rw [List.filter_filter]
  refine List.filter_congr fun other _ => ?_
  rw [Bool.decide_and, Bool.and_comm]

open Classical in
/-- A candidate to be had that is not spent is taken, or the batch is full of earlier ones. -/
theorem taken_or_full (ascends : candidates.Pairwise (· < ·)) {item : ι}
    (mem : item ∈ q.offered now candidates) (unspent : ¬ spent item) :
    item ∈ q.taken now candidates spent limit ∨
      (q.taken now candidates spent limit).length = limit ∧
        ∀ other ∈ q.taken now candidates spent limit, other < item := by
  have inOrder : ((q.offered now candidates).filter fun item => ¬ spent item).Pairwise (· < ·) :=
    (ascends.filter _).filter _
  have among : item ∈ (q.offered now candidates).filter fun item => ¬ spent item :=
    List.mem_filter.mpr ⟨mem, decide_eq_true unspent⟩
  rw [← List.take_append_drop limit ((q.offered now candidates).filter fun item => ¬ spent item)]
    at inOrder among
  rcases List.mem_append.mp among with early | late
  · exact .inl early
  · refine .inr ⟨?_, fun other taken => (List.pairwise_append.mp inOrder).2.2 other taken item late⟩
    have some := List.length_pos_of_mem late
    rw [List.length_drop] at some
    rw [taken, List.length_take]
    omega

/-- A batch of no items gives nothing up. -/
theorem givenUp_zero : q.givenUp now candidates spent 0 = [] := by
  classical
  refine List.filter_eq_nil_iff.mpr fun item _ met => ?_
  simp at met

open Classical in
/-- A call whose batch is not full gives up everything that is spent. -/
theorem givenUp_of_room (room : (q.taken now candidates spent limit).length < limit) :
    q.givenUp now candidates spent limit = (q.offered now candidates).filter fun item => spent item := by
  rw [taken, List.length_take] at room
  refine List.filter_congr fun item _ => decide_eq_decide.mpr (and_iff_left ?_)
  rw [unspent_below]
  refine lt_of_le_of_lt (List.length_filter_le _ _) ?_
  omega

open Classical in
/-- A call whose batch is full gives up what is spent below the last item it takes. -/
theorem givenUp_of_full (ascends : candidates.Pairwise (· < ·)) {last : ι}
    (full : (q.taken now candidates spent limit).length = limit)
    (is : (q.taken now candidates spent limit).getLast? = some last) :
    q.givenUp now candidates spent limit =
      (q.offered now candidates).filter fun item => spent item ∧ item < last := by
  have inOrder : ((q.offered now candidates).filter fun item => ¬ spent item).Pairwise (· < ·) :=
    (ascends.filter _).filter _
  have unspent := not_spent_of_mem_taken (List.mem_of_getLast? is)
  rw [taken] at full is
  rw [List.length_take] at full
  rw [List.getLast?_eq_getElem?, List.length_take, full, List.getElem?_take] at is
  have pos : limit - 1 < limit := by
    by_contra zero
    rw [if_neg zero] at is
    cases is
  rw [if_pos pos] at is
  obtain ⟨inside, rfl⟩ := List.getElem?_eq_some_iff.mp is
  refine List.filter_congr fun item _ => decide_eq_decide.mpr (and_congr_right fun poison => ?_)
  have ne : item ≠ ((q.offered now candidates).filter fun item => ¬ spent item)[limit - 1] :=
    fun eq => unspent (eq ▸ poison)
  rw [unspent_below, ← ne.le_iff_lt, le_getElem_iff inOrder inside]
  omega

end Ordered

end LeaseQueue
