import CePubsub.Laws.Lease
import CePubsub.Lib.Run
import Mathlib.Data.List.Infix

/-!
# The history of a subscription

The registry as the owner drives it: it creates, deletes, acks and nacks, and it leases by planning
and then applying what it planned. Beside the registry a run keeps, for one name, what has happened
to that subscription since it was last created. The history is a ghost, which nothing in the
registry reads, and what the laws of leases are stated about.

`Lived` is the same thing without the registry: the states a subscription can be in after a history.
`lived_of_get` connects the two, so that an invariant is an induction with one case for each thing
that can happen to a subscription.
-/

namespace CePubsub

/-- What the owner does with the registry. -/
inductive OwnerOp where
  | create (name : String) (policy : SubscriptionPolicy)
  | delete (name : String)
  | ack (name : String) (cursor : Nat)
  | nack (name : String) (cursor : Nat)
  | lease (name : String) (high floor now max : Nat)
deriving DecidableEq

/-- What happens to a subscription, as far as its history tells. -/
inductive Event where
  | acked (c : Nat)
  | nacked (c : Nat)
  /-- A lease that returned something, with the policy then in force. -/
  | leased (floor now : Nat) (policy : SubscriptionPolicy) (out : LeaseOutcome)
deriving DecidableEq

namespace Event

/-- The cursors an event hands out. -/
def handed : Event → List Nat
  | .leased _ _ _ out => out.leased.map Prod.fst
  | _ => []

/-- The cursors an event dead-letters. -/
def buried : Event → List Nat
  | .leased _ _ _ out => out.deadLettered
  | _ => []

end Event

namespace SubRegistry

/-- One operation of the owner. A lease plans, then applies its plan. -/
def step (r : SubRegistry) : OwnerOp → SubRegistry
  | .create name policy => r.apply (.create name policy)
  | .delete name => r.apply (.delete name)
  | .ack name cursor => r.apply (.ack name cursor)
  | .nack name cursor => r.apply (.nack name cursor)
  | .lease name high floor now max =>
    match r.planLease name high floor now max with
    | some (op, _) => r.apply op
    | none => r

/-- What an operation adds to the history of `name`. Creating a subscription that is not there
begins the history anew. -/
def record (name : String) (r : SubRegistry) (past : List Event) : OwnerOp → List Event
  | .create n _ => if n = name ∧ r.get name = none then [] else past
  | .delete _ => past
  | .ack n c => if n = name then past ++ [.acked c] else past
  | .nack n c => if n = name then past ++ [.nacked c] else past
  | .lease n high floor now max =>
    if n = name then
      match r.get name, r.planLease name high floor now max with
      | some s, some (_, out) => past ++ [.leased floor now s.policy out]
      | _, _ => past
    else past

/-- The registry and the history of `name`, together. -/
def audit (name : String) : SubRegistry × List Event → OwnerOp → SubRegistry × List Event
  | (r, past), op => (r.step op, r.record name past op)

/-- The registry after a run of the owner's operations. -/
def replay (ops : List OwnerOp) : SubRegistry := Run.run step {} ops

/-- What has happened to the subscription `name` since its last creation in a run. -/
def history (name : String) (ops : List OwnerOp) : List Event :=
  (Run.run (audit name) ({}, []) ops).2

theorem audit_replay (name : String) (ops : List OwnerOp) :
    Run.run (audit name) ({}, []) ops = (replay ops, history name ops) := by
  refine Prod.ext ?_ rfl
  exact Run.run_simulation (R := fun (a : SubRegistry × List Event) r => a.1 = r)
    (fun _ _ op eq => congrArg (step · op) eq) rfl ops

theorem replay_concat (ops : List OwnerOp) (op : OwnerOp) :
    replay (ops ++ [op]) = (replay ops).step op :=
  Run.run_concat step {} ops op

theorem history_concat (name : String) (ops : List OwnerOp) (op : OwnerOp) :
    history name (ops ++ [op]) = (replay ops).record name (history name ops) op := by
  rw [history, Run.run_concat, audit_replay, audit]

/-! ## The registry, one subscription at a time -/

variable (r : SubRegistry)

theorem get_modify (n name : String) (f : SubscriptionState → SubscriptionState) :
    SubRegistry.get { subs := r.subs.modify n f } name =
      if n = name then (r.get name).map f else r.get name := by
  simp only [SubRegistry.get, Std.ExtTreeMap.getElem?_modify, Std.compare_eq_iff_eq]
  split
  · next eq => rw [eq]
  · rfl

theorem get_create (n name : String) (policy : SubscriptionPolicy) :
    (r.apply (.create n policy)).get name =
      if n = name then some { (r.get name).getD {} with policy } else r.get name := by
  simp only [apply, SubRegistry.get, Std.ExtTreeMap.getElem?_insert, Std.compare_eq_iff_eq]
  split
  · next eq => rw [eq]
  · rfl

theorem get_delete (n name : String) :
    (r.apply (.delete n)).get name = if n = name then none else r.get name := by
  simp only [apply, SubRegistry.get, Std.ExtTreeMap.getElem?_erase, Std.compare_eq_iff_eq]

/-- What a subscription that is there after an operation on `n` was before. -/
theorem of_get_modify {r : SubRegistry} {n name : String} {f : SubscriptionState → SubscriptionState}
    {s : SubscriptionState} (found : SubRegistry.get { subs := r.subs.modify n f } name = some s) :
    (n = name ∧ ∃ before, r.get name = some before ∧ f before = s) ∨
      (n ≠ name ∧ r.get name = some s) := by
  rw [get_modify] at found
  split at found
  · next same => exact .inl ⟨same, Option.map_eq_some_iff.mp found⟩
  · next other => exact .inr ⟨other, found⟩

theorem of_get_create {r : SubRegistry} {n name : String} {policy : SubscriptionPolicy}
    {s : SubscriptionState} (found : (r.apply (.create n policy)).get name = some s) :
    (n = name ∧ r.get name = none ∧ { policy } = s) ∨
      (n = name ∧ ∃ before, r.get name = some before ∧ { before with policy } = s) ∨
      (n ≠ name ∧ r.get name = some s) := by
  rw [get_create] at found
  split at found
  · next same =>
    cases before : r.get name with
    | none =>
      rw [before] at found
      exact .inl ⟨same, rfl, Option.some.inj found⟩
    | some s =>
      rw [before] at found
      exact .inr (.inl ⟨same, s, rfl, Option.some.inj found⟩)
  · next other => exact .inr (.inr ⟨other, found⟩)

theorem of_get_delete {r : SubRegistry} {n name : String} {s : SubscriptionState}
    (found : (r.apply (.delete n)).get name = some s) : n ≠ name ∧ r.get name = some s := by
  rw [get_delete] at found
  split at found
  · cases found
  · next other => exact ⟨other, found⟩

theorem planLease_of_get {r : SubRegistry} {name : String} {s : SubscriptionState}
    (found : r.get name = some s) (high floor now max : Nat) :
    r.planLease name high floor now max = s.planLease name high floor now max := by
  rw [SubRegistry.get] at found
  rw [SubRegistry.planLease, found]
  rfl

/-- A plan belongs to a subscription, and is an `applyLease` to it. -/
theorem planned_of_planLease {r : SubRegistry} {name : String} {high floor now max : Nat}
    {op : SubOp} {out : LeaseOutcome}
    (plan : r.planLease name high floor now max = some (op, out)) :
    ∃ s leased dead newAcked, r.get name = some s ∧ op = .applyLease name leased dead newAcked ∧
      s.Planned high floor now leased dead newAcked out := by
  obtain ⟨s, found, plan⟩ := Option.bind_eq_some_iff.mp plan
  obtain ⟨leased, dead, newAcked, op_eq, planned⟩ := SubscriptionState.planned_of_planLease plan
  exact ⟨s, leased, dead, newAcked, found, op_eq, planned⟩

/-- Only a deletion removes a subscription. -/
theorem step_isSome {name : String} {op : OwnerOp} (there : (r.get name).isSome)
    (kept : op ≠ .delete name) : ((r.step op).get name).isSome := by
  have modified (n : String) (f : SubscriptionState → SubscriptionState) :
      (SubRegistry.get { subs := r.subs.modify n f } name).isSome := by
    rw [get_modify]
    split
    · rwa [Option.isSome_map]
    · exact there
  cases op with
  | create n policy =>
    rw [step, get_create]
    split
    · rfl
    · exact there
  | delete n =>
    rw [step, get_delete, if_neg fun same => kept (by rw [same])]
    exact there
  | ack n c => exact modified n _
  | nack n c => exact modified n _
  | lease n high floor now max =>
    rw [step]
    cases plan : r.planLease n high floor now max with
    | none => exact there
    | some planned =>
      obtain ⟨op, out⟩ := planned
      obtain ⟨-, leased, dead, newAcked, -, rfl, -⟩ := planned_of_planLease plan
      exact modified n _

/-- While a subscription is there its history only grows. -/
theorem record_grows {name : String} (there : (r.get name).isSome) (past : List Event)
    (op : OwnerOp) : past <+: r.record name past op := by
  obtain ⟨s, found⟩ := Option.isSome_iff_exists.mp there
  cases op with
  | create n policy =>
    rw [record, if_neg (by rw [found]; exact fun fresh => nomatch fresh.2)]
  | delete n => exact List.prefix_refl past
  | ack n c | nack n c =>
    rw [record]
    split
    · exact List.prefix_append past _
    · exact List.prefix_refl past
  | lease n high floor now max =>
    rw [record]
    split
    · split
      · exact List.prefix_append past _
      · exact List.prefix_refl past
    · exact List.prefix_refl past

/-- A history is a beginning of every later one, while the subscription is not deleted. -/
theorem history_append {name : String} {ops more : List OwnerOp}
    (there : ((replay ops).get name).isSome) (kept : OwnerOp.delete name ∉ more) :
    history name ops <+: history name (ops ++ more) := by
  suffices h : history name ops <+: history name (ops ++ more) ∧
      ((replay (ops ++ more)).get name).isSome from h.1
  induction more using List.reverseRecOn with
  | nil =>
    rw [List.append_nil]
    exact ⟨List.prefix_refl _, there⟩
  | append_singleton more op ih =>
    obtain ⟨grown, there⟩ := ih fun mem => kept (List.mem_append_left _ mem)
    rw [← List.append_assoc, history_concat, replay_concat]
    refine ⟨grown.trans (record_grows _ there _ op), step_isSome _ there fun del => kept ?_⟩
    rw [del]
    exact List.mem_append_right _ (List.mem_singleton_self _)

end SubRegistry

/-! ## The states a history leads to -/

/-- The subscription states a history can lead to, from a creation on. -/
inductive Lived : SubscriptionState → List Event → Prop
  | created (policy : SubscriptionPolicy) : Lived { policy } []
  | recreated {s past} (policy : SubscriptionPolicy) : Lived s past → Lived { s with policy } past
  | acked {s past} (c : Nat) : Lived s past → Lived (s.ack c) (past ++ [.acked c])
  | nacked {s past} (c : Nat) : Lived s past → Lived (s.nack c) (past ++ [.nacked c])
  | leased {s past high floor now leased dead newAcked out} : Lived s past →
      s.Planned high floor now leased dead newAcked out →
      Lived (s.applyLease leased dead newAcked) (past ++ [.leased floor now s.policy out])

namespace SubRegistry

/-- **One operation continues the history of a subscription**: it leaves the subscription and its
history alone, or does one thing to both. -/
theorem lived_step {r : SubRegistry} {name : String} {past : List Event} (op : OwnerOp)
    (lived : ∀ s, r.get name = some s → Lived s past) {s : SubscriptionState}
    (found : (r.step op).get name = some s) : Lived s (r.record name past op) := by
  cases op with
  | create n policy =>
    rw [record]
    rcases of_get_create found with ⟨same, absent, rfl⟩ | ⟨-, before, there, rfl⟩ | ⟨other, there⟩
    · rw [if_pos ⟨same, absent⟩]
      exact .created policy
    · rw [if_neg fun new => Option.some_ne_none before (there.symm.trans new.2)]
      exact .recreated policy (lived before there)
    · rw [if_neg fun new => other new.1]
      exact lived s there
  | delete n => exact lived s (of_get_delete found).2
  | ack n c =>
    rw [record]
    rcases of_get_modify found with ⟨same, before, there, rfl⟩ | ⟨other, there⟩
    · rw [if_pos same]
      exact .acked c (lived before there)
    · rw [if_neg other]
      exact lived s there
  | nack n c =>
    rw [record]
    rcases of_get_modify found with ⟨same, before, there, rfl⟩ | ⟨other, there⟩
    · rw [if_pos same]
      exact .nacked c (lived before there)
    · rw [if_neg other]
      exact lived s there
  | lease n high floor now max =>
    rw [step] at found
    rw [record]
    cases plan : r.planLease n high floor now max with
    | none =>
      rw [plan] at found
      split
      · next same =>
        subst same
        rw [plan]
        split
        · next none => cases none
        · exact lived s found
      · exact lived s found
    | some planned =>
      obtain ⟨op, out⟩ := planned
      obtain ⟨s', leased, dead, newAcked, before, rfl, planned⟩ := planned_of_planLease plan
      rw [plan] at found
      rcases of_get_modify found with ⟨rfl, s, there, rfl⟩ | ⟨other, there⟩
      · cases before.symm.trans there
        rw [if_pos rfl, before, plan]
        exact .leased (lived s' before) planned
      · rw [if_neg other]
        exact lived s there

/-- Every subscription of a reachable registry is in a state its history leads to. -/
theorem lived_of_get {name : String} (ops : List OwnerOp) {s : SubscriptionState}
    (found : (replay ops).get name = some s) : Lived s (history name ops) := by
  induction ops using List.reverseRecOn generalizing s with
  | nil => cases found
  | append_singleton ops op ih =>
    rw [replay_concat] at found
    rw [history_concat]
    exact lived_step op (fun _ => ih) found

end SubRegistry

end CePubsub
