import CePubsub.Laws.Log
import CePubsub.Protocol
import CePubsub.Snapshot

/-!
# A snapshot and its tail are the whole history

Loading what was saved gives the state back, for every state of either machine: the formats carry
the proof. A replica may therefore start from a snapshot and apply what came after, and it is where a
replica is that applied everything (`snapshot_and_tail`).

A message is written in a snapshot as it is in a lease (`Message.write_format`).
-/

namespace CePubsub

/-- What a format puts for a field that may be missing is what the writer of a reply puts, -/
theorem put_optional (key : String) (o : Option String) :
    (Format.Field.optional key .str nofun).put o = optionalField key o := by
  cases o <;> rfl

/-- and for attributes that may be empty likewise. -/
theorem put_attributes (key : String) (m : BTreeMap String String) :
    (Format.Field.skipped key (.map .str .str) (·.isEmpty) ∅
      fun _ => Std.ExtTreeMap.isEmpty_iff.mp).put m = mapField key m := by
  cases empty : m.isEmpty with
  | true =>
    simp only [Format.Field.put, Format.Field.skipped, mapField, empty, if_true]
    rfl
  | false =>
    simp only [Format.Field.put, Format.Field.skipped, mapField, empty, Bool.false_eq_true, if_false]
    rfl

/-- A message is written in a snapshot as it is in a reply. -/
theorem Message.write_format (m : Message) : Message.format.write m = m.toJson := by
  rw [Message.toJson, ← put_optional, ← put_attributes, List.append_assoc, List.append_assoc]
  rfl

/-- So is a policy in a request. -/
theorem SubscriptionPolicy.write_format (p : SubscriptionPolicy) :
    SubscriptionPolicy.format.write p = p.toJson := rfl

namespace TopicLog

/-- What was saved is loaded as it was. -/
theorem load_save (s : TopicLog) : load s.save = some s := TopicLog.format.lossless s

/-- A replica of the log that starts from a snapshot. -/
def bootstrap (snapshot : Json) (tail : List LogOp) : Option TopicLog :=
  Run.resume apply load snapshot tail

/-- Wherever the operations are cut, a snapshot and its tail are the whole log. -/
theorem bootstrap_replay (ops : List LogOp) (n : Nat) :
    bootstrap (replay (ops.take n)).save (ops.drop n) = some (replay ops) :=
  Run.resume_take_drop (load_save _)

end TopicLog

namespace SubRegistry

theorem load_save (r : SubRegistry) : load r.save = some r := SubRegistry.format.lossless r

/-- The registry a replica has after a sequence of operations from the empty one. -/
def replayed (ops : List SubOp) : SubRegistry := Run.run apply {} ops

/-- A replica of the registry that starts from a snapshot. -/
def bootstrap (snapshot : Json) (tail : List SubOp) : Option SubRegistry :=
  Run.resume apply load snapshot tail

/-- Wherever the operations are cut, a snapshot and its tail are the whole registry. -/
theorem bootstrap_replayed (ops : List SubOp) (n : Nat) :
    bootstrap (replayed (ops.take n)).save (ops.drop n) = some (replayed ops) :=
  Run.resume_take_drop (load_save _)

end SubRegistry

/-- **Snapshot and tail are the whole replay**, for both machines, wherever the operations are cut:
what was saved is loaded as it was, the replicas end in the state that a replay of everything ends
in, and so they answer every lookup and plan every lease alike. -/
theorem snapshot_and_tail (logOps : List LogOp) (subOps : List SubOp) (n k : Nat) :
    TopicLog.load (TopicLog.replay logOps).save = some (TopicLog.replay logOps) ∧
      SubRegistry.load (SubRegistry.replayed subOps).save = some (SubRegistry.replayed subOps) ∧
      ∃ log registry,
        TopicLog.bootstrap (TopicLog.replay (logOps.take n)).save (logOps.drop n) = some log ∧
        SubRegistry.bootstrap (SubRegistry.replayed (subOps.take k)).save (subOps.drop k) =
          some registry ∧
        log = TopicLog.replay logOps ∧
        registry = SubRegistry.replayed subOps ∧
        (∀ after, log.since after = (TopicLog.replay logOps).since after) ∧
        (∀ c, log.get c = (TopicLog.replay logOps).get c) ∧
        ∀ name high floor now max,
          registry.planLease name high floor now max =
            (SubRegistry.replayed subOps).planLease name high floor now max := by
  refine ⟨TopicLog.load_save _, SubRegistry.load_save _, TopicLog.replay logOps,
    SubRegistry.replayed subOps, TopicLog.bootstrap_replay logOps n,
    SubRegistry.bootstrap_replayed subOps k, rfl, rfl, ?_, ?_, ?_⟩
  · intro after
    rfl
  · intro c
    rfl
  · intro name high floor now max
    rfl

end CePubsub
