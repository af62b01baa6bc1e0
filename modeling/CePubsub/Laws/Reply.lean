import CePubsub.Laws.Bounds
import Mathlib.Algebra.Order.BigOperators.Group.List

/-!
# Whether a consumer can read its reply

A consumer reads a control reply only within `MAX_INGEST_HEX_BYTES`. The owner never looks at the
size of what it replies: a lease is cut off at a thousand messages, and a message may be ten
mebibytes. Every other reply is small enough, in a topic that clients and the owner have used as they
can: a registry holds ten thousand names of two hundred bytes at most, and error texts quote little.

`control_reply_decodes` says exactly which replies are read: all but a committed pull whose batch is
too large. The batch is `due`, what the subscription had to hand out before the pull. Two messages of
the documented size are enough (`pull_undecodable`), and their leases are committed all the same.
-/

namespace CePubsub

/-! ## Texts -/

/-- A bound on the texts that come from outside. -/
def maxText : Nat := 1024 * 1024

/-- The subscription a request names. -/
def ControlRequest.named : ControlRequest → Option String
  | .createSubscription name _ _ | .deleteSubscription name _ | .pull name _ _ | .ack name _ _
  | .nack name _ _ => some name
  | .listSubscriptions _ | .highCursor _ => none

/-- The strings of a request are within `n` bytes, and its deadline is a `u64`. -/
structure ControlRequest.Within (n : Nat) (req : ControlRequest) : Prop where
  named : ∀ name, req.named = some name → name.utf8ByteSize ≤ n
  grant : ∀ token, req.grant = some token → token.utf8ByteSize ≤ n
  policy : ∀ name policy grant, req = .createSubscription name policy grant →
    policy.ackDeadlineSecs ≤ u64Max

/-- A larger bound holds as well. -/
theorem ControlRequest.Within.mono {req : ControlRequest} {m n : Nat} (h : req.Within m)
    (le : m ≤ n) : req.Within n where
  named name is := (h.named name is).trans le
  grant token is := (h.grant token is).trans le
  policy := h.policy

/-- Of the code outside: no string it reads is longer than the JSON it is read from, the deadlines it
reads are `u64`s and so is the length of what it is sent, and neither its error texts nor the scopes
it finds in a token are long. It is asked about no more than a control request holds. -/
structure Terse {Link : Type} (host : Host Link) (node : Answers) (payloadHex : String) : Prop where
  length : payloadHex.utf8ByteSize ≤ u64Max
  hexError : ∀ e, Hex.decode payloadHex = .error e → (host.serde.hexError e).utf8ByteSize ≤ maxText
  unread : ∀ bytes e, bytes.length ≤ maxControlBodyBytes →
    host.serde.controlRequest bytes = .error e → e.utf8ByteSize ≤ maxText
  read : ∀ bytes req, host.serde.controlRequest bytes = .ok req → req.Within bytes.length
  chain : ∀ token e, token.utf8ByteSize ≤ maxControlBodyBytes →
    host.iam.decodeChain token = .error e → e.utf8ByteSize ≤ maxText
  unauthorized : ∀ token chain, token.utf8ByteSize ≤ maxControlBodyBytes →
    host.iam.decodeChain token = .ok chain →
    ∀ selfId roots tags now requester ability isRevoked e,
      host.iam.authorize selfId roots tags now requester ability chain isRevoked = .error e →
        e.utf8ByteSize ≤ maxText
  scope : ∀ token chain, token.utf8ByteSize ≤ maxControlBodyBytes →
    host.iam.decodeChain token = .ok chain →
    ∀ link ∈ chain, ∀ s, host.iam.pathPrefix link = some s → s.utf8ByteSize ≤ maxText
  uncommitted : ∀ e, node.commitSubs = .error e → e.utf8ByteSize ≤ maxText

/-- The size of a text with a fixed beginning, -/
theorem size_prefixed_le {a b : String} {n k : Nat} (fixed : a.utf8ByteSize ≤ k)
    (hb : b.utf8ByteSize ≤ n) : (a ++ b).utf8ByteSize ≤ n + k := by
  rw [String.utf8ByteSize_append]
  omega

/-- of one that quotes another, -/
theorem size_quoting_le {a b c : String} {n k : Nat} (fixed : a.utf8ByteSize + c.utf8ByteSize ≤ k)
    (hb : b.utf8ByteSize ≤ n) : (a ++ b ++ c).utf8ByteSize ≤ n + k := by
  rw [String.utf8ByteSize_append, String.utf8ByteSize_append]
  omega

/-- and of a `u64` written out. -/
theorem size_repr_le {n : Nat} (small : n ≤ u64Max) : n.repr.utf8ByteSize ≤ 80 :=
  Text.utf8ByteSize_repr_le (k := 20) (by decide) (Nat.lt_of_le_of_lt small (by decide))

variable {Link : Type} {host : Host Link} {node : Answers} {payloadHex : String}

/-- The refusal of a name quotes it at most once. -/
theorem validateTopic_error_le {name e : String} (small : name.utf8ByteSize ≤ maxControlBodyBytes)
    (invalid : validateTopic name = .error e) : e.utf8ByteSize ≤ maxControlBodyBytes + 200 := by
  have digits := size_repr_le (Nat.le_trans small (by decide))
  unfold validateTopic at invalid
  split at invalid
  · cases invalid
    decide
  · split at invalid
    · cases invalid
      refine (size_quoting_le (k := 200) ?_ digits).trans (by decide)
      decide
    · split at invalid
      · cases invalid
      · cases invalid
        refine size_quoting_le ?_ small
        decide

/-- The refusal of a policy quotes a number. -/
theorem validate_error_le {policy : SubscriptionPolicy} {e : String}
    (small : policy.ackDeadlineSecs ≤ u64Max) (invalid : policy.validate = .error e) :
    e.utf8ByteSize ≤ 200 := by
  unfold SubscriptionPolicy.validate at invalid
  split at invalid
  · cases invalid
    refine (size_quoting_le (k := 100) ?_ (size_repr_le small)).trans (by decide)
    decide
  · cases invalid

/-- The refusals of a node id and of a revocation set quote nothing. -/
theorem parseNodeId_error_le {text e : String} (invalid : parseNodeId text = .error e) :
    e.utf8ByteSize ≤ 100 := by
  unfold parseNodeId at invalid
  split at invalid
  · cases invalid
    decide
  · split at invalid
    · cases invalid
    · cases invalid
      decide

theorem fetchRevoked_error_le {e : String} (failed : Topic.fetchRevoked node = .error e) :
    e.utf8ByteSize ≤ 100 := by
  unfold Topic.fetchRevoked at failed
  split at failed
  · cases failed
    decide
  · cases failed

/-- The readers of runs on fixed inputs are so, on what they know. -/
theorem terse_reading {ingests : List IngestRequest} {controls : List ControlRequest} {bytes : Bytes}
    (small : 2 * bytes.length ≤ u64Max) (within : ∀ req ∈ controls, req.Within req.encode.length)
    (commit : node.commitSubs = .ok ()) :
    Terse (Host.reading ingests controls) node (Hex.encode bytes) where
  length := by rwa [Hex.utf8ByteSize_encode]
  hexError e failed := by
    rw [Hex.decode_encode] at failed
    cases failed
  unread bytes e _ failed := by
    unfold Host.reading at failed
    simp only at failed
    cases found : controls.find? fun r => decide (r.encode = bytes) with
    | none =>
      rw [found] at failed
      cases failed
      decide
    | some req =>
      rw [found] at failed
      cases failed
  read bytes req read := by
    unfold Host.reading at read
    simp only at read
    cases found : controls.find? fun r => decide (r.encode = bytes) with
    | none =>
      rw [found] at read
      cases read
    | some known =>
      rw [found] at read
      cases read
      have same : req.encode = bytes := of_decide_eq_true
        (List.find?_some (p := fun r : ControlRequest => decide (r.encode = bytes)) found)
      exact same ▸ within req (List.mem_of_find?_eq_some found)
  chain token e _ failed := by
    cases failed
    decide
  unauthorized token chain _ decoded := nomatch decoded
  scope token chain _ decoded := nomatch decoded
  uncommitted e failed := by
    rw [commit] at failed
    cases failed

namespace Terse

variable (terse : Terse host node payloadHex)

include terse

/-- The strings of a request that is decoded are within the bound on its body. -/
theorem decodeControl_ok {req : ControlRequest}
    (decoded : Topic.decodeControl host payloadHex = .ok req) : req.Within maxControlBodyBytes := by
  unfold Topic.decodeControl at decoded
  split at decoded
  · cases decoded
  · next bytes hex =>
    unfold ControlRequest.decode at decoded
    split at decoded
    · cases decoded
    · next small =>
      cases read : host.serde.controlRequest bytes with
      | error e =>
        rw [read] at decoded
        cases decoded
      | ok req' =>
        rw [read] at decoded
        cases decoded
        exact (terse.read bytes req read).mono (Nat.le_of_not_lt small)

/-- A body that is not decoded is refused in a short text. -/
theorem decodeControl_error {why : String}
    (failed : Topic.decodeControl host payloadHex = .error why) :
    why.utf8ByteSize ≤ maxText + 1024 := by
  unfold Topic.decodeControl at failed
  split at failed
  · next e undecoded =>
    cases failed
    refine (size_prefixed_le (k := 100) ?_ (terse.hexError e undecoded)).trans (by decide)
    decide
  · next bytes decoded =>
    have unread : ∀ e, ControlRequest.decode host.serde bytes = .error e →
        e.utf8ByteSize ≤ maxText := by
      intro e unread
      unfold ControlRequest.decode at unread
      split at unread
      · cases unread
        have length := Nat.le_trans (Hex.length_decode_le decoded) terse.length
        refine (size_quoting_le (k := 100) ?_ (size_repr_le length)).trans (by decide)
        decide
      · next small => exact terse.unread bytes e (Nat.le_of_not_lt small) unread
    cases read : ControlRequest.decode host.serde bytes with
    | ok req =>
      rw [read] at failed
      cases failed
    | error e =>
      rw [read] at failed
      cases failed
      refine (size_prefixed_le (k := 100) ?_ (unread e read)).trans (by decide)
      decide

/-- A grant is refused in a short text, whichever check it fails, -/
theorem verifyLink_error {selfId requester : NodeId} {roots : List NodeId} {tags : List String}
    {now : Nat} {ability topic token why : String} {isRevoked : NodeId → Nat → Bool}
    (short : topic.utf8ByteSize ≤ 200) (small : token.utf8ByteSize ≤ maxControlBodyBytes)
    (failed : verifyLink host.iam selfId roots tags now requester ability topic token isRevoked =
      .error why) : why.utf8ByteSize ≤ maxText + 1024 := by
  simp only [verifyLink, bind, Except.bind] at failed
  split at failed
  · next e unreadable =>
    cases failed
    exact (terse.chain token why small unreadable).trans (Nat.le_add_right _ _)
  · next chain decoded =>
    split at failed
    · next e refused =>
      cases failed
      exact (terse.unauthorized token chain small decoded _ _ _ _ _ _ _ why refused).trans
        (Nat.le_add_right _ _)
    · split at failed
      · cases failed
        decide
      · next link leaf =>
        split at failed
        · cases failed
          decide
        · next scope limited =>
          split at failed
          · cases failed
          · cases failed
            have quoted := terse.scope token chain small decoded link
              (List.mem_of_getLast? leaf) scope limited
            have fixed : "link scope '".utf8ByteSize + "' does not cover topic '".utf8ByteSize +
                "'".utf8ByteSize ≤ 100 := by decide
            simp only [toString, String.utf8ByteSize_append]
            omega

/-- and so is a request at the gate. -/
theorem gate_error {t : Topic} {requester ability why : String} {grant : Option String} {now : Nat}
    (short : t.topic.utf8ByteSize ≤ 200) (named : ability.utf8ByteSize ≤ 100)
    (small : ∀ token, grant = some token → token.utf8ByteSize ≤ maxControlBodyBytes)
    (failed : t.gate host node requester ability grant now = .error why) :
    why.utf8ByteSize ≤ maxText + 1024 := by
  unfold Topic.gate at failed
  split at failed
  · split at failed
    · cases failed
      refine (size_quoting_le (k := 100) ?_ named).trans (by decide)
      decide
    · next token =>
      simp only [Topic.authorize, bind, Except.bind] at failed
      cases asker : parseNodeId requester with
      | error e =>
        rw [asker] at failed
        cases failed
        refine (size_prefixed_le (k := 100) ?_ (parseNodeId_error_le asker)).trans (by decide)
        decide
      | ok id =>
        cases self : parseNodeId t.nodeId with
        | error e =>
          rw [asker, self] at failed
          cases failed
          refine (size_prefixed_le (k := 100) ?_ (parseNodeId_error_le self)).trans (by decide)
          decide
        | ok selfId =>
          cases fetched : Topic.fetchRevoked node with
          | error e =>
            rw [asker, self, fetched] at failed
            cases failed
            refine (size_prefixed_le (k := 100) ?_ (fetchRevoked_error_le fetched)).trans (by decide)
            decide
          | ok revoked =>
            rw [asker, self, fetched] at failed
            exact terse.verifyLink_error short (small token rfl) failed
  · cases failed

end Terse

/-! ## The registry -/

/-- The names of the topic and of its subscriptions are of a length the source allows, and there are
no more subscriptions than it allows. -/
structure Topic.Listed (t : Topic) : Prop where
  topic : t.topic.utf8ByteSize ≤ 200
  names : ∀ name ∈ t.subs.subs, name.utf8ByteSize ≤ 200
  room : t.subs.subs.size ≤ maxSubscriptions

namespace Topic

/-- A topic is created under a valid name. -/
theorem topic_valid {nodeId topic : String} {t : Topic} (new : Topic.create nodeId topic = .ok t) :
    validateTopic t.topic = .ok () := by
  have valid : validateTopic topic = .ok () := by
    cases checked : validateTopic topic with
    | ok u => rfl
    | error e => simp only [create, checked, bind, Except.bind, reduceCtorEq] at new
  rwa [eq_of_create new]

variable {Link : Type} (host : Host Link)

/-- A topic keeps its name. -/
theorem step_topic (t : Topic) (i : Input) : (t.step host i).topic = t.topic := by
  rcases t.step_cases host i with advances | ⟨_, _, _, _, _, -, -, -, serves⟩
  · exact advances.topic
  · exact serves.untouched.topic

/-- **The registry of every topic in use is within its limits.** -/
theorem listed_of_run {nodeId topic : String} {t : Topic} (new : Topic.create nodeId topic = .ok t)
    (inputs : List Input) : (Run.run (Topic.step host) t inputs).Listed := by
  have kept := Run.run_invariant (P := fun t : Topic => t.Bounded ∧ validateTopic t.topic = .ok ())
    (fun t i h => ⟨bounded_step host h.1 i, step_topic host t i ▸ h.2⟩)
    ⟨eq_of_create new ▸ bounded_create nodeId topic, topic_valid new⟩ inputs
  refine ⟨(validateTopic_ok_iff.mp kept.2).2.1, fun name mem => ?_, kept.1.subs.count⟩
  obtain ⟨s, found⟩ := Option.isSome_iff_exists.mp (Std.ExtTreeMap.mem_iff_isSome_getElem?.mp mem)
  exact (validateTopic_ok_iff.mp (kept.1.subs.names name s found)).2.1

end Topic

/-! ## The replies that fit -/

/-- What the reply to a pull takes in JSON. -/
def LeasedMessage.batchSize (batch : List LeasedMessage) : Nat :=
  13 + (batch.map (·.toJson.size)).sum + (batch.length - 1)

/-- A message's JSON holds its payload's hex. -/
theorem LeasedMessage.payloadHex_lt_size (l : LeasedMessage) :
    l.message.payloadHex.utf8ByteSize < l.toJson.size := by
  have quoted := (Json.quotedSize_bounds l.message.payloadHex).1
  simp only [toJson, Message.toJson, Json.size_obj, List.cons_append, List.nil_append, List.map_cons,
    List.sum_cons, Json.fieldSize, Json.size_str]
  omega

namespace ControlReply

/-- `Ok` fits. -/
theorem fits_ok : ControlReply.ok.Fits := by
  rw [Fits]
  decide

/-- A high cursor fits. -/
theorem fits_high {c : Nat} (cursor : c ≤ u64Max) : (ControlReply.high c).Fits := by
  have key : Json.quotedSize "High" = 6 := by decide
  have digits : (Json.num c).size ≤ 80 :=
    Json.size_num_le (k := 20) (by decide) (Nat.lt_of_le_of_lt cursor (by decide))
  have bound : 91 ≤ maxIngestHexBytes := by decide
  simp only [Fits, toJson, Json.size_obj, List.map_cons, List.map_nil, List.sum_cons, List.sum_nil,
    List.length_cons, List.length_nil, Json.fieldSize, key]
  omega

/-- A refusal fits, if its text is short. -/
theorem fits_rejected {why : String} (short : why.utf8ByteSize ≤ maxText + 1024) :
    (ControlReply.rejected why).Fits := by
  have key : Json.quotedSize "Rejected" = 10 := by decide
  have text := (Json.quotedSize_bounds why).2
  calc (ControlReply.rejected why).toJson.size
    _ ≤ 6 * why.utf8ByteSize + 15 := by
      simp only [toJson, Json.size_obj, List.map_cons, List.map_nil, List.sum_cons, List.sum_nil,
        List.length_cons, List.length_nil, Json.fieldSize, key, Json.size_str]
      omega
    _ ≤ 6 * (maxText + 1024) + 15 := Nat.add_le_add_right (Nat.mul_le_mul_left 6 short) 15
    _ ≤ maxIngestHexBytes := by decide

/-- The refusal that names a subscription fits. -/
theorem fits_noSuch {name : String} (small : name.utf8ByteSize ≤ maxControlBodyBytes) :
    (ControlReply.rejected s!"no such subscription '{name}'").Fits := by
  refine fits_rejected ((size_quoting_le (k := 100) ?_ small).trans (by decide))
  decide

/-- The names of all subscriptions fit: there are at most as many as the owner allows. -/
theorem fits_subscriptions {names : List String} (few : names.length ≤ maxSubscriptions)
    (short : ∀ name ∈ names, name.utf8ByteSize ≤ 200) : (ControlReply.subscriptions names).Fits := by
  have key : Json.quotedSize "Subscriptions" = 15 := by decide
  have bound : 1203 * maxSubscriptions + 22 ≤ maxIngestHexBytes := by decide
  have total : ((names.map Json.str).map Json.size).sum ≤ names.length * 1202 := by
    refine (List.sum_le_card_nsmul _ 1202 ?_).trans (Nat.le_of_eq ?_)
    · intro n mem
      rw [List.map_map] at mem
      obtain ⟨name, listed, rfl⟩ := List.mem_map.mp mem
      have quoted := (Json.quotedSize_bounds name).2
      have := short name listed
      rw [Function.comp_apply, Json.size_str]
      omega
    · rw [List.length_map, List.length_map, Nat.nsmul_eq_mul]
  simp only [Fits, toJson, Json.size_obj, List.map_cons, List.map_nil, List.sum_cons, List.sum_nil,
    List.length_cons, List.length_nil, Json.fieldSize, key, Json.size_arr, List.length_map]
  omega

/-- A batch fits or not by the sizes of its messages. -/
theorem fits_pulled (batch : List LeasedMessage) :
    (ControlReply.pulled batch).Fits ↔ LeasedMessage.batchSize batch ≤ maxIngestHexBytes := by
  have key : Json.quotedSize "Pulled" = 8 := by decide
  simp only [Fits, toJson, Json.size_obj, List.map_cons, List.map_nil, List.sum_cons, List.sum_nil,
    List.length_cons, List.length_nil, Json.fieldSize, key, Json.size_arr, List.length_map,
    List.map_map, LeasedMessage.batchSize, Function.comp_def]
  omega

end ControlReply

namespace Topic

/-- The messages a subscription has to hand out, those still retained. -/
def due (t : Topic) (name : String) (maxMessages now : Nat) : List LeasedMessage :=
  match t.subs.get name with
  | some s => t.resolve (s.due t.writer.highCursor t.writer.floor now maxMessages)
  | none => []

/-- A pull that commits is answered with what was due. -/
theorem handleLease_of_committed {t : Topic} {name : String} (there : (t.subs.get name).isSome)
    (commit : node.commitSubs = .ok ()) (maxMessages now : Nat) :
    (t.handleLease node name maxMessages now).1 = .pulled (t.due name maxMessages now) := by
  obtain ⟨s, found⟩ := Option.isSome_iff_exists.mp there
  have plan_eq := SubRegistry.planLease_of_get found t.writer.highCursor t.writer.floor now maxMessages
  rw [due, found]
  cases plan : s.planLease name t.writer.highCursor t.writer.floor now maxMessages with
  | none =>
    rw [handleLease, if_neg (by rw [found]; exact Bool.false_ne_true), plan_eq, plan]
    simp only [SubscriptionState.due_of_unplanned plan]
    rfl
  | some planned =>
    obtain ⟨op, out⟩ := planned
    obtain ⟨t', pulled, -, -⟩ := handleLease_of_planned (plan_eq.trans plan) commit
    simp only [pulled, ← SubscriptionState.leased_of_planLease plan]

end Topic

namespace Terse

variable (terse : Terse host node payloadHex)

include terse

/-- A change of the registry is answered with `Ok` or with the text of its failure. -/
theorem proposeSubs_fits (t : Topic) {what : String} (op : SubOp) (named : what.utf8ByteSize ≤ 100) :
    (t.proposeSubs node what op).1.Fits := by
  rw [Topic.proposeSubs]
  cases commit : node.commitSubs with
  | ok u => exact ControlReply.fits_ok
  | error e =>
    have quoted := terse.uncommitted e commit
    have fixed : " failed: ".utf8ByteSize ≤ 100 := by decide
    refine ControlReply.fits_rejected ?_
    simp only [toString, String.utf8ByteSize_append]
    omega

/-- A pull that does not commit is answered with nothing, or with a refusal. -/
theorem handleLease_fits {t : Topic} {name : String} {maxMessages now : Nat}
    (small : name.utf8ByteSize ≤ maxControlBodyBytes)
    (idle : ¬ ((t.subs.get name).isSome ∧ node.commitSubs = .ok ())) :
    (t.handleLease node name maxMessages now).1.Fits := by
  rw [Topic.handleLease]
  split
  · exact ControlReply.fits_noSuch small
  · next there =>
    cases t.subs.planLease name t.writer.highCursor t.writer.floor now maxMessages with
    | none => exact (ControlReply.fits_pulled []).mpr (by decide)
    | some planned =>
      cases commit : node.commitSubs with
      | ok u =>
        refine absurd ⟨?_, commit⟩ idle
        exact Option.isSome_iff_ne_none.mpr (mt Option.isNone_iff_eq_none.mpr there)
      | error e =>
        refine ControlReply.fits_rejected
          ((size_prefixed_le (k := 100) ?_ (terse.uncommitted e commit)).trans (by decide))
        decide

/-- Every reply but a pull's fits. -/
theorem serveControl_fits {t : Topic} {now : Nat} {req : ControlRequest} (listed : t.Listed)
    (cursors : t.highCursor ≤ u64Max) (within : req.Within maxControlBodyBytes)
    (other : ∀ name maxMessages grant, req ≠ .pull name maxMessages grant) :
    (t.serveControl node now req).1.Fits := by
  cases req with
  | highCursor grant => exact ControlReply.fits_high cursors
  | createSubscription name policy grant =>
    simp only [Topic.serveControl]
    split
    · next e invalid =>
      refine ControlReply.fits_rejected ((size_prefixed_le (k := 100) ?_
        (validate_error_le (within.policy name policy grant rfl) invalid)).trans (by decide))
      decide
    · next e _ invalid =>
      refine ControlReply.fits_rejected ((size_prefixed_le (k := 100) ?_
        (validateTopic_error_le (within.named name rfl) invalid)).trans (by decide))
      decide
    · split
      · refine ControlReply.fits_rejected ?_
        decide
      · exact terse.proposeSubs_fits t _ (by decide)
  | deleteSubscription name grant => exact terse.proposeSubs_fits t _ (by decide)
  | listSubscriptions grant =>
    refine ControlReply.fits_subscriptions ?_ ?_
    · exact Std.ExtTreeMap.length_keys.trans_le listed.room
    · exact fun name mem => listed.names name (Std.ExtTreeMap.mem_keys.mp mem)
  | pull name maxMessages grant => exact absurd rfl (other name maxMessages grant)
  | ack name cursor grant =>
    simp only [Topic.serveControl]
    split
    · exact ControlReply.fits_noSuch (within.named name rfl)
    · exact terse.proposeSubs_fits t _ (by decide)
  | nack name cursor grant =>
    simp only [Topic.serveControl]
    split
    · exact ControlReply.fits_noSuch (within.named name rfl)
    · exact terse.proposeSubs_fits t _ (by decide)

end Terse

namespace Topic

/-- **Every reply is read but that to a committed pull of a batch too large**, in every topic in use:
what decides is the size of what the subscription had to hand out. -/
theorem control_reply_decodes {nodeId topic : String} {start t : Topic} {inputs : List Input}
    (new : Topic.create nodeId topic = .ok start)
    (reached : Run.run (Topic.step host) start inputs = t) (cursors : t.highCursor ≤ u64Max)
    (terse : Terse host node payloadHex) (requester : String) (now : Nat) {reader : Serde}
    {reply : ControlReply} {t' : Topic}
    (handled : t.handleControl host node payloadHex requester now = (reply, t'))
    (lossless : reader.controlReply reply.encode = .ok reply) :
    ControlReply.decode reader reply.encode = .ok reply ↔
      ∀ name maxMessages grant, decodeControl host payloadHex = .ok (.pull name maxMessages grant) →
        t.gate host node requester abilitySubscribe grant now = .ok () →
        (t.subs.get name).isSome → node.commitSubs = .ok () →
        LeasedMessage.batchSize (t.due name maxMessages now) ≤ maxIngestHexBytes := by
  have listed : t.Listed := reached ▸ listed_of_run host new inputs
  have answer : (t.handleControl host node payloadHex requester now).1 = reply := by rw [handled]
  rw [ControlReply.decode_encode lossless, ← answer]
  constructor
  · intro fits name maxMessages grant decoded admitted there commit
    rw [handleControl_of_decoded decoded (fun _ eq => nomatch eq), ControlRequest.grant, admitted] at fits
    have pulled := handleLease_of_committed there commit maxMessages now
    rw [serveControl, pulled] at fits
    exact (ControlReply.fits_pulled _).mp fits
  · intro small
    cases decoded : decodeControl host payloadHex with
    | error why =>
      rw [handleControl, decoded]
      exact ControlReply.fits_rejected (terse.decodeControl_error decoded)
    | ok req =>
      have within := terse.decodeControl_ok decoded
      by_cases high : ∃ grant, req = .highCursor grant
      · obtain ⟨grant, rfl⟩ := high
        rw [handleControl, decoded]
        exact ControlReply.fits_high cursors
      · rw [handleControl_of_decoded decoded fun grant eq => high ⟨grant, eq⟩]
        cases admitted : t.gate host node requester abilitySubscribe req.grant now with
        | error why =>
          exact ControlReply.fits_rejected
            (terse.gate_error listed.topic (by decide) within.grant admitted)
        | ok u =>
          by_cases pull : ∃ name maxMessages grant, req = .pull name maxMessages grant
          · obtain ⟨name, maxMessages, grant, rfl⟩ := pull
            by_cases commits : (t.subs.get name).isSome ∧ node.commitSubs = .ok ()
            · have pulled := handleLease_of_committed commits.1 commits.2 maxMessages now
              simp only [serveControl, pulled]
              exact (ControlReply.fits_pulled _).mpr
                (small name maxMessages grant decoded admitted commits.1 commits.2)
            · exact terse.handleLease_fits (within.named name rfl) commits
          · exact terse.serveControl_fits listed cursors within
              fun name maxMessages grant eq => pull ⟨name, maxMessages, grant, eq⟩

section

open Orders

/-- A host that knows the consumer's two requests. -/
private def queueHost : Host Unit := .reading [] [subscribing, pulling 2]

private theorem reads_pullingTwo : queueHost.serde.controlRequest (pulling 2).encode = .ok (pulling 2) := by
  refine Host.reads_tail ?_ (Host.reads_head [] (pulling 2) [])
  rw [ControlRequest.length_encode, ControlRequest.length_encode]
  decide +kernel

/-- The topic with one payload published twice. -/
private def filled (payload : Bytes) : Topic :=
  ((subscribed.publish {} payload 11).2.publish {} payload 12).2

/-- One payload, published twice to a topic with a subscription. -/
private def filling (payload : Bytes) : List Input :=
  [asks subscribing 10, .publish {} payload 11, .publish {} payload 12]

private theorem run_filling (payload : Bytes) :
    Run.run (Topic.step queueHost) orders (filling payload) = filled payload := by
  have created : orders.step queueHost (asks subscribing 10) = subscribed :=
    step_control_encode (small size_subscribing) (Host.reads_head _ _ _) rfl
  rw [filling, Run.run_cons, created]
  rfl

/-- What is stored of one publish. -/
private def stored (payload : Bytes) (cursor now : Nat) : Message :=
  { (Message.new 0 "aa" payload now).authenticated true with cursor }

section Filled

variable {payload : Bytes} (valid : validatePayload payload = .ok ())

include valid

/-- The log holds the payload under cursors 1 and 2. -/
private theorem filled_writer :
    (filled payload).writer = ⟨[stored payload 1 11, stored payload 2 12], 0⟩ := by
  simp only [filled, publish, valid]
  rfl

private theorem filled_subs : (filled payload).subs = subscribed.subs := by
  simp only [filled, publish, valid]
  rfl

private theorem filled_ungated : (filled payload).requireCap = false := by
  simp only [filled, publish, valid]
  rfl

/-- Both are due at the subscription. -/
private theorem due_filled : (filled payload).due "jobs" 2 20 =
    [⟨stored payload 1 11, 1⟩, ⟨stored payload 2 12, 1⟩] := by
  have all : (subscribed.subs.get "jobs").map (·.due 2 0 20 2) = some [(1, 1), (2, 1)] := by
    decide
  obtain ⟨s, found, leased⟩ := Option.map_eq_some_iff.mp all
  rw [due, filled_subs valid, found, filled_writer valid]
  simp only [TopicLog.highCursor, List.length_cons, List.length_nil, leased, resolve,
    filled_writer valid]
  rfl

end Filled

/-- A pull hands both out, each for the first time, -/
private theorem pulled_filled {payload : Bytes} (valid : validatePayload payload = .ok ()) :
    (filled payload).handleControl queueHost {} (Hex.encode (pulling 2).encode) "bb" 20 =
      (.pulled [⟨stored payload 1 11, 1⟩, ⟨stored payload 2 12, 1⟩],
        ((filled payload).handleLease {} "jobs" 2 20).2) := by
  have there : ((filled payload).subs.get "jobs").isSome := by
    rw [filled_subs valid]
    decide
  have reply : ((filled payload).handleLease {} "jobs" 2 20).1 =
      .pulled [⟨stored payload 1 11, 1⟩, ⟨stored payload 2 12, 1⟩] := by
    rw [handleLease_of_committed there rfl, due_filled valid]
  rw [handleControl_encode (small (size_pulling (by decide))) reads_pullingTwo (filled_ungated valid),
    pulling, serveControl,
    ← reply]

/-- and counts an attempt for each. -/
private theorem leased_filled {payload : Bytes} (valid : validatePayload payload = .ok ()) :
    (((filled payload).handleLease {} "jobs" 2 20).2.subs.get "jobs").map (·.attempts.toList) =
      some [(1, 1), (2, 1)] := by
  have there : (filled payload).subs.get "jobs" ≠ none := by
    rw [filled_subs valid]
    decide
  have plan : (filled payload).subs.planLease "jobs" (filled payload).writer.highCursor
      (filled payload).writer.floor 20 2 =
        some (.applyLease "jobs" [(1, 50), (2, 50)] [] 0, ⟨[(1, 1), (2, 1)], []⟩) := by
    rw [filled_subs valid, filled_writer valid]
    exact show subscribed.subs.planLease "jobs" 2 0 20 2 = _ by decide
  rw [handleLease, if_neg (mt Option.isNone_iff_eq_none.mp there), plan]
  simp only [List.isEmpty_nil, if_true, filled_subs valid]
  decide

/-- Two small messages are leased, and the reply is read. -/
theorem control_reply_decodes_pull :
    ∃ (reader : Serde) (reply : ControlReply), reply = .pulled
        [⟨stored [104, 105] 1 11, 1⟩, ⟨stored [104, 105] 2 12, 1⟩] ∧
      ControlReply.decode reader reply.encode = .ok reply := by
  have valid : validatePayload [104, 105] = .ok () := by decide
  have cursors : (filled [104, 105]).highCursor ≤ u64Max := by
    rw [highCursor, filled_writer valid]
    decide
  have within : ∀ req ∈ [subscribing, (pulling 2)], req.Within req.encode.length := by
    intro req mem
    rcases List.mem_pair.mp mem with rfl | rfl
    · refine ⟨?_, ?_, ?_⟩
      · rintro name ⟨⟩
        rw [ControlRequest.length_encode]
        decide +kernel
      · rintro token ⟨⟩
      · rintro name policy grant ⟨⟩
        decide
    · refine ⟨?_, ?_, ?_⟩
      · rintro name ⟨⟩
        rw [ControlRequest.length_encode]
        decide
      · rintro token ⟨⟩
      · rintro name policy grant ⟨⟩
  have terse : Terse queueHost {} (Hex.encode (pulling 2).encode) :=
    terse_reading ((Nat.mul_le_mul_left 2 (small (size_pulling (by decide)))).trans (by decide)) within rfl
  refine ⟨{ queueHost.serde with controlReply := fun _ => .ok (.pulled
    [⟨stored [104, 105] 1 11, 1⟩, ⟨stored [104, 105] 2 12, 1⟩]) }, _, rfl, ?_⟩
  refine (control_reply_decodes created (run_filling [104, 105]) cursors terse "bb" 20
    (pulled_filled valid) rfl).mpr ?_
  rintro name maxMessages grant decoded - - -
  rw [decodeControl_encode (small (size_pulling (by decide))) reads_pullingTwo] at decoded
  cases decoded
  rw [due_filled valid]
  decide +kernel

/-- **A pull no consumer can read**: two messages of the documented size are leased to a consumer,
which counts an attempt for each, in a reply past the bound every reader puts on it. -/
theorem pull_undecodable :
    ∃ (payload : Bytes) (t t' : Topic) (reply : ControlReply), payload.length ≤ maxPayloadBytes ∧
      t = Run.run (Topic.step queueHost) orders (filling payload) ∧
      t.handleControl queueHost {} (Hex.encode (pulling 2).encode) "bb" 20 = (reply, t') ∧
      (∀ reader, ControlReply.decode reader reply.encode =
        .error s!"control reply too large ({reply.encode.length} bytes)") ∧
      (t'.subs.get "jobs").map (·.attempts.toList) = some [(1, 1), (2, 1)] := by
  obtain ⟨payload, length⟩ : ∃ payload : Bytes, payload.length = maxPayloadBytes :=
    ⟨List.replicate maxPayloadBytes 0, List.length_replicate⟩
  have valid : validatePayload payload = .ok () := by
    rw [validatePayload, if_neg (Nat.not_lt_of_le (Nat.le_of_eq length))]
  refine ⟨payload, filled payload, _, _, Nat.le_of_eq length, (run_filling payload).symm,
    pulled_filled valid, fun reader => ControlReply.decode_of_large reader ?_, leased_filled valid⟩
  have first := LeasedMessage.payloadHex_lt_size ⟨stored payload 1 11, 1⟩
  have second := LeasedMessage.payloadHex_lt_size ⟨stored payload 2 12, 1⟩
  have hex : ∀ cursor now, (stored payload cursor now).payloadHex.utf8ByteSize = 2 * maxPayloadBytes := by
    intro cursor now
    rw [← length]
    exact Hex.utf8ByteSize_encode payload
  have beyond : maxIngestHexBytes < 4 * maxPayloadBytes := by decide
  rw [hex] at first second
  rw [ControlReply.fits_pulled, LeasedMessage.batchSize]
  simp only [List.map_cons, List.map_nil, List.sum_cons, List.sum_nil]
  omega

end

end Topic

end CePubsub
