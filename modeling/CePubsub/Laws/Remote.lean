import CePubsub.Client
import CePubsub.Laws.Owner

/-!
# Publishing from another node

A publisher's checks are the owner's: what they let through, the owner would append as its own
publish. Between them stands the bound on the hex of a request's JSON, which is twice the bound on a
payload and some room; but the payload is hex inside the JSON already, so it is doubled twice.
`publish_to_with_accepted` says exactly what passes: the payload twice over, with what its options
take in JSON, in half the bound. A payload past about half the documented limit does not
(`payload_refused`).
-/

namespace CePubsub

namespace PubSub

/-- What a request takes beside the digits of its payload: the field's name and quotes, the ordering
key and the attributes. -/
def envelopeSize (opts : PublishOptions) : Nat :=
  18 + (match opts.orderingKey with
    | some k => 16 + Json.quotedSize k
    | none => 0) +
    if opts.attributes.isEmpty then 0
    else 14 + (Json.obj (opts.attributes.toList.map fun (k, v) => (k, .str v))).size

variable {topic : String} {payload : Bytes} {opts : PublishOptions} {req : IngestRequest}

/-- The checks a sent request has passed. -/
theorem checks_of_publishRequest {grant idempotencyKey : Option String}
    (sends : publishRequest topic payload grant opts idempotencyKey = .ok req) :
    validatePayload payload = .ok () ∧ opts.validate = .ok () ∧
      req = ⟨Hex.encode payload, grant, idempotencyKey, opts.orderingKey, opts.attributes⟩ := by
  simp only [publishRequest, bind, Except.bind] at sends
  split at sends
  · cases sends
  · split at sends
    · cases sends
    · next u validPayload =>
      split at sends
      · cases sends
      · next u' validOpts =>
        cases sends
        exact ⟨validPayload, validOpts, rfl⟩

theorem length_encode_publishRequest
    (sends : publishRequest topic payload none opts none = .ok req) :
    req.encode.length = 2 * payload.length + envelopeSize opts := by
  obtain ⟨-, -, rfl⟩ := checks_of_publishRequest sends
  have payload_hex : Json.quotedSize "payload_hex" = 13 := by decide
  have ordering_key : Json.quotedSize "ordering_key" = 14 := by decide
  have attributes : Json.quotedSize "attributes" = 12 := by decide
  rw [IngestRequest.length_encode, IngestRequest.toJson, List.append_assoc, List.append_assoc,
    List.append_assoc, List.singleton_append, Json.size_obj_cons]
  simp only [Json.membersSize_cons, Json.membersSize_append, membersSize_optionalField,
    membersSize_mapField, Json.fieldSize, Json.size_str, Json.quotedSize_encode, payload_hex,
    ordering_key, attributes, envelopeSize]
  cases opts.orderingKey <;> cases opts.attributes.isEmpty <;>
    simp only [if_true, Bool.false_eq_true, if_false] <;> omega

/-- The message a publish makes, before it is stamped. -/
def unstamped (publisher : String) (payload : Bytes) (opts : PublishOptions) (authenticated : Bool)
    (now : Nat) : Message :=
  { (Message.new 0 publisher payload now).authenticated authenticated with
    orderingKey := opts.orderingKey
    attributes := opts.attributes }

/-- The checks a publisher makes are those the owner makes of the request. -/
theorem ingestMessage_of_publishRequest {Link : Type} (host : Host Link)
    (sends : publishRequest topic payload none opts none = .ok req) (publisher : String)
    (authenticated : Bool) (now : Nat) :
    Topic.ingestMessage host req publisher authenticated now =
      .ok (unstamped publisher payload opts authenticated now) := by
  obtain ⟨validPayload, validOpts, rfl⟩ := checks_of_publishRequest sends
  unfold PublishOptions.validate at validOpts
  split at validOpts
  · cases validOpts
  · next short =>
    simp only [Topic.ingestMessage, short, validOpts, Hex.decode_encode, validPayload, bind,
      Except.bind, Except.mapError, unstamped]

theorem applyIngest_of_publishRequest {Link : Type} (host : Host Link)
    (sends : publishRequest topic payload none opts none = .ok req) {t : Topic}
    (ungated : t.requireCap = false) (node : Answers) (publisher : String) (now : Nat) :
    t.applyIngest host node req publisher now =
      ((t.appendAndFanout node (unstamped publisher payload opts false now)).1.mapError
          (fun e => s!"append failed: {e}"),
        (t.appendAndFanout node (unstamped publisher payload opts false now)).2) := by
  rw [Topic.applyIngest, Topic.gate_of_ungated host ungated, ungated]
  simp only [ingestMessage_of_publishRequest host sends]
  cases t.appendAndFanout node (unstamped publisher payload opts false now) with
  | mk outcome t' => cases outcome <;> rfl

/-- **What the owner's path accepts, the remote path accepts, exactly when the payload twice over and
what its options take fit in half the bound**: the request is decoded as it was sent, and what is
appended for it has the payload, the ordering key and the attributes of what the owner's own publish
would append. -/
theorem publish_to_with_accepted {Link : Type} (host : Host Link) (topic : String) (payload : Bytes)
    (opts : PublishOptions) (req : IngestRequest)
    (sends : publishRequest topic payload none opts none = .ok req)
    (lossless : host.serde.ingestRequest req.encode = .ok req) (t : Topic)
    (ungated : t.requireCap = false) (node : Answers) (publisher : String) (now : Nat) :
    (IngestRequest.decodeHex host.serde (Hex.encode req.encode) = .ok req ∧
      ∃ msg own : Message, msg.payloadHex = own.payloadHex ∧ msg.orderingKey = own.orderingKey ∧
        msg.attributes = own.attributes ∧
        t.applyIngest host node req publisher now =
          ((t.appendAndFanout node msg).1.mapError (fun e => s!"append failed: {e}"),
            (t.appendAndFanout node msg).2) ∧
        t.publishWith node payload opts now = t.appendAndFanout node own) ↔
      2 * payload.length + envelopeSize opts ≤ maxIngestHexBytes / 2 := by
  obtain ⟨validPayload, validOpts, req_eq⟩ := checks_of_publishRequest sends
  have unkeyed : ∀ k, req.idempotencyKey = some k → k.utf8ByteSize ≤ maxIdempotencyKeyLen := by
    rw [req_eq]
    rintro k ⟨⟩
  have half : 2 * (2 * payload.length + envelopeSize opts) ≤ maxIngestHexBytes ↔
      2 * payload.length + envelopeSize opts ≤ maxIngestHexBytes / 2 := by
    rw [Nat.le_div_iff_mul_le (by decide), Nat.mul_comm]
  rw [IngestRequest.decodeHex_encode lossless unkeyed, length_encode_publishRequest sends, half]
  refine and_iff_left ⟨unstamped publisher payload opts false now,
    unstamped t.nodeId payload opts true now, rfl, rfl, rfl, ?_, ?_⟩
  · exact applyIngest_of_publishRequest host sends ungated node publisher now
  · rw [Topic.publishWith, validPayload, validOpts]
    rfl

/-- A small payload with no options. -/
theorem publish_to_with_accepted_small :
    ∃ req : IngestRequest, IngestRequest.decodeHex (Host.reading [req] []).serde
      (Hex.encode req.encode) = .ok req := by
  refine ⟨⟨Hex.encode [104, 105], none, none, none, ∅⟩, ?_⟩
  have sends : publishRequest "orders" [104, 105] none {} none =
      .ok ⟨Hex.encode [104, 105], none, none, none, ∅⟩ := by
    simp only [publishRequest, bind, Except.bind,
      show validateTopic "orders" = .ok () by decide,
      show validatePayload [104, 105] = .ok () by decide,
      show PublishOptions.validate {} = .ok () by decide]
  exact ((publish_to_with_accepted (Host.reading [⟨Hex.encode [104, 105], none, none, none, ∅⟩] [])
    "orders" [104, 105] {} _ sends (Host.reads_ingest _ [] []) { nodeId := "aa", topic := "orders" }
    rfl {} "bb" 10).mpr (by decide)).1

/-- **A payload refused**: about half the documented limit, which passes every check the publisher
makes, and whose request no reader decodes. -/
theorem payload_refused :
    ∃ payload req, payload.length ≤ maxPayloadBytes ∧
      publishRequest "orders" payload none {} none = .ok req ∧
      ∀ serde, IngestRequest.decodeHex serde (Hex.encode req.encode) =
        .error s!"ingest request hex too large ({2 * (2 * 5259256 + 18)} bytes)" := by
  obtain ⟨payload, length⟩ : ∃ payload : Bytes, payload.length = 5259256 :=
    ⟨List.replicate 5259256 0, List.length_replicate⟩
  have valid : validatePayload payload = .ok () := by
    rw [validatePayload, if_neg (by rw [length]; decide)]
  have sends : publishRequest "orders" payload none {} none =
      .ok ⟨Hex.encode payload, none, none, none, ∅⟩ := by
    simp only [publishRequest, bind, Except.bind, valid,
      show validateTopic "orders" = .ok () by decide,
      show PublishOptions.validate {} = .ok () by decide]
  refine ⟨payload, _, ?_, sends, fun serde => ?_⟩
  · rw [length]
    decide
  · have size := length_encode_publishRequest sends
    rw [length, show envelopeSize {} = 18 by decide] at size
    rw [IngestRequest.decodeHex, Hex.utf8ByteSize_encode, size, if_pos (by decide)]

end PubSub

end CePubsub
