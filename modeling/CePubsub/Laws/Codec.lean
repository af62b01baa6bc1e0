import CePubsub.Topic

/-!
# What is written and read back

The owner reads what a client wrote: the request's JSON, which the node hands it as hex. With readers
that read a request's own JSON back, a control request is decoded when its JSON is within
`MAX_CONTROL_BODY_BYTES`, and an ingest request exactly when the hex of its JSON is within
`MAX_INGEST_HEX_BYTES`. A control reply goes the other way, and a consumer reads it exactly when its
JSON is within that bound.
-/

namespace CePubsub

/-- A host whose readers know the requests named, for runs on fixed inputs; its capability library
knows no chain. -/
def Host.reading (ingests : List IngestRequest) (controls : List ControlRequest) : Host Unit where
  serde :=
    { ingestRequest := fun bytes =>
        (ingests.find? fun r => r.encode = bytes).elim (.error "expected value") .ok
      ingestReply := fun _ => .error "expected value"
      controlRequest := fun bytes =>
        (controls.find? fun r => r.encode = bytes).elim (.error "expected value") .ok
      controlReply := fun _ => .error "expected value"
      hexError := fun
        | .invalidHexCharacter c index => s!"Invalid character '{c}' at position {index}"
        | .oddLength => "Odd number of digits" }
  iam :=
    { decodeChain := fun _ => .error "bad capability chain"
      authorize := fun _ _ _ _ _ _ _ _ => .error "not authorized"
      pathPrefix := fun _ => none }

theorem Host.reads_ingest (req : IngestRequest) (ingests : List IngestRequest)
    (controls : List ControlRequest) :
    (Host.reading (req :: ingests) controls).serde.ingestRequest req.encode = .ok req := by
  have found : (req :: ingests).find? (fun r => decide (r.encode = req.encode)) = some req :=
    List.find?_cons_of_pos (decide_eq_true rfl)
  simp only [Host.reading, found, Option.elim]

theorem Host.reads_head (ingests : List IngestRequest) (req : ControlRequest)
    (controls : List ControlRequest) :
    (Host.reading ingests (req :: controls)).serde.controlRequest req.encode = .ok req := by
  have found : (req :: controls).find? (fun r => decide (r.encode = req.encode)) = some req :=
    List.find?_cons_of_pos (decide_eq_true rfl)
  simp only [Host.reading, found, Option.elim]

theorem Host.reads_tail {ingests : List IngestRequest} {other req : ControlRequest}
    {controls : List ControlRequest} (ne : other.encode.length ≠ req.encode.length)
    (reads : (Host.reading ingests controls).serde.controlRequest req.encode = .ok req) :
    (Host.reading ingests (other :: controls)).serde.controlRequest req.encode = .ok req := by
  have skipped : (other :: controls).find? (fun r => decide (r.encode = req.encode)) =
      controls.find? fun r => decide (r.encode = req.encode) :=
    List.find?_cons_of_neg fun same => ne (congrArg List.length (of_decide_eq_true same))
  simpa only [Host.reading, skipped] using reads

variable {Link : Type}

/-- A request small enough, which the readers read back, is decoded from its hex. -/
theorem Topic.decodeControl_encode {host : Host Link} {req : ControlRequest}
    (small : req.encode.length ≤ maxControlBodyBytes)
    (lossless : host.serde.controlRequest req.encode = .ok req) :
    Topic.decodeControl host (Hex.encode req.encode) = .ok req := by
  rw [Topic.decodeControl, Hex.decode_encode]
  simp only [ControlRequest.decode, if_neg (Nat.not_lt_of_le small), lossless]
  rfl

namespace IngestRequest

variable {serde : Serde} {req : IngestRequest}

/-- A request's JSON holds its payload's hex. -/
theorem payloadHex_lt_encode (req : IngestRequest) :
    req.payloadHex.utf8ByteSize < req.encode.length := by
  have quoted := (Json.quotedSize_bounds req.payloadHex).1
  rw [length_encode, toJson, Json.size_obj]
  simp only [List.cons_append, List.nil_append, List.map_cons, List.sum_cons, Json.fieldSize,
    Json.size_str]
  omega

/-- **A request is decoded from the hex of its JSON exactly when that is within the bound.** -/
theorem decodeHex_encode (lossless : serde.ingestRequest req.encode = .ok req)
    (key : ∀ k, req.idempotencyKey = some k → k.utf8ByteSize ≤ maxIdempotencyKeyLen) :
    decodeHex serde (Hex.encode req.encode) = .ok req ↔
      2 * req.encode.length ≤ maxIngestHexBytes := by
  have holds := req.payloadHex_lt_encode
  constructor
  · intro decoded
    by_contra large
    rw [decodeHex, Hex.utf8ByteSize_encode, if_pos (Nat.lt_of_not_le large)] at decoded
    cases decoded
  · intro small
    rw [decodeHex, Hex.utf8ByteSize_encode, if_neg (Nat.not_lt_of_le small), Hex.decode_encode]
    simp only [decode, lossless, bind, Except.bind]
    rw [if_neg (by omega), if_neg (by omega)]
    cases chosen : req.idempotencyKey with
    | none => rfl
    | some k => exact if_neg (Nat.not_lt_of_le (key k chosen))

end IngestRequest

namespace ControlReply

/-- The reply's JSON is within the bound on what a consumer reads. -/
def Fits (reply : ControlReply) : Prop := reply.toJson.size ≤ maxIngestHexBytes

/-- **A control reply is read exactly when its JSON is within the bound.** -/
theorem decode_encode {serde : Serde} {reply : ControlReply}
    (lossless : serde.controlReply reply.encode = .ok reply) :
    decode serde reply.encode = .ok reply ↔ reply.Fits := by
  rw [decode, length_encode, Fits]
  constructor
  · intro decoded
    by_contra large
    rw [if_pos (Nat.lt_of_not_le large)] at decoded
    cases decoded
  · intro small
    rw [if_neg (Nat.not_lt_of_le small), lossless]

theorem decode_of_large {reply : ControlReply} (serde : Serde) (large : ¬ reply.Fits) :
    decode serde reply.encode =
      .error s!"control reply too large ({reply.encode.length} bytes)" := by
  rw [decode, length_encode, if_pos (Nat.lt_of_not_le large)]

end ControlReply

end CePubsub
