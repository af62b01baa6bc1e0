import CePubsub.Laws.Codec
import CePubsub.Laws.Snapshot
import CePubsub.Wire

/-!
# The wire loses nothing

Every request and every reply is read back from the bytes it is written as, and so is every snapshot:
the formats carry the proof, and the text of JSON adds no confusion. So no two of them are written
alike, and a replica may be restarted from the bytes of a snapshot.

What the formats write is what the writers of the source write (`write_format`).
-/

namespace CePubsub

/-- What the formats write, the writers of the source write: of a leased message, -/
theorem LeasedMessage.write_format (l : LeasedMessage) : LeasedMessage.format.write l = l.toJson := by
  rw [LeasedMessage.toJson, ← Message.write_format]
  rfl

/-- of a request to publish, with what it leaves out, -/
theorem IngestRequest.write_format (r : IngestRequest) : IngestRequest.format.write r = r.toJson := by
  rw [IngestRequest.toJson, ← put_optional, ← put_optional, ← put_optional, ← put_attributes]
  simp only [IngestRequest.format, Format.struct, Format.Rows.field, Format.Rows.done,
    List.append_assoc, List.append_nil]
  rfl

/-- of the reply to one, -/
theorem IngestReply.write_format (r : IngestReply) : IngestReply.format.write r = r.toJson := by
  cases r <;> rfl

/-- of a control request, with a grant and without, -/
theorem ControlRequest.write_format (r : ControlRequest) : ControlRequest.format.write r = r.toJson := by
  cases r with
  | createSubscription name policy grant => cases grant <;> rfl
  | deleteSubscription name grant => cases grant <;> rfl
  | listSubscriptions grant => cases grant <;> rfl
  | highCursor grant => cases grant <;> rfl
  | pull name maxMessages grant => cases grant <;> rfl
  | ack name cursor grant => cases grant <;> rfl
  | nack name cursor grant => cases grant <;> rfl

/-- and of a control reply. -/
theorem ControlReply.write_format (r : ControlReply) : ControlReply.format.write r = r.toJson := by
  cases r with
  | ok => rfl
  | high c => rfl
  | subscriptions names => rfl
  | pulled leased =>
    have each : leased.map LeasedMessage.format.write = leased.map LeasedMessage.toJson :=
      List.map_congr_left fun l _ => l.write_format
    exact congrArg (fun vs => Json.obj [("Pulled", .arr vs)]) each
  | rejected why => rfl

/-! ## Requests and replies -/

/-- A reader made of a format reads back what the format writes. -/
theorem readOr_bytes {α : Type} (f : Format α) (a : α) : readOr f (f.write a).bytes = .ok a := by
  rw [readOr, f.readBytes_bytes]
  rfl

/-- The compact readers read back what the writers write: requests to publish, -/
theorem IngestRequest.read_encode (r : IngestRequest) :
    Serde.compact.ingestRequest r.encode = .ok r := by
  have reader : Serde.compact.ingestRequest = readOr IngestRequest.format := rfl
  rw [reader, encode, ← write_format, readOr_bytes]

/-- the replies to them, -/
theorem IngestReply.read_encode (r : IngestReply) : Serde.compact.ingestReply r.encode = .ok r := by
  have reader : Serde.compact.ingestReply = readOr IngestReply.format := rfl
  rw [reader, encode, ← write_format, readOr_bytes]

/-- control requests, -/
theorem ControlRequest.read_encode (r : ControlRequest) :
    Serde.compact.controlRequest r.encode = .ok r := by
  have reader : Serde.compact.controlRequest = readOr ControlRequest.format := rfl
  rw [reader, encode, ← write_format, readOr_bytes]

/-- and control replies. -/
theorem ControlReply.read_encode (r : ControlReply) :
    Serde.compact.controlReply r.encode = .ok r := by
  have reader : Serde.compact.controlReply = readOr ControlReply.format := rfl
  rw [reader, encode, ← write_format, readOr_bytes]

/-- A host with these readers; its capability library knows no chain. -/
def Host.compact : Host Unit := { Host.reading [] [] with serde := .compact }

/-- This host reads back every control request, -/
theorem Host.compact_reads (req : ControlRequest) :
    Host.compact.serde.controlRequest req.encode = .ok req := req.read_encode

/-- and every request to publish. -/
theorem Host.compact_reads_ingest (req : IngestRequest) :
    Host.compact.serde.ingestRequest req.encode = .ok req := req.read_encode

/-- What a reader reads back is written as nothing else. -/
theorem eq_of_read {α : Type} {encode : α → Bytes} {read : Bytes → Except String α}
    (lossless : ∀ a, read (encode a) = .ok a) {a b : α} (same : encode a = encode b) : a = b := by
  have read := lossless a
  rw [same, lossless b] at read
  exact (Except.ok.inj read).symm

namespace IngestRequest

/-- A request that is decoded from its hex carries no key that is too long. -/
theorem key_of_decodeHex {serde : Serde} {payloadHex : String} {r : IngestRequest}
    (decoded : decodeHex serde payloadHex = .ok r) :
    ∀ k, r.idempotencyKey = some k → k.utf8ByteSize ≤ maxIdempotencyKeyLen := by
  intro k chosen
  rw [decodeHex] at decoded
  split at decoded
  · cases decoded
  · cases bytes : Hex.decode payloadHex with
    | error e =>
      rw [bytes] at decoded
      cases decoded
    | ok body =>
      rw [bytes] at decoded
      simp only [decode, bind, Except.bind] at decoded
      split at decoded
      · cases decoded
      · cases read : serde.ingestRequest body with
        | error e =>
          rw [read] at decoded
          cases decoded
        | ok req =>
          rw [read] at decoded
          simp only at decoded
          split at decoded
          · cases decoded
          · cases key : req.idempotencyKey with
            | none =>
              rw [key] at decoded
              cases decoded
              rw [key] at chosen
              cases chosen
            | some l =>
              rw [key] at decoded
              simp only at decoded
              split at decoded
              · cases decoded
              · next short =>
                cases decoded
                rw [key] at chosen
                cases chosen
                exact Nat.le_of_not_lt short

end IngestRequest

/-- A reader of JSON reads back what is written. -/
structure Serde.Lossless (serde : Serde) : Prop where
  ingestRequest : ∀ r : IngestRequest, serde.ingestRequest r.encode = .ok r
  ingestReply : ∀ r : IngestReply, serde.ingestReply r.encode = .ok r
  controlRequest : ∀ r : ControlRequest, serde.controlRequest r.encode = .ok r
  controlReply : ∀ r : ControlReply, serde.controlReply r.encode = .ok r

/-- The compact readers are such. -/
theorem Serde.compact_lossless : Serde.compact.Lossless where
  ingestRequest := IngestRequest.read_encode
  ingestReply := IngestReply.read_encode
  controlRequest := ControlRequest.read_encode
  controlReply := ControlReply.read_encode

namespace Serde.Lossless

variable {serde : Serde} (h : serde.Lossless)

include h

/-- A request to publish is decoded if it is within the bounds on its hex and its key. -/
theorem decodeHex_encode_iff (r : IngestRequest) :
    IngestRequest.decodeHex serde (Hex.encode r.encode) = .ok r ↔
      2 * r.encode.length ≤ maxIngestHexBytes ∧
        ∀ k, r.idempotencyKey = some k → k.utf8ByteSize ≤ maxIdempotencyKeyLen := by
  constructor
  · intro decoded
    have key := IngestRequest.key_of_decodeHex decoded
    exact ⟨(IngestRequest.decodeHex_encode (h.ingestRequest r) key).mp decoded, key⟩
  · rintro ⟨small, key⟩
    exact (IngestRequest.decodeHex_encode (h.ingestRequest r) key).mpr small

/-- A control request is decoded if its body is within the bound. -/
theorem decode_control_iff (r : ControlRequest) :
    ControlRequest.decode serde r.encode = .ok r ↔ r.encode.length ≤ maxControlBodyBytes := by
  rw [ControlRequest.decode]
  constructor
  · intro decoded
    by_contra large
    rw [if_pos (Nat.lt_of_not_le large)] at decoded
    cases decoded
  · intro small
    rw [if_neg (Nat.not_lt_of_le small), h.controlRequest]

/-- A control reply is decoded if it is within the bound every consumer puts on it. -/
theorem decode_reply_iff (r : ControlReply) :
    ControlReply.decode serde r.encode = .ok r ↔ r.encode.length ≤ maxIngestHexBytes := by
  rw [ControlReply.decode_encode (h.controlReply r), ControlReply.Fits, ControlReply.length_encode]

end Serde.Lossless

/-- **The wire delivers what it has room for, and nothing else in its place**, if what reads JSON reads
back what is written. A request or a reply is decoded as what was written exactly when it keeps to the
bounds its decoder puts on it; and no two requests, and no two replies, are written alike. -/
theorem wire_delivers {serde : Serde} (lossless : serde.Lossless) :
    (∀ r : IngestRequest, IngestRequest.decodeHex serde (Hex.encode r.encode) = .ok r ↔
      2 * r.encode.length ≤ maxIngestHexBytes ∧
        ∀ k, r.idempotencyKey = some k → k.utf8ByteSize ≤ maxIdempotencyKeyLen) ∧
    (∀ r : IngestReply, IngestReply.decode serde r.encode = .ok r) ∧
    (∀ r : ControlRequest, ControlRequest.decode serde r.encode = .ok r ↔
      r.encode.length ≤ maxControlBodyBytes) ∧
    (∀ r : ControlReply, ControlReply.decode serde r.encode = .ok r ↔
      r.encode.length ≤ maxIngestHexBytes) ∧
    (∀ a b : IngestRequest, a.encode = b.encode → a = b) ∧
    (∀ a b : IngestReply, a.encode = b.encode → a = b) ∧
    (∀ a b : ControlRequest, a.encode = b.encode → a = b) ∧
    ∀ a b : ControlReply, a.encode = b.encode → a = b :=
  ⟨lossless.decodeHex_encode_iff, lossless.ingestReply, lossless.decode_control_iff,
    lossless.decode_reply_iff, fun _ _ => eq_of_read lossless.ingestRequest,
    fun _ _ => eq_of_read lossless.ingestReply, fun _ _ => eq_of_read lossless.controlRequest,
    fun _ _ => eq_of_read lossless.controlReply⟩

/-- The readers of the formats deliver, and so what is written is unambiguous. -/
theorem wire_delivers_compact :
    (∀ r : IngestRequest, IngestRequest.decodeHex .compact (Hex.encode r.encode) = .ok r ↔
      2 * r.encode.length ≤ maxIngestHexBytes ∧
        ∀ k, r.idempotencyKey = some k → k.utf8ByteSize ≤ maxIdempotencyKeyLen) ∧
    (∀ r : ControlReply, ControlReply.decode .compact r.encode = .ok r ↔
      r.encode.length ≤ maxIngestHexBytes) ∧
    (∀ a b : ControlRequest, a.encode = b.encode → a = b) ∧
    ∀ a b : ControlReply, a.encode = b.encode → a = b := by
  obtain ⟨ingest, -, -, reply, -, -, requests, replies⟩ := wire_delivers Serde.compact_lossless
  exact ⟨ingest, reply, requests, replies⟩

/-! ## Snapshots -/

/-- The bytes of a snapshot of the log hold the log, -/
theorem TopicLog.loadBytes_saveBytes (s : TopicLog) : loadBytes s.saveBytes = some s :=
  TopicLog.format.readBytes_bytes s

/-- and those of a snapshot of the registry the registry. -/
theorem SubRegistry.loadBytes_saveBytes (r : SubRegistry) : loadBytes r.saveBytes = some r :=
  SubRegistry.format.readBytes_bytes r

/-- **A replica may live from the bytes of snapshots**, with whatever reads back what is saved: however
often either machine is saved as bytes and started again from them, it ends where one that never stopped
does, and only one state has the bytes of a snapshot. -/
theorem relay_of_bytes {loadLog : Bytes → Option TopicLog} {loadSubs : Bytes → Option SubRegistry}
    (logLossless : ∀ s : TopicLog, loadLog s.saveBytes = some s)
    (subsLossless : ∀ r : SubRegistry, loadSubs r.saveBytes = some r) (logOps : List (List LogOp))
    (subOps : List (List SubOp)) :
    Run.relay TopicLog.apply TopicLog.saveBytes loadLog {} logOps =
        some (TopicLog.replay logOps.flatten) ∧
      Run.relay SubRegistry.apply SubRegistry.saveBytes loadSubs {} subOps =
        some (SubRegistry.replayed subOps.flatten) ∧
      (∀ s t : TopicLog, s.saveBytes = t.saveBytes → s = t) ∧
      ∀ r q : SubRegistry, r.saveBytes = q.saveBytes → r = q :=
  ⟨Run.relay_eq logLossless {} logOps, Run.relay_eq subsLossless {} subOps,
    fun _ _ same => TopicLog.format.bytes_injective same,
    fun _ _ same => SubRegistry.format.bytes_injective same⟩

/-- The readers of the formats read back what is saved. -/
theorem relay_of_bytes_compact :
    (∀ logOps, Run.relay TopicLog.apply TopicLog.saveBytes TopicLog.loadBytes {} logOps =
        some (TopicLog.replay logOps.flatten)) ∧
      ∀ subOps, Run.relay SubRegistry.apply SubRegistry.saveBytes SubRegistry.loadBytes {} subOps =
        some (SubRegistry.replayed subOps.flatten) := by
  have relays := relay_of_bytes TopicLog.loadBytes_saveBytes SubRegistry.loadBytes_saveBytes
  exact ⟨fun logOps => (relays logOps []).1, fun subOps => (relays [] subOps).2.1⟩

end CePubsub
