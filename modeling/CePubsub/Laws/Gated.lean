import CePubsub.Laws.Codec
import CePubsub.Laws.Owner

/-!
# What a gated topic tells an outsider

An outsider asks a topic that requires a grant and has none that verifies. What the gate looks at is
`Alike` in two topics; nothing else of them, not a message, not a subscription, is in what the
outsider is told, except the high cursor, which anybody is told. Nor is anything changed.
`outsider_learns_nothing` says it of one request of any kind, well formed or not, and
`outsiders_learn_nothing` of requests one after the other.
-/

namespace CePubsub

namespace Topic

variable {Link : Type} (host : Host Link)

/-- Two topics of one owner and name that accept the same roots, gated or open both, and have given
out as many cursors. -/
structure Alike (t₁ t₂ : Topic) : Prop where
  nodeId : t₁.nodeId = t₂.nodeId
  topic : t₁.topic = t₂.topic
  acceptedRoots : t₁.acceptedRoots = t₂.acceptedRoots
  requireCap : t₁.requireCap = t₂.requireCap
  highCursor : t₁.highCursor = t₂.highCursor

/-- The request, if it is one, carries no grant that allows its sender to subscribe. -/
def Outsider (t : Topic) (node : Answers) (payloadHex requester : String) (now : Nat) : Prop :=
  ∀ req token, decodeControl host payloadHex = .ok req → req.grant = some token →
    t.authorize host node requester abilitySubscribe token now ≠ .ok ()

variable {host} {t t₁ t₂ : Topic} {node node₁ node₂ : Answers} {payloadHex requester : String}
  {now : Nat}

/-! ## The gate -/

/-- Topics alike authorize alike. -/
theorem authorize_alike (alike : t₁.Alike t₂) (revoked : node₁.revoked = node₂.revoked)
    (requester ability token : String) (now : Nat) :
    t₁.authorize host node₁ requester ability token now =
      t₂.authorize host node₂ requester ability token now := by
  unfold authorize fetchRevoked
  rw [alike.nodeId, alike.topic, alike.acceptedRoots, revoked]

/-- Topics alike admit alike. -/
theorem gate_alike (alike : t₁.Alike t₂) (revoked : node₁.revoked = node₂.revoked)
    (requester ability : String) (grant : Option String) (now : Nat) :
    t₁.gate host node₁ requester ability grant now =
      t₂.gate host node₂ requester ability grant now := by
  unfold gate
  rw [alike.requireCap]
  simp only [authorize_alike alike revoked]

/-- An outsider to one topic is one to every topic like it. -/
theorem Outsider.alike (outsider : t₁.Outsider host node₁ payloadHex requester now)
    (alike : t₁.Alike t₂) (revoked : node₁.revoked = node₂.revoked) :
    t₂.Outsider host node₂ payloadHex requester now := by
  intro req token decoded carries
  rw [← authorize_alike alike revoked]
  exact outsider req token decoded carries

/-- A gated topic turns an outsider's request away. -/
theorem Outsider.refused (outsider : t.Outsider host node payloadHex requester now)
    (gated : t.requireCap = true) {req : ControlRequest}
    (decoded : decodeControl host payloadHex = .ok req) :
    ∃ why, t.gate host node requester abilitySubscribe req.grant now = .error why := by
  unfold gate
  rw [if_pos gated]
  cases carried : req.grant with
  | none => exact ⟨_, rfl⟩
  | some token =>
    cases authorized : t.authorize host node requester abilitySubscribe token now with
    | error why => exact ⟨why, authorized⟩
    | ok done => exact absurd authorized (outsider req token decoded carried)

/-- A token that is no chain authorizes nothing. -/
theorem authorize_of_undecodable {requester ability token e : String} {now : Nat}
    (undecodable : host.iam.decodeChain token = .error e) :
    t.authorize host node requester ability token now ≠ .ok () := by
  intro authorized
  simp only [authorize, verifyLink, undecodable, bind, Except.bind] at authorized
  split at authorized
  · cases authorized
  · split at authorized
    · cases authorized
    · split at authorized <;> cases authorized

/-! ## The reply -/

/-- An outsider's request leaves a gated topic as it was. -/
theorem handleControl_of_outsider (gated : t.requireCap = true)
    (outsider : t.Outsider host node payloadHex requester now) :
    (t.handleControl host node payloadHex requester now).2 = t := by
  cases decoded : decodeControl host payloadHex with
  | error why => rw [handleControl, decoded]
  | ok req =>
    by_cases high : ∃ grant, req = .highCursor grant
    · obtain ⟨grant, rfl⟩ := high
      rw [handleControl, decoded]
    · obtain ⟨why, refused⟩ := outsider.refused gated decoded
      rw [handleControl_of_decoded decoded fun grant eq => high ⟨grant, eq⟩, refused]

/-- What a gated topic tells an outsider is what one that is alike does. -/
theorem reply_alike (gated : t₁.requireCap = true) (alike : t₁.Alike t₂)
    (revoked : node₁.revoked = node₂.revoked)
    (outsider : t₁.Outsider host node₁ payloadHex requester now) :
    (t₁.handleControl host node₁ payloadHex requester now).1 =
      (t₂.handleControl host node₂ payloadHex requester now).1 := by
  cases decoded : decodeControl host payloadHex with
  | error why => rw [handleControl, handleControl, decoded]
  | ok req =>
    by_cases high : ∃ grant, req = .highCursor grant
    · obtain ⟨grant, rfl⟩ := high
      rw [handleControl, handleControl, decoded]
      exact congrArg ControlReply.high alike.highCursor
    · obtain ⟨why, refused⟩ := outsider.refused gated decoded
      rw [handleControl_of_decoded decoded fun grant eq => high ⟨grant, eq⟩,
        handleControl_of_decoded decoded fun grant eq => high ⟨grant, eq⟩,
        ← gate_alike alike revoked, refused]

/-- **An outsider is told the same by two gated topics that are alike, and changes neither.** -/
theorem outsider_learns_nothing (host : Host Link) (t₁ t₂ : Topic) (node₁ node₂ : Answers)
    (payloadHex requester : String) (now : Nat) (gated : t₁.requireCap = true)
    (alike : t₁.Alike t₂) (revoked : node₁.revoked = node₂.revoked)
    (outsider : t₁.Outsider host node₁ payloadHex requester now) :
    (t₁.handleControl host node₁ payloadHex requester now).1 =
        (t₂.handleControl host node₂ payloadHex requester now).1 ∧
      (t₁.handleControl host node₁ payloadHex requester now).2 = t₁ ∧
      (t₂.handleControl host node₂ payloadHex requester now).2 = t₂ := by
  have gated₂ : t₂.requireCap = true := alike.requireCap ▸ gated
  exact ⟨reply_alike gated alike revoked outsider, handleControl_of_outsider gated outsider,
    handleControl_of_outsider gated₂ (outsider.alike alike revoked)⟩

/-! A subscription's queue on two owners that have published something else each. -/

/-- A pull with a token nobody signed. -/
private def pullLedger : ControlRequest := .pull "ledger" 10 (some "forged")

/-- A host that reads this request only. -/
private def ledgerHost : Host Unit := .reading [] [pullLedger]

/-- The node of the topic. -/
private def ownerOfLedger : String := String.ofList (List.replicate 64 'a')

/-- The node that asks. -/
private def askerHex : String := String.ofList (List.replicate 64 'b')

/-- A gated topic with one message and some subscriptions. -/
private def ledger (payload : Bytes) (subs : SubRegistry) : Topic where
  nodeId := ownerOfLedger
  topic := "ledger"
  writer := { messages := [Message.new 1 ownerOfLedger payload 10] }
  subs := subs
  requireCap := true

private theorem pullLedger_decoded :
    decodeControl ledgerHost (Hex.encode pullLedger.encode) = .ok pullLedger := by
  refine decodeControl_encode ?_ (Host.reads_head [] pullLedger [])
  rw [ControlRequest.length_encode]
  decide

/-- The token authorizes nothing on any topic. -/
private theorem forged_refused (t : Topic) (req : ControlRequest) (token : String)
    (_ : decodeControl ledgerHost (Hex.encode pullLedger.encode) = .ok req)
    (_ : req.grant = some token) :
    t.authorize ledgerHost {} askerHex abilitySubscribe token 20 ≠ .ok () :=
  authorize_of_undecodable rfl

theorem outsider_learns_nothing_pull :
    let empty := ledger [1] {}
    let opened := ledger [2] (.apply {} (.create "ledger" {}))
    decodeControl ledgerHost (Hex.encode pullLedger.encode) = .ok pullLedger ∧
      empty.writer ≠ opened.writer ∧ empty.subs ≠ opened.subs ∧
      (empty.handleControl ledgerHost {} (Hex.encode pullLedger.encode) askerHex 20).1 =
        (opened.handleControl ledgerHost {} (Hex.encode pullLedger.encode) askerHex 20).1 ∧
      (empty.handleControl ledgerHost {} (Hex.encode pullLedger.encode) askerHex 20).2 = empty ∧
      (opened.handleControl ledgerHost {} (Hex.encode pullLedger.encode) askerHex 20).2 = opened := by
  refine ⟨pullLedger_decoded, by decide, by decide, outsider_learns_nothing ledgerHost (ledger [1] {})
    (ledger [2] (.apply {} (.create "ledger" {}))) {} {} (Hex.encode pullLedger.encode) askerHex 20
    rfl ⟨rfl, rfl, rfl, rfl, rfl⟩ rfl (forged_refused (ledger [1] {}))⟩

/-! ## One request after the other -/

/-- A request, and how the owner's calls outside turn out while it is served. -/
structure Ask where
  node : Answers
  payloadHex : String
  requester : String
  now : Nat

/-- Serve requests in turn: the replies, and the topic that is left. -/
def serveAll (host : Host Link) (t : Topic) : List Ask → List ControlReply × Topic
  | [] => ([], t)
  | ask :: asks =>
    let (reply, t) := t.handleControl host ask.node ask.payloadHex ask.requester ask.now
    let (replies, t) := serveAll host t asks
    (reply :: replies, t)

/-- However often they ask, outsiders are told nothing by which two gated topics that are alike
could be told apart. -/
theorem outsiders_learn_nothing (gated : t₁.requireCap = true) (alike : t₁.Alike t₂)
    {asks : List Ask}
    (outsiders : ∀ ask ∈ asks, t₁.Outsider host ask.node ask.payloadHex ask.requester ask.now) :
    (t₁.serveAll host asks).1 = (t₂.serveAll host asks).1 ∧ (t₁.serveAll host asks).2 = t₁ ∧
      (t₂.serveAll host asks).2 = t₂ := by
  have gated₂ : t₂.requireCap = true := alike.requireCap ▸ gated
  induction asks with
  | nil => exact ⟨rfl, rfl, rfl⟩
  | cons ask asks ih =>
    have outsider := outsiders ask List.mem_cons_self
    have same := reply_alike gated alike rfl outsider
    have kept₁ := handleControl_of_outsider gated outsider
    have kept₂ := handleControl_of_outsider gated₂ (outsider.alike alike rfl)
    obtain ⟨replies, rest₁, rest₂⟩ := ih fun other mem => outsiders other (List.mem_cons_of_mem _ mem)
    simp only [serveAll, kept₁, kept₂, same, replies, rest₁, rest₂, and_self]

end Topic

end CePubsub
