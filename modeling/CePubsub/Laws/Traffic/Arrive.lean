import CePubsub.Laws.Traffic.Steps

/-!
# A request arrives at the ingest worker

The worker decodes what the inbox shows, and looks the key up. A request it cannot read or has seen before
is replied to at once; with any other it goes to the gate.
-/

namespace CePubsub

variable {Link : Type} {host : Host Link}

namespace Traffic

variable {t : Topic} {s : Traffic} {m : Mesh} {unheard : List Message} {due : Option MeshEvent} {call : Nat}

/-- While the ingest worker is idle the cache is as it is to be. -/
theorem Shows.cached (h : Shows host t s m unheard due) (free : s.ingesting = none) :
    m.inner.topic.dedup = s.topic.dedup := by
  have ingest := h.ingest
  rw [IngestAt, free] at ingest
  exact ingest

/-- The ingest worker replies to a request as it arrives. -/
def recalling (s : Traffic) (call : Nat) (r : Request) (cache : IdempotencyCache) (reply : IngestReply) :
    Traffic :=
  { s with
    serving := { s.serving with topic := { s.topic with dedup := cache } }.enter call (.replied reply)
    asked := Function.update s.asked call (some r)
    ingesting := none
    past := s.past ++ [r.event (.ingested reply)] }

/-- A request that is replied to as it arrives. -/
theorem Shows.answersAtOnce (h : Shows host t s m unheard due) (free : s.ingesting = none)
    (new : s.serving.calls call = none) {r : Request} {token : Nat} {reply : IngestReply}
    {cache : IdempotencyCache} (under : r.token = some token) (sends : s.Sends t token r.input)
    (replied : m.inner.topic.reply host r.input = .ingested reply)
    (left : m.inner.topic.step host r.input = { m.inner.topic with dedup := cache })
    (committed : (m.inner.topic.call host r.input).bind m.inner.topic.commits = none) :
    Shows host t (s.recalling call r cache reply)
      (m.after { m.inner.topic with dedup := cache } (r.event (.ingested reply))) unheard due := by
  have before : ∀ who msg, s.serving.calls call ≠ some (.appended who msg) := by
    rintro who msg later
    cases new.symm.trans later
  have noted := h.ask new r
  have returned : (CallPhase.replied reply).Own s.topic.nodeId r := trivial
  have finished := noted.moves (Function.update_self _ _ _) (h.ne_of_new new) before rfl returned
  have sequential : (m.after { m.inner.topic with dedup := cache } (r.event (.ingested reply))).Sequential
      host t := by
    rw [Request.event_served under]
    exact h.served sends replied left
  have debt : (s.recalling call r cache reply).debt = s.debt :=
    debt_stable (fun c under => (h.control c under).1) rfl rfl (.refl _)
  have same : s.topic.SameGate (s.recalling call r cache reply).topic := ⟨rfl, rfl, rfl, rfl⟩
  refine finished.takes [] rfl rfl free.symm (List.append_nil _).symm rfl (r.input_event _) (r.sent_event _)
    sequential ?_ ⟨h.gate.nodeId, h.gate.topic, h.gate.acceptedRoots,
      h.gate.requireCap⟩ rfl h.writer ?_ ?_ ?_ h.live ?_ ?_
  · rw [committed]
    rfl
  · exact congrArg Debt.event debt
  · rw [debt]
    exact h.subs
  · rw [debt]
    exact h.dead
  · rfl
  · exact fun c under => (h.control c under).imp_left (·.stable same fun _ => Nat.le_refl _)

/-- The ingest worker takes a request up. -/
def taking (s : Traffic) (call : Nat) (r : Request) (cache : IdempotencyCache) (c : IngestCall) : Traffic :=
  { s with
    serving := { s.serving with topic := { s.topic with dedup := cache } }.enter call (.gate c)
    asked := Function.update s.asked call (some r)
    ingesting := some call }

/-- A request the cache does not know. -/
theorem Shows.takesUp (h : Shows host t s m unheard due) (free : s.ingesting = none)
    (new : s.serving.calls call = none) {r : Request} {token : Nat} {c : IngestCall}
    {cache : IdempotencyCache} (under : r.token = some token) (sends : s.Sends t token r.input)
    (decodes : Topic.Decodes host r.input token c)
    (missed : s.topic.dedup.get c.key c.now = (none, cache)) :
    Shows host t (s.taking call r cache c) m unheard due := by
  have noted := h.ask new r
  have before : ∀ who msg, s.serving.calls call ≠ some (.appended who msg) := by
    rintro who msg later
    cases new.symm.trans later
  have others : ∀ other, other ≠ call →
      ((s.taking call r cache c).ingesting = some other ↔ s.ingesting = some other) := by
    intro other ne
    rw [free]
    exact iff_of_false (fun mine => ne (Option.some.inj mine).symm) nofun
  have elsewhere : ∀ other, other ≠ call →
      (s.taking call r cache c).asked other = s.asked other := fun _ ne => Function.update_of_ne ne _ _
  have now : Ingesting host t (s.taking call r cache c) m call r token (.gate c) c none := by
    refine ⟨rfl, Function.update_self _ _ _, under, Serving.calls_enter _ _ _, sends, decodes, .gate, ?_⟩
    rw [h.cached free]
    exact missed
  have debt : (s.taking call r cache c).debt = s.debt :=
    debt_stable (fun c under => (h.control c under).1) rfl rfl (.refl _)
  have same : s.topic.SameGate (s.taking call r cache c).topic := ⟨rfl, rfl, rfl, rfl⟩
  exact { h with
    past := by
      have past := h.past
      rw [show s.owed = none by rw [owed, free]; rfl] at past
      rw [owed_of now.mine now.asked now.at_, now.ingests.owes, debt]
      exact past
    gate := same.symm.trans h.gate
    subs := debt ▸ h.subs
    dead := debt ▸ h.dead
    awaits := h.awaits.elsewhere rfl elsewhere others before rfl
    own := own_enter h.own rfl elsewhere others rfl (.inl rfl)
    ingest := now.ingestAt
    control := fun c under => (h.control c under).imp_left (·.stable same fun _ => Nat.le_refl _) }

/-! ## What the inbox shows -/

section Arrives

variable {d : Delivery} {r : Sent}

/-- What the ingest worker has a request down as. -/
def ingestOf (d : Delivery) (r : Sent) : Request := ⟨some d.token, r.input d .ingest⟩

/-- A call that is replied to as it is made. -/
theorem advance_recalling (new : s.serving.calls call = none) (q : Request) (cache : IdempotencyCache)
    (reply : IngestReply) :
    { s with ingesting := some call, asked := Function.update s.asked call (some q) }.advance call
        ({ s.serving with topic := { s.topic with dedup := cache } }.enter call (.replied reply)) =
      s.recalling call q cache reply := by
  have unreplied : (s.serving.calls call).bind CallPhase.reply? = none := by rw [new]; rfl
  refine (advance_reply
    (s := { s with ingesting := some call, asked := Function.update s.asked call (some q) })
    unreplied (Function.update_self _ _ _) rfl).trans ?_
  rw [if_pos rfl]
  rfl

/-- A request that cannot be read, -/
theorem ingest_of_undecoded (free : s.ingesting = none) (new : s.serving.calls call = none)
    (shown : s.shows .ingest d = some r) {e : String}
    (decoded : IngestRequest.decodeHex host.serde (Hex.encode r.body) = .error e) :
    s.ingest host call d = s.recalling call (ingestOf d r) s.topic.dedup
      (.rejected s!"bad request: {e}") := by
  have unmade : ¬ (s.serving.calls call).isSome = true := by rw [new]; exact Bool.false_ne_true
  rw [Traffic.ingest, free, new, shown]
  simp only [make, Serving.step, Serving.arrive, decoded]
  rw [if_neg unmade]
  exact advance_recalling new (ingestOf d r) s.topic.dedup _

/-- one that was seen before, -/
theorem ingest_of_seen (free : s.ingesting = none) (new : s.serving.calls call = none)
    (shown : s.shows .ingest d = some r) {req : IngestRequest} {found : Seen} {cache : IdempotencyCache}
    (decoded : IngestRequest.decodeHex host.serde (Hex.encode r.body) = .ok req)
    (seen : s.topic.dedup.get (Topic.dedupKey req d.token) d.now = (some found, cache)) :
    s.ingest host call d = s.recalling call (ingestOf d r) cache (Topic.seenAnswer found) := by
  have unmade : ¬ (s.serving.calls call).isSome = true := by rw [new]; exact Bool.false_ne_true
  rw [Traffic.ingest, free, new, shown]
  simp only [make, Serving.step, Serving.arrive, decoded, seen]
  rw [if_neg unmade]
  cases found <;> exact advance_recalling new (ingestOf d r) cache _

/-- and one that was not. -/
theorem ingest_of_unseen (free : s.ingesting = none) (new : s.serving.calls call = none)
    (shown : s.shows .ingest d = some r) {req : IngestRequest} {cache : IdempotencyCache}
    (decoded : IngestRequest.decodeHex host.serde (Hex.encode r.body) = .ok req)
    (missed : s.topic.dedup.get (Topic.dedupKey req d.token) d.now = (none, cache)) :
    s.ingest host call d =
      s.taking call (ingestOf d r) cache ⟨req, r.sender, d.now, Topic.dedupKey req d.token⟩ := by
  have unreplied : (s.serving.calls call).bind CallPhase.reply? = none := by rw [new]; rfl
  have unmade : ¬ (s.serving.calls call).isSome = true := by rw [new]; exact Bool.false_ne_true
  rw [Traffic.ingest, free, new, shown]
  simp only [make, Serving.step, Serving.arrive, decoded, missed]
  rw [if_neg unmade]
  exact advance_quiet
    (s := { s with ingesting := some call, asked := Function.update s.asked call (some (ingestOf d r)) })
    unreplied rfl rfl

/-- **The ingest worker comes to a request.** -/
theorem Shows.arrives (h : Shows host t s m unheard due) (d : Delivery) :
    ∃ m', m.past <+: m'.past ∧ Shows host t (s.ingest host call d) m' unheard due := by
  have stays : ∃ m', m.past <+: m'.past ∧ Shows host t s m' unheard due := ⟨m, List.prefix_rfl, h⟩
  cases free : s.ingesting with
  | some busy =>
    rw [Traffic.ingest, free]
    exact stays
  | none =>
    cases new : s.serving.calls call with
    | some phase =>
      rw [Traffic.ingest, free, new]
      exact stays
    | none =>
      cases shown : s.shows .ingest d with
      | none =>
        rw [Traffic.ingest, free, new, shown]
        exact stays
      | some r =>
        have known := h.cached free
        have sends := h.shown shown
        have put : (ingestOf d r).input = .ingest d.node d.token (Hex.encode r.body) r.sender d.now := rfl
        cases decoded : IngestRequest.decodeHex host.serde (Hex.encode r.body) with
        | error e =>
          rw [ingest_of_undecoded free new shown decoded]
          refine ⟨_, List.prefix_append _ _, h.answersAtOnce free new rfl sends ?_ ?_ ?_⟩
          · simp only [put, Topic.reply, Topic.handleIngest, decoded]
          · simp only [put, Topic.step, Topic.handleIngest, decoded, ← known]
          · simp only [put, Topic.call, decoded, Option.bind_none]
        | ok req =>
          rcases seen : s.topic.dedup.get (Topic.dedupKey req d.token) d.now with ⟨_ | found, cache⟩
          · rw [ingest_of_unseen free new shown decoded seen]
            exact ⟨m, List.prefix_rfl, h.takesUp free new rfl sends ⟨⟨d.node, _, put, decoded⟩, rfl⟩ seen⟩
          · have hit := seen
            rw [← known] at hit
            have handled := Topic.handleIngest_of_seen d.node r.sender decoded hit
            rw [ingest_of_seen free new shown decoded seen]
            refine ⟨_, List.prefix_append _ _, h.answersAtOnce free new rfl sends ?_ ?_ ?_⟩
            · simp only [put, Topic.reply, handled]
            · simp only [put, Topic.step, handled]
            · simp only [put, Topic.call, decoded, hit, Option.bind_none]

end Arrives

end Traffic

end CePubsub
