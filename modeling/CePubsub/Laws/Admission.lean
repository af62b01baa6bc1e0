import CePubsub.Admission
import CePubsub.Laws.Owner

/-!
# Who gets into the log

A message's mark says that its publisher was authenticated: that the owner published it itself, or that
the call which appended it presented a grant that verified. The mark is set from what the call read of
the gate, several steps before the append, while the gate, the roots and the log may change under it.
`Inv` says of every call what it has established so far, and of every append whose it was; a step keeps
it by the phase the call is at (`inv_step`), and `only_authorized` reads the claims about the log off it.
-/

namespace CePubsub

/-- A grant was presented by the call, and verified in it for publishing on the topic. -/
structure Admission.Valid {Link : Type} (host : Host Link) (nodeId topic : String) (c : IngestCall)
    (a : Admission) : Prop where
  presented : c.req.grant = some a.token
  requester : parseNodeId c.publisher = .ok a.requester
  selfId : parseNodeId nodeId = .ok a.selfId
  verified : a.verify host topic c = .ok ()

/-- What an author's message carries: the owner's its id and the mark, an ingest call's its publisher, and
the mark if the call read that a capability is required, in which case it verified one. -/
def Author.Fits {Link : Type} (host : Host Link) (nodeId topic : String) (m : Message) : Author → Prop
  | .owner => m.publisher = nodeId ∧ m.publisherAuthenticated = true
  | .ingest c gate admission => m.publisher = c.publisher ∧ m.publisherAuthenticated = gate ∧
      (gate = true → ∃ a, admission = some a ∧ a.Valid host nodeId topic c)

/-- What a call has established by the phase it is at. -/
def CallPhase.Sound {Link : Type} (host : Host Link) (nodeId topic : String) : CallPhase → Prop
  | .revocation c token => c.req.grant = some token
  | .roots c token requester selfId _ => c.req.grant = some token ∧
      parseNodeId c.publisher = .ok requester ∧ parseNodeId nodeId = .ok selfId
  | .checked who msg | .stamped who msg | .appended who msg => who.Fits host nodeId topic msg
  | .gate _ | .outcome _ _ | .replied _ | .returned _ => True

/-- The phases a call that has appended can be at. -/
def CallPhase.appends : CallPhase → Bool
  | .appended _ _ | .outcome _ (.ok _) | .replied (.accepted _) | .returned (.ok _) => true
  | _ => false

namespace Serving

variable {Link : Type} (host : Host Link)

/-- Every append was made by a call that has appended, and carries what its author's may. -/
structure Inv (nodeId topic : String) (s : Serving) : Prop where
  sameNode : s.topic.nodeId = nodeId
  sameTopic : s.topic.topic = topic
  calls : ∀ call phase, s.calls call = some phase → phase.Sound host nodeId topic
  logged : ∃ ops, s.topic.writer = TopicLog.replay ops ∧
    List.Forall₂ (fun m o => o.who.Fits host nodeId topic m) (LogOp.appended ops) s.origins
  accounted : ∀ o ∈ s.origins, ∃ phase, s.calls o.call = some phase ∧ phase.appends = true

section Steps

variable {host} {nodeId topic : String} {s : Serving}

theorem topic_enter (s : Serving) (call : Nat) (phase : CallPhase) :
    (s.enter call phase).topic = s.topic := rfl

theorem calls_enter (s : Serving) (call : Nat) (phase : CallPhase) :
    (s.enter call phase).calls call = some phase :=
  Function.update_self _ _ _

theorem calls_enter_of_ne (s : Serving) {call other : Nat} (phase : CallPhase) (ne : other ≠ call) :
    (s.enter call phase).calls other = s.calls other :=
  Function.update_of_ne ne _ _

/-- Where a call is, after one has moved on. -/
theorem of_calls_enter {call other : Nat} {phase p : CallPhase}
    (at_ : (s.enter call phase).calls other = some p) :
    (other = call ∧ p = phase) ∨ (other ≠ call ∧ s.calls other = some p) := by
  by_cases same : other = call
  · rw [same, calls_enter] at at_
    exact .inl ⟨same, (Option.some.inj at_).symm⟩
  · rw [calls_enter_of_ne s phase same] at at_
    exact .inr ⟨same, at_⟩

/-- A call that has appended is at a phase that says so, after one has moved on. -/
theorem accounted_enter {o : Origin} {call : Nat} {phase : CallPhase}
    (before : ∃ p, s.calls o.call = some p ∧ p.appends = true)
    (keeps : ∀ p, s.calls call = some p → p.appends = true → phase.appends = true) :
    ∃ p, (s.enter call phase).calls o.call = some p ∧ p.appends = true := by
  obtain ⟨p, at_, appends⟩ := before
  by_cases same : o.call = call
  · refine ⟨phase, ?_, keeps p (same ▸ at_) appends⟩
    rw [same, calls_enter]
  · refine ⟨p, ?_, appends⟩
    rw [calls_enter_of_ne s phase same, at_]

/-- What the owner changes of the topic besides its log leaves every call where it is. -/
theorem Inv.change (h : Inv host nodeId topic s) {t : Topic} (node : t.nodeId = s.topic.nodeId)
    (name : t.topic = s.topic.topic) (writer : t.writer = s.topic.writer) :
    Inv host nodeId topic { s with topic := t } where
  sameNode := node.trans h.sameNode
  sameTopic := name.trans h.sameTopic
  calls := h.calls
  logged := by
    obtain ⟨ops, eq, fits⟩ := h.logged
    exact ⟨ops, writer.trans eq, fits⟩
  accounted := h.accounted

/-- A call moves on. -/
theorem Inv.enter (h : Inv host nodeId topic s) {call : Nat} {phase : CallPhase}
    (sound : phase.Sound host nodeId topic)
    (keeps : ∀ p, s.calls call = some p → p.appends = true → phase.appends = true) :
    Inv host nodeId topic (s.enter call phase) where
  sameNode := h.sameNode
  sameTopic := h.sameTopic
  calls := by
    intro other p at_
    rcases of_calls_enter at_ with ⟨-, rfl⟩ | ⟨-, before⟩
    · exact sound
    · exact h.calls other p before
  logged := h.logged
  accounted := fun o mem => accounted_enter (h.accounted o mem) keeps

/-- The cursor is no part of what an author may claim. -/
theorem fits_cursor {who : Author} {msg : Message} (fits : who.Fits host nodeId topic msg)
    (cursor : Nat) : who.Fits host nodeId topic { msg with cursor } := by
  cases who <;> exact fits

/-- A call appends. -/
theorem Inv.append (h : Inv host nodeId topic s) {call : Nat} {who : Author} {msg : Message}
    (fits : who.Fits host nodeId topic msg) :
    Inv host nodeId topic ({ s with
      topic := { s.topic with writer := s.topic.writer.apply (.append msg) }
      origins := s.origins ++ [Origin.mk call who] }.enter call (.appended who msg)) where
  sameNode := h.sameNode
  sameTopic := h.sameTopic
  calls := by
    intro other p at_
    rcases of_calls_enter at_ with ⟨-, rfl⟩ | ⟨-, before⟩
    · exact fits
    · exact h.calls other p before
  logged := by
    obtain ⟨ops, eq, owned⟩ := h.logged
    refine ⟨ops ++ [.append msg], ?_, ?_⟩
    · rw [TopicLog.replay_concat]
      exact congrArg (TopicLog.apply · (.append msg)) eq
    · rw [LogOp.appended_append]
      exact List.rel_append owned (.cons (fits_cursor fits _) .nil)
  accounted := by
    intro o mem
    rcases List.mem_append.mp mem with old | new
    · exact accounted_enter (h.accounted o old) fun _ _ _ => rfl
    · rw [List.mem_singleton.mp new]
      exact ⟨.appended who msg, calls_enter _ _ _, rfl⟩

/-- The log is pruned. -/
theorem Inv.prune (h : Inv host nodeId topic s) (upTo : Nat) :
    Inv host nodeId topic { s with
      topic := { s.topic with writer := s.topic.writer.apply (.pruneTo upTo) } } where
  sameNode := h.sameNode
  sameTopic := h.sameTopic
  calls := h.calls
  logged := by
    obtain ⟨ops, eq, owned⟩ := h.logged
    refine ⟨ops ++ [.pruneTo upTo], ?_, ?_⟩
    · rw [TopicLog.replay_concat]
      exact congrArg (TopicLog.apply · (.pruneTo upTo)) eq
    · rw [LogOp.appended_pruneTo]
      exact owned
  accounted := h.accounted

/-- A call at a phase before its append may go anywhere. -/
theorem keeps_of_not_appends {call : Nat} {now then_ : CallPhase} (at_ : s.calls call = some now)
    (not : now.appends = false) :
    ∀ p, s.calls call = some p → p.appends = true → then_.appends = true := by
  intro p same appends
  cases same.symm.trans at_
  exact absurd appends (Bool.eq_false_iff.mp not)

/-- A call that is new has appended nothing. -/
theorem keeps_of_new {call : Nat} (new : s.calls call = none) (then_ : CallPhase) :
    ∀ p, s.calls call = some p → p.appends = true → then_.appends = true := by
  intro p at_
  cases new.symm.trans at_

/-- What the checks let through is what the call may append. -/
theorem sound_check {c : IngestCall} {gate : Bool} {admission : Option Admission}
    (read : gate = admission.isSome)
    (valid : ∀ a, admission = some a → a.Valid host nodeId topic c) :
    (check host c gate admission).Sound host nodeId topic := by
  rw [check]
  split
  · trivial
  · next made =>
    obtain ⟨-, -, payload, -, -, rfl⟩ := Topic.ingestMessage_ok made
    refine ⟨rfl, read.symm, fun on => ?_⟩
    obtain ⟨a, same⟩ := Option.isSome_iff_exists.mp (read.symm.trans on)
    exact ⟨a, same, valid a same⟩

/-- Reading the gate. -/
theorem inv_readGate (h : Inv host nodeId topic s) {call : Nat} {c : IngestCall}
    (at_ : s.calls call = some (.gate c)) : Inv host nodeId topic (s.readGate host call c) := by
  rw [readGate]
  split
  · split
    · exact h.enter trivial (keeps_of_not_appends at_ rfl)
    · next presented => exact h.enter presented (keeps_of_not_appends at_ rfl)
  · refine h.enter (sound_check rfl ?_) (keeps_of_not_appends at_ rfl)
    intro a none
    cases none

/-- Asking the node for the revoked tokens. -/
theorem inv_readRevoked (h : Inv host nodeId topic s) {call : Nat} {node : Answers} {c : IngestCall}
    {token : String} (at_ : s.calls call = some (.revocation c token)) :
    Inv host nodeId topic (s.readRevoked call node c token) := by
  have presented : c.req.grant = some token := h.calls call _ at_
  rw [readRevoked]
  split
  · exact h.enter trivial (keeps_of_not_appends at_ rfl)
  · exact h.enter trivial (keeps_of_not_appends at_ rfl)
  · exact h.enter trivial (keeps_of_not_appends at_ rfl)
  · next requester self _ =>
    rw [h.sameNode] at self
    exact h.enter ⟨presented, requester, self⟩ (keeps_of_not_appends at_ rfl)

/-- Reading the accepted roots. -/
theorem inv_readRoots (h : Inv host nodeId topic s) {call : Nat} {c : IngestCall} {token : String}
    {requester selfId : NodeId} {revoked : List (NodeId × Nat)}
    (at_ : s.calls call = some (.roots c token requester selfId revoked)) :
    Inv host nodeId topic
      (s.readRoots host call c { token, requester, selfId, roots := [], revoked }) := by
  obtain ⟨presented, requester_eq, self_eq⟩ := h.calls call _ at_
  rw [readRoots]
  split
  · exact h.enter trivial (keeps_of_not_appends at_ rfl)
  · next verified =>
    refine h.enter (sound_check rfl ?_) (keeps_of_not_appends at_ rfl)
    intro a same
    cases same
    rw [h.sameTopic] at verified
    exact ⟨presented, requester_eq, self_eq, verified⟩

/-- Appending what was stamped. -/
theorem inv_propose (h : Inv host nodeId topic s) {call : Nat} {node : Answers} {who : Author}
    {msg : Message} (at_ : s.calls call = some (.stamped who msg)) :
    Inv host nodeId topic (s.propose call node who msg) := by
  have fits : who.Fits host nodeId topic msg := h.calls call _ at_
  rw [propose]
  split
  · refine h.enter ?_ (keeps_of_not_appends at_ rfl)
    cases who <;> trivial
  · exact h.append fits

/-- **A call's step keeps the invariant**, whichever phase it is at. -/
theorem inv_next (h : Inv host nodeId topic s) (call : Nat) (node : Answers) :
    Inv host nodeId topic (s.next host call node) := by
  rw [next.eq_def]
  cases at_ : s.calls call with
  | none => exact h
  | some phase =>
    cases phase with
    | gate c => exact inv_readGate h at_
    | revocation c token => exact inv_readRevoked h at_
    | roots c token requester selfId revoked => exact inv_readRoots h at_
    | checked who msg =>
      have fits : who.Fits host nodeId topic msg := h.calls call _ at_
      exact h.enter (fits_cursor fits _) (keeps_of_not_appends at_ rfl)
    | stamped who msg => exact inv_propose h at_
    | appended who msg =>
      simp only
      have sound : (settle who (.ok msg.cursor)).Sound host nodeId topic := by
        cases who <;> trivial
      have keeps : ∀ p, s.calls call = some p → p.appends = true →
          (settle who (.ok msg.cursor)).appends = true := by
        intro _ _ _
        cases who <;> rfl
      split
      · exact (h.change (t := s.topic.broadcast _ msg) rfl rfl rfl).enter sound keeps
      · exact h.enter sound keeps
    | outcome c result =>
      have recorded := h.change (t := { s.topic with
        dedup := s.topic.dedup.insert c.key (Topic.seenOf result) c.now }) rfl rfl rfl
      refine recorded.enter trivial ?_
      intro p same appends
      cases same.symm.trans at_
      cases result with
      | ok c => rfl
      | error why => exact appends
    | replied reply => exact h
    | returned result => exact h

/-- A remote publish that arrives. -/
theorem inv_arrive (h : Inv host nodeId topic s) {call : Nat} (new : s.calls call = none) (token : Nat)
    (payloadHex publisher : String) (now : Nat) :
    Inv host nodeId topic (s.arrive host call token payloadHex publisher now) := by
  rw [arrive]
  split
  · exact h.enter trivial (keeps_of_new new _)
  · have looked : ∀ cache, Inv host nodeId topic { s with topic := { s.topic with dedup := cache } } :=
      fun _ => h.change rfl rfl rfl
    simp only
    split
    · exact (looked _).enter trivial (keeps_of_new new _)
    · exact (looked _).enter trivial (keeps_of_new new _)
    · exact (looked _).enter trivial (keeps_of_new new _)

/-- A publish of the owner's own. -/
theorem inv_offer (h : Inv host nodeId topic s) {call : Nat} (new : s.calls call = none)
    (checks : Except String Unit) {msg : Message} (own : msg.publisher = s.topic.nodeId)
    (marked : msg.publisherAuthenticated = true) : Inv host nodeId topic (s.offer call checks msg) := by
  rw [offer.eq_def]
  split
  · exact h.enter trivial (keeps_of_new new _)
  · have fits : Author.owner.Fits host nodeId topic msg := ⟨own.trans h.sameNode, marked⟩
    exact h.enter fits (keeps_of_new new _)

/-- **Every step keeps the invariant.** -/
theorem inv_step (h : Inv host nodeId topic s) (act : ServingAct) :
    Inv host nodeId topic (s.step host act) := by
  cases act with
  | ingest call token payloadHex publisher now =>
    rw [step]
    split
    · exact h
    · next new => exact inv_arrive h (Option.not_isSome_iff_eq_none.mp new) token payloadHex publisher now
  | publish call payload now =>
    rw [step]
    split
    · exact h
    · next new => exact inv_offer h (Option.not_isSome_iff_eq_none.mp new) _ rfl rfl
  | publishWith call payload opts now =>
    rw [step]
    split
    · exact h
    · next new => exact inv_offer h (Option.not_isSome_iff_eq_none.mp new) _ rfl rfl
  | next call node => exact inv_next h call node
  | pruneTo node upTo =>
    rw [step, Topic.pruneTo]
    cases node.commitLog with
    | error e => exact h
    | ok u => exact h.prune upTo
  | requirePublishCap require => exact h.change rfl rfl rfl
  | acceptRoot root =>
    rw [step, Topic.acceptRoot]
    cases parseNodeId root with
    | error e => exact h
    | ok id =>
      simp only [bind, Except.bind]
      split <;> exact h.change rfl rfl rfl

end Steps

/-! ## A call alone -/

section Alone

variable {host} {s : Serving} {call : Nat} {node : Answers}

/-- Left alone, the call ends within `n` steps with the topic and the reply given. -/
def Ends (host : Host Link) (s : Serving) (call : Nat) (node : Answers) (n : Nat)
    (end_ : IngestReply × Topic) : Prop :=
  (Run.run (step host) s (List.replicate n (.next call node))).topic = end_.2 ∧
    (Run.run (step host) s (List.replicate n (.next call node))).calls call =
      some (.replied end_.1)

/-- A call that ends after its next step ends one step later. -/
theorem ends_of_next {n : Nat} {end_ : IngestReply × Topic}
    (h : Ends host (s.next host call node) call node n end_) : Ends host s call node (n + 1) end_ := h

/-- A call that has replied is at its end. -/
theorem ends_replied (n : Nat) {reply : IngestReply} (at_ : s.calls call = some (.replied reply)) :
    Ends host s call node n (reply, s.topic) := by
  induction n with
  | zero => exact ⟨rfl, at_⟩
  | succ n ih =>
    refine ends_of_next ?_
    rw [next, at_]
    exact ih

/-- What an outcome is answered, and what the cache remembers of it. -/
def conclude (c : IngestCall) (result : Except String Nat × Topic) : IngestReply × Topic :=
  (replyOf result.1,
    { result.2 with dedup := result.2.dedup.insert c.key (Topic.seenOf result.1) c.now })

/-- A call with its outcome has the reply to make. -/
theorem ends_outcome (n : Nat) {c : IngestCall} {result : Except String Nat}
    (at_ : s.calls call = some (.outcome c result)) :
    Ends host s call node (n + 1) (conclude c (result, s.topic)) := by
  refine ends_of_next ?_
  rw [next, at_]
  exact ends_replied n (calls_enter _ _ _)

/-- A checked call reads the cursor, appends, broadcasts and replies. -/
theorem ends_checked (n : Nat) {c : IngestCall} {gate : Bool} {admission : Option Admission}
    {msg : Message} (at_ : s.calls call = some (.checked (.ingest c gate admission) msg)) :
    Ends host s call node (n + 4) (conclude c
      ((s.topic.appendAndFanout node msg).1.mapError fun e => s!"append failed: {e}",
        (s.topic.appendAndFanout node msg).2)) := by
  refine ends_of_next (n := n + 3) ?_
  rw [next, at_]
  refine ends_of_next (n := n + 2) ?_
  rw [next, calls_enter, Topic.appendAndFanout]
  simp only [propose]
  cases node.commitLog with
  | error e => exact ends_outcome (n + 1) (calls_enter _ _ _)
  | ok u =>
    refine ends_of_next (n := n + 1) ?_
    rw [next, calls_enter]
    exact ends_outcome n (calls_enter _ _ _)

/-- What is checked and appended, of a request that has been admitted. -/
def admitted (host : Host Link) (t : Topic) (node : Answers) (c : IngestCall) (authenticated : Bool) :
    Except String Nat × Topic :=
  match Topic.ingestMessage host c.req c.publisher authenticated c.now with
  | .error why => (.error why, t)
  | .ok msg =>
    ((t.appendAndFanout node msg).1.mapError fun e => s!"append failed: {e}",
      (t.appendAndFanout node msg).2)

/-- The atomic ingest: the gate, and what is done past it. -/
theorem applyIngest_eq (t : Topic) (c : IngestCall) :
    t.applyIngest host node c.req c.publisher c.now =
      match t.gate host node c.publisher abilityPublish c.req.grant c.now with
      | .error why => (.error why, t)
      | .ok () => admitted host t node c t.requireCap := by
  rw [Topic.applyIngest]
  cases t.gate host node c.publisher abilityPublish c.req.grant c.now with
  | error why => rfl
  | ok u =>
    simp only [admitted]
    cases Topic.ingestMessage host c.req c.publisher t.requireCap c.now with
    | error why => rfl
    | ok msg =>
      simp only
      cases t.appendAndFanout node msg with
      | mk result t' => cases result <;> rfl

/-- Past the gate a call ends as the atomic ingest does. -/
theorem ends_check (n : Nat) {t : Topic} {c : IngestCall} {gate authenticated : Bool}
    {admission : Option Admission} (same : s.topic = t) (read : admission.isSome = authenticated)
    (at_ : s.calls call = some (check host c gate admission)) :
    Ends host s call node (n + 4) (conclude c (admitted host t node c authenticated)) := by
  subst same read
  cases made : Topic.ingestMessage host c.req c.publisher admission.isSome c.now with
  | error why =>
    simp only [check, made] at at_
    simp only [admitted, made]
    exact ends_outcome (n + 3) at_
  | ok msg =>
    simp only [check, made] at at_
    simp only [admitted, made]
    exact ends_checked n at_

/-- From the gate on, the call does what `applyIngest` computes. -/
theorem ends_gate {c : IngestCall} (at_ : s.calls call = some (.gate c)) :
    Ends host s call node 7
      (conclude c (s.topic.applyIngest host node c.req c.publisher c.now)) := by
  refine ends_of_next (n := 6) ?_
  rw [next, at_, applyIngest_eq, Topic.gate.eq_def]
  simp only [readGate]
  by_cases on : s.topic.requireCap = true
  · rw [if_pos on, if_pos on]
    cases presented : c.req.grant with
    | none => exact ends_outcome 5 (calls_enter _ _ _)
    | some token =>
      refine ends_of_next (n := 5) ?_
      rw [next, calls_enter]
      simp only [readRevoked, topic_enter, Topic.authorize]
      cases publisher : parseNodeId c.publisher with
      | error e =>
        simp only [Except.mapError, bind, Except.bind]
        exact ends_outcome 4 (calls_enter _ _ _)
      | ok requester =>
        cases self : parseNodeId s.topic.nodeId with
        | error e =>
          simp only [Except.mapError, bind, Except.bind]
          exact ends_outcome 4 (calls_enter _ _ _)
        | ok selfId =>
          cases fetched : Topic.fetchRevoked node with
          | error e =>
            simp only [Except.mapError, bind, Except.bind]
            exact ends_outcome 4 (calls_enter _ _ _)
          | ok revoked =>
            refine ends_of_next (n := 4) ?_
            simp only [Except.mapError, bind, Except.bind]
            rw [next, calls_enter]
            simp only [readRoots, topic_enter, Admission.verify]
            generalize verifyLink host.iam selfId s.topic.acceptedRoots [] c.now requester
              abilityPublish s.topic.topic token _ = verified
            cases verified with
            | error why => exact ends_outcome 3 (calls_enter _ _ _)
            | ok u =>
              rw [on]
              exact ends_check 0 rfl rfl (calls_enter _ _ _)
  · have closed : s.topic.requireCap = false := Bool.eq_false_iff.mpr on
    rw [if_neg on, if_neg on, closed]
    exact ends_check 2 rfl rfl (calls_enter _ _ _)

/-- **A call whose steps follow one another** is `handleIngest`. -/
theorem ingest_alone (idle : s.calls call = none) (token : Nat) (payloadHex publisher : String)
    (now : Nat) :
    Ends host (s.step host (.ingest call token payloadHex publisher now)) call node 7
      (s.topic.handleIngest host node token payloadHex publisher now) := by
  rw [step, idle, if_neg (by decide), arrive]
  cases decoded : IngestRequest.decodeHex host.serde payloadHex with
  | error e =>
    rw [Topic.handleIngest, decoded]
    exact ends_replied 7 (calls_enter _ _ _)
  | ok req =>
    rw [Topic.handleIngest_of_decoded decoded, Topic.serveIngest]
    simp only
    cases looked : s.topic.dedup.get (Topic.dedupKey req token) now with
    | mk hit cache =>
      cases hit with
      | some seen => cases seen <;> exact ends_replied 7 (calls_enter _ _ _)
      | none =>
        have ends : Ends host ({ s with topic := { s.topic with dedup := cache } }.enter call
            (.gate { req, publisher, now, key := Topic.dedupKey req token })) call node 7 _ :=
          ends_gate (calls_enter _ _ _)
        simp only [topic_enter, conclude] at ends
        simp only
        generalize Topic.applyIngest host { s.topic with dedup := cache } node req publisher now =
          result at ends ⊢
        obtain ⟨outcome, t⟩ := result
        cases outcome <;> exact ends

/-- And what the owner publishes, left alone, is appended and broadcast. -/
theorem offer_alone (s : Serving) (call : Nat) (node : Answers) (msg : Message) :
    let s' := Run.run (step host) (s.offer call (.ok ()) msg) [.next call node, .next call node,
      .next call node]
    s'.topic = (s.topic.appendAndFanout node msg).2 ∧
      s'.calls call = some (.returned (s.topic.appendAndFanout node msg).1) := by
  have stamped : (s.enter call (.checked .owner msg)).next host call node =
      (s.enter call (.checked .owner msg)).enter call
        (.stamped .owner { msg with cursor := s.topic.writer.nextCursor }) := by
    rw [next, calls_enter]
    rfl
  simp only [offer, Run.run_cons, Run.run_nil, step, stamped, Topic.appendAndFanout]
  rw [next, next, calls_enter]
  simp only [propose]
  cases node.commitLog with
  | error e =>
    simp only [calls_enter]
    exact ⟨rfl, calls_enter _ _ _⟩
  | ok u =>
    simp only [calls_enter]
    exact ⟨rfl, rfl⟩

end Alone

/-- **Only authorized publishes enter a gated log, and the mark is never forged.** A new topic's owner
publishes, takes ingest requests, switches its gate, accepts roots and prunes; the steps of the calls
interleave in any way. Every append was made by one call, in order; a message that is kept and marked is
the owner's own, or its publisher presented, in the call that appended it, a grant that verified for
publishing on the topic; what an ingest call appended is marked exactly if the call read that a
capability is required; and a call that has been rejected has appended nothing. -/
theorem only_authorized (nodeId topic : String) (t : Topic)
    (new : Topic.create nodeId topic = .ok t) (acts : List ServingAct) (s : Serving)
    (reached : s = Run.run (step host) { topic := t } acts) :
    s.origins.length = s.topic.writer.highCursor ∧
    (∀ m ∈ s.topic.writer.messages, ∃ o, s.origins[m.cursor - 1]? = some o ∧
      (m.publisherAuthenticated = true →
        (o.who = .owner ∧ m.publisher = nodeId) ∨
        ∃ c a, o.who = .ingest c true (some a) ∧ m.publisher = c.publisher ∧
          a.Valid host nodeId topic c) ∧
      (∀ c gate admission, o.who = .ingest c gate admission →
        m.publisherAuthenticated = gate)) ∧
    (∀ call why, s.calls call = some (.replied (.rejected why)) →
      ∀ o ∈ s.origins, o.call ≠ call) := by
  have inv : Inv host nodeId topic s := by
    rw [reached, Topic.eq_of_create new]
    refine Run.run_invariant (P := Inv host nodeId topic) (fun _ act h => inv_step h act) ?_ acts
    constructor
    case sameNode => rfl
    case sameTopic => rfl
    case calls =>
      intro call phase at_
      cases at_
    case logged => exact ⟨[], rfl, .nil⟩
    case accounted =>
      intro o mem
      cases mem
  obtain ⟨ops, writer, owned⟩ := inv.logged
  have rep := TopicLog.replay_represents ops
  refine ⟨?_, ?_, ?_⟩
  · rw [writer, TopicLog.highCursor_replay]
    exact owned.length_eq.symm
  · intro m mem
    rw [writer, rep.messages, Journal.retained, LogOp.journal_entries] at mem
    obtain ⟨i, found⟩ := List.mem_iff_getElem?.mp (List.mem_of_mem_drop mem)
    have cursor := TopicLog.cursor_appended found
    have inside := (List.getElem?_eq_some_iff.mp found).1
    have inside' : i < s.origins.length := owned.length_eq ▸ inside
    have fits := owned.get inside inside'
    rw [List.get_eq_getElem, (List.getElem?_eq_some_iff.mp found).2] at fits
    refine ⟨s.origins[i], ?_, ?_, ?_⟩
    · rw [cursor, Nat.add_sub_cancel, List.getElem?_eq_getElem inside']
    · intro marked
      cases who : s.origins[i].who with
      | owner =>
        rw [List.get_eq_getElem, who] at fits
        exact .inl ⟨rfl, fits.1⟩
      | ingest c gate admission =>
        rw [List.get_eq_getElem, who] at fits
        obtain ⟨publisher, read, valid⟩ := fits
        obtain ⟨a, rfl, is⟩ := valid (read.symm.trans marked)
        rw [read.symm.trans marked]
        exact .inr ⟨c, a, rfl, publisher, is⟩
    · intro c gate admission who
      rw [List.get_eq_getElem, who] at fits
      exact fits.2.1
  · intro call why rejected o mem same
    obtain ⟨phase, at_, appends⟩ := inv.accounted o mem
    rw [same, rejected] at at_
    cases at_
    cases appends

/-- A remote publish with a token. -/
private def granted : IngestRequest where
  payloadHex := "6869"
  grant := some "grant"
  idempotencyKey := none
  orderingKey := none
  attributes := ∅

/-- A host whose capability library knows one grant, for this topic. -/
private def grantHost : Host Unit where
  serde := (Host.reading [granted] []).serde
  iam :=
    { decodeChain := fun token => if token = "grant" then .ok [()] else .error "bad capability chain"
      authorize := fun _ _ _ _ _ _ _ _ => .ok ()
      pathPrefix := fun _ => some "orders" }

/-- The owner of the topic. -/
private def ownerHex : String := "0a0a0a0a0a0a0a0a0a0a0a0a0a0a0a0a0a0a0a0a0a0a0a0a0a0a0a0a0a0a0a0a"

/-- The node that publishes. -/
private def senderHex : String := "0b0b0b0b0b0b0b0b0b0b0b0b0b0b0b0b0b0b0b0b0b0b0b0b0b0b0b0b0b0b0b0b"

/-- A gated topic of the owner. -/
private def gated : Topic := { nodeId := ownerHex, topic := "orders", requireCap := true }

/-- The call the request starts. -/
private def grantedCall : IngestCall := ⟨granted, senderHex, 10, "tok:1"⟩

/-- The topic once the request is served. -/
private def served : Serving :=
  Run.run (step grantHost) ({ topic := gated : Serving }.enter 0 (.gate grantedCall))
    (List.replicate 7 (.next 0 {}))

private theorem decode_granted :
    IngestRequest.decodeHex grantHost.serde (Hex.encode granted.encode) = .ok granted := by
  refine (IngestRequest.decodeHex_encode (Host.reads_ingest granted [] []) ?_).mpr ?_
  · rintro k ⟨⟩
  · rw [IngestRequest.length_encode]
    decide

private theorem run_served : served = Run.run (step grantHost)
    { topic := { nodeId := ownerHex, topic := "orders" } }
    (.requirePublishCap true :: .ingest 0 1 (Hex.encode granted.encode) senderHex 10 ::
      List.replicate 7 (.next 0 {})) := by
  have arrived : step grantHost { topic := gated } (.ingest 0 1 (Hex.encode granted.encode) senderHex 10) =
      ({ topic := gated : Serving }.enter 0 (.gate grantedCall)) := by
    rw [step, if_neg (by decide), arrive, decode_granted]
    rfl
  rw [Run.run_cons, Run.run_cons, served, ← arrived]
  rfl

/-- A publish with a grant on a gated topic: marked, and its grant verified in the call. -/
theorem only_authorized_granted :
    ∃ m, served.topic.writer.messages = [m] ∧ m.publisherAuthenticated = true ∧
      ∃ o c a, served.origins[0]? = some o ∧ o.who = .ingest c true (some a) ∧
        m.publisher = c.publisher ∧ a.Valid grantHost ownerHex "orders" c := by
  have new : Topic.create ownerHex "orders" = .ok { nodeId := ownerHex, topic := "orders" } :=
    Topic.create_of_valid (by decide) ownerHex
  have made : served.topic.writer.messages.map
      (fun m => (m.cursor, m.publisherAuthenticated, m.publisher)) =
      [(1, true, senderHex)] := by decide
  obtain ⟨m, single, same⟩ := List.map_eq_singleton_iff.mp made
  obtain ⟨cursor, marked, publisher⟩ : m.cursor = 1 ∧ m.publisherAuthenticated = true ∧
      m.publisher = senderHex := by simpa using same
  obtain ⟨o, at_, authorized, -⟩ :=
    (only_authorized grantHost ownerHex "orders" _ new _ served run_served).2.1 m
      (single ▸ List.mem_singleton_self m)
  rw [cursor] at at_
  refine ⟨m, single, marked, o, ?_⟩
  rcases authorized marked with ⟨-, own⟩ | ⟨c, a, who, sender, valid⟩
  · rw [publisher] at own
    exact absurd own (by decide)
  · exact ⟨c, a, at_, who, sender, valid⟩

end Serving

end CePubsub
