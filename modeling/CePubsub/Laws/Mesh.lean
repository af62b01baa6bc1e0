import CePubsub.Laws.Handle
import CePubsub.Laws.Origin
import CePubsub.Mesh

/-!
# The mesh as a run of its owner

Whatever the way between the nodes does, and whatever the program does with its handles, the owner ends
where a run of its inputs, one after another, takes it, and every reply is the one that run gives at its
place (`Sequential`). A request is served after it was sent, and its reply is the node's to deliver only
then: the place of a request is between its sending and its reply.

A request is one step here. `Traffic` takes it apart, and shows a mesh.
-/

namespace CePubsub

variable {Link : Type} (host : Host Link)

namespace Topic

/-- A call changes neither the name of a topic nor its node. -/
theorem serve_named (t : Topic) (c : Call) :
    (t.serve c).2.topic = t.topic ∧ (t.serve c).2.nodeId = t.nodeId := by
  cases c with
  | publish node msg =>
    rcases t.appendAndFanout_cases node msg with ⟨e, failed⟩ | ⟨t', appended, is⟩
    · rw [serve, failed]
      exact ⟨rfl, rfl⟩
    · rw [serve, appended]
      exact ⟨is.topic, is.nodeId⟩
  | prune node upTo =>
    rw [serve, pruneTo]
    cases node.commitLog <;> exact ⟨rfl, rfl⟩
  | control node now req =>
    have untouched := (t.serveControl_serves node now req).untouched
    exact ⟨untouched.topic, untouched.nodeId⟩

/-- Nor does any other input. -/
theorem step_named (t : Topic) (i : Input) :
    (t.step host i).topic = t.topic ∧ (t.step host i).nodeId = t.nodeId := by
  cases comes : t.call host i with
  | none =>
    have alike := step_of_none host comes
    exact ⟨alike.topic, alike.nodeId⟩
  | some c =>
    have alike := (step_of_some host comes).2
    obtain ⟨topic, nodeId⟩ := t.serve_named c
    exact ⟨alike.topic.trans topic, alike.nodeId.trans nodeId⟩

/-- A topic keeps its name and its owner. -/
theorem run_named (t : Topic) (is : List Input) :
    (Run.run (step host) t is).topic = t.topic ∧ (Run.run (step host) t is).nodeId = t.nodeId :=
  Run.run_invariant (P := fun u : Topic => u.topic = t.topic ∧ u.nodeId = t.nodeId)
    (fun u i same =>
      ⟨(u.step_named host i).1.trans same.1, (u.step_named host i).2.trans same.2⟩)
    ⟨rfl, rfl⟩ is

end Topic

/-- A worker's message is served as the input it makes of it, if any. -/
theorem TopicInner.frame_topic (s : TopicInner) (worker : Worker) (f : Frame) :
    (frame host worker s f).topic =
      match s.input worker f with
      | none => s.topic
      | some (_, i) => s.topic.step host i := by
  rw [input]
  cases worker with
  | ingest =>
    rw [frame, ingestFrame]
    by_cases mine : f.topic = ingestTopic s.topic.topic
    · rw [if_neg (not_not.mpr mine)]
      cases f.replyToken with
      | none => rfl
      | some token => simp only [if_pos mine, Topic.step]
    · rw [if_pos mine]
      cases f.replyToken with
      | none => rfl
      | some token => simp only [if_neg mine]
  | control =>
    rw [frame, controlFrame]
    by_cases mine : f.topic = controlTopic s.topic.topic
    · rw [if_neg (not_not.mpr mine)]
      cases f.replyToken with
      | none => rfl
      | some token =>
        simp only [mine, true_and]
        rcases s.handled.seen token f.now with ⟨_ | _, handled⟩
        · simp only [if_true, Topic.step]
        · simp only [Bool.true_eq_false, if_false]
    · rw [if_pos mine]
      cases f.replyToken with
      | none => rfl
      | some token => simp only [mine, false_and, if_false]

/-! ## The history of a mesh -/

/-- The requests sent, one event later. -/
theorem sents_concat (past : List MeshEvent) (e : MeshEvent) :
    sents (past ++ [e]) = sents past ++ e.sent?.toList := by
  rw [sents, sents, List.filterMap_append]
  cases e <;> rfl

/-- The inputs of the topic, one event later. -/
theorem inputs_concat (past : List MeshEvent) (e : MeshEvent) :
    inputs (past ++ [e]) = inputs past ++ e.input?.toList := by
  rw [inputs, inputs, List.filterMap_append]
  cases e <;> rfl

/-- The input is what an inbox made of a request, under its token. -/
structure Sent.Becomes (r : Sent) (topic : String) (token : Nat) (i : Input) : Prop where
  asks : r.asks = true
  input : (r.topic = ingestTopic topic ∧
      ∃ node now, i = .ingest node token (Hex.encode r.body) r.sender now) ∨
    (r.topic = controlTopic topic ∧
      ∃ node now, i = .control node (Hex.encode r.body) r.sender now)

/-- What happened is what the run of the inputs before makes of it, and a request was sent before it was
served. -/
def MeshEvent.Holds (t : Topic) (past : List MeshEvent) : MeshEvent → Prop
  | .sent _ => True
  | .served token i reply => (∃ r, (sents past)[token]? = some r ∧ r.Becomes t.topic token i) ∧
    reply = (Run.run (Topic.step host) t (inputs past)).reply host i
  | .own i reply => i.isOwn = true ∧ reply = (Run.run (Topic.step host) t (inputs past)).reply host i

/-- **The owner is where a run of its inputs takes it**, and its history is one such a run writes. -/
structure Mesh.Sequential (t : Topic) (m : Mesh) : Prop where
  topic : m.inner.topic = Run.run (Topic.step host) t (inputs m.past)
  history : Run.Chronicle (MeshEvent.Holds host t) m.past

namespace Mesh

variable {host} {t : Topic} {m : Mesh}

/-- A step that leaves the topic alone. -/
theorem Sequential.quiet (h : Sequential host t m) {inner : TopicInner}
    (same : inner.topic = m.inner.topic) :
    Sequential host t { m with inner } :=
  ⟨same.trans h.topic, h.history⟩

/-- A request that is sent. -/
theorem Sequential.send (h : Sequential host t m) (r : Sent) :
    Sequential host t { m with past := m.past ++ [.sent r] } := by
  refine ⟨?_, h.history.concat trivial⟩
  rw [h.topic, inputs_concat, MeshEvent.input?, Option.toList, List.append_nil]

/-- An event that is one input of the topic. -/
theorem Sequential.concat (h : Sequential host t m) {inner : TopicInner} {e : MeshEvent} {i : Input}
    (input : e.input? = some i) (left : inner.topic = m.inner.topic.step host i)
    (holds : e.Holds host t m.past) :
    Sequential host t { inner, past := m.past ++ [e] } := by
  refine ⟨?_, h.history.concat holds⟩
  rw [left, h.topic, inputs_concat, input, Option.toList, Run.run_concat]

/-- What a worker makes of what an inbox shows was sent to it. -/
theorem becomes_of_input {d : Delivery} {f : Frame} (shows : m.frame d = some f) {worker : Worker}
    {token : Nat} {i : Input} (input : m.inner.input worker f = some (token, i)) :
    ∃ r, (sents m.past)[token]? = some r ∧ r.Becomes m.inner.topic.topic token i := by
  obtain ⟨r, there, rfl⟩ := Option.map_eq_some_iff.mp shows
  cases asks : r.asks with
  | false =>
    rw [TopicInner.input, Sent.frame, asks] at input
    cases input
  | true =>
    rw [TopicInner.input, Sent.frame, asks] at input
    cases worker with
    | ingest =>
      simp only [if_true] at input
      split at input
      · next mine =>
        cases input
        exact ⟨r, there, asks, .inl ⟨mine, d.node, d.now, rfl⟩⟩
      · cases input
    | control =>
      simp only [if_true] at input
      split at input
      · next mine =>
        cases input
        exact ⟨r, there, asks, .inr ⟨mine.1, d.node, d.now, rfl⟩⟩
      · cases input

/-- A worker sends no request. -/
theorem sents_serve (m : Mesh) (worker : Worker) (f : Frame) :
    sents (m.serve host worker f).past = sents m.past := by
  rw [Mesh.serve]
  cases m.inner.input worker f with
  | none => exact congrArg sents (List.append_nil _)
  | some served => exact (sents_concat m.past _).trans (List.append_nil _)

/-- **What every step of a mesh keeps**: what sending keeps, the owner's own calls, what the handles do,
and a worker's coming to a message of the inbox. -/
theorem keeps_step {P : Mesh → Prop} (send : ∀ m r, P m → P { m with past := m.past ++ [.sent r] })
    (own : ∀ m i, P m → i.isOwn = true →
      P { inner := { m.inner with topic := m.inner.topic.step host i }
          past := m.past ++ [.own i (m.inner.topic.reply host i)] })
    (quiet : ∀ m inner, P m → inner.topic = m.inner.topic → inner.handled = m.inner.handled →
      P { m with inner })
    (serve : ∀ m worker d f, P m → m.frame d = some f → P (m.serve host worker f)) {m : Mesh} (h : P m)
    (act : MeshStep) : P (m.step host act) := by
  have serves : ∀ worker (frames : List Frame) (m : Mesh), P m → (∀ f ∈ frames, ∃ d, m.frame d = some f) →
      P (frames.foldl (Mesh.serve host worker) m) := by
    intro worker frames
    induction frames with
    | nil => exact fun m h _ => h
    | cons f frames ih =>
      intro m h shown
      obtain ⟨d, shows⟩ := shown f List.mem_cons_self
      refine ih _ (serve m worker d f h shows) fun f' mem => ?_
      obtain ⟨d', shows'⟩ := shown f' (List.mem_cons_of_mem f mem)
      exact ⟨d', by rw [frame, sents_serve]; exact shows'⟩
  cases act with
  | send r => exact send m r h
  | own i =>
    rw [Mesh.step]
    split
    · next may => exact own m i h (Bool.and_eq_true_iff.mp may).1
    · exact h
  | clone | drop | release =>
    refine quiet m _ h ?_ ?_ <;> rw [TopicInner.step] <;> split <;> rfl
  | poll worker deliveries =>
    rw [Mesh.step, poll]
    split
    · refine serves worker _ m h fun f mem => ?_
      obtain ⟨d, -, shows⟩ := List.mem_filterMap.mp mem
      exact ⟨d, shows⟩
    · have idle : (m.inner.poll host worker []).topic = m.inner.topic ∧
          (m.inner.poll host worker []).handled = m.inner.handled := by
        rw [TopicInner.poll]
        split
        · split <;> exact ⟨rfl, rfl⟩
        · exact ⟨rfl, rfl⟩
      exact quiet m _ h idle.1 idle.2

/-- A worker comes to a message. -/
theorem Sequential.serve (h : Sequential host t m) {d : Delivery} {f : Frame} (shows : m.frame d = some f)
    (worker : Worker) : Sequential host t (m.serve host worker f) := by
  have left := m.inner.frame_topic host worker f
  rw [Mesh.serve]
  cases input : m.inner.input worker f with
  | none =>
    rw [input] at left
    rw [Option.map_none, Option.toList, List.append_nil]
    exact h.quiet left
  | some served =>
    obtain ⟨token, i⟩ := served
    rw [input] at left
    obtain ⟨r, there, becomes⟩ := becomes_of_input shows input
    rw [h.topic, (t.run_named host _).1] at becomes
    exact h.concat rfl left ⟨⟨r, there, becomes⟩, by rw [h.topic]⟩

/-- **A step of the mesh**, whoever takes it. -/
theorem Sequential.step (h : Sequential host t m) (act : MeshStep) : Sequential host t (m.step host act) :=
  keeps_step (P := Sequential host t) (fun _ r h => h.send r)
    (fun _ _ h own => h.concat rfl rfl ⟨own, by rw [h.topic]⟩) (fun _ _ h same _ => h.quiet same)
    (fun _ worker _ _ h shows => h.serve shows worker) h act

/-- Every run of the mesh is one run of the topic. -/
theorem Sequential.run (h : Sequential host t m) (steps : List MeshStep) :
    Sequential host t (Run.run (Mesh.step host) m steps) :=
  Run.run_invariant (fun _ act h => h.step act) h steps

/-- It is before the first step. -/
theorem sequential_new (inner : TopicInner) : Sequential host inner.topic { inner } :=
  ⟨rfl, Run.chronicle_nil⟩

end Mesh

/-- A created handle is the handle of a created topic. -/
theorem topic_of_createTopic {nodeId topic : String} {s : TopicInner}
    (new : TopicInner.createTopic nodeId topic = .ok s) : Topic.create nodeId topic = .ok s.topic := by
  rw [TopicInner.createTopic] at new
  cases made : Topic.create nodeId topic with
  | error e =>
    rw [made] at new
    cases new
  | ok t =>
    rw [made] at new
    cases new
    rfl

/-- What the broker says to an input at its place in a run, or that it comes to no call of it: then the
reply is a rejection, or it repeats the cursor of a message published under the same key. -/
def Answered (t : Topic) (is : List Input) (i : Input) (reply : Reply) : Prop :=
  match (Run.run (Topic.step host) t is).call host i with
  | some c => reply = i.reply ((Broker.after (t.calls host is)).serve c).1
  | none => reply.Rejects ∨ ∃ node token payloadHex publisher now req c,
      i = .ingest node token payloadHex publisher now ∧
      IngestRequest.decodeHex host.serde payloadHex = .ok req ∧
      reply = .ingested (.accepted c) ∧ Landed host t (Topic.dedupKey req token) c is

/-- A worker's input is answered by the broker. -/
theorem answered_of_becomes {nodeId topic : String} {t : Topic}
    (new : Topic.create nodeId topic = .ok t) (is : List Input) {r : Sent} {token : Nat} {i : Input}
    (becomes : r.Becomes t.topic token i) :
    Answered host t is i ((Run.run (Topic.step host) t is).reply host i) := by
  rw [Answered]
  cases comes : (Run.run (Topic.step host) t is).call host i with
  | some c => exact (owner_is_broker host new is).2 i c comes
  | none =>
    rcases becomes.input with ⟨-, node, now, rfl⟩ | ⟨-, node, now, rfl⟩
    · refine (ingest_of_no_call new is comes).imp_right ?_
      rintro ⟨req, c, decoded, replied, landed⟩
      exact ⟨node, token, _, r.sender, now, req, c, rfl, decoded, replied, landed⟩
    · exact .inl (control_of_no_call comes)

end CePubsub
