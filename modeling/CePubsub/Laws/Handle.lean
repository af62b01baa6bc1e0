import CePubsub.Handle
import CePubsub.Laws.Owner

/-!
# Dropping a topic

The flag that stops the workers is set by a drop that finds the count at one. The workers hold a
handle each until they see the flag, so the count is never below three where it is looked at, and the
flag is never set (`serving_step`): a topic whose last handle is dropped goes on being served, and
appended to (`dropped_topic_serves`). The workers stop as documented only where there is nothing to
stop for, while the program keeps a handle.
-/

namespace CePubsub

namespace TopicInner

variable {Link : Type} (host : Host Link)

/-- Both workers run, and the count is of the handles there are: the program's, those half dropped,
and one in each worker. -/
structure Serving (s : TopicInner) : Prop where
  up : s.shutdown = false
  working : ∀ worker, s.working worker = true
  count : s.strongCount = s.held + s.dropping + 2

/-- A created topic has its workers running and one handle out. -/
theorem serving_of_createTopic {nodeId topic : String} {s : TopicInner}
    (new : createTopic nodeId topic = .ok s) : s.Serving ∧ s.held = 1 := by
  unfold createTopic at new
  cases made : Topic.create nodeId topic with
  | error e =>
    rw [made] at new
    cases new
  | ok t =>
    rw [made] at new
    cases new
    refine ⟨⟨rfl, ?_, rfl⟩, rfl⟩
    intro worker
    cases worker <;> rfl

/-- Serving a message touches the topic and the tokens handled, and no handle. -/
theorem frame_keeps {s : TopicInner} (worker : Worker) (f : Frame) (serving : s.Serving) :
    (frame host worker s f).Serving ∧ (frame host worker s f).held = s.held := by
  cases worker with
  | ingest =>
    rw [frame]
    unfold ingestFrame
    split
    · exact ⟨serving, rfl⟩
    · split
      · exact ⟨serving, rfl⟩
      · exact ⟨⟨serving.up, serving.working, serving.count⟩, rfl⟩
  | control =>
    rw [frame]
    unfold controlFrame
    split
    · exact ⟨serving, rfl⟩
    · split
      · exact ⟨serving, rfl⟩
      · split <;> exact ⟨⟨serving.up, serving.working, serving.count⟩, rfl⟩

/-- No frame stops a worker or takes a handle. -/
theorem frames_keep {s : TopicInner} (worker : Worker) (frames : List Frame) (serving : s.Serving) :
    (frames.foldl (frame host worker) s).Serving ∧
      (frames.foldl (frame host worker) s).held = s.held := by
  induction frames generalizing s with
  | nil => exact ⟨serving, rfl⟩
  | cons f frames ih =>
    obtain ⟨next, held⟩ := frame_keeps host worker f serving
    rw [← held]
    exact ih next

/-- A running worker serves every frame it is shown. -/
theorem step_poll {s : TopicInner} (serving : s.Serving) (worker : Worker) (frames : List Frame) :
    s.step host (.poll worker frames) = frames.foldl (frame host worker) s := by
  rw [step, poll, if_pos (serving.working worker), if_neg]
  rw [serving.up]
  exact Bool.false_ne_true

/-- **Nothing sets the flag**: every drop finds the two workers' handles beside its own. -/
theorem serving_step {s : TopicInner} (serving : s.Serving) (act : HandleStep) :
    (s.step host act).Serving := by
  have count := serving.count
  cases act with
  | clone =>
    rw [step]
    split
    · refine ⟨serving.up, serving.working, ?_⟩
      simp only
      omega
    · exact serving
  | drop =>
    rw [step]
    split
    · next some =>
      refine ⟨?_, serving.working, ?_⟩
      · have others : (s.strongCount == 1) = false := by
          rw [beq_eq_false_iff_ne]
          omega
        rw [dropHandle, serving.up, others]
        rfl
      · simp only [dropHandle]
        omega
    · exact serving
  | release =>
    rw [step]
    split
    · refine ⟨serving.up, serving.working, ?_⟩
      simp only
      omega
    · exact serving
  | poll worker frames =>
    rw [step_poll host serving]
    exact (frames_keep host worker frames serving).1

/-- A worker returns at its next turn, which leaves the topic as it is. -/
def Returns (s : TopicInner) (worker : Worker) : Prop :=
  ∀ frames, (s.step host (.poll worker frames)).working worker = false ∧
    (s.step host (.poll worker frames)).topic = s.topic

/-- If the program holds no handle, the flag is set and the workers return. -/
def Stops (s : TopicInner) : Prop :=
  s.held = 0 → s.shutdown = true ∧ ∀ worker, s.Returns host worker

/-- A drop leaves the program another handle. -/
def LeavesOne (s : TopicInner) : HandleStep → Prop
  | .drop => s.held ≠ 1
  | _ => True

/-- `Stops` holds only while some handle is held: no drop makes the workers return. -/
theorem stops_iff {s : TopicInner} (serving : s.Serving) : s.Stops host ↔ 0 < s.held := by
  constructor
  · intro stops
    refine Nat.pos_of_ne_zero fun none => ?_
    exact Bool.false_ne_true (serving.up.symm.trans (stops none).1)
  · intro some none
    exact absurd none (Nat.ne_of_gt some)

/-- A step leaves a handle held exactly when it is not the last one that goes. -/
theorem held_step {s : TopicInner} (serving : s.Serving) (some : 0 < s.held) (act : HandleStep) :
    0 < (s.step host act).held ↔ s.LeavesOne act := by
  cases act with
  | clone =>
    rw [step, if_pos some]
    exact ⟨fun _ => trivial, fun _ => Nat.succ_pos _⟩
  | drop =>
    rw [step, if_pos some, LeavesOne]
    simp only
    omega
  | release =>
    rw [step]
    refine ⟨fun _ => trivial, fun _ => ?_⟩
    split <;> exact some
  | poll worker frames =>
    rw [step_poll host serving, (frames_keep host worker frames serving).2]
    exact ⟨fun _ => trivial, fun _ => some⟩

/-- **The workers stop when the last handle is dropped, in a run in which it never is.** From the
creation of a topic on, with clones and drops of the program's handles and turns of the workers in any
order: every state the run passes through has the flag set, and its workers return, if the program
holds no handle there, exactly if every drop leaves the program another. -/
theorem workers_stop_iff (nodeId topic : String) (s : TopicInner)
    (new : createTopic nodeId topic = .ok s) (acts : List HandleStep) :
    (∀ pre rest, acts = pre ++ rest → (Run.run (step host) s pre).Stops host) ↔
      Run.Along (step host) LeavesOne s acts := by
  obtain ⟨serving, held⟩ := serving_of_createTopic new
  refine Run.throughout_iff_along (I := Serving) ?_ ?_ serving
    ((stops_iff host serving).mpr (held ▸ Nat.one_pos)) acts
  · intro s act serving
    exact serving_step host serving act
  · intro s act serving stops
    rw [stops_iff host (serving_step host serving act)]
    exact held_step host serving ((stops_iff host serving).mp stops) act

/-- A remote publish. -/
private def hello : IngestRequest where
  payloadHex := "6869"
  grant := none
  idempotencyKey := none
  orderingKey := none
  attributes := ∅

/-- A host that reads this request only. -/
private def helloHost : Host Unit := .reading [hello] []

private theorem decode_hello :
    IngestRequest.decodeHex helloHost.serde (Hex.encode hello.encode) = .ok hello := by
  refine (IngestRequest.decodeHex_encode (Host.reads_ingest hello [] []) ?_).mpr ?_
  · rintro k ⟨⟩
  · rw [IngestRequest.length_encode]
    decide

/-- A topic as it is created, and after its only handle is dropped. -/
private def fresh : TopicInner :=
  (({ topic := { nodeId := "aa", topic := "orders" }, strongCount := 1, held := 1 } :
    TopicInner).serve .ingest).serve .control

/-- The topic once its only handle is dropped. -/
private def dropped : TopicInner := Run.run (step helloHost) fresh [.drop, .release]

private theorem create_fresh : createTopic "aa" "orders" = .ok fresh := by
  rw [createTopic, Topic.create_of_valid (by decide)]
  rfl

private theorem dropped_serving : dropped.Serving :=
  serving_step helloHost (serving_step helloHost (serving_of_createTopic create_fresh).1 .drop)
    .release

/-- The frame the request comes in. -/
private def helloFrame : Frame where
  topic := "ce-pubsub.ingest.orders"
  replyToken := some 1
  payloadHex := Hex.encode hello.encode
  sender := "bb"
  now := 10

/-- A handle cloned, and the first one dropped. -/
theorem workers_stop_iff_cloned :
    (Run.run (step helloHost) fresh [.clone, .drop]).Stops helloHost :=
  (workers_stop_iff helloHost "aa" "orders" fresh create_fresh [.clone, .drop]).mpr
    ⟨trivial, Nat.succ_ne_self 1, trivial⟩ [.clone, .drop] [] rfl

/-- **A dropped topic goes on being served**: the only handle is dropped and released, the flag is not
set, and the ingest worker appends the next request it finds. -/
theorem dropped_topic_serves :
    createTopic "aa" "orders" = .ok fresh ∧
      dropped = Run.run (step helloHost) fresh [.drop, .release] ∧
      dropped.held = 0 ∧ dropped.dropping = 0 ∧ dropped.shutdown = false ∧
      dropped.topic.highCursor = 0 ∧
      (dropped.step helloHost (.poll .ingest [helloFrame])).working .ingest = true ∧
      (dropped.step helloHost (.poll .ingest [helloFrame])).topic.highCursor = 1 := by
  refine ⟨create_fresh, rfl, rfl, rfl, rfl, rfl, ?_, ?_⟩
  · exact (serving_step helloHost dropped_serving _).working .ingest
  · have appended : (dropped.topic.serveIngest helloHost {} 1 hello "bb" 10).2.highCursor = 1 := by
      decide
    rw [step_poll helloHost dropped_serving, List.foldl_cons, List.foldl_nil, frame, ingestFrame,
      if_neg (by decide)]
    rw [← appended, ← Topic.handleIngest_of_decoded decode_hello]
    rfl

end TopicInner

end CePubsub
