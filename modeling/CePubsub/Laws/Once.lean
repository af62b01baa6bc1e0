import CePubsub.Laws.Published
import CePubsub.Laws.Retry
import CePubsub.Lib.FifoOnce

/-!
# Once

The mesh may show a request to the owner as often as it likes, and a publisher that got no reply may ask
again. Against the first the owner remembers the reply tokens of control requests, against the second
the keys of publishes, each in a queue of its own. What is remembered is served once: a control request
(`control_served_once`), and a publish under a key (`published_once`), unless a key comes again when its
time is up or after as many others as the owner remembers (`Fifo.Again`).
-/

namespace CePubsub

variable {Link : Type} (host : Host Link)

/-! ## Control requests -/

/-- A reply token and a time, if an input is a control request. -/
def Input.presents (token : Nat) : Input → Option (Nat × Nat)
  | .control _ _ _ now => some (token, now)
  | _ => none

/-- The control request an event serves, if it is one: its reply token and the time. -/
def MeshEvent.control? : MeshEvent → Option (Nat × Nat)
  | .served token i _ => i.presents token
  | _ => none

/-- The reply tokens of the control requests served so far, and when. -/
def controls (past : List MeshEvent) : List (Nat × Nat) := past.filterMap MeshEvent.control?

/-- The control requests served, one event later. -/
theorem controls_concat (past : List MeshEvent) (e : MeshEvent) :
    controls (past ++ [e]) = controls past ++ e.control?.toList := by
  rw [controls, controls, List.filterMap_append]
  cases presents : e.control? <;> simp only [List.filterMap_cons, presents, List.filterMap_nil,
    Option.toList]

/-- Presenting a token to the set is a call of its queue. -/
def TokenSet.present (entry : Nat × Nat) : Fifo.Call Nat Nat := ⟨entry.1, entry.2, some entry.2⟩

/-- A token that is seen leaves the set as it was. -/
theorem TokenSet.seen_of_hit (s : TokenSet) (token now : Nat) (hit : (s.seen token now).1 = true) :
    (s.seen token now).2 = s := by
  rw [seen] at hit ⊢
  split at hit
  · split at hit
    · next live => rw [if_pos live]
    · cases hit
  · cases hit

/-- A worker remembers the token of a control request it serves, which it did not know. -/
theorem TopicInner.frame_handled (s : TopicInner) (worker : Worker) (f : Frame) :
    match (s.input worker f).bind fun (token, i) => i.presents token with
    | none => (frame host worker s f).handled = s.handled
    | some (token, now) => (s.handled.seen token now).1 = false ∧
      (frame host worker s f).handled = (s.handled.seen token now).2 := by
  rw [input]
  cases worker with
  | ingest =>
    rw [frame, ingestFrame]
    by_cases mine : f.topic = ingestTopic s.topic.topic
    · rw [if_neg (not_not.mpr mine)]
      cases f.replyToken with
      | none => rfl
      | some token => simp only [if_pos mine, Option.bind_some, Input.presents]
    · rw [if_pos mine]
      cases f.replyToken with
      | none => rfl
      | some token => simp only [if_neg mine, Option.bind_none]
  | control =>
    rw [frame, controlFrame]
    by_cases mine : f.topic = controlTopic s.topic.topic
    · rw [if_neg (not_not.mpr mine)]
      cases f.replyToken with
      | none => rfl
      | some token =>
        have known := s.handled.seen_of_hit token f.now
        rcases seen : s.handled.seen token f.now with ⟨_ | _, handled⟩
        · simp only [mine, true_and, seen, if_true, Option.bind_some, Input.presents]
        · rw [seen] at known
          simp only [mine, true_and, seen, Bool.true_eq_false, if_false, Option.bind_none]
          exact known rfl
    · rw [if_pos mine]
      cases f.replyToken with
      | none => rfl
      | some token => simp only [mine, false_and, if_false, Option.bind_none]

/-- The owner remembers the tokens of the control requests it served, none of which it knew. -/
structure Mesh.Remembers (m : Mesh) : Prop where
  handled : m.inner.handled = .build dedupCapacity dedupTtlSecs
    (Run.run (Fifo.call dedupCapacity dedupTtlSecs id) {} ((controls m.past).map TokenSet.present))
  records : Run.Along (Fifo.call dedupCapacity dedupTtlSecs id) (Fifo.Records dedupTtlSecs id) {}
    ((controls m.past).map TokenSet.present)

namespace Mesh

variable {host} {m : Mesh}

/-- A step that serves no control request. -/
theorem Remembers.same (h : m.Remembers) {m' : Mesh} (handled : m'.inner.handled = m.inner.handled)
    (past : controls m'.past = controls m.past) : m'.Remembers :=
  ⟨by rw [handled, past, h.handled], past ▸ h.records⟩

/-- A frame that reaches a worker. -/
theorem Remembers.serve (h : m.Remembers) (worker : Worker) (f : Frame) :
    (m.serve host worker f).Remembers := by
  have left := m.inner.frame_handled host worker f
  cases input : m.inner.input worker f with
  | none =>
    rw [input] at left
    refine h.same left ?_
    rw [Mesh.serve, input]
    exact congrArg controls (List.append_nil _)
  | some served =>
    obtain ⟨token, i⟩ := served
    rw [input] at left
    have past : controls (m.serve host worker f).past = controls m.past ++ (i.presents token).toList := by
      rw [Mesh.serve, input]
      exact controls_concat m.past _
    cases presents : i.presents token with
    | none =>
      simp only [Option.bind_some, presents] at left
      rw [presents] at past
      exact h.same left (past.trans (List.append_nil _))
    | some entry =>
      obtain ⟨token', now⟩ := entry
      simp only [Option.bind_some, presents] at left
      obtain ⟨missed, next⟩ := left
      rw [presents, Option.toList] at past
      rw [h.handled] at missed next
      have records : Fifo.Records dedupTtlSecs id (Run.run (Fifo.call dedupCapacity dedupTtlSecs id) {}
          ((controls m.past).map TokenSet.present)) (TokenSet.present (token', now)) := by
        refine ⟨?_, now, rfl, rfl⟩
        rw [TokenSet.seen_over] at missed
        rw [TokenSet.present]
        cases looked : Fifo.look dedupTtlSecs id _ token' now with
        | mk hit s' =>
          rw [looked] at missed
          cases hit with
          | some w => cases missed
          | none => rfl
      refine ⟨?_, ?_⟩
      · rw [past, List.map_append, Run.run_append]
        exact next.trans (TokenSet.use_build dedupCapacity dedupTtlSecs _ ⟨token', now⟩)
      · rw [past, List.map_append]
        exact Run.along_concat.mpr ⟨h.records, records⟩

/-- One step, whichever it is. -/
theorem Remembers.step (h : m.Remembers) (act : MeshStep) : (m.step host act).Remembers :=
  keeps_step (P := Remembers) (fun m _ h => h.same rfl
    ((controls_concat m.past _).trans (List.append_nil _)))
    (fun m _ h _ => h.same rfl ((controls_concat m.past _).trans (List.append_nil _)))
    (fun _ _ h _ handled => h.same handled rfl) (fun _ worker _ f h _ => h.serve worker f) h act

/-- A whole run. -/
theorem Remembers.run (h : m.Remembers) (steps : List MeshStep) :
    (Run.run (Mesh.step host) m steps).Remembers :=
  Run.run_invariant (P := Remembers) (fun _ act h => h.step act) h steps

/-- A new topic has served nothing yet. -/
theorem remembers_new {nodeId topic : String} {inner : TopicInner}
    (new : TopicInner.createTopic nodeId topic = .ok inner) : ({ inner } : Mesh).Remembers := by
  rw [TopicInner.createTopic] at new
  cases made : Topic.create nodeId topic with
  | error e =>
    rw [made] at new
    cases new
  | ok t =>
    rw [made] at new
    cases new
    exact ⟨rfl, trivial⟩

end Mesh

/-- **A control request is served once**, in every run of a mesh, whatever an inbox shows and when: no
reply token is served again, unless one is when its time is up or after as many others as the owner
remembers. -/
theorem control_served_once {nodeId topic : String} {inner : TopicInner}
    (new : TopicInner.createTopic nodeId topic = .ok inner) (steps : List MeshStep) :
    ((controls (Run.run (Mesh.step host) { inner } steps).past).map Prod.fst).Nodup ∨
      Fifo.Again dedupCapacity dedupTtlSecs (controls (Run.run (Mesh.step host) { inner } steps).past) := by
  have remembers : (Run.run (Mesh.step host) { inner } steps).Remembers :=
    (Mesh.remembers_new new).run steps
  have once := Fifo.once_or_again (by decide) remembers.records
  rw [List.map_map, List.map_map] at once
  exact once.imp_right fun again => List.map_id (controls _) ▸ again

open Orders in
/-- An inbox shows the request for a subscription three times, and another request. -/
private def shownAgain : List MeshStep :=
  [.send { topic := controlTopic "orders", sender := "bb", body := subscribing.encode },
    .poll .control [{ token := 0, now := 10 }, { token := 0, now := 11 }],
    .send { topic := controlTopic "orders", sender := "cc", body := (pulling 10).encode },
    .poll .control [{ token := 0, now := 12 }, { token := 1, now := 13 }]]

/-- The request that was shown three times was served once. -/
theorem control_served_once_orders :
    ∃ inner, TopicInner.createTopic "aa" "orders" = .ok inner ∧
      controls (Run.run (Mesh.step Host.compact) { inner } shownAgain).past = [(0, 10), (1, 13)] ∧
      (((controls (Run.run (Mesh.step Host.compact) { inner } shownAgain).past).map Prod.fst).Nodup ∨
        Fifo.Again dedupCapacity dedupTtlSecs
          (controls (Run.run (Mesh.step Host.compact) { inner } shownAgain).past)) :=
  ⟨_, Jobs.new, by decide +kernel, control_served_once Host.compact Jobs.new shownAgain⟩

/-! ## Publishes -/

namespace Topic

/-- The keys of the publishes that were served rather than answered from the cache, and when. -/
def recorded (t : Topic) (is : List Input) : List (String × Nat) :=
  ((t.requests host is).filter (·.cached.isNone)).map fun a => (a.key, a.now)

/-- One input records at most one outcome more. -/
theorem recorded_concat (t : Topic) (is : List Input) (i : Input) :
    t.recorded host (is ++ [i]) = t.recorded host is ++
      ((((Run.run (step host) t is).attempt? host i).toList.filter (·.cached.isNone)).map
        fun a => (a.key, a.now)) := by
  rw [recorded, requests_concat, List.filter_append, List.map_append]
  rfl

/-- A longer run has recorded at least as much. -/
theorem recorded_grow (t : Topic) (is more : List Input) :
    t.recorded host is <+: t.recorded host (is ++ more) := by
  induction more using List.reverseRecOn with
  | nil => exact (List.append_nil is).symm ▸ List.prefix_rfl
  | append_singleton more i ih =>
    rw [← List.append_assoc, recorded_concat]
    exact ih.trans (List.prefix_append _ _)

/-- The cache is what the calls of its queue make of it that recorded something. -/
theorem caches_recorded {nodeId topic : String} {t : Topic} (new : create nodeId topic = .ok t)
    (is : List Input) : ∃ calls : List (Fifo.Call String (Seen × Nat)),
      (Run.run (step host) t is).Caches
          (Run.run (Fifo.call dedupCapacity dedupTtlSecs Prod.snd) {} calls) ∧
        Run.Along (Fifo.call dedupCapacity dedupTtlSecs Prod.snd)
          (Fifo.Records dedupTtlSecs Prod.snd) {} calls ∧
        calls.map Fifo.Call.entry = t.recorded host is := by
  induction is using List.reverseRecOn with
  | nil => exact ⟨[], caches_of_create new, trivial, rfl⟩
  | append_singleton is i ih =>
    obtain ⟨calls, caches, records, entries⟩ := ih
    rw [recorded_concat, Run.run_concat]
    rcases attempt_cases host (Run.run (step host) t is) i with ⟨idle, dedup⟩ | ⟨a, attempt, owner, left⟩
    · refine ⟨calls, ⟨dedup.trans caches.1, caches.2⟩, records, ?_⟩
      rw [idle, entries]
      exact (List.append_nil _).symm
    · rw [left, attempt]
      rw [← owner] at caches
      cases cached : a.cached with
      | some seen =>
        refine ⟨calls, ?_, records, ?_⟩
        · rw [(a.reply_of_cached cached).2.1]
          exact caches
        · rw [Option.toList_some, List.filter_singleton, cached, entries]
          exact (List.append_nil _).symm
      | none =>
        obtain ⟨seen, after, -⟩ := caches_after caches
        have looked := cached_of_caches caches
        rw [cached] at looked
        refine ⟨calls ++ [⟨a.key, a.now, some (seen, a.now)⟩], ?_, ?_, ?_⟩
        · rw [Run.run_concat]
          exact after
        · exact Run.along_concat.mpr ⟨records, Option.map_eq_none_iff.mp looked.symm, (seen, a.now), rfl,
            rfl⟩
        · rw [Option.toList_some, List.filter_singleton, cached, List.map_append, entries]
          rfl

/-- **A key is recorded once**, or again when its time was up or after as many others. -/
theorem recorded_once {nodeId topic : String} {t : Topic} (new : create nodeId topic = .ok t)
    (is : List Input) : ((t.recorded host is).map Prod.fst).Nodup ∨
      Fifo.Again dedupCapacity dedupTtlSecs (t.recorded host is) := by
  obtain ⟨calls, -, records, entries⟩ := caches_recorded host new is
  have once := Fifo.once_or_again (by decide) records
  rw [← entries, List.map_map]
  exact once

end Topic

variable {host}

/-- Where a request under a key published its message, the key was recorded. -/
theorem recorded_of_call {t : Topic} {before : List Input} (rest : List Input) {node : Answers}
    {token now : Nat} {payloadHex publisher : String} {req : IngestRequest} {c : Call}
    (decoded : IngestRequest.decodeHex host.serde payloadHex = .ok req)
    (comes : (Run.run (Topic.step host) t before).call host
      (.ingest node token payloadHex publisher now) = some c) :
    t.recorded host before ++ [(Topic.dedupKey req token, now)] <+:
      t.recorded host (before ++ .ingest node token payloadHex publisher now :: rest) := by
  have missed : ((Run.run (Topic.step host) t before).dedup.get (Topic.dedupKey req token) now).1 =
      none := by
    rw [Topic.call, decoded] at comes
    simp only at comes
    split at comes
    · cases comes
    · next missed => exact missed
  have one : t.recorded host (before ++ [.ingest node token payloadHex publisher now]) =
      t.recorded host before ++ [(Topic.dedupKey req token, now)] := by
    rw [Topic.recorded_concat, attempt_of_decoded _ node token publisher now decoded, Option.toList_some,
      List.filter_singleton, Attempt.cached, Attempt.key, missed]
    rfl
  rw [← one, show before ++ .ingest node token payloadHex publisher now :: rest =
    before ++ [.ingest node token payloadHex publisher now] ++ rest by
      rw [List.append_assoc, List.singleton_append]]
  exact t.recorded_grow host _ rest

/-- Where a request under a key publishes its message, the key was recorded. -/
theorem mem_recorded_of_call {t : Topic} {before rest : List Input} {node : Answers} {token now : Nat}
    {payloadHex publisher : String} {req : IngestRequest} {c : Call}
    (decoded : IngestRequest.decodeHex host.serde payloadHex = .ok req)
    (comes : (Run.run (Topic.step host) t before).call host
      (.ingest node token payloadHex publisher now) = some c) :
    (Topic.dedupKey req token, now) ∈
      t.recorded host (before ++ .ingest node token payloadHex publisher now :: rest) :=
  (recorded_of_call rest decoded comes).subset (List.mem_append_right _ List.mem_cons_self)

/-- And not before, where keys are recorded once. -/
theorem fresh_of_call {t : Topic} {before rest : List Input} {node : Answers} {token now : Nat}
    {payloadHex publisher : String} {req : IngestRequest} {c : Call}
    (decoded : IngestRequest.decodeHex host.serde payloadHex = .ok req)
    (comes : (Run.run (Topic.step host) t before).call host
      (.ingest node token payloadHex publisher now) = some c)
    (once : ((t.recorded host (before ++ .ingest node token payloadHex publisher now :: rest)).map
      Prod.fst).Nodup) (time : Nat) :
    (Topic.dedupKey req token, time) ∉ t.recorded host before := by
  intro there
  have grown := recorded_of_call rest decoded comes
  have part := once.sublist (grown.sublist.map Prod.fst)
  rw [List.map_append, List.nodup_append] at part
  exact part.2.2 _ (List.mem_map.mpr ⟨_, there, rfl⟩) _ List.mem_cons_self rfl

/-- Where keys are recorded once, one key has one message. -/
theorem Landed.once {t : Topic} {key : String} {c c' : Nat} {is : List Input} (h : Landed host t key c is)
    (h' : Landed host t key c' is) (once : ((t.recorded host is).map Prod.fst).Nodup) : c = c' := by
  obtain ⟨before, rest, node, token, now, _, _, req, msg, split, decoded, rfl, comes, accepted⟩ := h.place
  obtain ⟨before', rest', node', token', now', _, _, req', msg', split', decoded', same, comes',
      accepted'⟩ :=
    h'.place
  rcases Run.places_cases (split.symm.trans split') with ⟨rfl, one⟩ | ⟨mid, rfl, -⟩ | ⟨mid, rfl, -⟩
  · cases one
    cases comes.symm.trans comes'
    exact Except.ok.inj (Answer.published.inj (accepted.symm.trans accepted'))
  · have fresh := fresh_of_call decoded' comes' (split' ▸ once) now
    rw [same] at fresh
    exact absurd (mem_recorded_of_call decoded comes) fresh
  · have fresh := fresh_of_call decoded comes (split ▸ once) now'
    rw [← same] at fresh
    exact absurd (mem_recorded_of_call decoded' comes') fresh

variable (host) in
/-- **A key is one message.** Two publishes under one key, by one node that asks again or by two, that
both return, return one cursor, in every run of a mesh and whatever was lost, repeated or reordered,
unless some key was recorded again when its time was up or after as many others as the owner remembers. -/
theorem published_once {nodeId topic : String} {inner : TopicInner}
    (new : TopicInner.createTopic nodeId topic = .ok inner) (steps : List MeshStep)
    {publisher publisher' key : String} {request request' : String → Bytes → Except String Bytes}
    {serde serde' : Serde} {payload payload' : Bytes} {grant grant' : Option String}
    {opts opts' : PublishOptions} {c c' : Nat}
    (ownerReads : ∀ req : IngestRequest, host.serde.ingestRequest req.encode = .ok req)
    (reads : ∀ reply : IngestReply, serde.ingestReply reply.encode = .ok reply)
    (reads' : ∀ reply : IngestReply, serde'.ingestReply reply.encode = .ok reply)
    (carried : Mesh.Carries { inner } (Run.run (Mesh.step host) { inner } steps) publisher request)
    (published : PubSub.publishToWith serde (request (ingestTopic topic)) topic payload grant opts
      (some key) = .ok c)
    (carried' : Mesh.Carries { inner } (Run.run (Mesh.step host) { inner } steps) publisher' request')
    (published' : PubSub.publishToWith serde' (request' (ingestTopic topic)) topic payload' grant' opts'
      (some key) = .ok c') :
    c = c' ∨ Fifo.Again dedupCapacity dedupTtlSecs
      (inner.topic.recorded host (inputs (Run.run (Mesh.step host) { inner } steps).past)) := by
  have made := topic_of_createTopic new
  have sequential : (Run.run (Mesh.step host) { inner } steps).Sequential host inner.topic :=
    (Mesh.sequential_new inner).run steps
  refine (Topic.recorded_once host made _).imp_left fun once => ?_
  obtain ⟨token, -, landed⟩ := carried.landed made sequential ownerReads reads List.nil_prefix published
  obtain ⟨token', -, landed'⟩ :=
    carried'.landed made sequential ownerReads reads' List.nil_prefix published'
  have under : Landed host inner.topic key c _ := landed
  have under' : Landed host inner.topic key c' _ := landed'
  exact under.once under' once

namespace Resending

/-- The greeting, under a key. -/
def keyed : IngestRequest := ⟨Hex.encode [104, 105], none, some "k", none, ∅⟩

/-- The mesh once one node's greeting was served, and once another node's was. -/
def greetedOnce : Mesh := Greeting.start.ingested Host.compact keyed "cc" 7

/-- The mesh once another node has published under the same key as well. -/
def greetedTwice : Mesh := greetedOnce.ingested Host.compact keyed "dd" 9

/-- Both publishes, and what the ingest worker is shown of them. -/
def greetings : List MeshStep :=
  Greeting.start.ask .ingest (Greeting.start.ingest keyed "cc") 7 ++
    greetedOnce.ask .ingest (greetedOnce.ingest keyed "dd") 9

theorem decoded : IngestRequest.decodeHex Host.compact.serde (Hex.encode keyed.encode) = .ok keyed :=
  (IngestRequest.decodeHex_encode (Host.compact_reads_ingest keyed) (by decide)).mpr (by
    rw [IngestRequest.length_encode]
    decide +kernel)

theorem run_greetings : Run.run (Mesh.step Host.compact) Greeting.start greetings = greetedTwice := by
  rw [greetings, Run.run_append]
  have once := Mesh.run_ingested (m := Greeting.start) rfl rfl decoded "cc" 7
  have twice := Mesh.run_ingested (m := greetedOnce) rfl rfl decoded "dd" 9
  rw [once]
  exact twice

theorem accepted : (Greeting.post.topic.serveIngest Host.compact {} 0 keyed "cc" 7).1 = .accepted 1 := by
  decide

/-- The second is answered from what the owner remembers. -/
theorem remembered : (greetedOnce.inner.topic.serveIngest Host.compact {} 1 keyed "dd" 9).1 =
    .accepted 1 := by
  decide

/-- What a publish under the key returns, whoever makes it. -/
theorem returned {m : Mesh} (named : m.inner.topic.topic = "orders") (sender : String) :
    PubSub.publishToWith .compact
      (Mesh.bringing (m.ingest keyed sender) (IngestReply.accepted 1).encode
        (ingestTopic "orders")) "orders"
      [104, 105] none {} (some "k") = .ok 1 := by
  have sends : PubSub.publishRequest "orders" [104, 105] none {} (some "k") = .ok keyed := by
    simp only [PubSub.publishRequest, Greeting.valid, show validatePayload [104, 105] = .ok () by decide,
      show PublishOptions.validate {} = .ok () by decide, bind, Except.bind]
    rfl
  have brought : Mesh.bringing (m.ingest keyed sender) (IngestReply.accepted 1).encode
      (ingestTopic "orders") keyed.encode = .ok (IngestReply.accepted 1).encode := by
    rw [Mesh.bringing, Mesh.ingest, named]
    exact if_pos ⟨rfl, rfl⟩
  simp only [PubSub.publishToWith, sends, brought, bind, Except.bind, Except.mapError, IngestReply.decode,
    IngestReply.read_encode]

/-- The two nodes' ways to the owner. -/
def request : String → Bytes → Except String Bytes :=
  Mesh.bringing (Greeting.start.ingest keyed "cc") (IngestReply.accepted 1).encode

def request' : String → Bytes → Except String Bytes :=
  Mesh.bringing (greetedOnce.ingest keyed "dd") (IngestReply.accepted 1).encode

/-- The first publish is one its node makes of the run. -/
theorem carries : Mesh.Carries Greeting.start greetedTwice "cc" request := by
  have carried : Mesh.Carries Greeting.start greetedOnce "cc" request :=
    Mesh.carries_bringing rfl (congrArg (Reply.wire ∘ Reply.ingested) accepted) rfl
  refine carried.widen List.prefix_rfl ?_
  rw [greetedTwice, Mesh.ingested, List.append_assoc]
  exact List.prefix_append _ _

/-- So is the second. -/
theorem carries' : Mesh.Carries Greeting.start greetedTwice "dd" request' := by
  have carried : Mesh.Carries greetedOnce greetedTwice "dd" request' :=
    Mesh.carries_bringing rfl (congrArg (Reply.wire ∘ Reply.ingested) remembered) rfl
  exact carried.widen List.nil_prefix List.prefix_rfl

end Resending

open Resending in
/-- Two nodes that publish under one key: the second is given the first one's cursor. -/
theorem published_once_resent :
    ∃ c c', PubSub.publishToWith .compact (request (ingestTopic "orders")) "orders" [104, 105] none {}
        (some "k") = .ok c ∧
      PubSub.publishToWith .compact (request' (ingestTopic "orders")) "orders" [104, 105] none {}
        (some "k") = .ok c' ∧
      (c = c' ∨ Fifo.Again dedupCapacity dedupTtlSecs (Greeting.post.topic.recorded Host.compact
        (inputs (Run.run (Mesh.step Host.compact) { inner := Greeting.post } greetings).past))) := by
  have carried : Mesh.Carries { inner := Greeting.post }
      (Run.run (Mesh.step Host.compact) { inner := Greeting.post } greetings) "cc" request :=
    run_greetings.symm ▸ carries
  have carried' : Mesh.Carries { inner := Greeting.post }
      (Run.run (Mesh.step Host.compact) { inner := Greeting.post } greetings) "dd" request' :=
    run_greetings.symm ▸ carries'
  have returns := returned (m := Greeting.start) rfl "cc"
  have returns' := returned (m := greetedOnce) rfl "dd"
  exact ⟨_, _, returns, returns', published_once Host.compact Greeting.new greetings
    Host.compact_reads_ingest IngestReply.read_encode IngestReply.read_encode carried returns carried'
      returns'⟩

end CePubsub
