import CePubsub.Laws.EndToEnd

/-!
# A message is with one consumer at a time

A lease is a promise to whoever got it, and the owner keeps it by its own clock: what it handed out it
hands out to nobody else before the deadline, unless it is given back or the subscription is deleted.
`Lent` is that promise at the broker, and everything but those two keeps it.

So of two consumers that got the same message, in whatever order their requests and the replies went
through the mesh, one was served when the other's lease had run out (`leased_apart`).
-/

namespace CePubsub

variable {Link : Type} {host : Host Link}

/-- A cursor was given back. -/
def Exchange.nacks (name : String) (x : Nat) : Exchange → Bool
  | ⟨.control _ _ (.nack n cursor _), .controlled .ok⟩ => n = name ∧ cursor = x
  | _ => false

namespace Broker

/-- A subscription holds a cursor back until a time. -/
def Lent (b : Broker) (name : String) (x expiry : Nat) : Prop :=
  ∃ s, b.subs[name]? = some s ∧ s.queue.Held x expiry

variable {b : Broker} {name : String} {x expiry now : Nat} {e : Exchange} {left : Option Sub}

theorem mem_delivers_of_lends {node : Answers} {maxMessages : Nat} {grant : Option String} {s : Sub}
    {leased : List LeasedMessage} {time : Nat}
    (handed : leased.map (·.message.cursor) = b.delivers s maxMessages now)
    (lends : Exchange.lends name x
      ⟨.control node now (.pull name maxMessages grant), .controlled (.pulled leased)⟩ = some time) :
    x ∈ b.delivers s maxMessages now ∧ now = time := by
  rw [Exchange.lends, handed] at lends
  split at lends
  · next both =>
    cases lends
    exact ⟨both.2, rfl⟩
  · cases lends

/-- What is handed out was back. -/
theorem Lent.le_of_lends (h : b.Lent name x expiry) (becomes : Becomes b name e left)
    (lends : e.lends name x = some now) : expiry ≤ now := by
  obtain ⟨s, found, held⟩ := h
  cases becomes with
  | quiet silent => cases (silent.lends x).symm.trans lends
  | deleted | created | acked | released => cases lends
  | pulled found' handed =>
    obtain rfl := Option.some.inj (found.symm.trans found')
    obtain ⟨mem, rfl⟩ := mem_delivers_of_lends handed lends
    exact held.le_of_offered (LeaseQueue.offered_of_mem_taken mem)

/-- And is held back from then on. -/
theorem lent_of_lends (becomes : Becomes b name e left) (lends : e.lends name x = some now) :
    ∃ s, b.subs[name]? = some s ∧
      ∃ s', left = some s' ∧ s'.queue.Held x (min (now + s.policy.deadline) u64Max) := by
  cases becomes with
  | quiet silent => cases (silent.lends x).symm.trans lends
  | deleted | created | acked | released => cases lends
  | pulled found handed =>
    obtain ⟨mem, rfl⟩ := mem_delivers_of_lends handed lends
    exact ⟨_, found, _, rfl, LeaseQueue.held_of_lent _ mem _⟩

/-- **What keeps a lease**: everything but giving the cursor back and deleting the subscription. -/
theorem Lent.becomes (h : b.Lent name x expiry) (small : expiry ≤ u64Max)
    (becomes : Becomes b name e left) (kept : e.deletes name = false)
    (unreturned : e.nacks name x = false) :
    ∃ s, left = some s ∧ s.queue.Held x expiry := by
  obtain ⟨s, found, held⟩ := h
  cases becomes with
  | quiet silent => exact ⟨s, found, held⟩
  | deleted =>
    rw [Exchange.deletes, decide_eq_false_iff_not] at kept
    exact absurd rfl kept
  | created =>
    rw [found]
    exact ⟨_, rfl, held⟩
  | acked found' =>
    obtain rfl := Option.some.inj (found.symm.trans found')
    exact ⟨_, rfl, held.settle _⟩
  | @released node now y grant s' found' =>
    obtain rfl := Option.some.inj (found.symm.trans found')
    rw [Exchange.nacks, decide_eq_false_iff_not] at unreturned
    exact ⟨_, rfl, held.release fun same => unreturned ⟨rfl, same.symm⟩⟩
  | pulled found' handed =>
    obtain rfl := Option.some.inj (found.symm.trans found')
    refine ⟨_, rfl, (held.settle _).lend fun mem => Nat.le_min.mpr ⟨?_, small⟩⟩
    exact (held.le_of_offered (LeaseQueue.offered_of_mem_taken mem)).trans (Nat.le_add_right _ _)

theorem Lent.step {t : Topic} (h : b.Lent name x expiry) (small : expiry ≤ u64Max) (stands : Represents t b)
    (i : Input)
    (kept : ∀ e ∈ (t.call host i).toList.map fun c => Exchange.mk c (t.serve c).1,
      e.deletes name = false ∧ e.nacks name x = false) :
    (Run.run Broker.step b (t.call host i).toList).Lent name x expiry := by
  cases comes : t.call host i with
  | none => exact h
  | some c =>
    rw [comes] at kept
    obtain ⟨kept, unreturned⟩ := kept _ List.mem_cons_self
    have becomes : Becomes b name ⟨c, (b.serve c).1⟩ (b.serve c).2.subs[name]? :=
      serve_becomes stands.log.numbered c
    rw [← (stands.serve c).1] at becomes
    exact h.becomes small becomes kept unreturned

/-- **A lease is kept along a run.** -/
theorem Lent.run {t : Topic} (h : b.Lent name x expiry) (small : expiry ≤ u64Max) (stands : Represents t b)
    (is : List Input)
    (kept : ∀ e ∈ t.exchanges host is, e.deletes name = false ∧ e.nacks name x = false) :
    (Run.run Broker.step b (t.calls host is)).Lent name x expiry := by
  induction is generalizing t b with
  | nil => exact h
  | cons i is ih =>
    rw [Topic.exchanges] at kept
    obtain ⟨first, later⟩ := List.forall_mem_append.mp kept
    rw [Topic.calls, Run.run_append]
    exact ih (h.step small stands i first) (stands.step i) later

end Broker

/-- A subscription that was leased from is there. -/
theorem Broker.Represents.found_of_pulled {t : Topic} {b : Broker} (stands : Represents t b)
    {node : Answers} {now maxMessages : Nat} {name : String} {grant : Option String}
    {leased : List LeasedMessage}
    (replied : (t.serve (.control node now (.pull name maxMessages grant))).1 =
      .controlled (.pulled leased)) : ∃ s, b.subs[name]? = some s := by
  rw [(stands.serve _).1, Broker.serve, Broker.control] at replied
  cases found : b.subs[name]? with
  | none =>
    rw [found] at replied
    cases replied
  | some s => exact ⟨s, rfl⟩

namespace Topic

/-- Two batches with one cursor, and between them nothing that gives it back: the second comes when the
first has run out. -/
theorem run_out_of_lent {t : Topic} {b : Broker} (stands : Broker.Represents t b) {i : Input}
    {node node' : Answers} {now now' maxMessages maxMessages' x : Nat} {name : String}
    {grant grant' : Option String} {leased leased' : List LeasedMessage}
    (comes : t.call host i = some (.control node now (.pull name maxMessages grant)))
    (replied : (t.serve (.control node now (.pull name maxMessages grant))).1 =
      .controlled (.pulled leased))
    (is : List Input)
    (kept : ∀ e ∈ (t.step host i).exchanges host is, e.deletes name = false ∧ e.nacks name x = false)
    (replied' : ((Run.run (step host) (t.step host i) is).serve
      (.control node' now' (.pull name maxMessages' grant'))).1 = .controlled (.pulled leased'))
    (mem : ∃ l ∈ leased, l.message.cursor = x) (mem' : ∃ l ∈ leased', l.message.cursor = x) :
    ∃ s, b.subs[name]? = some s ∧ min (now + s.policy.deadline) u64Max ≤ now' := by
  have lends : ∀ {node now maxMessages grant leased}, (∃ l ∈ leased, l.message.cursor = x) →
      Exchange.lends name x ⟨.control node now (.pull name maxMessages grant),
        .controlled (.pulled leased)⟩ = some now := by
    rintro node now maxMessages grant leased ⟨l, inside, same⟩
    exact if_pos ⟨rfl, List.mem_map.mpr ⟨l, inside, same⟩⟩
  have becomes : b.Becomes name ⟨_, (b.serve (.control node now (.pull name maxMessages grant))).1⟩ _ :=
    Broker.serve_becomes stands.log.numbered _
  rw [← (stands.serve _).1, replied] at becomes
  obtain ⟨s, found, s', left, held⟩ := Broker.lent_of_lends becomes (lends mem)
  refine ⟨s, found, ?_⟩
  -- the promise is kept up to the second batch
  have next : Broker.Represents (t.step host i) _ := stands.step i
  rw [comes] at next
  have promised : (Run.run Broker.step b [.control node now (.pull name maxMessages grant)]).Lent name x
      (min (now + s.policy.deadline) u64Max) := ⟨s', left, held⟩
  have still := promised.run (Nat.min_le_right _ _) next is kept
  have after : Broker.Represents (Run.run (step host) (t.step host i) is) _ := next.run is
  have becomes' : Broker.Becomes _ name _ _ :=
    Broker.serve_becomes after.log.numbered (.control node' now' (.pull name maxMessages' grant'))
  rw [← (after.serve _).1, replied'] at becomes'
  exact still.le_of_lends becomes' (lends mem')

end Topic

namespace Mesh

variable {t : Topic} {m m' : Mesh}

/-- The exchanges between two places are among those since a place before both. -/
theorem exchanges_between {past mid later : List MeshEvent} {e : MeshEvent} {i : Input}
    (grown : m.past <+: past) (split : m'.past = past ++ e :: (mid ++ later)) (input : e.input? = some i) :
    ∀ ex ∈ ((Run.run (Topic.step host) t (inputs past)).step host i).exchanges host (inputs mid),
      ex ∈ (m'.exchanges host t).drop (m.exchanges host t).length := by
  intro ex mem
  have early : (t.exchanges host (inputs m.past)).length ≤ (t.exchanges host (inputs past)).length :=
    (exchanges_grow t grown).length_le
  have whole : m'.exchanges host t = t.exchanges host (inputs past) ++
      (Run.run (Topic.step host) t (inputs past)).exchanges host (i :: (inputs mid ++ inputs later)) := by
    rw [Mesh.exchanges, split, inputs, List.filterMap_append, List.filterMap_cons, input,
      List.filterMap_append, Topic.exchanges_append]
    rfl
  rw [whole, Mesh.exchanges, List.drop_append_of_le_length early, Topic.exchanges, Topic.exchanges_append]
  exact List.mem_append_right _ (List.mem_append_right _ (List.mem_append_left _ mem))

theorem inputs_event {past mid whole : List MeshEvent} {e : MeshEvent} {i : Input}
    (place : whole = past ++ e :: mid) (input : e.input? = some i) :
    inputs whole = inputs past ++ i :: inputs mid := by
  rw [place, inputs, List.filterMap_append, List.filterMap_cons, input]
  rfl

/-- **The second of two batches with one cursor** comes when the lease of the first has run out. -/
theorem run_out_between {nodeId topic leaser name : String} (made : Topic.create nodeId topic = .ok t)
    {x : Nat} (kept : ∀ e ∈ (m'.exchanges host t).drop (m.exchanges host t).length,
      e.deletes name = false ∧ e.nacks name x = false)
    {mid gap later past more : List MeshEvent} {e : MeshEvent} {node node' : Answers}
    {now now' maxMessages maxMessages' : Nat} {grant grant' : Option String} {payloadHex : String}
    {msgs msgs' : List LeasedMessage} {s : Broker.Sub} (split : m'.past = m.past ++ mid ++ e :: later)
    (input : e.input? = some (.control node payloadHex leaser now))
    (comes : (Run.run (Topic.step host) t (inputs (m.past ++ mid))).call host
      (.control node payloadHex leaser now) = some (.control node now (.pull name maxMessages grant)))
    (replied : ((Run.run (Topic.step host) t (inputs (m.past ++ mid))).serve
      (.control node now (.pull name maxMessages grant))).1 = .controlled (.pulled msgs))
    (found : (Broker.after (t.calls host (inputs (m.past ++ mid)))).subs[name]? = some s)
    (place : past = m.past ++ mid ++ e :: gap) (rest : later = gap ++ more)
    (replied' : ((Run.run (Topic.step host) t (inputs past)).serve
      (.control node' now' (.pull name maxMessages' grant'))).1 = .controlled (.pulled msgs'))
    (mem : ∃ l ∈ msgs, l.message.cursor = x) (mem' : ∃ l ∈ msgs', l.message.cursor = x) :
    min (now + s.policy.deadline) u64Max ≤ now' := by
  have stands := (owner_is_broker host made (inputs (m.past ++ mid))).1
  rw [inputs_event place input, Run.run_append] at replied'
  obtain ⟨s', found', lapsed⟩ := Topic.run_out_of_lent stands comes replied (inputs gap)
    (fun ex inside =>
      kept ex (exchanges_between (List.prefix_append _ _) (rest ▸ split) input ex inside))
    replied' mem mem'
  obtain rfl := Option.some.inj (found.symm.trans found')
  exact lapsed

variable (host) in
/-- At a place in the history a node was handed a batch of a subscription, for as long as its policy said. -/
def LeasedAt (t : Topic) (m : Mesh) (leaser name : String) (maxMessages : Nat) (grant : Option String)
    (msgs : List LeasedMessage) (now expiry : Nat) : Prop :=
  ∃ past e later node s, m.past = past ++ e :: later ∧
    e.input? = some (.control node (Hex.encode (ControlRequest.pull name maxMessages grant).encode) leaser
      now) ∧
    ((Run.run (Topic.step host) t (inputs past)).serve
      (.control node now (.pull name maxMessages grant))).1 = .controlled (.pulled msgs) ∧
    (Broker.after (t.calls host (inputs past))).subs[name]? = some s ∧
    expiry = min (now + s.policy.deadline) u64Max

end Mesh

/-- **A message is with one consumer at a time.** Two consumers each get a batch of a subscription, in any
order and at once if they like, and one message is in both. If nobody gives it back and the subscription
is not deleted, the owner served one of them when, by its clock, the lease of the other had run out. -/
theorem leased_apart {nodeId topic : String} {inner : TopicInner}
    (new : TopicInner.createTopic nodeId topic = .ok inner) (before during : List MeshStep)
    {leaser leaser' name : String} {ch ch' : Channel} {maxMessages maxMessages' : Nat}
    {grant grant' : Option String} {msgs msgs' : List LeasedMessage} (two : leaser ≠ leaser')
    (ownerReads : ∀ req : ControlRequest, host.serde.controlRequest req.encode = .ok req)
    (reads : ∀ reply : ControlReply, ch.serde.controlReply reply.encode = .ok reply)
    (reads' : ∀ reply : ControlReply, ch'.serde.controlReply reply.encode = .ok reply)
    (carried : Mesh.Carries (Run.run (Mesh.step host) { inner } before)
      (Run.run (Mesh.step host) { inner } (before ++ during)) leaser ch.request)
    (leased : PubSub.lease ch topic name maxMessages grant = .ok msgs)
    (carried' : Mesh.Carries (Run.run (Mesh.step host) { inner } before)
      (Run.run (Mesh.step host) { inner } (before ++ during)) leaser' ch'.request)
    (leased' : PubSub.lease ch' topic name maxMessages' grant' = .ok msgs') {x : Nat}
    (mem : ∃ l ∈ msgs, l.message.cursor = x) (mem' : ∃ l ∈ msgs', l.message.cursor = x)
    (kept : ∀ e ∈ ((Run.run (Mesh.step host) { inner } (before ++ during)).exchanges host
        inner.topic).drop ((Run.run (Mesh.step host) { inner } before).exchanges host inner.topic).length,
      e.deletes name = false ∧ e.nacks name x = false) :
    ∃ now expiry now' expiry',
      (Run.run (Mesh.step host) { inner } (before ++ during)).LeasedAt host inner.topic leaser name
        maxMessages grant msgs now expiry ∧
      (Run.run (Mesh.step host) { inner } (before ++ during)).LeasedAt host inner.topic leaser' name
        maxMessages' grant' msgs' now' expiry' ∧
      (expiry ≤ now' ∨ expiry' ≤ now) := by
  have made := topic_of_createTopic new
  have sequential : (Run.run (Mesh.step host) { inner } (before ++ during)).Sequential host inner.topic :=
    (Mesh.sequential_new inner).run (before ++ during)
  have grown : (Run.run (Mesh.step host) { inner } before).past <+:
      (Run.run (Mesh.step host) { inner } (before ++ during)).past := by
    rw [Run.run_append]
    exact Mesh.past_run _ during
  generalize Run.run (Mesh.step host) { inner } before = m at *
  generalize Run.run (Mesh.step host) { inner } (before ++ during) = m' at *
  obtain ⟨mid, e, later, node, now, split, input, comes, replied⟩ :=
    carried.control grown sequential (ownerReads _) reads (PubSub.pulled_of_lease leased) nofun
  obtain ⟨mid', e', later', node', now', split', input', comes', replied'⟩ :=
    carried'.control grown sequential (ownerReads _) reads' (PubSub.pulled_of_lease leased') nofun
  have stands := (owner_is_broker host made (inputs (m.past ++ mid))).1
  have stands' := (owner_is_broker host made (inputs (m.past ++ mid'))).1
  obtain ⟨s, found⟩ := stands.found_of_pulled replied
  obtain ⟨s', found'⟩ := stands'.found_of_pulled replied'
  refine ⟨now, _, now', _, ⟨_, e, later, node, s, split, input, replied, found, rfl⟩,
    ⟨_, e', later', node', s', split', input', replied', found', rfl⟩, ?_⟩
  rcases Run.places_cases (split.symm.trans split') with ⟨-, rfl⟩ | ⟨gap, place, rest⟩ | ⟨gap, place, rest⟩
  · -- one event has one sender
    have one := Option.some.inj (input.symm.trans input')
    injection one with _ _ sender
    exact absurd sender two
  · exact .inl (Mesh.run_out_between made kept split input comes replied found place rest replied' mem
      mem')
  · exact .inr (Mesh.run_out_between made kept split' input' comes' replied' found' place rest replied
      mem' mem)

section

open Jobs Orders

/-- The mesh once one consumer has leased both messages, and once another has, a minute later. -/
private def first : Mesh := opened.asked (pulling 10) "bb" 14

private def second : Mesh := first.asked (pulling 10) "cc" 74

private theorem run_first : Run.run (Mesh.step Host.compact) opened (opened.asking (pulling 10) "bb" 14) =
    first :=
  Mesh.run_asking rfl rfl (by decide) (small (size_pulling (by decide))) (Host.compact_reads _) "bb" 14
    (by decide)

private theorem run_second : Run.run (Mesh.step Host.compact) first (first.asking (pulling 10) "cc" 74) =
    second :=
  Mesh.run_asking rfl rfl (by decide) (small (size_pulling (by decide))) (Host.compact_reads _) "cc" 74
    (by decide)

private theorem held_jobs {e : Exchange} (mem : e ∈ second.exchanges Host.compact handles.topic) :
    e.deletes "jobs" = false ∧ e.nacks "jobs" 1 = false := by
  obtain ⟨i, asked, t, comes⟩ := Topic.call_of_exchange mem
  obtain ⟨call, answer⟩ := e
  rw [second, inputs_asked, first, inputs_asked, inputs_opened] at asked
  simp only [List.mem_append, List.mem_cons, List.not_mem_nil, or_false, or_assoc] at asked
  rcases asked with rfl | rfl | rfl | rfl | rfl
  · cases comes
    exact ⟨rfl, rfl⟩
  · cases comes
    exact ⟨rfl, rfl⟩
  · obtain rfl := call_asked comes
    exact ⟨rfl, rfl⟩
  · obtain rfl := call_asked comes
    exact ⟨rfl, rfl⟩
  · obtain rfl := call_asked comes
    exact ⟨rfl, rfl⟩

/-- Two consumers that lease both messages, the second when the first's time is up. -/
theorem leased_apart_jobs :
    ∃ msgs msgs' now expiry now' expiry',
      second.LeasedAt Host.compact handles.topic "bb" "jobs" 10 none msgs now expiry ∧
      second.LeasedAt Host.compact handles.topic "cc" "jobs" 10 none msgs' now' expiry' ∧
      (expiry ≤ now' ∨ expiry' ≤ now) := by
  have leases : ∃ msgs, (opened.inner.topic.serveControl {} 14 (pulling 10)).1 = .pulled msgs ∧
      ∃ l ∈ msgs, l.message.cursor = 1 := ⟨_, rfl, _, List.mem_cons_self, rfl⟩
  have leases' : ∃ msgs, (first.inner.topic.serveControl {} 74 (pulling 10)).1 = .pulled msgs ∧
      ∃ l ∈ msgs, l.message.cursor = 1 := ⟨_, rfl, _, List.mem_cons_self, rfl⟩
  have fits : (opened.inner.topic.serveControl {} 14 (pulling 10)).1.Fits := by
    rw [ControlReply.Fits]
    decide +kernel
  have fits' : (first.inner.topic.serveControl {} 74 (pulling 10)).1.Fits := by
    rw [ControlReply.Fits]
    decide +kernel
  obtain ⟨msgs, replied, mem⟩ := leases
  obtain ⟨msgs', replied', mem'⟩ := leases'
  have run : Run.run (Mesh.step Host.compact) { inner := handles }
    (filling ++ filled.asking subscribing "bb" 10 ++
      (opened.asking (pulling 10) "bb" 14 ++ first.asking (pulling 10) "cc" 74)) = second := by
    rw [Run.run_append, run_opening, Run.run_append, run_first, run_second]
  have earlier : opened.past <+: first.past := ⟨_, (List.append_assoc _ _ _).symm⟩
  have later : first.past <+: second.past := ⟨_, (List.append_assoc _ _ _).symm⟩
  have carried : Mesh.Carries opened second "bb" _ :=
    (Mesh.carries_asked opened (pulling 10) "bb" 14).widen List.prefix_rfl later
  have carried' : Mesh.Carries opened second "cc" _ :=
    (Mesh.carries_asked first (pulling 10) "cc" 74).widen earlier List.prefix_rfl
  rw [replied, show opened.inner.topic.topic = "orders" from rfl] at carried
  rw [replied', show first.inner.topic.topic = "orders" from rfl] at carried'
  rw [replied] at fits
  rw [replied'] at fits'
  have leased := lease_bringing valid "bb" "jobs" 10 none fits
  have leased' := lease_bringing valid "cc" "jobs" 10 none fits'
  refine ⟨msgs, msgs', ?_⟩
  rw [← run_opening, ← run] at carried carried'
  rw [← run]
  refine leased_apart new _ _ (by decide) Host.compact_reads ControlReply.read_encode
    ControlReply.read_encode carried leased carried' leased' mem mem' fun e inside => ?_
  rw [run] at inside
  exact held_jobs (List.mem_of_mem_drop inside)

end

end CePubsub
