import CePubsub.Topic
import Mathlib.Data.List.Chain

/-!
# What a re-delegated grant reaches

The check of a grant looks at the scope of the last link only, and takes it for a prefix of the topic's
name, character by character. The links before it are the capability library's business, which narrows
scopes by segments between `/`. The two agree on what matters: a scope that narrows another has it for a
prefix, so what the last link covers every link covers (`scopes_allow`), and nobody who passes a grant
on can widen it.
-/

namespace CePubsub

/-- A scope that is another, or extends it where a segment ends. -/
def Within (child parent : String) : Prop :=
  child = parent ∨ ∃ rest, child.toList = parent.toList ++ rest ∧
    (rest.head? = some '/' ∨ parent.toList.getLast? = some '/')

variable {Link : Type}

/-- A link with a scope is followed by one whose scope is within it. -/
def Iam.Narrows (iam : Iam Link) (parent child : Link) : Prop :=
  ∀ p, iam.pathPrefix parent = some p → ∃ c, iam.pathPrefix child = some c ∧ Within c p

/-- The library authorizes no chain that widens a scope. -/
def Iam.Attenuates (iam : Iam Link) : Prop :=
  ∀ selfId acceptedRoots selfTags now requester ability chain isRevoked,
    iam.authorize selfId acceptedRoots selfTags now requester ability chain isRevoked = .ok () →
      chain.IsChain iam.Narrows

theorem topicAllows_iff {scope topic : String} :
    topicAllows scope topic = true ↔ scope.toList <+: topic.toList := List.isPrefixOf_iff_prefix

theorem Within.isPrefix {child parent : String} (h : Within child parent) :
    parent.toList <+: child.toList := by
  rcases h with rfl | ⟨rest, split, -⟩
  · exact List.prefix_rfl
  · exact ⟨rest, split.symm⟩

/-- What a scope covers, a wider one covers. -/
theorem Within.allows {child parent topic : String} (h : Within child parent)
    (allows : topicAllows child topic = true) : topicAllows parent topic = true :=
  topicAllows_iff.mpr (h.isPrefix.trans (topicAllows_iff.mp allows))

variable {iam : Iam Link} {selfId requester : NodeId} {acceptedRoots : List NodeId}
  {selfTags : List String} {now : Nat} {ability topic token : String}
  {isRevoked : NodeId → Nat → Bool}

/-- A grant that verifies is an authorized chain whose last link has a scope that covers the topic. -/
theorem leaf_of_verifyLink
    (ok : verifyLink iam selfId acceptedRoots selfTags now requester ability topic token isRevoked =
      .ok ()) :
    ∃ chain leaf scope, iam.decodeChain token = .ok chain ∧
      iam.authorize selfId acceptedRoots selfTags now requester ability chain isRevoked = .ok () ∧
      chain.getLast? = some leaf ∧ iam.pathPrefix leaf = some scope ∧
      topicAllows scope topic = true := by
  simp only [verifyLink, bind, Except.bind] at ok
  cases decoded : iam.decodeChain token with
  | error e =>
    rw [decoded] at ok
    cases ok
  | ok chain =>
    rw [decoded] at ok
    simp only at ok
    cases authorized : iam.authorize selfId acceptedRoots selfTags now requester ability chain
        isRevoked with
    | error e =>
      rw [authorized] at ok
      cases ok
    | ok u =>
      rw [authorized] at ok
      simp only at ok
      split at ok
      · cases ok
      · next leaf last =>
        split at ok
        · cases ok
        · next scope held =>
          split at ok
          · next allows => exact ⟨chain, leaf, scope, rfl, authorized, last, held, allows⟩
          · cases ok

/-- **What the last link of a narrowing chain covers, every link with a scope covers.** -/
theorem scopes_allow {chain : List Link} {leaf : Link} {scope : String}
    (narrows : chain.IsChain iam.Narrows) (last : chain.getLast? = some leaf)
    (held : iam.pathPrefix leaf = some scope) (allows : topicAllows scope topic = true) :
    ∀ link ∈ chain, ∀ s, iam.pathPrefix link = some s → topicAllows s topic = true := by
  refine narrows.backwards_induction (fun link => ∀ s, iam.pathPrefix link = some s →
    topicAllows s topic = true) chain ?_ ?_
  · intro parent child narrower covers s is
    obtain ⟨c, of, within⟩ := narrower s is
    exact within.allows (covers c of)
  · intro some s is
    have same : chain.getLast some = leaf :=
      Option.some.inj ((List.getLast?_eq_some_getLast some).symm.trans last)
    rw [same, held] at is
    exact Option.some.inj is ▸ allows

/-- **Re-delegation never widens access.** If the library authorizes only chains that narrow their
scopes, then a grant that verifies for a topic is a chain whose last link has a scope, and every scope
of the chain covers the topic. -/
theorem verifyLink_within (attenuates : iam.Attenuates)
    (ok : verifyLink iam selfId acceptedRoots selfTags now requester ability topic token isRevoked =
      .ok ()) :
    ∃ chain leaf, iam.decodeChain token = .ok chain ∧ chain.getLast? = some leaf ∧
      (iam.pathPrefix leaf).isSome ∧
      ∀ link ∈ chain, ∀ scope, iam.pathPrefix link = some scope → topicAllows scope topic = true := by
  obtain ⟨chain, leaf, scope, decoded, authorized, last, held, allows⟩ := leaf_of_verifyLink ok
  refine ⟨chain, leaf, decoded, last, Option.isSome_of_eq_some held, ?_⟩
  exact scopes_allow (attenuates _ _ _ _ _ _ _ _ authorized) last held allows

/-- A library that reads one grant, and authorizes chains of links without scope, or with one that is
its parent's or a segment more. -/
private def teamNarrower : Option String → Option String → Bool
  | none, _ => true
  | some _, none => false
  | some p, some c => c == p || (p ++ "/").toList.isPrefixOf c.toList

private def teamChecks : List (Option String) → Bool
  | parent :: child :: rest => teamNarrower parent child && teamChecks (child :: rest)
  | _ => true

private def teamIam : Iam (Option String) where
  decodeChain token :=
    if token = "c0ffee" then .ok [none, some "team", some "team/eu"] else .error "decoding chain"
  authorize _ _ _ _ _ _ chain _ :=
    if teamChecks chain then .ok () else .error "child path is not within its parent's"
  pathPrefix link := link

private theorem teamIam_attenuates : teamIam.Attenuates := by
  intro _ _ _ _ _ _ chain _ authorized
  have checks : teamChecks chain = true := by
    by_contra unchecked
    cases (if_neg unchecked).symm.trans authorized
  clear authorized
  induction chain with
  | nil => exact .nil
  | cons parent chain ih =>
    cases chain with
    | nil => exact .singleton _
    | cons child rest =>
      obtain ⟨narrower, later⟩ := Bool.and_eq_true_iff.mp checks
      refine .cons_cons ?_ (ih later)
      rintro p rfl
      cases child with
      | none => cases narrower
      | some c =>
        refine ⟨c, rfl, ?_⟩
        rcases Bool.or_eq_true_iff.mp narrower with same | longer
        · exact .inl (beq_iff_eq.mp same)
        · obtain ⟨rest, split⟩ := List.isPrefixOf_iff_prefix.mp longer
          refine .inr ⟨'/' :: rest, ?_, .inl rfl⟩
          rw [← split, String.toList_append, List.append_assoc]
          rfl

private def ownerId : NodeId := ⟨List.replicate 32 0xaa, by decide⟩

/-- A grant of a team's, passed on for a part of it. -/
theorem verifyLink_within_team :
    ∃ chain leaf, teamIam.decodeChain "c0ffee" = .ok chain ∧ chain.getLast? = some leaf ∧
      (teamIam.pathPrefix leaf).isSome ∧
      ∀ link ∈ chain, ∀ scope, teamIam.pathPrefix link = some scope →
        topicAllows scope "team/eu.orders" = true :=
  have ok : verifyLink teamIam ownerId [] [] 10 ownerId abilityPublish "team/eu.orders" "c0ffee"
      (fun _ _ => false) = .ok () := by decide
  verifyLink_within teamIam_attenuates ok

/-- **What a gated topic admits is within every scope of the grant presented.** -/
theorem Topic.gate_within {host : Host Link} (attenuates : host.iam.Attenuates) {t : Topic}
    {node : Answers} {requesterHex : String} {grant : Option String} (gated : t.requireCap = true)
    (admitted : t.gate host node requesterHex ability grant now = .ok ()) :
    ∃ token chain, grant = some token ∧ host.iam.decodeChain token = .ok chain ∧
      ∀ link ∈ chain, ∀ scope, host.iam.pathPrefix link = some scope →
        topicAllows scope t.topic = true := by
  unfold gate at admitted
  rw [if_pos gated] at admitted
  cases grant with
  | none => cases admitted
  | some token =>
    simp only [authorize, bind, Except.bind] at admitted
    split at admitted
    · cases admitted
    · split at admitted
      · cases admitted
      · split at admitted
        · cases admitted
        · obtain ⟨chain, leaf, scope, decoded, authorized, last, held, allows⟩ :=
            leaf_of_verifyLink admitted
          refine ⟨token, chain, rfl, decoded, ?_⟩
          exact scopes_allow (attenuates _ _ _ _ _ _ _ _ authorized) last held allows

end CePubsub
