import CePubsub.Protocol

/-!
# Capability checks (`caps.rs`)

The check a gated topic makes of a presented grant. The chain and its rules are another library's:
`Iam` stands for the two functions of it the source calls, and for the one caveat the source reads
itself, the topic scope of a link.
-/

namespace CePubsub

/-- A node's identity, 32 bytes. -/
def NodeId : Type := { bytes : Bytes // bytes.length = 32 }

instance : DecidableEq NodeId := inferInstanceAs (DecidableEq { bytes : Bytes // bytes.length = 32 })

/-- What a publisher must be granted, -/
def abilityPublish : String := "pubsub:publish"

/-- and what a consumer must be. -/
def abilitySubscribe : String := "pubsub:subscribe"

/-- The capability library: reading a chain of links and authorizing one. -/
structure Iam (Link : Type) where
  decodeChain : String → Except String (List Link)
  authorize : (selfId : NodeId) → (acceptedRoots : List NodeId) → (selfTags : List String) →
    (now : Nat) → (requester : NodeId) → (ability : String) → (chain : List Link) →
    (isRevoked : NodeId → Nat → Bool) → Except String Unit
  /-- The topic scope of a link, if it has one. -/
  pathPrefix : Link → Option String

/-- A scope covers the topics it is a prefix of. -/
def topicAllows (scopeTopic topic : String) : Bool := scopeTopic.toList.isPrefixOf topic.toList

/-- Check a presented chain, then the topic scope of its leaf. -/
def verifyLink {Link : Type} (iam : Iam Link) (selfId : NodeId) (acceptedRoots : List NodeId)
    (selfTags : List String) (now : Nat) (requester : NodeId) (ability topic token : String)
    (isRevoked : NodeId → Nat → Bool) : Except String Unit := do
  let chain ← iam.decodeChain token
  iam.authorize selfId acceptedRoots selfTags now requester ability chain isRevoked
  match chain.getLast? with
  | none => .error "empty chain"
  | some leaf =>
    match iam.pathPrefix leaf with
    | none => .error "link has no topic scope"
    | some scope =>
      if topicAllows scope topic then .ok ()
      else .error s!"link scope '{scope}' does not cover topic '{topic}'"

end CePubsub
