import CePubsub.Lib.Fifo
import CePubsub.Message

/-!
# The de-duplication caches (`dedup.rs`)

What the owner remembers of the requests it has handled: `IdempotencyCache`, from a request's key to
what it resolved to, and `TokenSet`, the reply tokens of control requests. Both are a map and a
queue of keys, and share the loop that evicts (`Fifo.makeRoom`).
-/

namespace CePubsub

/-- What a key already handled resolved to: the cursor it produced, or none. -/
inductive Seen where
  | cursor (c : Nat)
  | handled
deriving DecidableEq

/-- What each key resolved to and when, and the keys in the order they were queued. -/
structure IdempotencyCache where
  map : HashMap String (Seen × Nat) := ∅
  order : List String := []
  capacity : Nat
  ttlSecs : Nat

namespace IdempotencyCache

def new (capacity ttlSecs : Nat) : IdempotencyCache := { capacity := max capacity 1, ttlSecs }

/-- Look a key up, dropping an entry older than the TTL from the map, though not from the queue. -/
def get (c : IdempotencyCache) (key : String) (now : Nat) : Option Seen × IdempotencyCache :=
  match c.map[key]? with
  | some (seen, recordedAt) =>
    if c.ttlSecs ≠ 0 ∧ now - recordedAt > c.ttlSecs then (none, { c with map := c.map.erase key })
    else (some seen, c)
  | none => (none, c)

/-- Update an entry in place, or evict to make room and queue a new one. -/
def insert (c : IdempotencyCache) (key : String) (seen : Seen) (now : Nat) : IdempotencyCache :=
  if key ∈ c.map then { c with map := c.map.insert key (seen, now) }
  else
    let (order, map) := Fifo.makeRoom c.capacity c.order c.map
    { c with order := order ++ [key], map := map.insert key (seen, now) }

def len (c : IdempotencyCache) : Nat := c.map.size

end IdempotencyCache

/-- The reply tokens seen and when, and the tokens in the order they were queued. -/
structure TokenSet where
  map : HashMap Nat Nat := ∅
  order : List Nat := []
  capacity : Nat
  ttlSecs : Nat

namespace TokenSet

def new (capacity ttlSecs : Nat) : TokenSet := { capacity := max capacity 1, ttlSecs }

/-- The part of `seen` that records a token it has not found. -/
def record (s : TokenSet) (token now : Nat) : TokenSet :=
  let (order, map) := Fifo.makeRoom s.capacity s.order s.map
  { s with order := order ++ [token], map := map.insert token now }

/-- Whether a token is recorded and live; if not, it now is. -/
def seen (s : TokenSet) (token now : Nat) : Bool × TokenSet :=
  match s.map[token]? with
  | some recordedAt =>
    if s.ttlSecs = 0 ∨ now - recordedAt ≤ s.ttlSecs then (true, s)
    else (false, { s with map := s.map.erase token }.record token now)
  | none => (false, s.record token now)

def len (s : TokenSet) : Nat := s.map.size

end TokenSet

end CePubsub
