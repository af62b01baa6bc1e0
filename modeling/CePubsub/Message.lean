import CePubsub.Lib.Hex
import Mathlib.Tactic.Common

/-!
# The message model and the topic names (`message.rs`)

One durable record of a topic, the options a publisher attaches to it, the size checks both publish
paths make, and the mesh names a topic maps to. `BTreeMap` and `HashMap` are the standard library's
extensional ordered map: a `HashMap` is only ever looked up, written, removed from and counted here,
so its order is not observable.

Cursors (`Cursor = u64`) and times are `u64` in the source and natural numbers here; the first
message is at cursor 1. The only arithmetic on them is adding one to a cursor and a saturating
addition and subtraction on times, so the two agree on every cursor below `u64::MAX`, and the
saturating addition is written out. Lengths of strings are lengths of their UTF-8 encoding, as they
are there.
-/

namespace CePubsub

/-- `std::collections::BTreeMap`. -/
abbrev BTreeMap (α β : Type) [Ord α] : Type := Std.ExtTreeMap α β

/-- `std::collections::HashMap`, as far as its order does not show. -/
abbrev HashMap (α β : Type) [Ord α] : Type := Std.ExtTreeMap α β

/-- `Vec<u8>`. -/
abbrev Bytes : Type := List UInt8

/-- `u64::MAX`, where the saturating additions stop. -/
def u64Max : Nat := 2 ^ 64 - 1

/-- Bound on a payload, in bytes. -/
def maxPayloadBytes : Nat := 10 * 1024 * 1024

/-- Bound on the number of attributes of a message. -/
def maxAttributes : Nat := 100

/-- Bound on a key, a value or an ordering key, in bytes. -/
def maxAttributeLen : Nat := 1024

/-- One durable message: a payload and its delivery metadata. -/
structure Message where
  cursor : Nat
  publisher : String
  payloadHex : String
  publishedAt : Nat
  orderingKey : Option String
  attributes : BTreeMap String String
  publisherAuthenticated : Bool
deriving DecidableEq

namespace Message

/-- A message that nobody vouches for, without an ordering key or attributes. -/
def new (cursor : Nat) (publisher : String) (payload : Bytes) (publishedAt : Nat) : Message where
  cursor := cursor
  publisher := publisher
  payloadHex := Hex.encode payload
  publishedAt := publishedAt
  orderingKey := none
  attributes := ∅
  publisherAuthenticated := false

/-- The same message, with what is known of its publisher. -/
def authenticated (m : Message) (yes : Bool) : Message := { m with publisherAuthenticated := yes }

/-- The payload bytes. -/
def data (m : Message) : Except Hex.FromHexError Bytes := Hex.decode m.payloadHex

end Message

/-- What a publisher may attach to a message. -/
structure PublishOptions where
  orderingKey : Option String := none
  attributes : BTreeMap String String := ∅
deriving DecidableEq

/-- The check every publish makes first. -/
def validatePayload (payload : Bytes) : Except String Unit :=
  if payload.length > maxPayloadBytes then
    .error s!"payload too large ({payload.length} bytes > {maxPayloadBytes} limit)"
  else .ok ()

/-- The checks on one attribute, in the order they are made. -/
def validateAttribute : String × String → Except String Unit
  | (k, v) =>
    if k.isEmpty then .error "attribute key must not be empty"
    else if k.utf8ByteSize > maxAttributeLen then
      .error s!"attribute key '{k}' too long ({k.utf8ByteSize} > {maxAttributeLen})"
    else if v.utf8ByteSize > maxAttributeLen then
      .error s!"attribute '{k}' value too long ({v.utf8ByteSize} > {maxAttributeLen})"
    else .ok ()

/-- How many there are, then each of them, in the order of their keys. -/
def validateAttributes (attrs : BTreeMap String String) : Except String Unit :=
  if attrs.size > maxAttributes then
    .error s!"too many attributes ({attrs.size} > {maxAttributes})"
  else attrs.toList.forM validateAttribute

/-- The length check on an ordering key; each caller words its own refusal. -/
def orderingKeyTooLong (key : Option String) : Option Nat :=
  key.bind fun k => if k.utf8ByteSize > maxAttributeLen then some k.utf8ByteSize else none

/-- The ordering key, then the attributes. -/
def PublishOptions.validate (opts : PublishOptions) : Except String Unit :=
  match orderingKeyTooLong opts.orderingKey with
  | some n => .error s!"ordering key too long ({n} > {maxAttributeLen})"
  | none => validateAttributes opts.attributes

/-! ## Topic names -/

/-- What every mesh topic starts with. -/
def ns : String := "ce-pubsub"

/-- The characters a topic name may hold: ASCII letters and digits, `.`, `-`, `_` and `:`. -/
def topicChar (c : Char) : Bool := c.isAlphanum || c == '.' || c == '-' || c == '_' || c == ':'

/-- A name is not empty, of at most 200 bytes, and of the characters a topic name may hold. -/
def validateTopic (topic : String) : Except String Unit :=
  if topic.isEmpty then .error "topic name must not be empty"
  else if topic.utf8ByteSize > 200 then .error s!"topic name too long ({topic.utf8ByteSize} > 200)"
  else if topic.toList.all topicChar then .ok ()
  else .error s!"topic '{topic}' has invalid characters (allowed: a-z A-Z 0-9 . - _ :)"

/-- The mesh topic of the live stream. -/
def liveTopic (topic : String) : String := s!"{ns}.live.{topic}"

/-- The topic poison messages go to. -/
def deadLetterTopic (topic : String) : String := s!"{topic}.dlq"

end CePubsub
