import CePubsub.Filter
import CePubsub.Lib.Traced

/-!
# The filter scanner, access by access (`message.rs`)

`AttributeFilter::parse` once more, with every byte it indexes and every slice it cuts as a step of its
own, which fails where the source panics, and with its main loop run on a budget of passes.
-/

namespace CePubsub

namespace AttributeFilter

/-- What the scanner does to its text: a pass of the main loop from a position, a byte indexed, a slice
cut. -/
inductive Access where
  | pass (i : Nat)
  | byte (i : Nat)
  | slice (first last : Nat)
deriving DecidableEq

open Traced (note attempt abort)

/-- `bytes[i]`. -/
def byteAt (bytes : Bytes) (i : Nat) : Traced Access UInt8 := attempt (.byte i) bytes[i]?

/-- `s[first..last]`. -/
def sliceAt (s : String) (first last : Nat) : Traced Access String :=
  attempt (.slice first last) (Text.slice s first last)

/-- `while i < bytes.len() && p(bytes[i]) { i += 1; }` -/
def skip (p : UInt8 → Bool) (bytes : Bytes) (i : Nat) : Traced Access Nat :=
  if i < bytes.length then do
    let b ← byteAt bytes i
    if p b then skip p bytes (i + 1) else pure i
  else pure i
termination_by bytes.length - i

/-- `i < bytes.len() && bytes[i] == b` -/
def byteIs (bytes : Bytes) (i : Nat) (b : UInt8) : Traced Access Bool :=
  if i < bytes.length then do
    let got ← byteAt bytes i
    pure (got == b)
  else pure false

/-- What the loop's condition and body come to: the answer, or the position and the clauses to go on
with. -/
inductive Pass where
  | stop (read : Except String AttributeFilter)
  | again (i : Nat) (clauses : List (String × String))

/-- The end of the loop's body, from past the operator on. -/
def valuePass (s : String) (bytes : Bytes) (clauses : List (String × String)) (key : String)
    (gap : Nat) : Traced Access Pass := do
  let opening ← skip Text.isAsciiWhitespace bytes gap
  let quoted ← byteIs bytes opening quote
  if !quoted then
    pure (.stop (.error s!"filter value for key '{key}' must be double-quoted"))
  else
    let closing ← skip (· != quote) bytes (opening + 1)
    if closing ≥ bytes.length then
      pure (.stop (.error s!"unterminated filter value for key '{key}'"))
    else
      let value ← sliceAt s (opening + 1) closing
      if key.isEmpty then pure (.stop (.error "filter clause has an empty key"))
      else pure (.again (closing + 1) (clauses ++ [(key, value)]))

/-- One test of the main loop's condition, and the body if it holds. -/
def pass (s : String) (bytes : Bytes) (i : Nat) (clauses : List (String × String)) :
    Traced Access Pass :=
  if i < bytes.length then do
    let keyStart ← skip Text.isAsciiWhitespace bytes i
    if keyStart ≥ bytes.length then pure (.stop (.ok { clauses }))
    else
      let keyEnd ← skip (· != equals) bytes keyStart
      if keyEnd ≥ bytes.length then
        pure (.stop (.error s!"filter clause missing '=' near byte {keyStart}"))
      else
        let raw ← sliceAt s keyStart keyEnd
        let second ← byteIs bytes (keyEnd + 1) equals
        valuePass s bytes clauses (keyOf raw) (if second then keyEnd + 2 else keyEnd + 1)
  else pure (.stop (.ok { clauses }))

/-- The main loop, for at most `fuel` passes. -/
def loop (s : String) (bytes : Bytes) :
    Nat → Nat → List (String × String) → Traced Access (Except String AttributeFilter)
  | 0, _, _ => abort
  | fuel + 1, i, clauses => do
    note (.pass i)
    match ← pass s bytes i clauses with
    | .stop read => pure read
    | .again i clauses => loop s bytes fuel i clauses

/-- As many passes as a text ever needs. -/
def enough (s : String) : Nat := (Text.bytes (Text.trim s)).length + 1

/-- `AttributeFilter::parse`, for at most `fuel` passes of its main loop. -/
def scan (s : String) (fuel : Nat) : Traced Access (Except String AttributeFilter) :=
  let s := Text.trim s
  if s.isEmpty then pure (.ok any) else loop s (Text.bytes s) fuel 0 []

end AttributeFilter

end CePubsub
