import CePubsub.Lib.Scan
import CePubsub.Message

/-!
# The attribute filter (`message.rs`)
-/

namespace CePubsub

/-- `key == "value"` clauses, all of which a message must match. -/
structure AttributeFilter where
  clauses : List (String × String) := []
deriving DecidableEq

namespace AttributeFilter

/-- A filter that matches every message. -/
def any : AttributeFilter := {}

/-- One clause more. -/
def require (f : AttributeFilter) (key value : String) : AttributeFilter :=
  { clauses := f.clauses ++ [(key, value)] }

/-- No clauses. -/
def isEmpty (f : AttributeFilter) : Bool := f.clauses.isEmpty

/-- Every clause names an attribute of the message, with its value. -/
def «matches» (f : AttributeFilter) (msg : Message) : Bool :=
  f.clauses.all fun (k, v) =>
    match msg.attributes[k]? with
    | some got => got == v
    | none => false

/-- The byte of `=`, -/
def equals : UInt8 := 0x3d

/-- and that of a quote. -/
def quote : UInt8 := 0x22

/-- The key of a clause, from the text before its operator. -/
def keyOf (raw : String) : String :=
  let key := Text.trim raw
  (Text.stripPrefix "attributes." key).getD key

/-- The clauses from offset `i` on: an error in what is left, or a panic if a slice is cut inside a
character. -/
def parseFrom (s : String) (bytes : Bytes) (i : Nat) :
    Option (Except String (List (String × String))) :=
  if i < bytes.length then
    let keyStart := Text.skipWhile Text.isAsciiWhitespace bytes i
    if keyStart ≥ bytes.length then some (.ok [])
    else
      let keyEnd := Text.skipWhile (· != equals) bytes keyStart
      if keyEnd ≥ bytes.length then some (.error s!"filter clause missing '=' near byte {keyStart}")
      else
        match Text.slice s keyStart keyEnd with
        | none => none
        | some raw =>
          let key := keyOf raw
          let gap := if bytes[keyEnd + 1]? = some equals then keyEnd + 2 else keyEnd + 1
          let opening := Text.skipWhile Text.isAsciiWhitespace bytes gap
          if bytes[opening]? ≠ some quote then
            some (.error s!"filter value for key '{key}' must be double-quoted")
          else
            let closing := Text.skipWhile (· != quote) bytes (opening + 1)
            if closing ≥ bytes.length then
              some (.error s!"unterminated filter value for key '{key}'")
            else
              match Text.slice s (opening + 1) closing with
              | none => none
              | some value =>
                if key.isEmpty then some (.error "filter clause has an empty key")
                else
                  (parseFrom s bytes (closing + 1)).map fun rest => rest.map ((key, value) :: ·)
  else some (.ok [])
termination_by bytes.length - i
decreasing_by
  have start : i ≤ keyStart := Text.le_skipWhile _ bytes i
  have key : keyStart ≤ keyEnd := Text.le_skipWhile _ bytes keyStart
  have operator : keyEnd < gap := by
    simp only [gap]
    split <;> omega
  have space : gap ≤ opening := Text.le_skipWhile _ bytes gap
  have text : opening + 1 ≤ closing := Text.le_skipWhile _ bytes (opening + 1)
  show bytes.length - (closing + 1) < bytes.length - i
  omega

/-- Read a filter from its `key="value" key2="value2"` form. -/
def parse (s : String) : Option (Except String AttributeFilter) :=
  let s := Text.trim s
  if s.isEmpty then some (.ok any)
  else (parseFrom s (Text.bytes s) 0).map fun read => read.map fun clauses => { clauses }

end AttributeFilter

end CePubsub
