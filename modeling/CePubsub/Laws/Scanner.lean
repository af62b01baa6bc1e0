import CePubsub.Laws.Filter
import CePubsub.Scanner

/-!
# The filter scanner stays inside its text

`Access.Sound` is what the text has to offer an access. A byte that is indexed must be there, and a slice
must be cut between characters, which is exactly where it can be (`sliceAt_returns_iff`). A pass of the
main loop that begins between two characters makes sound accesses only and either answers or ends
between two characters further on (`pass_meets`), so the loop does, for as many passes as the text has
bytes left (`loop_safe`), and the scanner comes to the parser's answer whatever it is given
(`scan_safe`).
-/

namespace CePubsub

namespace AttributeFilter

open Text (At)
open Traced (Meets meets_pure meets_attempt)

/-- An access the text has room for. -/
def Access.Sound (s : String) : Access → Prop
  | .pass i => i ≤ (Text.bytes s).length
  | .byte i => i < (Text.bytes s).length
  | .slice first last => first ≤ last ∧ last ≤ (Text.bytes s).length ∧
      (String.Pos.Raw.mk first).IsValid s ∧ (String.Pos.Raw.mk last).IsValid s

/-- Where a pass of the main loop begins. -/
def Access.start : Access → Option Nat
  | .pass i => some i
  | _ => none

/-- Where the passes of the main loop begin, in their order. -/
def starts (log : List Access) : List Nat := log.filterMap Access.start

/-- What is done in a pass is sound. -/
def Inner (s : String) (a : Access) : Prop := a.Sound s ∧ a.start = none

/-! ## One access

An access fails, as it panics in the source, exactly where the text has no room for it. -/

/-- A byte is read exactly if there is one. -/
theorem byteAt_returns_iff {s : String} {i : Nat} :
    (byteAt (Text.bytes s) i).outcome.isSome ↔ (Access.byte i).Sound s :=
  iff_of_eq (isSome_getElem? (Text.bytes s) i)

/-- A slice is taken exactly if it is one of the text. -/
theorem sliceAt_returns_iff {s : String} {first last : Nat} :
    (sliceAt s first last).outcome.isSome ↔ (Access.slice first last).Sound s := by
  refine Text.slice_isSome_iff.trans ⟨?_, ?_⟩
  · rintro ⟨ordered, valid, valid'⟩
    exact ⟨ordered, Text.length_bytes s ▸ valid'.le_utf8ByteSize, valid, valid'⟩
  · rintro ⟨ordered, -, valid, valid'⟩
    exact ⟨ordered, valid, valid'⟩

/-- A read inside the text gives its byte. -/
theorem byteAt_meets {s : String} {i : Nat} (inside : i < (Text.bytes s).length) :
    Meets (Inner s) (· = (Text.bytes s)[i]) (byteAt (Text.bytes s) i) :=
  meets_attempt ⟨inside, rfl⟩ (List.getElem?_eq_getElem inside)

/-- A slice of the text gives that slice. -/
theorem sliceAt_meets {s cut : String} {first last : Nat} (is : Text.slice s first last = some cut) :
    Meets (Inner s) (· = cut) (sliceAt s first last) :=
  meets_attempt ⟨sliceAt_returns_iff.mp (Option.isSome_of_eq_some is), rfl⟩ is

/-- A skip reads inside the text only, and ends where it should. -/
theorem skip_meets (p : UInt8 → Bool) (s : String) (i : Nat) :
    Meets (Inner s) (· = Text.skipWhile p (Text.bytes s) i) (skip p (Text.bytes s) i) := by
  fun_induction Text.skipWhile p (Text.bytes s) i with
  | case1 i inside holds ih =>
    rw [skip, if_pos inside]
    refine (byteAt_meets inside).bind_eq ?_
    rwa [if_pos holds]
  | case2 i inside fails =>
    rw [skip, if_pos inside]
    refine (byteAt_meets inside).bind_eq ?_
    rw [if_neg fails]
    exact meets_pure rfl
  | case3 i outside =>
    rw [skip, if_neg outside]
    exact meets_pure rfl

/-- A guarded read never leaves the text. -/
theorem byteIs_meets (s : String) (i : Nat) (b : UInt8) :
    Meets (Inner s) (· = decide ((Text.bytes s)[i]? = some b)) (byteIs (Text.bytes s) i b) := by
  rw [byteIs]
  split
  · next inside =>
    refine (byteAt_meets inside).bind_eq (meets_pure ?_)
    rw [Bool.eq_iff_iff, beq_iff_eq, decide_eq_true_iff, List.getElem?_eq_getElem inside,
      Option.some.injEq]
  · next outside =>
    refine meets_pure ?_
    rw [List.getElem?_eq_none (Nat.le_of_not_lt outside)]
    rfl

/-! ## One pass -/

/-- What is read after some clauses, put behind them. -/
def extend (clauses : List (String × String)) (read : Except String (List (String × String))) :
    Except String AttributeFilter :=
  read.map fun more => { clauses := clauses ++ more }

/-- What a pass comes to, where `read` is to be read from its position `i` on. -/
def Pass.Right (s : String) (i : Nat) (clauses : List (String × String))
    (read : Option (Except String (List (String × String)))) : Pass → Prop
  | .stop answer => read.map (extend clauses) = some answer
  | .again j clauses' => i < j ∧ (∃ rest, At (Text.bytes s) j rest) ∧
      read.map (extend clauses) = (parseFrom s (Text.bytes s) j).map (extend clauses')

/-- The scan ends with the clauses it has. -/
theorem extend_nil (clauses : List (String × String)) :
    extend clauses (.ok []) = .ok { clauses } := by
  rw [extend, Except.map, List.append_nil]

/-- The next clause goes behind those it has. -/
theorem extend_cons (clauses : List (String × String)) (clause : String × String)
    (read : Except String (List (String × String))) :
    extend clauses (read.map (clause :: ·)) = extend (clauses ++ [clause]) read := by
  cases read with
  | error => rfl
  | ok more => simp only [extend, Except.map, List.append_assoc, List.singleton_append]

/-- What the parser reads from past an operator on. -/
def valueFrom (s : String) (bytes : Bytes) (key : String) (gap : Nat) :
    Option (Except String (List (String × String))) :=
  let opening := Text.skipWhile Text.isAsciiWhitespace bytes gap
  if bytes[opening]? ≠ some quote then
    some (.error s!"filter value for key '{key}' must be double-quoted")
  else
    let closing := Text.skipWhile (· != quote) bytes (opening + 1)
    if closing ≥ bytes.length then some (.error s!"unterminated filter value for key '{key}'")
    else
      match Text.slice s (opening + 1) closing with
      | none => none
      | some value =>
        if key.isEmpty then some (.error "filter clause has an empty key")
        else (parseFrom s bytes (closing + 1)).map fun rest => rest.map ((key, value) :: ·)

/-- The pass from the gap before a value on. -/
theorem valuePass_meets {s : String} {gap : Nat} {cs : List Char} (h : At (Text.bytes s) gap cs)
    (clauses : List (String × String)) (key : String) {i : Nat} (lt : i < gap) :
    Meets (Inner s) (Pass.Right s i clauses (valueFrom s (Text.bytes s) key gap))
      (valuePass s (Text.bytes s) clauses key gap) := by
  rw [valueFrom, valuePass]
  have le_opening := Text.le_skipWhile Text.isAsciiWhitespace (Text.bytes s) gap
  have opens := h.skip Text.reads_isAsciiWhitespace
  refine (skip_meets Text.isAsciiWhitespace s gap).bind_eq ?_
  simp only
  generalize Text.skipWhile Text.isAsciiWhitespace (Text.bytes s) gap = opening at opens le_opening ⊢
  refine (byteIs_meets s opening quote).bind_eq ?_
  by_cases quoted : (Text.bytes s)[opening]? = some quote
  case neg =>
    rw [if_pos quoted, decide_eq_false quoted]
    exact meets_pure rfl
  rw [if_neg (not_not.mpr quoted), decide_eq_true quoted, Bool.not_true, if_neg Bool.false_ne_true]
  -- the quote is ASCII, so the value begins between two characters
  obtain ⟨text, left⟩ := (opens.byte_iff quote_lt).mp quoted
  rw [left] at opens
  have begins := opens.next quote_lt
  have closes := begins.find quote_lt
  have cut := begins.slice reads_quote
  have le_closing := Text.le_skipWhile (· != quote) (Text.bytes s) (opening + 1)
  refine (skip_meets (· != quote) s (opening + 1)).bind_eq ?_
  generalize Text.skipWhile (· != quote) (Text.bytes s) (opening + 1) = closing
    at closes cut le_closing ⊢
  by_cases outside : closing ≥ (Text.bytes s).length
  · simp only [if_pos outside]
    exact meets_pure rfl
  simp only [if_neg outside, cut]
  refine (sliceAt_meets cut).bind_eq ?_
  split
  · exact meets_pure rfl
  obtain ⟨rest, closes⟩ := closes (Nat.lt_of_not_le outside)
  refine meets_pure ⟨by omega, ⟨rest, closes.next quote_lt⟩, ?_⟩
  rw [Option.map_map]
  exact congrArg (Option.map · _) (funext (extend_cons clauses _))

/-- **A pass** from between two characters. -/
theorem pass_meets {s : String} {i : Nat} {cs : List Char} (h : At (Text.bytes s) i cs)
    (clauses : List (String × String)) :
    Meets (Inner s) (Pass.Right s i clauses (parseFrom s (Text.bytes s) i))
      (pass s (Text.bytes s) i clauses) := by
  rw [parseFrom, pass]
  by_cases inside : i < (Text.bytes s).length
  case neg =>
    simp only [if_neg inside]
    exact meets_pure (congrArg some (extend_nil clauses))
  simp only [if_pos inside]
  have le_start := Text.le_skipWhile Text.isAsciiWhitespace (Text.bytes s) i
  have begins := h.skip Text.reads_isAsciiWhitespace
  refine (skip_meets Text.isAsciiWhitespace s i).bind_eq ?_
  generalize Text.skipWhile Text.isAsciiWhitespace (Text.bytes s) i = keyStart at begins le_start ⊢
  by_cases blank : keyStart ≥ (Text.bytes s).length
  · simp only [if_pos blank]
    exact meets_pure (congrArg some (extend_nil clauses))
  simp only [if_neg blank]
  have ends := begins.find equals_lt
  have cut := begins.slice reads_equals
  have le_end := Text.le_skipWhile (· != equals) (Text.bytes s) keyStart
  refine (skip_meets (· != equals) s keyStart).bind_eq ?_
  generalize Text.skipWhile (· != equals) (Text.bytes s) keyStart = keyEnd at ends cut le_end ⊢
  by_cases outside : keyEnd ≥ (Text.bytes s).length
  · simp only [if_pos outside]
    exact meets_pure rfl
  simp only [if_neg outside, cut]
  refine (sliceAt_meets cut).bind_eq ?_
  refine (byteIs_meets s (keyEnd + 1) equals).bind_eq ?_
  simp only [decide_eq_true_eq]
  -- the sign is ASCII, so what follows it begins between two characters
  obtain ⟨after, ends⟩ := ends (Nat.lt_of_not_le outside)
  refine valuePass_meets (at_afterSign (ends.next equals_lt)) clauses _ ?_
  split <;> omega

/-! ## The main loop -/

/-- The accesses of a run of the main loop from position `i` on: all sound, the passes one after the
other. -/
structure Orderly (s : String) (i : Nat) (log : List Access) : Prop where
  sound : ∀ a ∈ log, a.Sound s
  above : ∀ j ∈ starts log, i ≤ j
  ascending : (starts log).Pairwise (· < ·)

/-- No pass is left to make. -/
theorem orderly_nil (s : String) (i : Nat) : Orderly s i [] :=
  ⟨List.forall_mem_nil _, List.forall_mem_nil _, .nil⟩

/-- A pass, before passes from further on. -/
theorem Orderly.cons {s : String} {i j : Nat} {inner log : List Access} (h : Orderly s j log)
    (lt : i < j) (inside : i ≤ (Text.bytes s).length) (made : ∀ a ∈ inner, Inner s a) :
    Orderly s i (.pass i :: (inner ++ log)) := by
  have same : starts (.pass i :: (inner ++ log)) = i :: starts log := by
    have none : inner.filterMap Access.start = [] :=
      List.filterMap_eq_nil_iff.mpr fun a mem => (made a mem).2
    rw [starts, List.filterMap_cons_some (f := Access.start) (a := .pass i) rfl,
      List.filterMap_append, none]
    rfl
  have further : ∀ k ∈ starts log, i < k := fun k mem => Nat.lt_of_lt_of_le lt (h.above k mem)
  refine ⟨?_, ?_, ?_⟩
  · refine List.forall_mem_cons.mpr ⟨inside, List.forall_mem_append.mpr ⟨?_, h.sound⟩⟩
    exact fun a mem => (made a mem).1
  · rw [same]
    exact List.forall_mem_cons.mpr ⟨Nat.le_refl i, fun k mem => Nat.le_of_lt (further k mem)⟩
  · rw [same]
    exact .cons further h.ascending

/-- **The main loop**, from between two characters and on a budget for the bytes left. -/
theorem loop_safe {s : String} {fuel i : Nat} {cs : List Char} (h : At (Text.bytes s) i cs)
    (clauses : List (String × String)) (budget : (Text.bytes s).length < i + fuel) :
    Orderly s i (loop s (Text.bytes s) fuel i clauses).log ∧
      ∃ read, (loop s (Text.bytes s) fuel i clauses).outcome = some read ∧
        (parseFrom s (Text.bytes s) i).map (extend clauses) = some read := by
  induction fuel generalizing i cs clauses with
  | zero => exact absurd h.le (Nat.not_le_of_lt budget)
  | succ fuel ih =>
    obtain ⟨inner, next, returned, right⟩ := pass_meets h clauses
    rw [loop, Traced.bind_of_outcome rfl, Traced.bind_of_outcome returned]
    cases next with
    | stop read =>
      exact ⟨(orderly_nil s (i + 1)).cons (Nat.lt_succ_self i) h.le inner, read, rfl, right⟩
    | again j clauses' =>
      obtain ⟨lt, ⟨rest, later⟩, same⟩ := right
      obtain ⟨orderly, read, answers, reads⟩ := ih later clauses' (by omega)
      exact ⟨orderly.cons lt h.le inner, read, answers, same.trans reads⟩

/-- **The scanner is safe.** It indexes no byte out of range, cuts no slice out of order or inside a
character, begins every pass of its main loop further on than the one before, and comes to an answer, the
parser's, on every budget of more passes than the text has bytes. -/
theorem scan_safe (s : String) (spare : Nat) :
    Orderly (Text.trim s) 0 (scan s (enough s + spare)).log ∧
      ∃ read, (scan s (enough s + spare)).outcome = some read ∧ parse s = some read := by
  rw [scan, parse]
  split
  · exact ⟨orderly_nil _ 0, .ok any, rfl, rfl⟩
  · have budget : (Text.bytes (Text.trim s)).length < 0 + (enough s + spare) := by
      rw [enough]
      omega
    exact loop_safe (Text.at_zero (Text.trim s)) [] budget

end AttributeFilter

end CePubsub
