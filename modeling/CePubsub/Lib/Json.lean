import CePubsub.Lib.Hex
import Mathlib.Tactic.Common

/-!
# JSON text and its size

A JSON value, the compact text a standard writer prints for it, and the number of bytes of that text.
Strings are escaped as such writers do: the quote, the backslash and the five short control escapes,
`\u00xx` for the other control characters, and everything else as it is.

Nothing here reads text back. The module is for comparing what a writer prints with a limit on
its size, and `size` has an equation for each kind of value: an array or an object adds two
brackets and the commas between its members, a string two quotes, and a character costs at most
six times its UTF-8 size.
-/

/-- A JSON value; its numbers are the natural ones. -/
inductive Json where
  | null
  | bool (b : Bool)
  | num (n : Nat)
  | str (s : String)
  | arr (vs : List Json)
  | obj (fields : List (String × Json))

namespace Json

/-- The double quote. -/
def quote : Char := Char.ofNat 0x22

/-- The character that begins an escape. -/
def backslash : Char := Char.ofNat 0x5c

/-- The text of one character inside a string. -/
def escape (c : Char) : List Char :=
  if c = quote ∨ c = backslash then [backslash, c]
  else if c.toNat = 0x08 then [backslash, 'b']
  else if c.toNat = 0x09 then [backslash, 't']
  else if c.toNat = 0x0a then [backslash, 'n']
  else if c.toNat = 0x0c then [backslash, 'f']
  else if c.toNat = 0x0d then [backslash, 'r']
  else if c.toNat < 0x20 then
    [backslash, 'u', '0', '0', Nat.digitChar (c.toNat / 16), Nat.digitChar (c.toNat % 16)]
  else [c]

/-- The text of a string. -/
def quoted (s : String) : List Char := quote :: s.toList.flatMap escape ++ [quote]

mutual

/-- The compact text of a value. -/
def chars : Json → List Char
  | .null => "null".toList
  | .bool b => (if b then "true" else "false").toList
  | .num n => Nat.toDigits 10 n
  | .str s => quoted s
  | .arr vs => '[' :: charsList vs ++ [']']
  | .obj fields => '{' :: charsFields fields ++ ['}']

/-- The members of an array. -/
def charsList : List Json → List Char
  | [] => []
  | v :: vs => chars v ++ (if vs.isEmpty then [] else [',']) ++ charsList vs

/-- The fields of an object. -/
def charsFields : List (String × Json) → List Char
  | [] => []
  | (k, v) :: fields =>
    quoted k ++ ':' :: chars v ++ (if fields.isEmpty then [] else [',']) ++ charsFields fields

end

/-- The UTF-8 bytes of a value's text. -/
def bytes (v : Json) : List UInt8 := (chars v).flatMap String.utf8EncodeChar

/-! ## Sizes -/

/-- The UTF-8 size of characters. -/
def charsSize (cs : List Char) : Nat := (cs.map Char.utf8Size).sum

@[simp] theorem charsSize_nil : charsSize [] = 0 := rfl

@[simp] theorem charsSize_cons (c : Char) (cs : List Char) :
    charsSize (c :: cs) = c.utf8Size + charsSize cs := rfl

@[simp] theorem charsSize_append (cs ds : List Char) :
    charsSize (cs ++ ds) = charsSize cs + charsSize ds := by
  rw [charsSize, List.map_append, List.sum_append_nat]
  rfl

/-- What a character takes inside a string. -/
def escapedSize (c : Char) : Nat := charsSize (escape c)

/-- What a string takes, quotes and all. -/
def quotedSize (s : String) : Nat := 2 + (s.toList.map escapedSize).sum

/-- What a value takes. -/
def size (v : Json) : Nat := charsSize (chars v)

/-- The bytes of a text are as many as its size counts. -/
theorem length_bytes (v : Json) : (bytes v).length = v.size := by
  rw [bytes, List.length_flatMap]
  simp only [String.length_utf8EncodeChar]
  rfl

/-- An escaped text is as long as its escaped characters together. -/
theorem charsSize_flatMap_escape (cs : List Char) :
    charsSize (cs.flatMap escape) = (cs.map escapedSize).sum := by
  induction cs with
  | nil => rfl
  | cons c cs ih => rw [List.flatMap_cons, charsSize_append, ih]; rfl

/-- A string is written in as many bytes as `quotedSize` counts. -/
theorem charsSize_quoted (s : String) : charsSize (quoted s) = quotedSize s := by
  simp only [quoted, List.cons_append, charsSize_cons, charsSize_append, charsSize_nil,
    charsSize_flatMap_escape, quotedSize, show quote.utf8Size = 1 from rfl]
  omega

/-- ASCII takes one byte. -/
theorem utf8Size_of_toNat_lt {c : Char} (small : c.toNat < 128) : c.utf8Size = 1 := by
  refine Char.utf8Size_eq_one_iff.mpr ?_
  rw [UInt32.le_iff_toNat_le]
  exact Nat.le_of_lt_succ small

/-- Escaping a character makes it no smaller, and at most six times as large. -/
theorem escapedSize_bounds (c : Char) :
    c.utf8Size ≤ escapedSize c ∧ escapedSize c ≤ 6 * c.utf8Size := by
  have pos := c.utf8Size_pos
  unfold escapedSize escape
  split_ifs with special b t n f r control
  · simp only [charsSize_cons, charsSize_nil, show backslash.utf8Size = 1 from rfl]
    omega
  all_goals simp only [charsSize_cons, charsSize_nil]
  · rw [utf8Size_of_toNat_lt (by omega)]
    decide
  · rw [utf8Size_of_toNat_lt (by omega)]
    decide
  · rw [utf8Size_of_toNat_lt (by omega)]
    decide
  · rw [utf8Size_of_toNat_lt (by omega)]
    decide
  · rw [utf8Size_of_toNat_lt (by omega)]
    decide
  · rw [utf8Size_of_toNat_lt (c := c) (by omega), Hex.utf8Size_digitChar (by omega),
      Hex.utf8Size_digitChar (by omega)]
    decide
  · omega

/-- Escaping never shortens a text, and at most sixfolds it. -/
theorem sum_escapedSize (cs : List Char) :
    (cs.map Char.utf8Size).sum ≤ (cs.map escapedSize).sum ∧
      (cs.map escapedSize).sum ≤ 6 * (cs.map Char.utf8Size).sum := by
  induction cs with
  | nil => exact ⟨Nat.le_refl _, Nat.le_refl _⟩
  | cons c cs ih =>
    have := escapedSize_bounds c
    simp only [List.map_cons, List.sum_cons]
    omega

/-- The size of a string is the sum over its characters. -/
theorem utf8ByteSize_eq (s : String) : s.utf8ByteSize = (s.toList.map Char.utf8Size).sum := by
  conv_lhs => rw [← String.ofList_toList (s := s)]
  exact Text.utf8ByteSize_ofList _

/-- What a string takes, against its own size. -/
theorem quotedSize_bounds (s : String) :
    s.utf8ByteSize + 2 ≤ quotedSize s ∧ quotedSize s ≤ 6 * s.utf8ByteSize + 2 := by
  have := sum_escapedSize s.toList
  rw [utf8ByteSize_eq, quotedSize]
  omega

/-- A hex digit needs no escape. -/
theorem escapedSize_digitChar {n : Nat} (h : n < 16) : escapedSize (Nat.digitChar n) = 1 := by
  interval_cases n <;> rfl

/-- Hex is written in two bytes for each byte it stands for. -/
theorem sum_escapedSize_pair (bs : List UInt8) :
    ((bs.flatMap Hex.pair).map escapedSize).sum = 2 * bs.length := by
  induction bs with
  | nil => rfl
  | cons b bs ih =>
    have small := b.toNat_lt
    rw [List.flatMap_cons, List.map_append, List.sum_append_nat, ih, Hex.pair]
    simp only [List.map_cons, List.map_nil, List.sum_cons, List.sum_nil, List.length_cons,
      escapedSize_digitChar (show b.toNat / 16 < 16 by omega),
      escapedSize_digitChar (show b.toNat % 16 < 16 by omega)]
    omega

/-- Hexadecimal text needs no escapes. -/
theorem quotedSize_encode (bs : List UInt8) : quotedSize (Hex.encode bs) = 2 * bs.length + 2 := by
  rw [quotedSize, Hex.encode, String.toList_ofList, sum_escapedSize_pair]
  omega

@[simp] theorem size_null : size .null = 4 := rfl

@[simp] theorem size_bool (b : Bool) : size (.bool b) = if b then 4 else 5 := by
  cases b <;> rfl

@[simp] theorem size_str (s : String) : size (.str s) = quotedSize s := by
  rw [size, chars, charsSize_quoted]

/-- A number below `10 ^ k` has at most `k` digits, four bytes allowed for each. -/
theorem size_num_le {n k : Nat} (pos : 0 < k) (lt : n < 10 ^ k) : size (.num n) ≤ 4 * k := by
  have digits := (Nat.length_toDigits_le_iff (by decide) pos).mpr lt
  have size := Text.sum_utf8Size_le (Nat.toDigits 10 n)
  rw [Json.size, chars, charsSize]
  omega

/-- The elements of an array and the commas between them. -/
theorem charsSize_charsList (vs : List Json) :
    charsSize (charsList vs) = (vs.map size).sum + (vs.length - 1) := by
  induction vs with
  | nil => rfl
  | cons v vs ih =>
    cases vs with
    | nil => simp [charsList, size]
    | cons w vs =>
      rw [charsList, charsSize_append, charsSize_append, ih]
      simp only [List.isEmpty_cons, Bool.false_eq_true, if_false, charsSize_cons, charsSize_nil,
        show (','.utf8Size) = 1 from rfl, List.map_cons, List.sum_cons, List.length_cons]
      simp only [size]
      omega

/-- What a field takes, without the comma before it. -/
def fieldSize (f : String × Json) : Nat := quotedSize f.1 + 1 + f.2.size

/-- The members of an object and the commas between them. -/
theorem charsSize_charsFields (fields : List (String × Json)) :
    charsSize (charsFields fields) = (fields.map fieldSize).sum + (fields.length - 1) := by
  induction fields with
  | nil => rfl
  | cons f fields ih =>
    obtain ⟨k, v⟩ := f
    cases fields with
    | nil =>
      simp [charsFields, fieldSize, charsSize_quoted, size, show (':'.utf8Size) = 1 from rfl]
      omega
    | cons g fields =>
      rw [charsFields, charsSize_append, charsSize_append, ih]
      simp only [charsSize_append, charsSize_quoted, List.isEmpty_cons, Bool.false_eq_true, if_false,
        charsSize_cons, charsSize_nil, show (','.utf8Size) = 1 from rfl,
        show (':'.utf8Size) = 1 from rfl, List.map_cons, List.sum_cons, List.length_cons, fieldSize,
        size]
      omega

/-- An array: the brackets, the elements and the commas. -/
theorem size_arr (vs : List Json) : size (.arr vs) = 2 + (vs.map size).sum + (vs.length - 1) := by
  rw [size, chars, List.cons_append, charsSize_cons, charsSize_append, charsSize_charsList]
  simp only [charsSize_cons, charsSize_nil, show ('['.utf8Size) = 1 from rfl,
    show (']'.utf8Size) = 1 from rfl]
  omega

/-- An object: the braces, the members and the commas. -/
theorem size_obj (fields : List (String × Json)) :
    size (.obj fields) = 2 + (fields.map fieldSize).sum + (fields.length - 1) := by
  rw [size, chars, List.cons_append, charsSize_cons, charsSize_append, charsSize_charsFields]
  simp only [charsSize_cons, charsSize_nil, show ('{'.utf8Size) = 1 from rfl,
    show ('}'.utf8Size) = 1 from rfl]
  omega

/-- What fields take with a comma each. -/
def membersSize (fields : List (String × Json)) : Nat := (fields.map fun f => fieldSize f + 1).sum

@[simp] theorem membersSize_nil : membersSize [] = 0 := rfl

@[simp] theorem membersSize_cons (f : String × Json) (fields : List (String × Json)) :
    membersSize (f :: fields) = fieldSize f + 1 + membersSize fields := rfl

@[simp] theorem membersSize_append (fields others : List (String × Json)) :
    membersSize (fields ++ others) = membersSize fields + membersSize others := by
  rw [membersSize, List.map_append, List.sum_append_nat]
  rfl

/-- One separator is counted for each member. -/
theorem membersSize_eq (fields : List (String × Json)) :
    membersSize fields = (fields.map fieldSize).sum + fields.length := by
  induction fields with
  | nil => rfl
  | cons f fields ih =>
    rw [membersSize_cons, ih, List.map_cons, List.sum_cons, List.length_cons]
    omega

/-- An object that is not empty has a comma or a bracket after each field. -/
theorem size_obj_cons (f : String × Json) (fields : List (String × Json)) :
    size (.obj (f :: fields)) = 1 + membersSize (f :: fields) := by
  rw [size_obj, membersSize_eq, List.length_cons]
  omega

end Json
