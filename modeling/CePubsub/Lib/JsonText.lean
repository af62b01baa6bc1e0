import CePubsub.Lib.Format
import CePubsub.Lib.Json

/-!
# Reading compact JSON text

A reader of the text that `Json.chars` prints, and the proof that it reads every value back: the text
of a value, with anything after it that does not begin with a digit, is read as that value and
what came after. So no two values have one text, and none of them begins with another.

The reader is for that text alone. It takes no white space, no signs, fractions or exponents, and no
escapes but those the writer uses. Its fuel counts calls: reading a text takes at most two for each of
its characters, one to come to a value and one to go on after it.
-/

namespace Json

/-- The value of a hexadecimal digit, as the writer prints them. -/
def digitValue (c : Char) : Option Nat := "0123456789abcdef".toList.idxOf? c

/-- The control character four digits stand for, and what comes after them. -/
def readControl : List Char → Option (Char × List Char)
  | '0' :: '0' :: high :: low :: cs => do
    let high ← digitValue high
    let low ← digitValue low
    some (Char.ofNat (16 * high + low), cs)
  | _ => none

/-- The character that is escaped, and what comes after: the text begins after the backslash. -/
def unescape : List Char → Option (Char × List Char)
  | [] => none
  | c :: cs =>
    if c = quote ∨ c = backslash then some (c, cs)
    else if c = 'b' then some (Char.ofNat 0x08, cs)
    else if c = 't' then some (Char.ofNat 0x09, cs)
    else if c = 'n' then some (Char.ofNat 0x0a, cs)
    else if c = 'f' then some (Char.ofNat 0x0c, cs)
    else if c = 'r' then some (Char.ofNat 0x0d, cs)
    else if c = 'u' then readControl cs
    else none

/-- The characters up to the closing quote, and what comes after it. -/
def readQuoted : Nat → List Char → Option (List Char × List Char)
  | fuel + 1, c :: cs =>
    if c = quote then some ([], cs)
    else if c = backslash then do
      let (c, cs) ← unescape cs
      let (s, cs) ← readQuoted fuel cs
      some (c :: s, cs)
    else do
      let (s, cs) ← readQuoted fuel cs
      some (c :: s, cs)
  | _, _ => none

/-- What comes after a text that is to come next. -/
def after (expected cs : List Char) : Option (List Char) :=
  if expected.isPrefixOf cs then some (cs.drop expected.length) else none

/-- A decimal digit. -/
def isDigit (c : Char) : Bool := c.isDigit

mutual

/-- The value the text begins with, and what comes after it. -/
def readValue : Nat → List Char → Option (Json × List Char)
  | fuel + 1, c :: cs =>
    if c = 'n' then (after "ull".toList cs).map (.null, ·)
    else if c = 't' then (after "rue".toList cs).map (.bool true, ·)
    else if c = 'f' then (after "alse".toList cs).map (.bool false, ·)
    else if c = quote then
      (readQuoted fuel cs).map fun (s, cs) => (.str (String.ofList s), cs)
    else if c = '[' then
      match after [']'] cs with
      | some cs => some (.arr [], cs)
      | none => (readItems fuel cs).map fun (vs, cs) => (.arr vs, cs)
    else if c = '{' then
      match after ['}'] cs with
      | some cs => some (.obj [], cs)
      | none => (readMembers fuel cs).map fun (fields, cs) => (.obj fields, cs)
    else if isDigit c then
      some (.num (Nat.ofDigitChars 10 ((c :: cs).takeWhile isDigit) 0), (c :: cs).dropWhile isDigit)
    else none
  | _, _ => none

/-- The items of an array from one of them on, and what comes after the array. -/
def readItems : Nat → List Char → Option (List Json × List Char)
  | fuel + 1, cs => do
    let (v, cs) ← readValue fuel cs
    match cs with
    | ',' :: cs => do
      let (vs, cs) ← readItems fuel cs
      some (v :: vs, cs)
    | ']' :: cs => some ([v], cs)
    | _ => none
  | 0, _ => none

/-- The members of an object from one of them on, and what comes after the object. -/
def readMembers : Nat → List Char → Option (List (String × Json) × List Char)
  | fuel + 1, cs => do
    let cs ← after [quote] cs
    let (k, cs) ← readQuoted fuel cs
    let cs ← after [':'] cs
    let (v, cs) ← readValue fuel cs
    match cs with
    | ',' :: cs => do
      let (fields, cs) ← readMembers fuel cs
      some ((String.ofList k, v) :: fields, cs)
    | '}' :: cs => some ([(String.ofList k, v)], cs)
    | _ => none
  | 0, _ => none

end

/-- The value of a whole text. -/
def ofChars (cs : List Char) : Option Json :=
  match readValue (2 * cs.length) cs with
  | some (v, []) => some v
  | _ => none

/-- The value of the UTF-8 bytes of a whole text. -/
def ofBytes (bs : List UInt8) : Option Json := (Text.ofBytes bs).bind fun s => ofChars s.toList

/-! ## Strings -/

theorem after_self (c : Char) (cs : List Char) : after [c] (c :: cs) = some cs := by
  rw [after, if_pos (by simp)]
  rfl

theorem after_of_ne {c d : Char} (ne : c ≠ d) (cs : List Char) : after [c] (d :: cs) = none := by
  rw [after, if_neg]
  simpa [List.isPrefixOf] using ne

/-- A hex digit has the value it was written for. -/
theorem digitValue_digitChar {n : Nat} (h : n < 16) : digitValue (Nat.digitChar n) = some n := by
  interval_cases n <;> rfl

/-- A character is itself inside a string, or a backslash and what `unescape` undoes. -/
theorem escape_cases (c : Char) :
    escape c = [c] ∧ c ≠ quote ∧ c ≠ backslash ∨
      ∃ es, escape c = backslash :: es ∧ ∀ rest, unescape (es ++ rest) = some (c, rest) := by
  rw [escape]
  split_ifs with special b t n f r control
  · refine .inr ⟨[c], rfl, fun rest => ?_⟩
    rw [List.singleton_append, unescape, if_pos special]
  · exact .inr ⟨['b'], rfl, fun rest => by rw [← Char.ofNat_toNat c, b]; rfl⟩
  · exact .inr ⟨['t'], rfl, fun rest => by rw [← Char.ofNat_toNat c, t]; rfl⟩
  · exact .inr ⟨['n'], rfl, fun rest => by rw [← Char.ofNat_toNat c, n]; rfl⟩
  · exact .inr ⟨['f'], rfl, fun rest => by rw [← Char.ofNat_toNat c, f]; rfl⟩
  · exact .inr ⟨['r'], rfl, fun rest => by rw [← Char.ofNat_toNat c, r]; rfl⟩
  · refine .inr ⟨_, rfl, fun rest => ?_⟩
    have high := digitValue_digitChar (show c.toNat / 16 < 16 by omega)
    have low := digitValue_digitChar (Nat.mod_lt c.toNat (by decide : 0 < 16))
    have whole : Char.ofNat (16 * (c.toNat / 16) + c.toNat % 16) = c := by
      rw [Nat.div_add_mod, Char.ofNat_toNat]
    show ((digitValue _).bind fun high => (digitValue _).bind fun low =>
      some (Char.ofNat (16 * high + low), rest)) = some (c, rest)
    rw [high, low, Option.bind_some, Option.bind_some, whole]
  · exact .inl ⟨rfl, not_or.mp special⟩

/-- The text of a string is read back, up to the quote that closes it. -/
theorem readQuoted_escaped (s rest : List Char) {fuel : Nat}
    (enough : (s.flatMap escape).length < fuel) :
    readQuoted fuel (s.flatMap escape ++ quote :: rest) = some (s, rest) := by
  induction s generalizing fuel with
  | nil =>
    obtain ⟨fuel, rfl⟩ := Nat.exists_eq_succ_of_ne_zero (Nat.ne_of_gt enough)
    rfl
  | cons c s ih =>
    rw [List.flatMap_cons, List.length_append] at enough
    obtain ⟨fuel, rfl⟩ := Nat.exists_eq_succ_of_ne_zero (Nat.ne_of_gt (Nat.zero_lt_of_lt enough))
    rw [List.flatMap_cons, List.append_assoc]
    rcases escape_cases c with ⟨plain, other, straight⟩ | ⟨es, escaped, undone⟩
    · rw [plain, List.length_singleton] at enough
      rw [plain, List.singleton_append, readQuoted, if_neg other, if_neg straight,
        ih (by omega)]
      rfl
    · rw [escaped, List.length_cons] at enough
      rw [escaped, List.cons_append, readQuoted, if_neg (by decide), if_pos rfl, undone]
      simp only [bind, Option.bind]
      rw [ih (by omega)]

/-! ## Numbers -/

/-- A number ends where this begins: at no digit. -/
def Stops (rest : List Char) : Prop := ∀ c ∈ rest.head?, isDigit c = false

theorem stops_nil : Stops [] := nofun

/-- A number ends before any other character. -/
theorem stops_cons {c : Char} (other : isDigit c = false) (cs : List Char) : Stops (c :: cs) :=
  fun _ mem => Option.some.inj mem ▸ other

/-- The digits of a number, and what follows it. -/
theorem takeWhile_digits {ds rest : List Char} (digits : ∀ d ∈ ds, isDigit d) (stops : Stops rest) :
    (ds ++ rest).takeWhile isDigit = ds ∧ (ds ++ rest).dropWhile isDigit = rest := by
  rw [List.takeWhile_append_of_pos digits, List.dropWhile_append_of_pos digits]
  cases rest with
  | nil => exact ⟨List.append_nil ds, rfl⟩
  | cons c cs =>
    have other : ¬ isDigit c = true := by rw [stops c rfl]; exact Bool.false_ne_true
    rw [List.takeWhile_cons_of_neg other, List.dropWhile_cons_of_neg other, List.append_nil]
    exact ⟨rfl, rfl⟩

/-- A digit begins a number and nothing else. -/
theorem readValue_of_digit {c : Char} (digit : isDigit c) (fuel : Nat) (cs : List Char) :
    readValue (fuel + 1) (c :: cs) =
      some (.num (Nat.ofDigitChars 10 ((c :: cs).takeWhile isDigit) 0),
        (c :: cs).dropWhile isDigit) := by
  have ne : ∀ other, isDigit other = false → c ≠ other := by
    rintro other no rfl
    rw [no] at digit
    cases digit
  rw [readValue, if_neg (ne _ (by decide)), if_neg (ne _ (by decide)), if_neg (ne _ (by decide)),
    if_neg (ne _ (by decide)), if_neg (ne _ (by decide)), if_neg (ne _ (by decide)), if_pos digit]

/-- A number is read back. -/
theorem readValue_num (n : Nat) {rest : List Char} (stops : Stops rest) (fuel : Nat) :
    readValue (fuel + 1) (Nat.toDigits 10 n ++ rest) = some (.num n, rest) := by
  have digits : ∀ d ∈ Nat.toDigits 10 n, isDigit d := fun d mem =>
    Nat.isDigit_of_mem_toDigits (by decide) (by decide) mem
  have split := takeWhile_digits digits stops
  have back := Nat.ofDigitChars_ten_toDigits (n := n)
  cases ds : Nat.toDigits 10 n with
  | nil => exact absurd ds Nat.toDigits_ne_nil
  | cons d ds' =>
    rw [ds] at digits split back
    rw [List.cons_append] at split ⊢
    rw [readValue_of_digit (digits d List.mem_cons_self), split.1, split.2, back]

/-! ## Values -/

/-- A string is read back. -/
theorem readValue_str (s : String) (rest : List Char) {fuel : Nat}
    (enough : (quoted s).length ≤ fuel + 1) :
    readValue (fuel + 1) (quoted s ++ rest) = some (.str s, rest) := by
  have text : quoted s ++ rest = quote :: (s.toList.flatMap escape ++ quote :: rest) := by
    simp only [quoted, List.cons_append, List.append_assoc, List.nil_append]
  have short : (s.toList.flatMap escape).length < fuel := by
    simp only [quoted, List.cons_append, List.length_cons, List.length_append, List.length_nil]
      at enough
    omega
  rw [text, readValue, if_neg (by decide), if_neg (by decide), if_neg (by decide), if_pos rfl,
    readQuoted_escaped _ _ short]
  exact congrArg (fun s => some (Json.str s, rest)) (String.ofList_toList (s := s))

/-- No value's text begins with a bracket that closes. -/
theorem chars_begins (v : Json) : ∃ c cs, chars v = c :: cs ∧ c ≠ ']' := by
  cases v with
  | null => exact ⟨'n', _, rfl, by decide⟩
  | bool b =>
    cases b with
    | true => exact ⟨'t', _, rfl, by decide⟩
    | false => exact ⟨'f', _, rfl, by decide⟩
  | num n =>
    rw [chars]
    cases ds : Nat.toDigits 10 n with
    | nil => exact absurd ds Nat.toDigits_ne_nil
    | cons d ds' =>
      have digit : d.isDigit := Nat.isDigit_of_mem_toDigits (b := 10) (n := n) (by decide)
        (by decide) (by rw [ds]; exact List.mem_cons_self)
      refine ⟨d, ds', rfl, ?_⟩
      rintro rfl
      exact absurd digit (by decide)
  | str s => exact ⟨quote, _, rfl, by decide⟩
  | arr vs => exact ⟨'[', _, rfl, by decide⟩
  | obj fields => exact ⟨'{', _, rfl, by decide⟩

/-- With so much fuel values are read back from their texts, whatever comes after, if that begins with
no digit. -/
def ReadsValues (fuel : Nat) : Prop :=
  ∀ v rest, Stops rest → 2 * (chars v).length ≤ fuel →
    readValue fuel (chars v ++ rest) = some (v, rest)

/-- The elements of an array are read back. -/
def ReadsItems (fuel : Nat) : Prop :=
  ∀ v vs rest, 2 * (charsList (v :: vs)).length + 2 ≤ fuel →
    readItems fuel (charsList (v :: vs) ++ ']' :: rest) = some (v :: vs, rest)

/-- The members of an object are read back. -/
def ReadsMembers (fuel : Nat) : Prop :=
  ∀ k v fields rest, 2 * (charsFields ((k, v) :: fields)).length + 2 ≤ fuel →
    readMembers fuel (charsFields ((k, v) :: fields) ++ '}' :: rest) = some ((k, v) :: fields, rest)

/-- Values are read back if their parts are. -/
theorem readsValues_succ {fuel : Nat} (items : ReadsItems fuel) (members : ReadsMembers fuel) :
    ReadsValues (fuel + 1) := by
  intro v rest stops enough
  cases v with
  | null => rfl
  | bool b => cases b <;> rfl
  | num n => exact readValue_num n stops fuel
  | str s =>
    rw [chars] at enough ⊢
    exact readValue_str s rest (by omega)
  | arr vs =>
    rw [chars] at enough ⊢
    rw [List.length_append, List.length_cons, List.length_singleton] at enough
    rw [List.append_assoc, List.cons_append, List.singleton_append, readValue, if_neg (by decide),
      if_neg (by decide), if_neg (by decide), if_neg (by decide), if_pos rfl]
    cases vs with
    | nil => rfl
    | cons v vs =>
      obtain ⟨c, cs, begins, ne⟩ := chars_begins v
      have opens : after [']'] (charsList (v :: vs) ++ ']' :: rest) = none := by
        rw [charsList, begins]
        exact after_of_ne ne.symm _
      rw [opens, items v vs rest (by omega)]
      rfl
  | obj fields =>
    rw [chars] at enough ⊢
    rw [List.length_append, List.length_cons, List.length_singleton] at enough
    rw [List.append_assoc, List.cons_append, List.singleton_append, readValue, if_neg (by decide),
      if_neg (by decide), if_neg (by decide), if_neg (by decide), if_neg (by decide), if_pos rfl]
    cases fields with
    | nil => rfl
    | cons field fields =>
      obtain ⟨k, v⟩ := field
      have opens : after ['}'] (charsFields ((k, v) :: fields) ++ '}' :: rest) = none := by
        rw [charsFields, quoted]
        exact after_of_ne (by decide) _
      rw [opens, members k v fields rest (by omega)]
      rfl

/-- Elements are read back one after the other. -/
theorem readsItems_succ {fuel : Nat} (values : ReadsValues fuel) (items : ReadsItems fuel) :
    ReadsItems (fuel + 1) := by
  intro v vs rest enough
  rw [charsList] at enough ⊢
  cases vs with
  | nil =>
    simp only [List.isEmpty_nil, if_true, charsList, List.append_nil] at enough ⊢
    rw [readItems, values v _ (stops_cons (by decide) _) (by omega)]
    rfl
  | cons w vs =>
    simp only [List.isEmpty_cons, Bool.false_eq_true, if_false, List.length_append,
      List.length_singleton] at enough
    simp only [List.isEmpty_cons, Bool.false_eq_true, if_false, List.append_assoc, List.cons_append,
      List.nil_append]
    rw [readItems, values v _ (stops_cons (by decide) _) (by omega)]
    simp only [bind, Option.bind]
    rw [items w vs rest (by omega)]

/-- So are members. -/
theorem readsMembers_succ {fuel : Nat} (values : ReadsValues fuel) (members : ReadsMembers fuel) :
    ReadsMembers (fuel + 1) := by
  intro k v fields rest enough
  have name : ∀ cs, readQuoted fuel (k.toList.flatMap escape ++ quote :: cs) = some (k.toList, cs) := by
    intro cs
    refine readQuoted_escaped k.toList cs ?_
    simp only [charsFields, quoted, List.cons_append, List.length_cons, List.length_append] at enough
    omega
  rw [charsFields] at enough ⊢
  cases fields with
  | nil =>
    simp only [List.isEmpty_nil, if_true, charsFields, List.append_nil, quoted, List.cons_append,
      List.append_assoc, List.nil_append, List.length_cons, List.length_append] at enough ⊢
    have value := values v ('}' :: rest) (stops_cons (by decide) _) (by omega)
    simp only [readMembers, after_self, name, value, bind, Option.bind, String.ofList_toList]
  | cons field fields =>
    obtain ⟨l, w⟩ := field
    simp only [List.isEmpty_cons, Bool.false_eq_true, if_false, quoted, List.cons_append,
      List.append_assoc, List.nil_append, List.length_cons, List.length_append] at enough ⊢
    have value := values v (',' :: (charsFields ((l, w) :: fields) ++ '}' :: rest))
      (stops_cons (by decide) _) (by omega)
    have more := members l w fields rest (by omega)
    simp only [readMembers, after_self, name, value, more, bind, Option.bind, String.ofList_toList]

/-- **Whatever the fuel, it is enough for the texts it is meant for.** -/
theorem reads (fuel : Nat) : ReadsValues fuel ∧ ReadsItems fuel ∧ ReadsMembers fuel := by
  induction fuel with
  | zero =>
    refine ⟨fun v rest _ enough => ?_, fun _ _ _ enough => ?_, fun _ _ _ _ enough => ?_⟩
    · obtain ⟨c, cs, begins, -⟩ := chars_begins v
      rw [begins, List.length_cons] at enough
      omega
    · omega
    · omega
  | succ fuel ih =>
    obtain ⟨values, items, members⟩ := ih
    exact ⟨readsValues_succ items members, readsItems_succ values items,
      readsMembers_succ values members⟩

/-! ## Whole texts -/

/-- Every value is read back from its text. -/
theorem ofChars_chars (v : Json) : ofChars (chars v) = some v := by
  have read := (reads (2 * (chars v).length)).1 v [] stops_nil (Nat.le_refl _)
  rw [List.append_nil] at read
  rw [ofChars, read]

/-- The bytes of a value are those of its text. -/
theorem bytes_eq (v : Json) : bytes v = Text.bytes (String.ofList (chars v)) := by
  rw [Text.bytes, String.toList_ofList, bytes]

/-- **Every value is read back from its bytes.** -/
theorem ofBytes_bytes (v : Json) : ofBytes (bytes v) = some v := by
  rw [ofBytes, bytes_eq, Text.ofBytes_bytes, Option.bind_some, String.toList_ofList, ofChars_chars]

/-- No two values have the same bytes. -/
theorem bytes_injective {v w : Json} (same : bytes v = bytes w) : v = w := by
  have read := ofBytes_bytes v
  rw [same, ofBytes_bytes] at read
  exact (Option.some.inj read).symm

end Json

namespace Format

variable {α : Type}

/-- A value of a type, read from the bytes of its JSON. -/
def readBytes (f : Format α) (bs : List UInt8) : Option α := (Json.ofBytes bs).bind f.read

/-- A format loses nothing down to the bytes. -/
theorem readBytes_bytes (f : Format α) (a : α) : f.readBytes (f.write a).bytes = some a := by
  rw [readBytes, Json.ofBytes_bytes, Option.bind_some, f.lossless]

/-- Two values of one format with the same bytes are the same. -/
theorem bytes_injective (f : Format α) {a b : α} (same : (f.write a).bytes = (f.write b).bytes) :
    a = b := by
  have read := f.readBytes_bytes a
  rw [same, f.readBytes_bytes] at read
  exact (Option.some.inj read).symm

end Format
