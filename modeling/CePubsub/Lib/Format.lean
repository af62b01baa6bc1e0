import CePubsub.Lib.Json
import Std.Data.ExtTreeMap.Lemmas

/-!
# Formats of JSON values

A format of a type writes its values as JSON values and reads them back, and carries the proof that
nothing is lost on the way. Formats are made from formats as a derived writer and reader make them:
a list is an array, an ordered map an object whose keys are the written keys, a struct an object with
the fields it is declared with.

A field is written or left out, and has a value where it is missing or has none. `Rows` puts the
fields of a struct together. Its law says that what is read depends only on the members under its
own keys, so that distinct keys are all it takes to put one field before others: unknown members are
passed over, and a key that is there twice is refused.

The reader of a map takes the later of two members under one key. The array that some readers take
for a struct is not one here.
-/

/-- What the values of a type are written as, and how they are read back. -/
structure Format (α : Type) where
  write : α → Json
  read : Json → Option α
  lossless : ∀ a, read (write a) = some a

namespace Format

variable {α β γ κ σ : Type}

/-! ## Plain values -/

/-- A number. -/
def nat : Format Nat where
  write n := .num n
  read
    | .num n => some n
    | _ => none
  lossless _ := rfl

/-- A truth value. -/
def bool : Format Bool where
  write b := .bool b
  read
    | .bool b => some b
    | _ => none
  lossless _ := rfl

/-- A string. -/
def str : Format String where
  write s := .str s
  read
    | .str s => some s
    | _ => none
  lossless _ := rfl

/-- No string is written as `null`. -/
theorem str_ne_null (s : String) : str.write s ≠ .null := by
  intro same
  cases same

/-- The one value of `Unit`, as `null`. -/
def unit : Format Unit where
  write _ := .null
  read
    | .null => some ()
    | _ => none
  lossless _ := rfl

/-- A 32-bit number, read only if it is one. -/
def uint32 : Format UInt32 where
  write n := .num n.toNat
  read
    | .num n => if n < UInt32.size then some (.ofNat n) else none
    | _ => none
  lossless n := by
    simp only [n.toNat_lt_size, if_true, UInt32.ofNat_toNat]

/-! ## Arrays -/

/-- A list of lossless values is read back whole. -/
theorem mapM_map_of_lossless {write : α → β} {read : β → Option α}
    (lossless : ∀ a, read (write a) = some a) (as : List α) :
    (as.map write).mapM read = some as := by
  induction as with
  | nil => rfl
  | cons a as ih =>
    rw [List.map_cons, List.mapM_cons, lossless, ih]
    rfl

/-- A list, written as an array. -/
def list (f : Format α) : Format (List α) where
  write as := .arr (as.map f.write)
  read
    | .arr vs => vs.mapM f.read
    | _ => none
  lossless as := mapM_map_of_lossless f.lossless as

/-! ## Maps -/

/-- How the keys of a map are written. -/
structure Key (κ : Type) where
  write : κ → String
  read : String → Option κ
  lossless : ∀ k, read (write k) = some k

/-- A string as a key. -/
def Key.str : Key String where
  write k := k
  read s := some s
  lossless _ := rfl

/-- Numbers in decimal: of the texts that are made of digits, the one without zeros to spare. -/
def Key.nat : Key Nat where
  write n := n.repr
  read s :=
    let n := Nat.ofDigitChars 10 s.toList 0
    if n.repr = s then some n else none
  lossless n := by
    have back : Nat.ofDigitChars 10 n.repr.toList 0 = n := by
      rw [Nat.repr_eq_ofList_toDigits, String.toList_ofList, Nat.ofDigitChars_ten_toDigits]
    simp only [back, if_true]

section Maps

variable [Ord κ] [Std.TransOrd κ] [Std.LawfulEqOrd κ]

/-- A map is the map of its entries. -/
theorem ofList_toList (m : Std.ExtTreeMap κ β) : Std.ExtTreeMap.ofList m.toList = m := by
  classical
  refine Std.ExtTreeMap.ext_getElem? fun k => ?_
  cases found : m[k]? with
  | none =>
    refine Std.ExtTreeMap.getElem?_ofList_of_contains_eq_false ?_
    rw [Std.ExtTreeMap.map_fst_toList_eq_keys]
    simpa using found
  | some v =>
    exact Std.ExtTreeMap.getElem?_ofList_of_mem Std.ReflCmp.compare_self
      m.distinct_keys_toList (Std.ExtTreeMap.mem_toList_iff_getElem?_eq_some.mpr found)

/-- One member of a map. -/
def Key.writeEntry (key : Key κ) (f : Format β) (e : κ × β) : String × Json :=
  (key.write e.1, f.write e.2)

/-- One entry read from a member. -/
def Key.readEntry (key : Key κ) (f : Format β) (e : String × Json) : Option (κ × β) := do
  let k ← key.read e.1
  let v ← f.read e.2
  some (k, v)

/-- A map, written as an object. -/
def map (key : Key κ) (f : Format β) : Format (Std.ExtTreeMap κ β) where
  write m := .obj (m.toList.map (key.writeEntry f))
  read
    | .obj fields => (fields.mapM (key.readEntry f)).map (Std.ExtTreeMap.ofList ·)
    | _ => none
  lossless m := by
    have entry (e : κ × β) : key.readEntry f (key.writeEntry f e) = some e := by
      simp only [Key.readEntry, Key.writeEntry, key.lossless, f.lossless, bind, Option.bind]
    simp only [mapM_map_of_lossless entry, Option.map_some, ofList_toList]

end Maps

/-! ## Structs -/

/-- One field of a struct: what is written under its key, if anything, and what its value is, given
what stands under the key, if anything does. -/
structure Field (α : Type) where
  key : String
  write : α → Option Json
  read : Option Json → Option α
  lossless : ∀ a, read (write a) = some a

namespace Field

/-- A field that is always written and has to be there. -/
def required (key : String) (f : Format α) : Field α where
  key := key
  write a := some (f.write a)
  read v := v.bind f.read
  lossless := f.lossless

/-- A field that is always written, and is `default` where it is missing. -/
def defaulted (key : String) (f : Format α) (default : α) : Field α where
  key := key
  write a := some (f.write a)
  read
    | some v => f.read v
    | none => some default
  lossless := f.lossless

/-- A field that is left out where `skip` says so, and is `default` where it is missing. -/
def skipped (key : String) (f : Format α) (skip : α → Bool) (default : α)
    (skips : ∀ a, skip a = true → a = default) : Field α where
  key := key
  write a := if skip a then none else some (f.write a)
  read
    | some v => f.read v
    | none => some default
  lossless a := by
    cases left : skip a with
    | true => exact congrArg some (skips a left).symm
    | false => exact f.lossless a

/-- A field that is left out when it is `none`, as which a `null` is read, too. -/
def optional (key : String) (f : Format α) (some_ : ∀ a, f.write a ≠ .null) : Field (Option α) where
  key := key
  write a := a.map f.write
  read
    | none | some .null => some none
    | some v => (f.read v).map some
  lossless a := by
    cases a with
    | none => rfl
    | some a =>
      have lossless := f.lossless a
      simp only [Option.map_some]
      split
      · next eq => cases eq
      · next eq => exact absurd (Option.some.inj eq) (some_ a)
      · next v _ eq => rw [← Option.some.inj eq, lossless, Option.map_some]

/-- What stands under a key. -/
def occurrences (key : String) (fields : List (String × Json)) : List Json :=
  (fields.filter fun member => member.1 = key).map Prod.snd

/-- The members a field adds. -/
def put (field : Field α) (a : α) : List (String × Json) :=
  (field.write a).toList.map fun v => (field.key, v)

/-- The field's value in an object; its key stands there at most once. -/
def get (field : Field α) (fields : List (String × Json)) : Option α :=
  match occurrences field.key fields with
  | [] => field.read none
  | [v] => field.read (some v)
  | _ => none

/-- The values under a key in either part of the members. -/
theorem occurrences_append (key : String) (fields others : List (String × Json)) :
    occurrences key (fields ++ others) = occurrences key fields ++ occurrences key others := by
  rw [occurrences, List.filter_append, List.map_append]
  rfl

/-- A field that is written is found under its key. -/
theorem occurrences_put_self (field : Field α) (a : α) :
    occurrences field.key (field.put a) = (field.write a).toList := by
  rw [put, occurrences]
  cases field.write a with
  | none => rfl
  | some v => simp

/-- No value is found under a key no member has. -/
theorem occurrences_eq_nil {key : String} {fields : List (String × Json)}
    (absent : ∀ member ∈ fields, member.1 ≠ key) : occurrences key fields = [] := by
  rw [occurrences, List.map_eq_nil_iff, List.filter_eq_nil_iff]
  intro member mem same
  exact absent member mem (of_decide_eq_true same)

/-- A field writes under its own key only. -/
theorem key_of_mem_put {field : Field α} {a : α} {member : String × Json}
    (mem : member ∈ field.put a) : member.1 = field.key := by
  obtain ⟨v, -, rfl⟩ := List.mem_map.mp mem
  rfl

/-- A field is read off whatever holds its own members under its key. -/
theorem get_of_occurrences {field : Field α} {a : α} {fields : List (String × Json)}
    (own : occurrences field.key fields = (field.write a).toList) : field.get fields = some a := by
  have lossless := field.lossless a
  rw [get, own]
  cases written : field.write a with
  | none => rwa [written] at lossless
  | some v => rwa [written] at lossless

end Field

/-- Fields of a struct `σ`, the values of which make up an `α`. -/
structure Rows (σ α : Type) where
  keys : List String
  value : σ → α
  write : σ → List (String × Json)
  read : List (String × Json) → Option α
  own : ∀ s, ∀ member ∈ write s, member.1 ∈ keys
  lossless : keys.Nodup → ∀ s fields,
    (∀ key ∈ keys, Field.occurrences key fields = Field.occurrences key (write s)) →
      read fields = some (value s)

namespace Rows

/-- No fields. -/
def done : Rows σ Unit where
  keys := []
  value _ := ()
  write _ := []
  read _ := some ()
  own _ _ mem := absurd mem List.not_mem_nil
  lossless _ _ _ _ := rfl

/-- One field before others. -/
def field (get : σ → β) (field : Field β) (rows : Rows σ γ) : Rows σ (β × γ) where
  keys := field.key :: rows.keys
  value s := (get s, rows.value s)
  write s := field.put (get s) ++ rows.write s
  read fields := do
    let b ← field.get fields
    let c ← rows.read fields
    some (b, c)
  own s member mem := by
    rcases List.mem_append.mp mem with first | later
    · rw [Field.key_of_mem_put first]
      exact List.mem_cons_self
    · exact List.mem_cons_of_mem _ (rows.own s member later)
  lossless distinct s fields under := by
    obtain ⟨fresh, rest⟩ := List.nodup_cons.mp distinct
    have first : field.get fields = some (get s) := by
      refine Field.get_of_occurrences ?_
      rw [under _ List.mem_cons_self, Field.occurrences_append, Field.occurrences_put_self,
        Field.occurrences_eq_nil, List.append_nil]
      intro member mem same
      exact fresh (same ▸ rows.own s member mem)
    have later : rows.read fields = some (rows.value s) := by
      refine rows.lossless rest s fields fun key mem => ?_
      rw [under key (List.mem_cons_of_mem _ mem), Field.occurrences_append,
        Field.occurrences_eq_nil, List.nil_append]
      intro member put same
      exact fresh (Field.key_of_mem_put put ▸ same ▸ mem)
    simp only [first, later, bind, Option.bind]

end Rows

/-- A struct with the fields given, the keys of which are distinct. -/
def struct (rows : Rows σ α) (make : α → σ) (distinct : rows.keys.Nodup)
    (whole : ∀ s, make (rows.value s) = s) : Format σ where
  write s := .obj (rows.write s)
  read
    | .obj fields => (rows.read fields).map make
    | _ => none
  lossless s := by
    simp only [rows.lossless distinct s (rows.write s) fun _ _ => rfl, Option.map_some, whole]

end Format
