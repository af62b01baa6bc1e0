import Mathlib.Algebra.Ring.Nat
import Mathlib.Data.List.Basic
import Mathlib.Data.List.DropRight
import Mathlib.Data.List.TakeWhile

/-!
# UTF-8 text as bytes

`bytes s` is the UTF-8 encoding of a string, one byte list per character, and `ofBytes` reads it
back. `length_bytes` says its length is the string's `utf8ByteSize`; `bytes_ofList_ascii` says that
ASCII text is one byte a character. These are the facts a wire format needs to compare what a
writer produces with a limit a reader puts on it.
-/

namespace Text

/-- The UTF-8 bytes of a string. -/
def bytes (s : String) : List UInt8 := s.toList.flatMap String.utf8EncodeChar

/-- The string a byte sequence is the UTF-8 encoding of, if it is one. -/
def ofBytes (bs : List UInt8) : Option String := String.fromUTF8? bs.toByteArray

theorem toByteArray_bytes (s : String) : (bytes s).toByteArray = s.toByteArray := by
  conv_rhs => rw [← String.ofList_toList (s := s), String.toByteArray_ofList]
  rfl

theorem length_bytes (s : String) : (bytes s).length = s.utf8ByteSize := by
  rw [← String.size_toByteArray, ← toByteArray_bytes, List.size_toByteArray]

/-- Reading the bytes of a string gives the string back. -/
theorem ofBytes_bytes (s : String) : ofBytes (bytes s) = some s := by
  unfold ofBytes
  rw [toByteArray_bytes]
  simp only [String.fromUTF8?, s.isValidUTF8, ↓reduceDIte]
  rfl

/-- The size of text is the sum of its characters' sizes. -/
theorem utf8ByteSize_ofList (cs : List Char) :
    (String.ofList cs).utf8ByteSize = (cs.map Char.utf8Size).sum := by
  rw [← length_bytes, bytes, String.toList_ofList, List.length_flatMap]
  simp only [String.length_utf8EncodeChar]

theorem sum_utf8Size_le (cs : List Char) : (cs.map Char.utf8Size).sum ≤ 4 * cs.length := by
  induction cs with
  | nil => exact Nat.le_refl _
  | cons c cs ih =>
    have := c.utf8Size_le_four
    rw [List.map_cons, List.sum_cons, List.length_cons]
    omega

/-- The decimal digits of a number below `10 ^ k` are few. -/
theorem utf8ByteSize_repr_le {n k : Nat} (pos : 0 < k) (lt : n < 10 ^ k) :
    n.repr.utf8ByteSize ≤ 4 * k := by
  have digits := (Nat.length_toDigits_le_iff (by decide) pos).mpr lt
  have size := sum_utf8Size_le (Nat.toDigits 10 n)
  rw [Nat.repr_eq_ofList_toDigits, utf8ByteSize_ofList]
  omega

/-- ASCII text is one byte a character. -/
theorem bytes_ofList_ascii {cs : List Char} (h : ∀ c ∈ cs, c.utf8Size = 1) :
    bytes (String.ofList cs) = cs.map fun c => c.val.toUInt8 := by
  rw [bytes, String.toList_ofList]
  induction cs with
  | nil => rfl
  | cons c cs ih =>
    have hc := h c List.mem_cons_self
    have hcs := ih fun d hd => h d (List.mem_cons_of_mem _ hd)
    simp only [List.flatMap_cons, String.utf8EncodeChar_eq_singleton hc, hcs, List.map_cons,
      List.singleton_append]

/-- Unicode white space. -/
def isWhitespace (c : Char) : Bool :=
  (9 ≤ c.toNat && c.toNat ≤ 13) || c.toNat == 0x20 || c.toNat == 0x85 || c.toNat == 0xa0 ||
    c.toNat == 0x1680 || (0x2000 ≤ c.toNat && c.toNat ≤ 0x200a) || c.toNat == 0x2028 ||
    c.toNat == 0x2029 || c.toNat == 0x202f || c.toNat == 0x205f || c.toNat == 0x3000

/-- Text without the white space at its two ends. -/
def trim (s : String) : String :=
  String.ofList ((s.toList.dropWhile isWhitespace).reverse.dropWhile isWhitespace).reverse

theorem getLast?_trim (s : String) : ∀ c ∈ (trim s).toList.getLast?, isWhitespace c = false := by
  intro c mem
  rw [trim, String.toList_ofList, List.getLast?_reverse] at mem
  have stopped := List.head?_dropWhile_not isWhitespace (s.toList.dropWhile isWhitespace).reverse
  rw [Option.mem_def.mp mem] at stopped
  exact stopped

theorem head?_trim (s : String) : ∀ c ∈ (trim s).toList.head?, isWhitespace c = false := by
  intro c mem
  rw [trim, String.toList_ofList] at mem
  have front : List.rdropWhile isWhitespace (s.toList.dropWhile isWhitespace) <+:
      s.toList.dropWhile isWhitespace := List.rdropWhile_prefix isWhitespace _
  have stopped := List.head?_dropWhile_not isWhitespace s.toList
  rw [List.singleton_prefix_iff_head?_eq_some.mp
    ((List.singleton_prefix_iff_head?_eq_some.mpr mem).trans front)] at stopped
  exact stopped

/-- White space in front is trimmed. -/
theorem trim_append {lead : List Char} (leads : ∀ c ∈ lead, isWhitespace c) (cs : List Char) :
    trim (String.ofList (lead ++ cs)) = trim (String.ofList cs) := by
  rw [trim, trim, String.toList_ofList, String.toList_ofList, List.dropWhile_append_of_pos leads]

/-- What is between white space, if it neither begins nor ends with any, is what trimming leaves. -/
theorem trim_between {lead mid trail : List Char} (leads : ∀ c ∈ lead, isWhitespace c)
    (trails : ∀ c ∈ trail, isWhitespace c) (first : ∀ c ∈ mid.head?, isWhitespace c = false)
    (last : ∀ c ∈ mid.getLast?, isWhitespace c = false) :
    trim (String.ofList (lead ++ mid ++ trail)) = String.ofList mid := by
  have stays : ∀ {cs : List Char}, (∀ c ∈ cs.head?, isWhitespace c = false) →
      cs.dropWhile isWhitespace = cs := by
    intro cs first
    cases cs with
    | nil => rfl
    | cons c cs => exact List.dropWhile_cons_of_neg (by simpa using first c rfl)
  cases mid with
  | nil =>
    have blank : ∀ c ∈ lead ++ [] ++ trail, isWhitespace c := by
      intro c mem
      rw [List.append_nil] at mem
      exact (List.mem_append.mp mem).elim (leads c) (trails c)
    rw [trim, String.toList_ofList, List.dropWhile_eq_nil_iff.mpr blank]
    rfl
  | cons c mid =>
    have front : (lead ++ (c :: mid) ++ trail).dropWhile isWhitespace = c :: mid ++ trail := by
      rw [List.append_assoc, List.dropWhile_append_of_pos leads]
      exact stays first
    have back : ((c :: mid) ++ trail).reverse.dropWhile isWhitespace = (c :: mid).reverse := by
      rw [List.reverse_append,
        List.dropWhile_append_of_pos fun c mem => trails c (List.mem_reverse.mp mem)]
      exact stays (List.head?_reverse ▸ last)
    rw [trim, String.toList_ofList, front, back, List.reverse_reverse]

end Text
