import CePubsub.Lib.Text

/-!
# Scanning UTF-8 text by its bytes

A scanner that looks at bytes and cuts slices out of the text sees the same as one that looks at
characters, if what it looks for is told from the bytes of one character alike (`Reads`). An ASCII byte
occurs in no other character than its own, so scanning for one, or for one of several, is such a scan.

`At` is a position between two characters. A scan from one stops at another (`At.skip`), so does a step
over an ASCII byte (`At.next`), and what is cut out between the two ends of a scan is the text there
(`At.slice`).
-/

namespace Text

/-- The first offset from `i` on whose byte fails `p`, or the end. -/
def skipWhile (p : UInt8 → Bool) (bs : List UInt8) (i : Nat) : Nat :=
  if h : i < bs.length then
    if p bs[i] then skipWhile p bs (i + 1) else i
  else i
termination_by bs.length - i

/-- The text from an offset in bytes on, if a character begins there. -/
def dropBytes : List Char → Nat → Option (List Char)
  | cs, 0 => some cs
  | [], _ + 1 => none
  | c :: cs, n + 1 => if c.utf8Size ≤ n + 1 then dropBytes cs (n + 1 - c.utf8Size) else none

/-- The text up to an offset in bytes, if a character ends there. -/
def takeBytes : List Char → Nat → Option (List Char)
  | _, 0 => some []
  | [], _ + 1 => none
  | c :: cs, n + 1 =>
    if c.utf8Size ≤ n + 1 then (takeBytes cs (n + 1 - c.utf8Size)).map (c :: ·) else none

/-- The text between two offsets in bytes, if they are in order and between characters. -/
def slice (s : String) (first last : Nat) : Option String :=
  if first ≤ last then
    ((dropBytes s.toList first).bind (takeBytes · (last - first))).map String.ofList
  else none

/-- The text after a prefix. -/
def stripPrefix (p s : String) : Option String := (p.toList.isPrefixOf? s.toList).map String.ofList

/-- `u8::is_ascii_whitespace`. -/
def isAsciiWhitespace (b : UInt8) : Bool :=
  b == 0x20 || b == 0x09 || b == 0x0a || b == 0x0c || b == 0x0d

/-- What is left of a list behind a prefix. -/
theorem isPrefixOf?_eq_some_iff {cs ds rest : List Char} :
    cs.isPrefixOf? ds = some rest ↔ ds = cs ++ rest := by
  induction cs generalizing ds with
  | nil => simp [List.isPrefixOf?, eq_comm]
  | cons c cs ih =>
    cases ds with
    | nil => simp [List.isPrefixOf?]
    | cons d ds =>
      by_cases same : c = d
      · rw [List.isPrefixOf?, if_pos (beq_iff_eq.mpr same), ih, same, List.cons_append,
          List.cons.injEq, eq_self_iff_true, true_and]
      · rw [List.isPrefixOf?, if_neg fun eq => same (beq_iff_eq.mp eq)]
        exact iff_of_false (by rintro ⟨⟩) fun eq => same (List.cons.inj eq).1.symm

/-- A prefix is stripped exactly where it stands. -/
theorem stripPrefix_eq_some_iff {p s rest : String} :
    stripPrefix p s = some rest ↔ s.toList = p.toList ++ rest.toList := by
  rw [stripPrefix, Option.map_eq_some_iff]
  constructor
  · rintro ⟨left, strips, rfl⟩
    rw [String.toList_ofList]
    exact isPrefixOf?_eq_some_iff.mp strips
  · intro split
    exact ⟨rest.toList, isPrefixOf?_eq_some_iff.mpr split, String.ofList_toList⟩

/-- Nothing is stripped exactly where it does not. -/
theorem stripPrefix_eq_none_iff {p s : String} :
    stripPrefix p s = none ↔ ¬ p.toList <+: s.toList := by
  rw [← Option.not_isSome_iff_eq_none, Option.isSome_iff_exists, not_iff_not]
  constructor
  · rintro ⟨rest, strips⟩
    exact ⟨rest.toList, (stripPrefix_eq_some_iff.mp strips).symm⟩
  · rintro ⟨rest, split⟩
    refine ⟨String.ofList rest, stripPrefix_eq_some_iff.mpr ?_⟩
    rw [String.toList_ofList, split]

/-! ## Bytes and characters -/

/-- The bytes of characters. -/
def encode (cs : List Char) : List UInt8 := cs.flatMap String.utf8EncodeChar

/-- The character of an ASCII byte. -/
def ascii (b : UInt8) : Char := Char.ofNat b.toNat

@[simp] theorem encode_nil : encode [] = [] := rfl

@[simp] theorem encode_cons (c : Char) (cs : List Char) :
    encode (c :: cs) = String.utf8EncodeChar c ++ encode cs := List.flatMap_cons

@[simp] theorem encode_append (cs ds : List Char) : encode (cs ++ ds) = encode cs ++ encode ds :=
  List.flatMap_append

/-- Every character takes some byte. -/
theorem encode_eq_nil_iff {cs : List Char} : encode cs = [] ↔ cs = [] := by
  cases cs with
  | nil => simp
  | cons c cs => simp [String.utf8EncodeChar_ne_nil]

/-- A character takes as many bytes as its size. -/
theorem length_encode_cons (c : Char) (cs : List Char) :
    (encode (c :: cs)).length = c.utf8Size + (encode cs).length := by
  rw [encode_cons, List.length_append, String.length_utf8EncodeChar]

/-- Every byte of a character that is not ASCII is past the ASCII bytes. -/
theorem le_of_mem_utf8EncodeChar {c : Char} (wide : c.utf8Size ≠ 1) {b : UInt8}
    (mem : b ∈ String.utf8EncodeChar c) : 0x80 ≤ b := by
  have high : ∀ {x y : UInt8}, 0x80 ≤ y → 0x80 ≤ x ||| y := by
    intro x y le
    rw [UInt8.le_iff_toNat_le] at le ⊢
    rw [UInt8.toNat_or]
    exact Nat.le_trans le Nat.right_le_or
  have pos := c.utf8Size_pos
  have four := c.utf8Size_le_four
  have cases : c.utf8Size = 2 ∨ c.utf8Size = 3 ∨ c.utf8Size = 4 := by omega
  rcases cases with two | three | four
  · rw [String.utf8EncodeChar_eq_cons_cons two] at mem
    simp only [List.mem_cons, List.not_mem_nil, or_false] at mem
    rcases mem with rfl | rfl <;> exact high (by decide)
  · rw [String.utf8EncodeChar_eq_cons_cons_cons three] at mem
    simp only [List.mem_cons, List.not_mem_nil, or_false] at mem
    rcases mem with rfl | rfl | rfl <;> exact high (by decide)
  · rw [String.utf8EncodeChar_eq_cons_cons_cons_cons four] at mem
    simp only [List.mem_cons, List.not_mem_nil, or_false] at mem
    rcases mem with rfl | rfl | rfl | rfl <;> exact high (by decide)

/-- An ASCII byte is the only byte of its character. -/
theorem utf8EncodeChar_ascii {b : UInt8} (low : b < 0x80) :
    String.utf8EncodeChar (ascii b) = [b] := by
  have small : b.toNat < 128 := UInt8.lt_iff_toNat_lt.mp low
  have val : (ascii b).val.toNat = b.toNat := by
    have valid : b.toNat.isValidChar := .inl (by omega)
    rw [ascii, Char.ofNat, dif_pos valid]
    rfl
  have narrow : (ascii b).utf8Size = 1 := by
    rw [Char.utf8Size_eq_one_iff, UInt32.le_iff_toNat_le, val]
    exact Nat.le_of_lt_succ small
  rw [String.utf8EncodeChar_eq_singleton narrow, List.cons.injEq, ← UInt8.toNat_inj,
    UInt32.toNat_toUInt8, val]
  exact ⟨Nat.mod_eq_of_lt (by omega), rfl⟩

/-- And occurs in no other. -/
theorem eq_ascii_of_mem {c : Char} {b : UInt8} (low : b < 0x80) (mem : b ∈ String.utf8EncodeChar c) :
    c = ascii b := by
  by_cases narrow : c.utf8Size = 1
  · rw [String.utf8EncodeChar_eq_singleton narrow, List.mem_singleton] at mem
    have small := Char.utf8Size_eq_one_iff.mp narrow
    rw [UInt32.le_iff_toNat_le] at small
    have val : b.toNat = c.toNat := by
      rw [mem, UInt32.toNat_toUInt8]
      exact Nat.mod_eq_of_lt (Nat.lt_of_le_of_lt small (by decide))
    rw [ascii, val, Char.ofNat_toNat]
  · exact absurd (le_of_mem_utf8EncodeChar narrow mem) (by simpa using low)

/-- Text begins with the character of an ASCII byte exactly if its bytes begin with the byte. -/
theorem head?_encode {b : UInt8} (low : b < 0x80) (cs : List Char) :
    (encode cs).head? = some b ↔ ∃ rest, cs = ascii b :: rest := by
  constructor
  · intro head
    cases cs with
    | nil => cases head
    | cons c cs =>
      rw [encode_cons, List.head?_append_of_ne_nil _ String.utf8EncodeChar_ne_nil] at head
      exact ⟨cs, congrArg (· :: cs) (eq_ascii_of_mem low (List.mem_of_head? head))⟩
  · rintro ⟨rest, rfl⟩
    rw [encode_cons, utf8EncodeChar_ascii low]
    rfl

/-! ## Scanning -/

/-- The bytes of a character all tell of it alike. -/
def Reads (p : UInt8 → Bool) (q : Char → Bool) : Prop := ∀ c, ∀ b ∈ String.utf8EncodeChar c, p b = q c

/-- A search for an ASCII byte is one for its character. -/
theorem reads_beq {b : UInt8} (low : b < 0x80) : Reads (· == b) (· == ascii b) := by
  intro c d mem
  rw [Bool.eq_iff_iff, beq_iff_eq, beq_iff_eq]
  constructor
  · rintro rfl
    exact eq_ascii_of_mem low mem
  · rintro rfl
    rw [utf8EncodeChar_ascii low] at mem
    exact List.mem_singleton.mp mem

/-- Two classes of characters, read together. -/
theorem Reads.or {p p' : UInt8 → Bool} {q q' : Char → Bool} (h : Reads p q) (h' : Reads p' q') :
    Reads (fun b => p b || p' b) (fun c => q c || q' c) := fun c b mem => by
  simp only [h c b mem, h' c b mem]

/-- The complement of a class. -/
theorem Reads.not {p : UInt8 → Bool} {q : Char → Bool} (h : Reads p q) :
    Reads (fun b => !p b) (fun c => !q c) := fun c b mem => congrArg Bool.not (h c b mem)

/-- A search for any other byte is one for any other character. -/
theorem reads_bne {b : UInt8} (low : b < 0x80) : Reads (· != b) (· != ascii b) := (reads_beq low).not

/-- `u8::is_ascii_whitespace`, of a character. -/
def isAsciiBlank (c : Char) : Bool :=
  c == ascii 0x20 || c == ascii 0x09 || c == ascii 0x0a || c == ascii 0x0c || c == ascii 0x0d

/-- ASCII white space is white space. -/
theorem isWhitespace_of_isAsciiBlank {c : Char} (blank : isAsciiBlank c) : isWhitespace c := by
  simp only [isAsciiBlank, Bool.or_eq_true, beq_iff_eq] at blank
  rcases blank with (((rfl | rfl) | rfl) | rfl) | rfl <;> decide

/-- ASCII white space is read off its bytes. -/
theorem reads_isAsciiWhitespace : Reads isAsciiWhitespace isAsciiBlank :=
  ((((reads_beq (by decide)).or (reads_beq (by decide))).or (reads_beq (by decide))).or
    (reads_beq (by decide))).or (reads_beq (by decide))

/-- The bytes of the characters taken are the bytes taken. -/
theorem takeWhile_encode {p : UInt8 → Bool} {q : Char → Bool} (h : Reads p q) (cs : List Char) :
    (encode cs).takeWhile p = encode (cs.takeWhile q) := by
  induction cs with
  | nil => rfl
  | cons c cs ih =>
    rw [encode_cons, List.takeWhile_cons]
    cases holds : q c with
    | true =>
      rw [List.takeWhile_append_of_pos fun b mem => (h c b mem).trans holds, ih]
      exact (encode_cons c _).symm
    | false =>
      obtain ⟨b, bs, first⟩ := List.exists_cons_of_ne_nil (String.utf8EncodeChar_ne_nil (c := c))
      have fails : p b = false := (h c b (first ▸ List.mem_cons_self)).trans holds
      rw [first, List.cons_append, List.takeWhile_cons, fails]
      rfl

/-- A skip goes forward. -/
theorem le_skipWhile (p : UInt8 → Bool) (bs : List UInt8) (i : Nat) : i ≤ skipWhile p bs i := by
  fun_induction skipWhile p bs i with
  | case1 i inside holds ih => omega
  | case2 => exact Nat.le_refl _
  | case3 => exact Nat.le_refl _

/-- A skip goes as far as its class reaches. -/
theorem skipWhile_eq (p : UInt8 → Bool) (bs : List UInt8) (i : Nat) :
    skipWhile p bs i = i + ((bs.drop i).takeWhile p).length := by
  fun_induction skipWhile p bs i with
  | case1 i inside holds ih =>
    rw [ih, List.drop_eq_getElem_cons inside, List.takeWhile_cons_of_pos holds, List.length_cons]
    omega
  | case2 i inside fails =>
    rw [List.drop_eq_getElem_cons inside, List.takeWhile_cons_of_neg fails, List.length_nil,
      Nat.add_zero]
  | case3 i outside => rw [List.drop_of_length_le (Nat.le_of_not_lt outside)]; rfl

/-- Where a scan for a character stops, and what it leaves. -/
theorem scan_append_cons {c : Char} {cs : List Char} (none : c ∉ cs) (tail : List Char) :
    (cs ++ c :: tail).takeWhile (· != c) = cs ∧ (cs ++ c :: tail).dropWhile (· != c) = c :: tail := by
  have front : ∀ d ∈ cs, (d != c) = true := fun d mem => bne_iff_ne.mpr fun eq => none (eq ▸ mem)
  rw [List.takeWhile_append_of_pos front, List.dropWhile_append_of_pos front, List.takeWhile_cons,
    List.dropWhile_cons, bne_self_eq_false]
  exact ⟨List.append_nil cs, rfl⟩

/-- Text is cut in one way at the first occurrence of a character. -/
theorem append_cons_inj {c : Char} {cs ds tail tail' : List Char} (none : c ∉ cs) (none' : c ∉ ds)
    (same : cs ++ c :: tail = ds ++ c :: tail') : cs = ds ∧ tail = tail' := by
  obtain ⟨taken, left⟩ := scan_append_cons none tail
  rw [same] at taken left
  obtain ⟨taken', left'⟩ := scan_append_cons none' tail'
  exact ⟨taken.symm.trans taken', (List.cons.inj (left.symm.trans left')).2⟩

/-- What a scan for a character passes over has none. -/
theorem not_mem_takeWhile_bne (c : Char) (cs : List Char) : c ∉ cs.takeWhile (· != c) := by
  intro mem
  have passed := List.mem_takeWhile_imp mem
  exact bne_iff_ne.mp passed rfl

/-- What follows the characters that are not `c` begins with `c`. -/
theorem eq_of_dropWhile_bne {c d : Char} {cs rest : List Char}
    (left : cs.dropWhile (· != c) = d :: rest) : d = c := by
  have stopped := List.head?_dropWhile_not (· != c) cs
  rw [left] at stopped
  simpa using stopped

/-! ## Positions -/

/-- At offset `i` of the bytes the text `cs` is left. -/
def At (bs : List UInt8) (i : Nat) (cs : List Char) : Prop :=
  ∃ pre, bs = encode (pre ++ cs) ∧ i = (encode pre).length

/-- The first byte begins the first character. -/
theorem at_zero (s : String) : At (bytes s) 0 s.toList := ⟨[], rfl, rfl⟩

section Position

variable {bs : List UInt8} {i : Nat} {cs : List Char}

/-- There is a byte left exactly if there is a character left. -/
theorem At.lt_iff (h : At bs i cs) : i < bs.length ↔ cs ≠ [] := by
  obtain ⟨pre, rfl, rfl⟩ := h
  rw [encode_append, List.length_append, Nat.lt_add_right_iff_pos, List.length_pos_iff, ne_eq,
    encode_eq_nil_iff]

/-- Some characters further on. -/
theorem At.append {ds : List Char} (h : At bs i (cs ++ ds)) : At bs (i + (encode cs).length) ds := by
  obtain ⟨pre, rfl, rfl⟩ := h
  refine ⟨pre ++ cs, by rw [List.append_assoc], ?_⟩
  rw [encode_append pre cs, List.length_append]

/-- Past an ASCII byte. -/
theorem At.next {b : UInt8} (low : b < 0x80) (h : At bs i (ascii b :: cs)) : At bs (i + 1) cs := by
  have past : At bs (i + (encode [ascii b]).length) cs := At.append h
  rwa [encode_cons, utf8EncodeChar_ascii low] at past

/-- The byte here is an ASCII byte exactly if its character is. -/
theorem At.byte_iff {b : UInt8} (low : b < 0x80) (h : At bs i cs) :
    bs[i]? = some b ↔ ∃ rest, cs = ascii b :: rest := by
  obtain ⟨pre, rfl, rfl⟩ := h
  rw [← head?_encode low, encode_append, List.getElem?_append_right (Nat.le_refl _), Nat.sub_self,
    List.head?_eq_getElem?]

variable {p : UInt8 → Bool} {q : Char → Bool}

/-- A skip over bytes is a skip over characters. -/
theorem At.skipWhile_eq (reads : Reads p q) (h : At bs i cs) :
    skipWhile p bs i = i + (encode (cs.takeWhile q)).length := by
  obtain ⟨pre, rfl, rfl⟩ := h
  rw [Text.skipWhile_eq, encode_append, List.drop_left, takeWhile_encode reads]

/-- **A scan of bytes stops where the scan of characters does.** -/
theorem At.skip (reads : Reads p q) (h : At bs i cs) : At bs (skipWhile p bs i) (cs.dropWhile q) := by
  rw [h.skipWhile_eq reads]
  refine At.append ?_
  rwa [List.takeWhile_append_dropWhile]

/-- A scan for an ASCII byte that stops inside the text stops at its character. -/
theorem At.find {b : UInt8} (low : b < 0x80) (h : At bs i cs)
    (inside : Text.skipWhile (· != b) bs i < bs.length) :
    ∃ rest, At bs (Text.skipWhile (· != b) bs i) (ascii b :: rest) := by
  have stop := h.skip (reads_bne low)
  obtain ⟨c, rest, left⟩ := List.exists_cons_of_ne_nil (stop.lt_iff.mp inside)
  obtain rfl := eq_of_dropWhile_bne left
  exact ⟨rest, left ▸ stop⟩

/-- Dropping bytes drops the character they make up. -/
theorem dropBytes_cons (c : Char) (cs : List Char) (n : Nat) :
    dropBytes (c :: cs) (c.utf8Size + n) = dropBytes cs n := by
  obtain ⟨k, size⟩ := Nat.exists_eq_succ_of_ne_zero (Nat.ne_of_gt c.utf8Size_pos)
  rw [size, Nat.succ_add, dropBytes, size, if_pos (by omega), show k + n + 1 - k.succ = n by omega]

/-- Taking bytes takes the character they make up. -/
theorem takeBytes_cons (c : Char) (cs : List Char) (n : Nat) :
    takeBytes (c :: cs) (c.utf8Size + n) = (takeBytes cs n).map (c :: ·) := by
  obtain ⟨k, size⟩ := Nat.exists_eq_succ_of_ne_zero (Nat.ne_of_gt c.utf8Size_pos)
  rw [size, Nat.succ_add, takeBytes, size, if_pos (by omega), show k + n + 1 - k.succ = n by omega]

/-- The bytes of a prefix can be dropped. -/
theorem dropBytes_encode (pre cs : List Char) : dropBytes (pre ++ cs) (encode pre).length = some cs := by
  induction pre with
  | nil =>
    rw [encode_nil, List.length_nil, dropBytes]
    rfl
  | cons c pre ih => rw [length_encode_cons, List.cons_append, dropBytes_cons, ih]

/-- The bytes of a prefix can be taken. -/
theorem takeBytes_encode (mid cs : List Char) :
    takeBytes (mid ++ cs) (encode mid).length = some mid := by
  induction mid with
  | nil => rw [encode_nil, List.length_nil, takeBytes]
  | cons c mid ih =>
    rw [length_encode_cons, List.cons_append, takeBytes_cons, ih]
    rfl

/-- UTF-8 determines the text. -/
theorem encode_injective : Function.Injective encode := by
  intro cs ds same
  have text : some (String.ofList cs) = some (String.ofList ds) := by
    rw [← ofBytes_bytes, ← ofBytes_bytes, bytes, bytes, String.toList_ofList, String.toList_ofList]
    exact congrArg ofBytes same
  exact String.ofList_injective (Option.some.inj text)

/-- **What is cut out between two stops** is the text the scan of characters passes over. -/
theorem At.slice {s : String} (reads : Reads p q) (h : At (bytes s) i cs) :
    Text.slice s i (skipWhile p (bytes s) i) = some (String.ofList (cs.takeWhile q)) := by
  rw [h.skipWhile_eq reads]
  obtain ⟨pre, split, rfl⟩ := h
  have split : s.toList = pre ++ cs := encode_injective split
  rw [Text.slice, split, dropBytes_encode, if_pos (Nat.le_add_right _ _), Nat.add_sub_cancel_left,
    Option.bind_some]
  nth_rewrite 1 [← List.takeWhile_append_dropWhile (p := q) (l := cs)]
  rw [takeBytes_encode]
  rfl

end Position

/-! ## Slices and character boundaries -/

/-- A character begins within the text. -/
theorem At.le {bs : List UInt8} {i : Nat} {cs : List Char} (h : At bs i cs) : i ≤ bs.length := by
  obtain ⟨pre, rfl, rfl⟩ := h
  rw [encode_append, List.length_append]
  exact Nat.le_add_right _ _

/-- The positions between two characters of a string are those Lean takes for valid. -/
theorem isValid_iff {s : String} {i : Nat} :
    (String.Pos.Raw.mk i).IsValid s ↔ ∃ pre post, s.toList = pre ++ post ∧ i = (encode pre).length := by
  rw [String.Pos.Raw.isValid_iff_exists_append]
  constructor
  · rintro ⟨pre, post, rfl, same⟩
    refine ⟨pre.toList, post.toList, String.toList_append, ?_⟩
    exact (congrArg String.Pos.Raw.byteIdx same).trans (length_bytes pre).symm
  · rintro ⟨pre, post, split, rfl⟩
    refine ⟨.ofList pre, .ofList post, ?_, ?_⟩
    · rw [← String.ofList_append, ← split, String.ofList_toList]
    · have size := length_bytes (.ofList pre)
      rw [bytes, String.toList_ofList] at size
      exact String.Pos.Raw.ext size

/-- Bytes are dropped exactly at the boundary of a character. -/
theorem dropBytes_eq_some_iff {cs rest : List Char} {n : Nat} :
    dropBytes cs n = some rest ↔ ∃ pre, cs = pre ++ rest ∧ n = (encode pre).length := by
  constructor
  · intro dropped
    fun_induction dropBytes cs n with
    | case1 cs => exact ⟨[], Option.some.inj dropped, rfl⟩
    | case2 => cases dropped
    | case3 c cs n fits ih =>
      obtain ⟨pre, rfl, size⟩ := ih dropped
      refine ⟨c :: pre, rfl, ?_⟩
      rw [length_encode_cons, ← size]
      omega
    | case4 => cases dropped
  · rintro ⟨pre, rfl, rfl⟩
    exact dropBytes_encode pre rest

/-- Bytes are taken exactly up to the boundary of a character. -/
theorem takeBytes_eq_some_iff {cs mid : List Char} {n : Nat} :
    takeBytes cs n = some mid ↔ ∃ rest, cs = mid ++ rest ∧ n = (encode mid).length := by
  constructor
  · intro taken
    fun_induction takeBytes cs n generalizing mid with
    | case1 cs =>
      obtain rfl := Option.some.inj taken
      exact ⟨cs, rfl, rfl⟩
    | case2 => cases taken
    | case3 c cs n fits ih =>
      obtain ⟨front, taken', rfl⟩ := Option.map_eq_some_iff.mp taken
      obtain ⟨rest, rfl, size⟩ := ih taken'
      refine ⟨rest, rfl, ?_⟩
      rw [length_encode_cons, ← size]
      omega
    | case4 => cases taken
  · rintro ⟨rest, rfl, rfl⟩
    exact takeBytes_encode mid rest

/-- **A slice is cut** exactly if its ends are in order and between characters. -/
theorem slice_isSome_iff {s : String} {first last : Nat} :
    (slice s first last).isSome ↔ first ≤ last ∧
      (String.Pos.Raw.mk first).IsValid s ∧ (String.Pos.Raw.mk last).IsValid s := by
  simp only [isValid_iff, slice]
  constructor
  · intro cut
    split at cut
    · next ordered =>
      rw [Option.isSome_map, Option.isSome_iff_exists] at cut
      obtain ⟨mid, cut⟩ := cut
      obtain ⟨rest, dropped, taken⟩ := Option.bind_eq_some_iff.mp cut
      obtain ⟨pre, whole, size⟩ := dropBytes_eq_some_iff.mp dropped
      obtain ⟨post, rfl, width⟩ := takeBytes_eq_some_iff.mp taken
      refine ⟨ordered, ⟨pre, mid ++ post, whole, size⟩, pre ++ mid, post, ?_, ?_⟩
      · rw [whole, List.append_assoc]
      · rw [encode_append, List.length_append]
        omega
    · cases cut
  · rintro ⟨ordered, ⟨pre, rest, whole, rfl⟩, pre', post, whole', rfl⟩
    rw [if_pos ordered, Option.isSome_map]
    have same : pre ++ rest = pre' ++ post := whole.symm.trans whole'
    rcases List.append_eq_append_iff.mp same with ⟨mid, rfl, rfl⟩ | ⟨mid, rfl, rfl⟩
    · rw [whole, dropBytes_encode, Option.bind_some, encode_append, List.length_append,
        Nat.add_sub_cancel_left, takeBytes_encode]
      rfl
    · -- the later end is the earlier one
      rw [encode_append, List.length_append] at ordered
      have none : (encode mid).length = 0 := by omega
      obtain rfl := encode_eq_nil_iff.mp (List.length_eq_zero_iff.mp none)
      rw [whole, dropBytes_encode, Option.bind_some, List.append_nil, Nat.sub_self, takeBytes]
      rfl

end Text
