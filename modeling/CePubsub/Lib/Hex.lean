import CePubsub.Lib.Text
import Mathlib.Tactic.IntervalCases

/-!
# Hexadecimal text

The standard encoding of bytes as hexadecimal text: two lower-case digits a byte, the high half
first. `decode` reads either case and refuses an odd number of bytes before it looks at any digit,
then names the first byte that is no digit, and its place.

`decode_encode` is the round trip and `utf8ByteSize_encode` the size: twice the bytes.
-/

namespace Hex

/-- Why text is not the encoding of bytes. -/
inductive FromHexError where
  | invalidHexCharacter (c : Char) (index : Nat)
  | oddLength
deriving DecidableEq

/-- The two digits of one byte. -/
def pair (b : UInt8) : List Char :=
  [Nat.digitChar (b.toNat / 16), Nat.digitChar (b.toNat % 16)]

/-- The digits of a byte sequence. -/
def encode (bs : List UInt8) : String := String.ofList (bs.flatMap pair)

/-- The value of one digit, read at `index`. -/
def val (b : UInt8) (index : Nat) : Except FromHexError Nat :=
  if 'A'.toNat ≤ b.toNat ∧ b.toNat ≤ 'F'.toNat then .ok (b.toNat - 'A'.toNat + 10)
  else if 'a'.toNat ≤ b.toNat ∧ b.toNat ≤ 'f'.toNat then .ok (b.toNat - 'a'.toNat + 10)
  else if '0'.toNat ≤ b.toNat ∧ b.toNat ≤ '9'.toNat then .ok (b.toNat - '0'.toNat)
  else .error (.invalidHexCharacter (Char.ofNat b.toNat) index)

/-- Read digits two at a time, the first of them at `index`. -/
def decodePairs : Nat → List UInt8 → Except FromHexError (List UInt8)
  | index, high :: low :: rest => do
    let h ← val high index
    let l ← val low (index + 1)
    let bs ← decodePairs (index + 2) rest
    .ok (UInt8.ofNat (h * 16 + l) :: bs)
  | _, _ => .ok []

/-- The bytes hexadecimal text encodes. -/
def decode (s : String) : Except FromHexError (List UInt8) :=
  if (Text.bytes s).length % 2 ≠ 0 then .error .oddLength
  else decodePairs 0 (Text.bytes s)

/-- Each of the sixteen digits reads back as its value, wherever it stands. -/
theorem val_digitChar {n : Nat} (h : n < 16) (index : Nat) :
    val (Nat.digitChar n).val.toUInt8 index = .ok n := by
  interval_cases n <;> rfl

theorem utf8Size_digitChar {n : Nat} (h : n < 16) : (Nat.digitChar n).utf8Size = 1 := by
  interval_cases n <;> rfl

theorem utf8Size_pair {b : UInt8} {c : Char} (h : c ∈ pair b) : c.utf8Size = 1 := by
  have := b.toNat_lt
  simp only [pair, List.mem_cons, List.not_mem_nil, or_false] at h
  rcases h with rfl | rfl <;> exact utf8Size_digitChar (by omega)

theorem utf8Size_flatMap_pair {bs : List UInt8} : ∀ c ∈ bs.flatMap pair, c.utf8Size = 1 := by
  intro c hc
  obtain ⟨b, _, h⟩ := List.mem_flatMap.mp hc
  exact utf8Size_pair h

theorem bytes_encode (bs : List UInt8) :
    Text.bytes (encode bs) = (bs.flatMap pair).map fun c => c.val.toUInt8 :=
  Text.bytes_ofList_ascii utf8Size_flatMap_pair

theorem length_flatMap_pair (bs : List UInt8) : (bs.flatMap pair).length = 2 * bs.length := by
  induction bs with
  | nil => rfl
  | cons b bs ih =>
    rw [List.flatMap_cons, List.length_append, ih, List.length_cons]
    simp only [pair, List.length_cons, List.length_nil]
    omega

/-- Encoding doubles the size. -/
theorem utf8ByteSize_encode (bs : List UInt8) : (encode bs).utf8ByteSize = 2 * bs.length := by
  rw [← Text.length_bytes, bytes_encode, List.length_map, length_flatMap_pair]

/-- The digits of a byte sequence read back as that sequence, from any place. -/
theorem decodePairs_flatMap_pair (bs : List UInt8) (index : Nat) :
    decodePairs index ((bs.flatMap pair).map fun c => c.val.toUInt8) = .ok bs := by
  induction bs generalizing index with
  | nil => rfl
  | cons b bs ih =>
    have small := b.toNat_lt
    have halves : b.toNat / 16 * 16 + b.toNat % 16 = b.toNat := by omega
    simp only [List.flatMap_cons, pair, List.cons_append, List.nil_append, List.map_cons,
      decodePairs, val_digitChar (show b.toNat / 16 < 16 by omega),
      val_digitChar (show b.toNat % 16 < 16 by omega), ih, bind, Except.bind, halves,
      UInt8.ofNat_toNat]

theorem length_decodePairs_le {index : Nat} {ds bs : List UInt8}
    (decoded : decodePairs index ds = .ok bs) : bs.length ≤ ds.length := by
  induction index, ds using decodePairs.induct generalizing bs with
  | case1 index high low rest ih =>
    simp only [decodePairs, bind, Except.bind] at decoded
    split at decoded
    · cases decoded
    · split at decoded
      · cases decoded
      · split at decoded
        · cases decoded
        · next rest_decoded =>
          cases decoded
          have := ih rest_decoded
          simp only [List.length_cons]
          omega
  | case2 index ds short =>
    rw [decodePairs] at decoded
    · cases decoded
      exact Nat.zero_le _
    · exact short

/-- What is decoded is no longer than the text. -/
theorem length_decode_le {s : String} {bs : List UInt8} (decoded : decode s = .ok bs) :
    bs.length ≤ s.utf8ByteSize := by
  unfold decode at decoded
  split at decoded
  · cases decoded
  · rw [← Text.length_bytes]
    exact length_decodePairs_le decoded

/-- **The round trip**: decoding the encoding of bytes gives the bytes back. -/
theorem decode_encode (bs : List UInt8) : decode (encode bs) = .ok bs := by
  have even : (Text.bytes (encode bs)).length % 2 = 0 := by
    rw [Text.length_bytes, utf8ByteSize_encode]; omega
  rw [decode, if_neg (by simp only [even, ne_eq, not_true_eq_false, not_false_eq_true]),
    bytes_encode, decodePairs_flatMap_pair]

end Hex
