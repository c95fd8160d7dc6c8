import NatsClient.Wire.DenoBuffer

/-!
# Text on the wire

Model of `TE` and `TD` (`encoders.ts`), the platform's `TextEncoder` and `TextDecoder`: UTF-8 with a
byte order mark dropped in front, each maximal part of a malformed sequence read as U+FFFD.

`decode_encode`: text that does not start with U+FEFF is read as it was written.
-/

set_option autoImplicit false

namespace NatsClient.Wire

/-- `TE.encode(s)`. -/
def encode (s : String) : Bytes := s.toByteArray.data.toList

/-- The code point in front of some bytes, unless they are malformed. -/
def decodeChar? (bs : Bytes) : Option Char := bs.toByteArray.utf8DecodeChar? 0

/-- What may follow a leading byte: how many bytes, and the range of the first of them. -/
def continuation (b : UInt8) : Nat × UInt8 × UInt8 :=
  if 0xC2 ≤ b ∧ b ≤ 0xDF then (1, 0x80, 0xBF)
  else if b = 0xE0 then (2, 0xA0, 0xBF)
  else if b = 0xED then (2, 0x80, 0x9F)
  else if 0xE1 ≤ b ∧ b ≤ 0xEF then (2, 0x80, 0xBF)
  else if b = 0xF0 then (3, 0x90, 0xBF)
  else if 0xF1 ≤ b ∧ b ≤ 0xF3 then (3, 0x80, 0xBF)
  else if b = 0xF4 then (3, 0x80, 0x8F)
  else (0, 0, 0)

/-- How many of the bytes that may follow are there. -/
def continued : Nat → UInt8 → UInt8 → Bytes → Nat
  | needed + 1, lower, upper, b :: bs =>
      if lower ≤ b ∧ b ≤ upper then 1 + continued needed 0x80 0xBF bs else 0
  | _ + 1, _, _, [] | 0, _, _, _ => 0

/-- The length of the malformed part in front of some bytes. -/
def malformed : Bytes → Nat
  | [] => 0
  | b :: bs =>
      let (needed, lower, upper) := continuation b
      1 + continued needed lower upper bs

/-- The code points of some bytes, of which there are at most `fuel`. -/
def decodeChars : Nat → Bytes → List Char
  | 0, _ => []
  | fuel + 1, bs =>
      if bs = [] then []
      else
        match decodeChar? bs with
        | some c => c :: decodeChars fuel (bs.drop c.utf8Size)
        | none => '\uFFFD' :: decodeChars fuel (bs.drop (malformed bs))

/-- The bytes behind a byte order mark. -/
def dropMark : Bytes → Bytes
  | 0xEF :: 0xBB :: 0xBF :: bs => bs
  | bs => bs

/-- `TD.decode(bs)`. -/
def decode (bs : Bytes) : String :=
  let bs := dropMark bs
  String.ofList (decodeChars bs.length bs)

theorem encode_eq (s : String) : encode s = s.toList.flatMap String.utf8EncodeChar := by
  rw [encode, ← String.utf8Encode_toList]
  simp only [List.utf8Encode, List.data_toByteArray]

theorem length_encode (s : String) : (encode s).length = s.utf8ByteSize := by
  simp [encode]

@[simp] theorem encode_append (s t : String) : encode (s ++ t) = encode s ++ encode t := by
  simp only [encode_eq, String.toList_append, List.flatMap_append]

/-- The code point in front is the one that was written first. -/
theorem decodeChar?_utf8EncodeChar (c : Char) (bs : Bytes) :
    decodeChar? (String.utf8EncodeChar c ++ bs) = some c := by
  rw [decodeChar?, List.toByteArray_append]
  exact ByteArray.utf8DecodeChar?_utf8EncodeChar_append

theorem decodeChars_flatMap (cs : List Char) (fuel : Nat)
    (hfuel : (cs.flatMap String.utf8EncodeChar).length ≤ fuel) :
    decodeChars fuel (cs.flatMap String.utf8EncodeChar) = cs := by
  induction cs generalizing fuel with
  | nil => cases fuel <;> rfl
  | cons c cs ih =>
      have hpos := c.utf8Size_pos
      have hsize := String.length_utf8EncodeChar c
      rw [List.flatMap_cons] at hfuel ⊢
      rw [List.length_append] at hfuel
      cases fuel with
      | zero => omega
      | succ fuel =>
          have hne : ¬ String.utf8EncodeChar c ++ cs.flatMap String.utf8EncodeChar = [] := by
            intro hnil
            rw [List.append_eq_nil_iff] at hnil
            rw [hnil.1, List.length_nil] at hsize
            omega
          rw [decodeChars, if_neg hne, decodeChar?_utf8EncodeChar]
          simp only
          rw [← hsize, List.drop_left, ih fuel (by omega)]

/-- Only U+FEFF is written as a byte order mark. -/
theorem dropMark_encode {s : String} (hs : s.toList.head? ≠ some '\uFEFF') :
    dropMark (encode s) = encode s := by
  unfold dropMark
  split
  · next bs hmark =>
      exfalso
      have hfirst : decodeChar? (encode s) = some '\uFEFF' := by
        rw [hmark]
        exact decodeChar?_utf8EncodeChar '\uFEFF' bs
      cases hchars : s.toList with
      | nil =>
          rw [encode_eq, hchars] at hmark
          cases hmark
      | cons c cs =>
          rw [encode_eq, hchars, List.flatMap_cons, decodeChar?_utf8EncodeChar] at hfirst
          apply hs
          rw [hchars]
          exact hfirst
  · rfl

/-- **Text is read as it was written.** -/
theorem decode_encode {s : String} (hs : s.toList.head? ≠ some '\uFEFF') :
    decode (encode s) = s := by
  rw [decode, dropMark_encode hs, encode_eq, decodeChars_flatMap _ _ (Nat.le_refl _),
    String.ofList_toList]

/-- An overlong sequence, a lone continuation byte and a cut sequence. -/
example : decode [0xC0, 0xAF, 0x80, 0x61, 0xE2, 0x82] = "\uFFFD\uFFFD\uFFFDa\uFFFD" :=
  by decide +kernel

end NatsClient.Wire
