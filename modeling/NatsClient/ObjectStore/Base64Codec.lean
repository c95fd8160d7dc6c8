import NatsClient.Foundation.Engine
import NatsClient.ObjectStore.Digest

/-!
# The base 64 codecs

Model of `base64.ts`: `Base64Codec` over `btoa` and `atob`, and two codecs that write the alphabet
of URLs, with and without padding. A binary string is a list of characters below 256.

`Base64UrlPaddedCodec.decode` calls itself where its sibling calls `Base64Codec.decode`, with the
same text from the second call on. Its calls are counted here (`depth`), and no number of them is
enough (`Base64UrlPaddedCodec.decode_eq_none`). The other codecs invert, as long as the bytes are
not too many for the arguments of `String.fromCharCode` (`inverts_iff`).
-/

set_option autoImplicit false

namespace NatsClient.ObjectStore

open Wire Foundation Foundation.Base64

/-- `string | Uint8Array`. -/
inductive Data where
  | text (s : List Char)
  | bytes (a : Bytes)
deriving DecidableEq, Repr

/-- `fromB64URLEncoding(b64str)` of both codecs. -/
def fromB64URLEncoding (b64str : List Char) : List Char :=
  replaceAll '-' '+' (replaceAll '_' '/' b64str)

namespace Base64Codec

/-- `encode(bytes)`: `btoa` throws where a code unit does not fit a byte, and bytes are the
arguments of `String.fromCharCode`. -/
def encode [Engine] : Data → Except String (List Char)
  | .text s =>
      if s.all (·.toNat < 256) then .ok (btoa (s.map fun c => UInt8.ofNat c.toNat))
      else .error "InvalidCharacterError"
  | .bytes a =>
      match spread a with
      | some a => .ok (btoa a)
      | none => .error Engine.rangeError

/-- `decode(s, binary)`: `atob` throws on text that is no base 64. -/
def decode (s : List Char) (binary : Bool) : Except String Data :=
  match atob s with
  | none => .error "InvalidCharacterError"
  | some bin => .ok (if binary then .bytes bin else .text (bin.map fun b => Char.ofNat b.toNat))

end Base64Codec

namespace Base64UrlCodec

/-- `toB64URLEncoding(b64str)`: the padding is removed. -/
def toB64URLEncoding (b64str : List Char) : List Char :=
  replaceAll '/' '_' (replaceAll '+' '-' (b64str.filter (· ≠ '=')))

/-- `encode(bytes)`. -/
def encode [Engine] (bytes : Data) : Except String (List Char) :=
  (Base64Codec.encode bytes).map toB64URLEncoding

/-- `decode(s, binary)`. -/
def decode (s : List Char) (binary : Bool) : Except String Data :=
  Base64Codec.decode (fromB64URLEncoding s) binary

end Base64UrlCodec

namespace Base64UrlPaddedCodec

/-- `encode(bytes)`. -/
def encode [Engine] (bytes : Data) : Except String (List Char) :=
  (Base64Codec.encode bytes).map ObjectStore.toB64URLEncoding

/-- `decode(s, binary)`, `none` where `depth` nested calls do not return. -/
def decode : Nat → List Char → Bool → Option (Except String Data)
  | 0, _, _ => none
  | depth + 1, s, binary => decode depth (fromB64URLEncoding s) binary

/-- **No call returns.** -/
theorem decode_eq_none (depth : Nat) (s : List Char) (binary : Bool) :
    decode depth s binary = none := by
  induction depth generalizing s with
  | zero => rfl
  | succ depth ih => exact ih (fromB64URLEncoding s)

end Base64UrlPaddedCodec

/-- The codecs. -/
inductive Codec where
  | base64
  | base64Url
  | base64UrlPadded
deriving DecidableEq, Repr

namespace Codec

/-- `encode(bytes)`. -/
def encode [Engine] : Codec → Data → Except String (List Char)
  | .base64 => Base64Codec.encode
  | .base64Url => Base64UrlCodec.encode
  | .base64UrlPadded => Base64UrlPaddedCodec.encode

/-- `decode(s, binary)`, `none` where `depth` nested calls do not return. -/
def decode (depth : Nat) : Codec → List Char → Bool → Option (Except String Data)
  | .base64, s, binary => some (Base64Codec.decode s binary)
  | .base64Url, s, binary => some (Base64UrlCodec.decode s binary)
  | .base64UrlPadded, s, binary => Base64UrlPaddedCodec.decode depth s binary

/-- What is asked of a codec: the bytes `x` are read back from their text, the call of `decode` on
`s` comes to an end, and the text is of the codec's alphabet. -/
structure Inverts [Engine] (c : Codec) (x : Bytes) (s : List Char) (binary : Bool) : Prop where
  round_trip : ∃ text depth, c.encode (.bytes x) = .ok text ∧
    c.decode depth text true = some (.ok (.bytes x))
  terminates : ∃ depth, (c.decode depth s binary).isSome = true
  alphabet : ∀ text, c.encode (.bytes x) = .ok text → c ≠ .base64 → '+' ∉ text ∧ '/' ∉ text
  unpadded : ∀ text, c.encode (.bytes x) = .ok text → c = .base64Url → '=' ∉ text

/-- The text of the codec without padding: symbols of the alphabet of URLs. -/
theorem toB64URLEncoding_btoa (x : Bytes) :
    Base64UrlCodec.toB64URLEncoding (btoa x) = ObjectStore.toB64URLEncoding
      ((sextets x).map symbol) := by
  rw [Base64UrlCodec.toB64URLEncoding, filter_btoa]
  rfl

/-- The order of the two replacements does not matter. -/
theorem fromB64URLEncoding_eq (s : List Char) :
    fromB64URLEncoding s = s.map fun c => if c = '-' then '+' else if c = '_' then '/' else c := by
  rw [fromB64URLEncoding, replaceAll, replaceAll, List.map_map]
  apply List.map_congr_left
  intro c _
  by_cases hline : c = '_'
  · subst hline
    rfl
  · simp [hline]

/-- Symbols are replaced back. -/
theorem fromB64URLEncoding_symbols (x : Bytes) :
    fromB64URLEncoding (ObjectStore.toB64URLEncoding ((sextets x).map symbol)) =
      (sextets x).map symbol := by
  rw [fromB64URLEncoding_eq, toB64URLEncoding_eq, List.map_map, List.map_map]
  apply List.map_congr_left
  intro n hn
  exact (symbol_url (sextets_lt hn)).2

theorem not_mem_toB64URLEncoding (s : List Char) :
    '+' ∉ ObjectStore.toB64URLEncoding s ∧ '/' ∉ ObjectStore.toB64URLEncoding s := by
  rw [toB64URLEncoding_eq]
  constructor
  · intro hmem
    obtain ⟨c, -, hc⟩ := List.mem_map.1 hmem
    split at hc
    · revert hc
      decide
    · next hplus =>
        split at hc
        · revert hc
          decide
        · exact hplus hc
  · intro hmem
    obtain ⟨c, -, hc⟩ := List.mem_map.1 hmem
    split at hc
    · revert hc
      decide
    · split at hc
      · revert hc
        decide
      · next hslash => exact hslash hc

section

variable [Engine]

/-- The bytes that a codec writes are not too many for a call. -/
theorem encode_bytes {x : Bytes} (hx : x.length ≤ Engine.maxArguments) :
    Base64Codec.encode (.bytes x) = .ok (btoa x) := by
  rw [Base64Codec.encode, spread_of_le hx]

theorem length_le_of_encode {c : Codec} {x : Bytes} {text : List Char}
    (h : c.encode (.bytes x) = .ok text) : x.length ≤ Engine.maxArguments := by
  by_contra hlong
  have hnone : Base64Codec.encode (.bytes x) = .error Engine.rangeError := by
    rw [Base64Codec.encode, spread_eq_none_iff.2 (Nat.not_le.1 hlong)]
  cases c with
  | base64 =>
      rw [encode, hnone] at h
      cases h
  | base64Url =>
      rw [encode, Base64UrlCodec.encode, hnone] at h
      cases h
  | base64UrlPadded =>
      rw [encode, Base64UrlPaddedCodec.encode, hnone] at h
      cases h

theorem inverts_base64 {x : Bytes} (hx : x.length ≤ Engine.maxArguments) (s : List Char)
    (binary : Bool) : Inverts .base64 x s binary where
  round_trip :=
    ⟨btoa x, 0, encode_bytes hx, by simp only [decode, Base64Codec.decode, atob_btoa, if_true]⟩
  terminates := ⟨0, rfl⟩
  alphabet := fun _ _ hne => absurd rfl hne
  unpadded := by
    intro text _ h
    cases h

theorem inverts_base64Url {x : Bytes} (hx : x.length ≤ Engine.maxArguments) (s : List Char)
    (binary : Bool) : Inverts .base64Url x s binary := by
  have hencode : encode .base64Url (.bytes x) = .ok (Base64UrlCodec.toB64URLEncoding (btoa x)) := by
    rw [encode, Base64UrlCodec.encode, encode_bytes hx]
    rfl
  refine ⟨⟨_, 0, hencode, ?_⟩, ⟨0, rfl⟩, fun text htext _ => ?_, fun text htext _ hmem => ?_⟩
  · have hatob : atob ((sextets x).map symbol) = some x := by
      have hunpadded := atob_symbols x (p := 0) (.inl rfl)
      rwa [List.replicate_zero, List.append_nil] at hunpadded
    simp only [decode, Base64UrlCodec.decode, Base64Codec.decode, toB64URLEncoding_btoa,
      fromB64URLEncoding_symbols, hatob, if_true]
  · rw [hencode] at htext
    cases htext
    rw [toB64URLEncoding_btoa]
    exact not_mem_toB64URLEncoding _
  · rw [hencode] at htext
    cases htext
    rw [toB64URLEncoding_btoa, toB64URLEncoding_eq, List.map_map] at hmem
    obtain ⟨n, hn, hsymbol⟩ := List.mem_map.1 hmem
    have halphabet := (symbol_url (sextets_lt hn)).1
    rw [Function.comp_apply] at hsymbol
    simp only [hsymbol] at halphabet
    revert halphabet
    decide

/-- **A codec inverts** unless it is the padded one of URLs, whose `decode` does not return, or the
bytes are too many for a call. -/
theorem inverts_iff (c : Codec) (x : Bytes) (s : List Char) (binary : Bool) :
    c.Inverts x s binary ↔ c ≠ .base64UrlPadded ∧ x.length ≤ Engine.maxArguments := by
  constructor
  · intro h
    constructor
    · rintro rfl
      obtain ⟨depth, hsome⟩ := h.terminates
      rw [decode, Base64UrlPaddedCodec.decode_eq_none] at hsome
      cases hsome
    · obtain ⟨text, -, hencode, -⟩ := h.round_trip
      exact length_le_of_encode hencode
  · rintro ⟨hne, hx⟩
    cases c with
    | base64 => exact inverts_base64 hx s binary
    | base64Url => exact inverts_base64Url hx s binary
    | base64UrlPadded => exact absurd rfl hne

end

/-- The text of one byte is not decoded by the padded codec, and many bytes are not encoded by
any. -/
theorem not_inverts :
    letI : Engine := .common
    (¬ ∀ (x : Bytes) (s : List Char) (binary : Bool), Inverts .base64UrlPadded x s binary) ∧
      ∀ c : Codec, ¬ ∀ (x : Bytes) (s : List Char) (binary : Bool), c.Inverts x s binary := by
  let _ : Engine := .common
  constructor
  · intro hall
    obtain ⟨depth, hsome⟩ := (hall [0] ['A', 'A', '=', '='] true).terminates
    rw [decode, Base64UrlPaddedCodec.decode_eq_none] at hsome
    cases hsome
  · intro c hall
    obtain ⟨text, -, hencode, -⟩ := (hall (List.replicate 200000 0) [] true).round_trip
    have hle := length_le_of_encode hencode
    rw [List.length_replicate] at hle
    exact absurd hle (by decide)

end Codec

end NatsClient.ObjectStore
