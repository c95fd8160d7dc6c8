import NatsClient.Foundation.Base64
import NatsClient.Wire.DenoBuffer

/-!
# Digests of the object store

Model of `sha_digest.parser.ts` and of `Base64UrlPaddedCodec.encode` (`base64.ts`). `sha256` comes
from another module of its own: here it is a `StreamingHash`, an object that is updated with pieces
and whose digest is the hash of their concatenation.

* `parseSha256_encode`: the digest that was written is parsed to the same bytes, as 32 is not a
  multiple of three and the text therefore ends in `=` and is no hexadecimal text;
* `checkSha256_iff`: the check compares.
-/

set_option autoImplicit false

namespace NatsClient.ObjectStore

open Wire Foundation.Base64

/-- `sha256`: `create()`, `update(piece)` and `digest()` of an object with some state, which hash
the concatenation of the pieces. -/
structure StreamingHash where
  State : Type
  create : State
  update : State → Bytes → State
  digest : State → Bytes
  hash : Bytes → Bytes
  digest_updates : ∀ pieces : List Bytes, digest (pieces.foldl update create) = hash pieces.flatten
  length_hash : ∀ bs, (hash bs).length = 32

/-- `s.replace(/a/g, b)` for single characters. -/
def replaceAll (a b : Char) (s : List Char) : List Char :=
  s.map fun c => if c = a then b else c

/-- `Base64UrlPaddedCodec.toB64URLEncoding(b64str)`. -/
def toB64URLEncoding (b64str : List Char) : List Char :=
  replaceAll '/' '_' (replaceAll '+' '-' b64str)

/-- `Base64UrlPaddedCodec.encode(bytes)` for bytes that are not too many for a call, as those of a
digest are not. -/
def base64UrlPadded (bytes : Bytes) : String :=
  String.ofList (toB64URLEncoding (btoa bytes))

/-- `Base64UrlPaddedCodec.encode(text)`: `btoa` throws where a code unit does not fit a byte. -/
def base64UrlPaddedText (text : String) : Option String :=
  if text.toList.all (·.toNat < 256) then
    some (base64UrlPadded (text.toList.map fun c => UInt8.ofNat c.toNat))
  else none

/-- `[0-9A-F]`. -/
def isUpperHex (c : Char) : Bool := ('0' ≤ c && c ≤ '9') || ('A' ≤ c && c ≤ 'F')

/-- `[0-9a-f]`. -/
def isLowerHex (c : Char) : Bool := ('0' ≤ c && c ≤ '9') || ('a' ≤ c && c ≤ 'f')

/-- `isHex(s)`: text in mixed case is taken for base 64. -/
def isHex (s : List Char) : Bool :=
  if ¬ (s ≠ [] ∧ s.all fun c => isUpperHex c || isLowerHex c) then false
  else if ¬ (s.all isUpperHex ∨ s.all isLowerHex) then false
  else s.length % 2 = 0

/-- `[A-Za-z0-9]`. -/
def isAlphanumeric (c : Char) : Bool :=
  ('A' ≤ c && c ≤ 'Z') || ('a' ≤ c && c ≤ 'z') || ('0' ≤ c && c ≤ '9')

/-- `/^[class]*(={0,2})?$/` for a class without `=`. -/
def matchesPadded (cls : Char → Bool) (s : List Char) : Bool :=
  s.dropWhile cls ∈ [[], ['='], ['=', '=']]

/-- `isBase64(s)`: of one of the two alphabets, with or without padding. -/
def isBase64 (s : List Char) : Bool :=
  matchesPadded (fun c => isAlphanumeric c || c = '-' || c = '_') s ||
    matchesPadded (fun c => isAlphanumeric c || c = '+' || c = '/') s

/-- What `detectEncoding` tells apart: `"hex"`, `"b64"` and `""`. -/
inductive Encoding where
  | hex
  | b64
  | unknown
deriving DecidableEq, Repr

/-- `detectEncoding(input)`. -/
def detectEncoding (input : List Char) : Encoding :=
  if isHex input then .hex else if isBase64 input then .b64 else .unknown

/-- The value of a hexadecimal digit. -/
def hexValue (c : Char) : Nat :=
  if c ≤ '9' then c.toNat - 48 else if c ≤ 'F' then c.toNat - 55 else c.toNat - 87

/-- The bytes of pairs of hexadecimal digits. -/
def hexPairs : List Char → Bytes
  | a :: b :: rest => UInt8.ofNat (hexValue a * 16 + hexValue b) :: hexPairs rest
  | [_] | [] => []

/-- `hexToByteArray(s)`. -/
def hexToByteArray (s : List Char) : Except String Bytes :=
  if s.length % 2 ≠ 0 then .error "hex string must have an even length"
  else .ok (hexPairs s)

/-- `base64ToByteArray(s)`: `atob` throws on text that is no base 64. -/
def base64ToByteArray (s : List Char) : Except String Bytes :=
  match atob (replaceAll '_' '/' (replaceAll '-' '+' s)) with
  | some bs => .ok bs
  | none => .error "InvalidCharacterError"

/-- `toByteArray(input)`, `none` being `null`. -/
def toByteArray (input : List Char) : Except String (Option Bytes) :=
  match detectEncoding input with
  | .hex => (hexToByteArray input).map some
  | .b64 => (base64ToByteArray input).map some
  | .unknown => .ok none

/-- `parseSha256(s)`. -/
def parseSha256 (s : String) : Except String (Option Bytes) := toByteArray s.toList

/-- `checkSha256(a, b)` of two byte arrays. -/
def checkSha256 (a b : Bytes) : Bool :=
  if a.length ≠ b.length then false else (a.zip b).all fun p => p.1 = p.2

/-- **The check compares.** -/
theorem checkSha256_iff (a b : Bytes) : checkSha256 a b = true ↔ a = b := by
  unfold checkSha256
  induction a generalizing b with
  | nil =>
      cases b with
      | nil => simp
      | cons y b => simp
  | cons x a ih =>
      cases b with
      | nil => simp
      | cons y b =>
          have htail := ih b
          by_cases hlen : a.length = b.length
          · simp [hlen] at htail ⊢
            exact fun _ => htail
          · have hne : ¬ a = b := fun heq => hlen (congrArg List.length heq)
            simp [hlen, hne]

section

variable {bytes : Bytes}

theorem toB64URLEncoding_eq (s : List Char) :
    toB64URLEncoding s = s.map fun c => if c = '+' then '-' else if c = '/' then '_' else c := by
  rw [toB64URLEncoding, replaceAll, replaceAll, List.map_map]
  apply List.map_congr_left
  intro c _
  by_cases hplus : c = '+'
  · subst hplus
    rfl
  · simp [hplus]

/-- Each symbol of the standard alphabet is one of the other, and is replaced back. -/
theorem symbol_url {n : Nat} (hn : n < 64) :
    let c := if symbol n = '+' then '-' else if symbol n = '/' then '_' else symbol n
    (isAlphanumeric c || c = '-' || c = '_') ∧
      (if c = '-' then '+' else if c = '_' then '/' else c) = symbol n := by
  revert n
  decide

theorem replaced_back (s : List Char) :
    replaceAll '_' '/' (replaceAll '-' '+' s) =
      s.map fun c => if c = '-' then '+' else if c = '_' then '/' else c := by
  rw [replaceAll, replaceAll, List.map_map]
  apply List.map_congr_left
  intro c _
  by_cases hdash : c = '-'
  · subst hdash
    rfl
  · simp [hdash]

/-- The text written is symbols of the other alphabet with the padding behind them. -/
theorem toB64URLEncoding_btoa (bytes : Bytes) :
    ∃ body : List Char, (∀ c ∈ body, isAlphanumeric c || c = '-' || c = '_') ∧
      toB64URLEncoding (btoa bytes) = body ++ List.replicate (padding bytes.length) '=' := by
  refine ⟨(sextets bytes).map fun n =>
      if symbol n = '+' then '-' else if symbol n = '/' then '_' else symbol n, ?_, ?_⟩
  · intro c hc
    obtain ⟨n, hn, rfl⟩ := List.mem_map.1 hc
    exact (symbol_url (sextets_lt hn)).1
  · rw [toB64URLEncoding_eq, btoa, List.map_append, List.map_map, List.map_replicate]
    rfl

theorem replaced_back_btoa (bytes : Bytes) :
    replaceAll '_' '/' (replaceAll '-' '+' (toB64URLEncoding (btoa bytes))) = btoa bytes := by
  rw [replaced_back, toB64URLEncoding_eq, List.map_map]
  -- one character after the other, symbols and padding
  conv => rhs; rw [← List.map_id (btoa bytes)]
  apply List.map_congr_left
  intro c hc
  rcases List.mem_append.1 hc with hc | hc
  · obtain ⟨n, hn, rfl⟩ := List.mem_map.1 hc
    exact (symbol_url (sextets_lt hn)).2
  · rw [List.eq_of_mem_replicate hc]
    rfl

/-- Characters below 256 are determined by their bytes. -/
theorem chars_inj (s t : List Char) (hs : ∀ x ∈ s, x.toNat < 256) (ht : ∀ y ∈ t, y.toNat < 256)
    (hmap : s.map (fun x => UInt8.ofNat x.toNat) = t.map fun y => UInt8.ofNat y.toNat) : s = t := by
  induction s generalizing t with
  | nil => exact (List.map_eq_nil_iff.1 hmap.symm).symm
  | cons x s ih =>
      cases t with
      | nil => cases hmap
      | cons y t =>
          rw [List.map_cons, List.map_cons, List.cons.injEq] at hmap
          have hx := hs x (List.mem_cons_self ..)
          have hy := ht y (List.mem_cons_self ..)
          have hnat := congrArg UInt8.toNat hmap.1
          rw [UInt8.toNat_ofNat_of_lt' hx, UInt8.toNat_ofNat_of_lt' hy] at hnat
          have hchar : x = y := Char.ext (UInt32.toNat_inj.1 hnat)
          have htail := ih t (fun z hz => hs z (List.mem_cons_of_mem x hz))
            (fun z hz => ht z (List.mem_cons_of_mem y hz)) hmap.2
          rw [hchar, htail]

/-- Texts that are written alike are the same. -/
theorem base64UrlPaddedText_inj {text text' encoded : String}
    (h : base64UrlPaddedText text = some encoded) (h' : base64UrlPaddedText text' = some encoded) :
    text = text' := by
  simp only [base64UrlPaddedText, Option.ite_none_right_eq_some, Option.some.injEq] at h h'
  obtain ⟨hchars, rfl⟩ := h
  obtain ⟨hchars', hencoded⟩ := h'
  -- the same text is read back to the same bytes
  have hurl := String.ofList_inj.1 hencoded
  have hbtoa := (replaced_back_btoa _).symm.trans
    ((congrArg (fun s => replaceAll '_' '/' (replaceAll '-' '+' s)) hurl).trans
      (replaced_back_btoa _))
  have hsome := (atob_btoa _).symm.trans ((congrArg atob hbtoa).trans (atob_btoa _))
  rw [Option.some.injEq] at hsome
  apply String.toList_inj.1
  apply chars_inj _ _ _ _ hsome.symm
  · simpa using hchars
  · simpa using hchars'

/-- Text with padding is no hexadecimal text. -/
theorem isHex_of_mem {s : List Char} (hs : '=' ∈ s) : isHex s = false := by
  have hall : ¬ (s ≠ [] ∧ s.all fun c => isUpperHex c || isLowerHex c) := by
    rintro ⟨_, hall⟩
    have hpad := List.all_eq_true.1 hall '=' hs
    revert hpad
    decide
  rw [isHex, if_pos hall]

/-- Characters of a class with padding behind them. -/
theorem matchesPadded_append {cls : Char → Bool} (hcls : cls '=' = false) {body : List Char}
    (hbody : ∀ c ∈ body, cls c = true) {p : Nat} (hp : p < 3) :
    matchesPadded cls (body ++ List.replicate p '=') = true := by
  have hdrop : (body ++ List.replicate p '=').dropWhile cls = List.replicate p '=' := by
    rw [List.dropWhile_append_of_pos hbody]
    match p with
    | 0 => rfl
    | p + 1 =>
        rw [List.replicate_succ, List.dropWhile_cons_of_neg]
        rw [hcls]
        exact Bool.false_ne_true
  rw [matchesPadded, hdrop]
  match p, hp with
  | 0, _ => decide
  | 1, _ => decide
  | 2, _ => decide

theorem isBase64_encode (bytes : Bytes) : isBase64 (toB64URLEncoding (btoa bytes)) = true := by
  obtain ⟨body, hbody, htext⟩ := toB64URLEncoding_btoa bytes
  have hpad : padding bytes.length < 3 := Nat.mod_lt _ (by omega)
  rw [isBase64, htext, matchesPadded_append (by decide) hbody hpad, Bool.true_or]

/-- **Padded text is parsed to the bytes it was written from.** -/
theorem parseSha256_of_padded (hbytes : bytes.length % 3 ≠ 0) :
    parseSha256 (base64UrlPadded bytes) = .ok (some bytes) := by
  have hpad : '=' ∈ toB64URLEncoding (btoa bytes) := by
    rw [toB64URLEncoding_eq]
    exact List.mem_map.2 ⟨'=', mem_btoa_of_padded hbytes, rfl⟩
  have hdetect : detectEncoding (toB64URLEncoding (btoa bytes)) = .b64 := by
    simp only [detectEncoding, isHex_of_mem hpad, isBase64_encode, Bool.false_eq_true, ↓reduceIte]
  have hdecode : base64ToByteArray (toB64URLEncoding (btoa bytes)) = .ok bytes := by
    rw [base64ToByteArray, replaced_back_btoa, atob_btoa]
  rw [parseSha256, base64UrlPadded, String.toList_ofList, toByteArray, hdetect]
  simp only [hdecode]
  rfl

/-- **A digest is parsed to the bytes it was written from.** -/
theorem parseSha256_encode (sha256 : StreamingHash) (bs : Bytes) :
    parseSha256 (base64UrlPadded (sha256.hash bs)) = .ok (some (sha256.hash bs)) := by
  apply parseSha256_of_padded
  rw [sha256.length_hash]
  decide

end

end NatsClient.ObjectStore
