import NatsClient.ObjectStore.Get

/-!
# The texts of a digest

`parseSha256` (`sha_digest.parser.ts`) is not told how a digest was written: it takes text in one
case, of even length, with hexadecimal digits only for hexadecimal, and other text for base 64. The
32 bytes of a digest are 64 hexadecimal digits, or 43 symbols of base 64, which is odd, with one `=`
or none behind them. So the guess is right for every digest (`digest_round_trip`).
-/

set_option autoImplicit false

namespace NatsClient.ObjectStore

open Wire Foundation.Base64

/-- The bytes of a digest. -/
abbrev Sha256 := { bytes : Bytes // bytes.length = 32 }

/-- How a digest may be written. -/
inductive DigestForm where
  | hex (upper : Bool)
  | base64 (url padded : Bool)
deriving DecidableEq, Repr

/-- A hexadecimal digit. -/
def hexDigit (upper : Bool) (n : Nat) : Char :=
  if n < 10 then Char.ofNat (48 + n) else Char.ofNat ((if upper then 55 else 87) + n)

/-- Two digits for each byte. -/
def hexText (upper : Bool) : Bytes → List Char
  | [] => []
  | b :: bs => hexDigit upper (b.toNat / 16) :: hexDigit upper (b.toNat % 16) :: hexText upper bs

/-- The text of some bytes. -/
def DigestForm.write (bytes : Bytes) : DigestForm → List Char
  | .hex upper => hexText upper bytes
  | .base64 url padded =>
      let text := if padded then btoa bytes else (btoa bytes).filter (· ≠ '=')
      if url then toB64URLEncoding text else text

/-! ## Hexadecimal text -/

theorem hexDigit_spec (upper : Bool) {n : Nat} (hn : n < 16) :
    hexValue (hexDigit upper n) = n ∧
      (if upper then isUpperHex (hexDigit upper n) else isLowerHex (hexDigit upper n)) = true := by
  revert n
  cases upper with
  | true => decide
  | false => decide

theorem length_hexText (upper : Bool) (bytes : Bytes) :
    (hexText upper bytes).length = 2 * bytes.length := by
  induction bytes with
  | nil => rfl
  | cons b bytes ih =>
      simp only [hexText, List.length_cons, ih]
      omega

theorem isHex_of_mem_hexText {upper : Bool} {bytes : Bytes} {c : Char}
    (hc : c ∈ hexText upper bytes) : (if upper then isUpperHex c else isLowerHex c) = true := by
  induction bytes with
  | nil => cases hc
  | cons b bytes ih =>
      have hb := b.toNat_lt
      rw [hexText, List.mem_cons, List.mem_cons] at hc
      rcases hc with rfl | rfl | hc
      · exact (hexDigit_spec upper (by omega)).2
      · exact (hexDigit_spec upper (by omega)).2
      · exact ih hc

theorem isHex_hexText (upper : Bool) {bytes : Bytes} (hbytes : bytes ≠ []) :
    isHex (hexText upper bytes) = true := by
  have hcase : ∀ c ∈ hexText upper bytes, (if upper then isUpperHex c else isLowerHex c) = true :=
    fun c hc => isHex_of_mem_hexText hc
  have hne : hexText upper bytes ≠ [] := by
    intro hnil
    apply hbytes
    have hlength := length_hexText upper bytes
    rw [hnil, List.length_nil] at hlength
    exact List.length_eq_zero_iff.1 (by omega)
  have hall : (hexText upper bytes).all (fun c => isUpperHex c || isLowerHex c) = true := by
    rw [List.all_eq_true]
    intro c hc
    have hone := hcase c hc
    cases upper with
    | true => rw [show isUpperHex c = true from hone, Bool.true_or]
    | false => rw [show isLowerHex c = true from hone, Bool.or_true]
  -- one case throughout
  have hone : (hexText upper bytes).all isUpperHex = true ∨
      (hexText upper bytes).all isLowerHex = true := by
    cases upper with
    | true => exact .inl (List.all_eq_true.2 hcase)
    | false => exact .inr (List.all_eq_true.2 hcase)
  have heven : (hexText upper bytes).length % 2 = 0 := by
    rw [length_hexText]
    omega
  rw [isHex, if_neg (not_not.2 ⟨hne, hall⟩), if_neg (not_not.2 hone), decide_eq_true heven]

theorem hexPairs_hexText (upper : Bool) (bytes : Bytes) :
    hexPairs (hexText upper bytes) = bytes := by
  induction bytes with
  | nil => rfl
  | cons b bytes ih =>
      have hb := b.toNat_lt
      have hhigh := (hexDigit_spec upper (n := b.toNat / 16) (by omega)).1
      have hlow := (hexDigit_spec upper (n := b.toNat % 16) (by omega)).1
      have hbyte : b.toNat / 16 * 16 + b.toNat % 16 = b.toNat := by omega
      rw [hexText, hexPairs, ih, hhigh, hlow, hbyte, UInt8.ofNat_toNat]

/-- **Hexadecimal text** is parsed to its bytes. -/
theorem parse_hex (upper : Bool) {bytes : Bytes} (hbytes : bytes ≠ []) :
    toByteArray (hexText upper bytes) = .ok (some bytes) := by
  have heven : ¬ (hexText upper bytes).length % 2 ≠ 0 := by
    rw [length_hexText]
    omega
  have hdetect : detectEncoding (hexText upper bytes) = .hex := by
    rw [detectEncoding, if_pos (isHex_hexText upper hbytes)]
  rw [toByteArray, hdetect]
  simp only [hexToByteArray, if_neg heven, hexPairs_hexText]
  rfl

/-! ## Base 64 -/

/-- The padding that is left. -/
def paddingLeft (padded : Bool) (bytes : Bytes) : Nat := if padded then padding bytes.length else 0

/-- The symbols of the alphabet. -/
def symbolOf (url : Bool) (n : Nat) : Char :=
  if url then if symbol n = '+' then '-' else if symbol n = '/' then '_' else symbol n else symbol n

/-- A symbol is of its alphabet, and is replaced by the one of the standard alphabet. -/
theorem symbolOf_spec (url : Bool) {n : Nat} (hn : n < 64) :
    (isAlphanumeric (symbolOf url n) ||
        (if url then symbolOf url n = '-' || symbolOf url n = '_'
          else symbolOf url n = '+' || symbolOf url n = '/')) = true ∧
      (if symbolOf url n = '-' then '+' else if symbolOf url n = '_' then '/' else symbolOf url n) =
        symbol n := by
  revert n
  cases url with
  | true => decide
  | false => decide

/-- The text of a form: symbols of its alphabet, and padding. -/
theorem write_base64 (url padded : Bool) (bytes : Bytes) :
    (DigestForm.base64 url padded).write bytes =
      (sextets bytes).map (symbolOf url) ++ List.replicate (paddingLeft padded bytes) '=' := by
  have htext : (if padded then btoa bytes else (btoa bytes).filter (· ≠ '=')) =
      (sextets bytes).map symbol ++ List.replicate (paddingLeft padded bytes) '=' := by
    cases padded with
    | true => rfl
    | false => exact (filter_btoa bytes).trans (List.append_nil _).symm
  simp only [DigestForm.write, htext]
  cases url with
  | true =>
      rw [if_pos rfl, toB64URLEncoding_eq, List.map_append, List.map_map, List.map_replicate]
      rfl
  | false => rfl

/-- What is replaced back is text of the standard alphabet. -/
theorem replaced_back_write (url padded : Bool) (bytes : Bytes) :
    replaceAll '_' '/' (replaceAll '-' '+' ((DigestForm.base64 url padded).write bytes)) =
      (sextets bytes).map symbol ++ List.replicate (paddingLeft padded bytes) '=' := by
  rw [write_base64, replaced_back, List.map_append, List.map_map, List.map_replicate]
  refine congrArg (· ++ _) ?_
  apply List.map_congr_left
  intro n hn
  exact (symbolOf_spec url (sextets_lt hn)).2

theorem isBase64_write (url padded : Bool) (bytes : Bytes) :
    isBase64 ((DigestForm.base64 url padded).write bytes) = true := by
  have hpad : paddingLeft padded bytes < 3 := by
    cases padded with
    | true => exact Nat.mod_lt _ (by omega)
    | false => exact Nat.zero_lt_succ 2
  have hsymbols : ∀ c ∈ (sextets bytes).map (symbolOf url),
      (isAlphanumeric c || (if url then c = '-' || c = '_' else c = '+' || c = '/')) = true := by
    intro c hc
    obtain ⟨n, hn, rfl⟩ := List.mem_map.1 hc
    exact (symbolOf_spec url (sextets_lt hn)).1
  rw [isBase64, write_base64, Bool.or_eq_true]
  cases url with
  | true =>
      apply Or.inl
      refine matchesPadded_append (by decide) (fun c hc => ?_) hpad
      have hc := hsymbols c hc
      rwa [if_pos rfl, ← Bool.or_assoc] at hc
  | false =>
      apply Or.inr
      refine matchesPadded_append (by decide) (fun c hc => ?_) hpad
      have hc := hsymbols c hc
      rwa [if_neg Bool.false_ne_true, ← Bool.or_assoc] at hc

/-- The text of a digest has a `=` or is of odd length. -/
theorem isHex_write (url padded : Bool) (d : Sha256) :
    isHex ((DigestForm.base64 url padded).write d.1) = false := by
  have hpadding : padding d.1.length = 1 := by rw [d.2, padding]
  cases padded with
  | true =>
      apply isHex_of_mem
      rw [write_base64, paddingLeft, if_pos rfl, hpadding]
      exact List.mem_append_right _ (List.mem_singleton.2 rfl)
  | false =>
      have hlength : ((DigestForm.base64 url false).write d.1).length = 43 := by
        have hsextets := length_sextets d.1
        rw [hpadding, d.2] at hsextets
        rw [write_base64, paddingLeft, if_neg Bool.false_ne_true, List.replicate_zero,
          List.append_nil, List.length_map]
        omega
      rw [isHex]
      split
      · rfl
      · split
        · rfl
        · rw [hlength]
          rfl

/-- **Text of base 64** is parsed to its bytes. -/
theorem parse_base64 (url padded : Bool) (d : Sha256) :
    toByteArray ((DigestForm.base64 url padded).write d.1) = .ok (some d.1) := by
  have hdetect : detectEncoding ((DigestForm.base64 url padded).write d.1) = .b64 := by
    rw [detectEncoding, isHex_write, isBase64_write, if_neg Bool.false_ne_true, if_pos rfl]
  have hleft : paddingLeft padded d.1 = 0 ∨ paddingLeft padded d.1 = padding d.1.length := by
    cases padded with
    | true => exact .inr rfl
    | false => exact .inl rfl
  have hdecode : base64ToByteArray ((DigestForm.base64 url padded).write d.1) = .ok d.1 := by
    rw [base64ToByteArray, replaced_back_write, atob_symbols d.1 hleft]
  rw [toByteArray, hdetect]
  simp only [hdecode]
  rfl

/-- **A digest is read back** in all its texts, and the text that an object is put with is accepted
for the same content, however that is cut into pieces. -/
theorem digest_round_trip (sha256 : StreamingHash) :
    (∀ (form : DigestForm) (d : Sha256),
      parseSha256 (String.ofList (form.write d.1)) = .ok (some d.1)) ∧
    ∀ written read : List Bytes, written.flatten = read.flatten →
      ∃ text digest,
        digestText
        (digestType ++ base64UrlPadded
          (sha256.digest (written.foldl sha256.update sha256.create))) =
          some text ∧
        parseSha256 text = .ok (some digest) ∧
        checkSha256 digest (sha256.digest (read.foldl sha256.update sha256.create)) = true := by
  constructor
  · intro form d
    rw [parseSha256, String.toList_ofList]
    cases form with
    | hex upper =>
        refine parse_hex upper fun hnil => ?_
        have hlength := d.2
        rw [hnil] at hlength
        cases hlength
    | base64 url padded => exact parse_base64 url padded d
  · intro written read hsame
    refine ⟨_, sha256.hash written.flatten, digestText_append _, ?_, (checkSha256_iff _ _).2 ?_⟩
    · rw [sha256.digest_updates]
      exact parseSha256_encode sha256 _
    · rw [sha256.digest_updates, hsame]

end NatsClient.ObjectStore
