import NatsClient.Foundation.Binary64
import NatsClient.Foundation.Engine
import NatsClient.Foundation.OrderedMap
import NatsClient.Wire.Text
import Mathlib.Data.List.DropRight
import Mathlib.Data.List.Lex
import Mathlib.Data.List.TakeWhile

/-!
# Message headers

Model of `headers.ts`: `MsgHdrsImpl` with its `Map` from keys to values, the calls that edit it, the
text of a header block and the reader of that text. An edit may throw; it then returns the exception
with the headers in the state it left them in.

* `WellFormed`: what the calls keep: keys and values are fit for a header line (`wellFormed_build`);
* `decode_encode`: reading the block of well-formed headers gives the same keys and values in the
  same order.
-/

set_option autoImplicit false

namespace NatsClient.Wire

open NatsClient.Foundation

/-! ## Text -/

/-- The characters `trim` removes: white space and line terminators. -/
def isSpace (c : Char) : Bool :=
  c ∈ ['\t', '\n', '\x0B', '\x0C', '\r', ' ', '\u00A0', '\u1680', '\u2028', '\u2029', '\u202F',
    '\u205F', '\u3000', '\uFEFF'] || ('\u2000' ≤ c && c ≤ '\u200A')

/-- `s.trim()`. -/
def trim (cs : List Char) : List Char := (cs.dropWhile isSpace).rdropWhile isSpace

/-- `s.split("\r\n")`. -/
def splitLines : List Char → List (List Char)
  | [] => [[]]
  | '\r' :: '\n' :: cs => [] :: splitLines cs
  | c :: cs => (splitLines cs).modifyHead (c :: ·)

/-- `s.replace(p, "")` for a text `p`: its first occurrence is removed. -/
def removeFirst (p : List Char) : List Char → List Char
  | [] => []
  | c :: cs => if p.isPrefixOf (c :: cs) then (c :: cs).drop p.length else c :: removeFirst p cs

/-- What `parseInt(s, 10)` reads, before it is a JavaScript number; `none` is `NaN`. -/
def readInt (cs : List Char) : Option Int :=
  let read (sign : Int) (cs : List Char) : Option Int :=
    let digits := cs.takeWhile Char.isDigit
    if digits = [] then none else some (sign * (Nat.ofDigitChars 10 digits 0 : Nat))
  match cs.dropWhile isSpace with
  | '-' :: cs => read (-1) cs
  | '+' :: cs => read 1 cs
  | cs => read 1 cs

/-- `parseInt(s, 10)` of a status, without the infinities that texts of more than 308 digits
give. -/
def parseInt (cs : List Char) : Option Int := (readInt cs).map fun n => n.sign * f64 n.natAbs

/-- `n.toString()`. -/
def numberText (n : Int) : List Char :=
  if n < 0 then '-' :: f64Text n.natAbs else f64Text n.natAbs

/-- What the table of the ASCII characters says of a character in it. -/
theorem of_ascii {P : Char → Prop} (h : ∀ n : Fin 127, P (Char.ofNat n)) {c : Char}
    (hc : c.toNat < 127) : P c := by
  have hsame := h ⟨c.toNat, hc⟩
  rwa [Char.ofNat_toNat] at hsame

/-- A digit is no space. -/
theorem isSpace_of_isDigit {c : Char} (hc : c.isDigit = true) : isSpace c = false := by
  have hascii : c.isDigit = true → isSpace c = false :=
    of_ascii (P := fun c => c.isDigit = true → isSpace c = false) (by decide)
      (Nat.lt_of_le_of_lt (Char.isDigit_iff_toNat.1 hc).2 (by decide))
  exact hascii hc

/-- A text is trimmed if its ends are no spaces. -/
theorem trim_of_not_isSpace {cs : List Char} (hfirst : ∀ c ∈ cs.head?, isSpace c = false)
    (hlast : ∀ c ∈ cs.getLast?, isSpace c = false) : trim cs = cs := by
  have hfront : cs.dropWhile isSpace = cs := by
    cases cs with
    | nil => rfl
    | cons c cs =>
        apply List.dropWhile_cons_of_neg
        rw [hfirst c rfl]
        exact Bool.false_ne_true
  rw [trim, hfront, List.rdropWhile_eq_self_iff]
  intro hne hspace
  rw [hlast _ (List.getLast?_eq_getLast_of_ne_nil hne)] at hspace
  cases hspace

/-! ## Keys and values -/

/-- The exceptions of the header calls: two with the code `BAD_HEADER`, and the `RangeError` of a
call with too many arguments. -/
inductive HeaderError where
  | badKey (c : Char)
  | badValue
  | tooManyArguments
deriving DecidableEq, Repr

/-- Their texts. -/
def HeaderError.message : HeaderError → String
  | .badKey c => s!"'{c}' is not a valid character for a header key"
  | .badValue => "invalid header value - \\r and \\n are not allowed."
  | .tooManyArguments => Engine.rangeError

/-- Their codes. -/
def HeaderError.code : HeaderError → Option String
  | .badKey _ | .badValue => some "BAD_HEADER"
  | .tooManyArguments => none

/-- A character of a key. -/
def isKeyChar (c : Char) : Bool := c ≠ ':' && 33 ≤ c.toNat && c.toNat ≤ 126

/-- The loop of `canonicalMIMEHeaderKey`. -/
def canonicalKey (upper : Bool) : List Char → Except HeaderError (List Char)
  | [] => .ok []
  | c :: cs =>
      if isKeyChar c then
        match canonicalKey (c = '-') cs with
        | .ok rest => .ok ((if upper then c.toUpper else c.toLower) :: rest)
        | .error e => .error e
      else .error (.badKey c)

/-- `canonicalMIMEHeaderKey(k)`: the characters are the arguments of `String.fromCharCode`. -/
def canonicalMIMEHeaderKey [Engine] (k : String) : Except HeaderError String :=
  match canonicalKey true k.toList with
  | .ok cs =>
      match spread cs with
      | some cs => .ok (String.ofList cs)
      | none => .error .tooManyArguments
  | .error e => .error e

/-- `validHeaderValue(v)`. -/
def validHeaderValue (v : String) : Except HeaderError String :=
  if '\r' ∈ v.toList ∨ '\n' ∈ v.toList then .error .badValue
  else .ok (String.ofList (trim v.toList))

/-- `Match`. -/
inductive Match where
  | exact
  | canonicalMIME
  | ignoreCase
deriving DecidableEq, Repr

/-- The fields of `MsgHdrsImpl`. -/
structure MsgHdrs where
  code : Int
  description : String
  headers : OrderedMap String (List String)

/-- The first line of a block. -/
def header : List Char := "NATS/1.0".toList

namespace MsgHdrs

/-- `headers()`. -/
def new : MsgHdrs := ⟨0, "", .empty⟩

/-- `size()`. -/
def size (h : MsgHdrs) : Nat := h.headers.size

section

variable [Engine]

/-- `findKeys(k, match)`. -/
def findKeys (h : MsgHdrs) (k : String) : Match → Except HeaderError (List String)
  | .exact => .ok (h.headers.keys.filter (· = k))
  | .canonicalMIME =>
      match canonicalMIMEHeaderKey k with
      | .ok k => .ok (h.headers.keys.filter (· = k))
      | .error e => .error e
  | .ignoreCase =>
      .ok (h.headers.keys.filter fun v => Engine.toLowerCase k = Engine.toLowerCase v)

/-- `append(k, v, match)`. -/
def append (h : MsgHdrs) (k v : String) (m : Match) : MsgHdrs × Option HeaderError :=
  match canonicalMIMEHeaderKey k with
  | .error e => (h, some e)
  | .ok ck =>
      let k := if m = .canonicalMIME then ck else k
      match h.findKeys k m with
      | .error e => (h, some e)
      | .ok keys =>
          let k := keys.head?.getD k
          match validHeaderValue v with
          | .error e => (h, some e)
          | .ok value =>
              ({ h with headers := h.headers.set k ((h.headers.get k).getD [] ++ [value]) }, none)

/-- `delete(k, match)`. -/
def delete (h : MsgHdrs) (k : String) (m : Match) : MsgHdrs × Option HeaderError :=
  match h.findKeys k m with
  | .error e => (h, some e)
  | .ok keys => ({ h with headers := h.headers.deleteAll keys }, none)

/-- `set(k, v, match)`. -/
def set (h : MsgHdrs) (k v : String) (m : Match) : MsgHdrs × Option HeaderError :=
  match h.delete k m with
  | (h, some e) => (h, some e)
  | (h, none) => h.append k v m

/-- The loop of `values`: the values of each key are the arguments of a `push`. -/
def pushed (h : MsgHdrs) : List String → Except HeaderError (List String)
  | [] => .ok []
  | k :: ks =>
      match spread ((h.headers.get k).getD []) with
      | none => .error .tooManyArguments
      | some vs =>
          match h.pushed ks with
          | .ok rest => .ok (vs ++ rest)
          | .error e => .error e

/-- `values(k, match)`. -/
def values (h : MsgHdrs) (k : String) (m : Match) : Except HeaderError (List String) :=
  match h.findKeys k m with
  | .ok keys => h.pushed keys
  | .error e => .error e

/-- `[...v].sort()`: by UTF-16 code units. -/
def sorted (vs : List String) : List String :=
  vs.mergeSort fun a b => (a.toList.flatMap utf16) ≤ (b.toList.flatMap utf16)
where
  utf16 (c : Char) : List Nat :=
    if c.toNat < 0x10000 then [c.toNat]
    else [0xD800 + (c.toNat - 0x10000) / 0x400, 0xDC00 + (c.toNat - 0x10000) % 0x400]

/-- The loop of `equals` over the entries of the other headers. -/
def equalEntries (mh : MsgHdrs) : List (String × List String) → Except HeaderError Bool
  | [] => .ok true
  | (k, v) :: es =>
      match mh.values k .exact with
      | .ok a =>
          if v.length = a.length ∧ sorted v = sorted a then mh.equalEntries es else .ok false
      | .error e => .error e

/-- `equals(mh)`. -/
def equals (h mh : MsgHdrs) : Except HeaderError Bool :=
  if h.size = mh.size ∧ h.code = mh.code then mh.equalEntries h.headers.entries else .ok false

end

/-- The lines of a block behind the first. -/
def lines (h : MsgHdrs) : List (List Char) :=
  h.headers.entries.flatMap fun (k, vs) => vs.map fun v => k.toList ++ ':' :: ' ' :: v.toList

/-- The first line of a block. -/
def statusLine (h : MsgHdrs) : List Char :=
  if 0 < h.code ∧ h.description ≠ "" then
    header ++ ' ' :: (numberText h.code ++ ' ' :: h.description.toList)
  else header

/-- `toString()`. -/
def text (h : MsgHdrs) : String :=
  if h.size = 0 ∧ h.code = 0 then ""
  else
    String.ofList (h.statusLine ++ (h.lines.flatMap fun l => '\r' :: '\n' :: l) ++
      ['\r', '\n', '\r', '\n'])

/-- `encode()`. -/
def encode (h : MsgHdrs) : Bytes := Wire.encode h.text

/-- The status in a first line, where it is not the plain header. -/
def decodeStatus (h : List Char) : Int × String :=
  let str := trim (removeFirst header h)
  if str = [] then (0, "")
  else
    let code := (parseInt str).getD 0
    (code, String.ofList (trim (removeFirst (numberText code) str)))

/-- One line behind the first. -/
def decodeLine [Engine] (mh : MsgHdrs) (s : List Char) : Except HeaderError MsgHdrs :=
  if ':' ∈ s then
    let k := s.takeWhile (· ≠ ':')
    let v := trim (s.drop (k.length + 1))
    match mh.append (String.ofList k) (String.ofList v) .exact with
    | (mh, none) => .ok mh
    | (_, some e) => .error e
  else .ok mh

/-- The lines behind the first. -/
def decodeLines [Engine] (mh : MsgHdrs) : List (List Char) → Except HeaderError MsgHdrs
  | [] => .ok mh
  | s :: ss =>
      match decodeLine mh s with
      | .ok mh => decodeLines mh ss
      | .error e => .error e

/-- `decode(a)`. -/
def decode [Engine] (a : Bytes) : Except HeaderError MsgHdrs :=
  match splitLines (Wire.decode a).toList with
  | [] => .ok new
  | h :: rest =>
      let status := if h = header then (0, "") else decodeStatus h
      decodeLines { new with code := status.1, description := status.2 } rest

/-! ## What the calls keep -/

/-- A key fit for a header line. -/
def ValidKey (k : String) : Prop := ∀ c ∈ k.toList, isKeyChar c = true

/-- A value fit for a header line. -/
def ValidValue (v : String) : Prop :=
  '\r' ∉ v.toList ∧ '\n' ∉ v.toList ∧ trim v.toList = v.toList

/-- One that is not too long to be made canonical. -/
def FitKey [Engine] (k : String) : Prop := ValidKey k ∧ k.length ≤ Engine.maxArguments

/-- Every key is fit and has values, which are so too. -/
def Fit [Engine] (h : MsgHdrs) : Prop :=
  ∀ k vs, h.headers.get k = some vs → FitKey k ∧ vs ≠ [] ∧ ∀ v ∈ vs, ValidValue v

/-- Headers without a status whose keys and values are fit for header lines. -/
structure WellFormed [Engine] (h : MsgHdrs) : Prop where
  code : h.code = 0
  description : h.description = ""
  entry : h.Fit

theorem lt_of_isKeyChar {c : Char} (hc : isKeyChar c = true) : c.toNat < 127 := by
  simp only [isKeyChar, Bool.and_eq_true, decide_eq_true_eq] at hc
  omega

/-- Changing the case keeps the characters of a key. -/
theorem isKeyChar_case {c : Char} (hc : isKeyChar c = true) :
    isKeyChar c.toUpper = true ∧ isKeyChar c.toLower = true :=
  of_ascii (P := fun c => isKeyChar c = true → isKeyChar c.toUpper = true ∧
    isKeyChar c.toLower = true) (by decide) (lt_of_isKeyChar hc) hc

/-- The canonical form of a valid key is defined and valid, and no other key has one. -/
theorem canonicalKey_spec (upper : Bool) (cs : List Char) :
    (∃ ck, canonicalKey upper cs = .ok ck) ↔ ∀ c ∈ cs, isKeyChar c = true := by
  induction cs generalizing upper with
  | nil => simp [canonicalKey]
  | cons c cs ih =>
      cases hc : isKeyChar c with
      | false => simp [canonicalKey, hc]
      | true =>
          rw [List.forall_mem_cons, ← ih (c = '-'), canonicalKey, if_pos hc]
          cases canonicalKey (c = '-') cs with
          | ok ck => simp [hc]
          | error e => simp

theorem isKeyChar_canonicalKey {upper : Bool} {cs ck : List Char}
    (h : canonicalKey upper cs = .ok ck) : ∀ c ∈ ck, isKeyChar c = true := by
  induction cs generalizing upper ck with
  | nil =>
      cases h
      intro c hc
      cases hc
  | cons c cs ih =>
      rw [canonicalKey] at h
      split at h
      · next hc =>
          cases hrest : canonicalKey (c = '-') cs with
          | error e =>
              rw [hrest] at h
              cases h
          | ok rest =>
              rw [hrest] at h
              cases h
              intro d hd
              rcases List.mem_cons.1 hd with rfl | hd
              · cases upper with
                | true => exact (isKeyChar_case hc).1
                | false => exact (isKeyChar_case hc).2
              · exact ih hrest d hd
      · cases h

/-- Making a key canonical keeps its length. -/
theorem length_canonicalKey {upper : Bool} {cs ck : List Char}
    (h : canonicalKey upper cs = .ok ck) : ck.length = cs.length := by
  induction cs generalizing upper ck with
  | nil =>
      cases h
      rfl
  | cons c cs ih =>
      rw [canonicalKey] at h
      split at h
      · cases hrest : canonicalKey (c = '-') cs with
        | error e =>
            rw [hrest] at h
            cases h
        | ok rest =>
            rw [hrest] at h
            cases h
            rw [List.length_cons, List.length_cons, ih hrest]
      · cases h

/-- Trimming twice is trimming once. -/
theorem trim_trim (cs : List Char) : trim (trim cs) = trim cs := by
  have hhead : (trim cs).dropWhile isSpace = trim cs := by
    apply List.dropWhile_eq_self_iff.2
    intro hpos
    -- the first character of what is left was the first one that is no space
    obtain ⟨rest, hrest⟩ := List.rdropWhile_prefix isSpace (cs.dropWhile isSpace)
    have hne : 0 < (cs.dropWhile isSpace).length := by
      rw [← hrest, List.length_append]
      exact Nat.lt_of_lt_of_le hpos (Nat.le_add_right _ _)
    have hfirst := List.dropWhile_eq_self_iff.1 (List.dropWhile_idempotent isSpace cs) hne
    have hsame : (cs.dropWhile isSpace)[0] = (trim cs)[0] := by
      rw [List.getElem_of_eq hrest.symm]
      exact List.getElem_append_left hpos
    rw [← hsame]
    exact hfirst
  rw [trim, hhead, trim, List.rdropWhile_idempotent]

theorem mem_of_mem_trim {c : Char} {cs : List Char} (h : c ∈ trim cs) : c ∈ cs :=
  (List.dropWhile_sublist isSpace).subset ((List.rdropWhile_prefix isSpace _).subset h)

theorem validValue_of_valid {v value : String} (h : validHeaderValue v = .ok value) :
    ValidValue value := by
  rw [validHeaderValue] at h
  split at h
  · cases h
  · next hlines =>
      cases h
      rw [not_or] at hlines
      rw [ValidValue, String.toList_ofList]
      exact ⟨fun hc => hlines.1 (mem_of_mem_trim hc), fun hc => hlines.2 (mem_of_mem_trim hc),
        trim_trim _⟩

theorem validHeaderValue_of_validValue {v : String} (h : ValidValue v) :
    validHeaderValue v = .ok v := by
  rw [validHeaderValue, if_neg (not_or.2 ⟨h.1, h.2.1⟩), h.2.2, String.ofList_toList]

section

variable [Engine]

theorem fit_empty (code : Int) (description : String) :
    (⟨code, description, .empty⟩ : MsgHdrs).Fit := fun k vs hget => by
  rw [show OrderedMap.get .empty k = none from OrderedMap.get_empty k] at hget
  cases hget

/-- What is returned for a key is what the loop makes of it, if that is not too long. -/
theorem canonicalMIMEHeaderKey_eq_ok {k ck : String} :
    canonicalMIMEHeaderKey k = .ok ck ↔
      ∃ cs, canonicalKey true k.toList = .ok cs ∧ cs.length ≤ Engine.maxArguments ∧
        ck = String.ofList cs := by
  rw [canonicalMIMEHeaderKey]
  cases canonicalKey true k.toList with
  | error e =>
      constructor
      · intro h
        cases h
      · rintro ⟨cs, h, -⟩
        cases h
  | ok cs =>
      dsimp only
      by_cases hle : cs.length ≤ Engine.maxArguments
      · rw [spread_of_le hle]
        simp [hle, eq_comm]
      · rw [spread_eq_none_iff.2 (Nat.not_le.1 hle)]
        simp [hle]

theorem canonicalMIMEHeaderKey_spec (k : String) :
    (∃ ck, canonicalMIMEHeaderKey k = .ok ck) ↔ FitKey k := by
  constructor
  · rintro ⟨ck, hck⟩
    obtain ⟨cs, hcs, hle, -⟩ := canonicalMIMEHeaderKey_eq_ok.1 hck
    refine ⟨(canonicalKey_spec true k.toList).1 ⟨cs, hcs⟩, ?_⟩
    rwa [length_canonicalKey hcs, String.length_toList] at hle
  · rintro ⟨hk, hle⟩
    obtain ⟨cs, hcs⟩ := (canonicalKey_spec true k.toList).2 hk
    refine ⟨_, canonicalMIMEHeaderKey_eq_ok.2 ⟨cs, hcs, ?_, rfl⟩⟩
    rwa [length_canonicalKey hcs, String.length_toList]

theorem fitKey_of_short {k : String} (hchars : k.toList.all isKeyChar = true)
    (hshort : k.length ≤ 65536) : FitKey k :=
  ⟨List.all_eq_true.1 hchars, hshort.trans Engine.enough⟩

theorem fitKey_canonical {k ck : String} (h : canonicalMIMEHeaderKey k = .ok ck) : FitKey ck := by
  obtain ⟨cs, hcs, hle, rfl⟩ := canonicalMIMEHeaderKey_eq_ok.1 h
  constructor
  · intro c hc
    rw [String.toList_ofList] at hc
    exact isKeyChar_canonicalKey hcs c hc
  · rwa [← String.length_toList, String.toList_ofList]

/-- The keys found are keys of the headers. -/
theorem mem_keys_of_findKeys {h : MsgHdrs} {k : String} {m : Match} {keys : List String}
    (hkeys : h.findKeys k m = .ok keys) : ∀ k' ∈ keys, k' ∈ h.headers.keys := by
  cases m with
  | exact =>
      cases hkeys
      exact fun k' hk' => (List.mem_filter.1 hk').1
  | canonicalMIME =>
      rw [findKeys] at hkeys
      split at hkeys
      · cases hkeys
        exact fun k' hk' => (List.mem_filter.1 hk').1
      · cases hkeys
  | ignoreCase =>
      cases hkeys
      exact fun k' hk' => (List.mem_filter.1 hk').1

/-- A value is added under a valid key. -/
theorem Fit.add {h : MsgHdrs} (hf : h.Fit) {k v : String} (hk : FitKey k) (hv : ValidValue v) :
    ({ h with headers := h.headers.set k ((h.headers.get k).getD [] ++ [v]) } : MsgHdrs).Fit := by
  intro k' vs hget
  rw [OrderedMap.get_set] at hget
  split at hget
  · next heq =>
      subst heq
      cases hget
      refine ⟨hk, by simp, ?_⟩
      intro v' hv'
      rcases List.mem_append.1 hv' with hold | hnew
      · cases hold' : h.headers.get k' with
        | none =>
            rw [hold'] at hold
            cases hold
        | some vs =>
            rw [hold'] at hold
            exact (hf k' vs hold').2.2 v' hold
      · rw [List.mem_singleton.1 hnew]
        exact hv
  · exact hf k' vs hget

/-- An append throws and changes nothing, or it adds a value under a valid key. -/
theorem append_cases (h : MsgHdrs) (k v : String) (m : Match) :
    (∃ e, h.append k v m = (h, some e)) ∨
      ∃ ck keys value, canonicalMIMEHeaderKey k = .ok ck ∧
        h.findKeys (if m = .canonicalMIME then ck else k) m = .ok keys ∧
        validHeaderValue v = .ok value ∧
        ∃ k', k' = keys.head?.getD (if m = .canonicalMIME then ck else k) ∧
          h.append k v m =
            ({ h with headers := h.headers.set k' ((h.headers.get k').getD [] ++ [value]) },
              none) := by
  rw [MsgHdrs.append]
  cases hck : canonicalMIMEHeaderKey k with
  | error e => exact .inl ⟨e, rfl⟩
  | ok ck =>
      cases hkeys : h.findKeys (if m = .canonicalMIME then ck else k) m with
      | error e =>
          simp only [hkeys]
          exact .inl ⟨e, rfl⟩
      | ok keys =>
          cases hvalue : validHeaderValue v with
          | error e =>
              simp only [hkeys]
              exact .inl ⟨e, rfl⟩
          | ok value =>
              simp only [hkeys]
              exact .inr ⟨ck, keys, value, rfl, hkeys, rfl, _, rfl, rfl⟩

theorem Fit.append {h : MsgHdrs} (hf : h.Fit) (k v : String) (m : Match) :
    (h.append k v m).1.Fit := by
  rcases h.append_cases k v m with ⟨e, heq⟩ | ⟨ck, keys, value, hck, hkeys, hvalue, k', hk', heq⟩
  · rw [heq]
    exact hf
  · rw [heq]
    refine hf.add ?_ (validValue_of_valid hvalue)
    rw [hk']
    -- the key is one of the headers, or the given one in its form
    cases hhead : keys with
    | nil =>
        simp only [List.head?_nil, Option.getD_none]
        split
        · exact fitKey_canonical hck
        · exact (canonicalMIMEHeaderKey_spec k).1 ⟨ck, hck⟩
    | cons k' ks =>
        obtain ⟨vs, hget⟩ := OrderedMap.mem_keys.1
          (mem_keys_of_findKeys hkeys k' (by rw [hhead]; exact List.mem_cons_self))
        exact (hf k' vs hget).1

theorem Fit.deleteAll {h : MsgHdrs} (hf : h.Fit) (keys : List String) :
    ({ h with headers := h.headers.deleteAll keys } : MsgHdrs).Fit := by
  induction keys generalizing h with
  | nil => exact hf
  | cons k keys ih =>
      have hdelete : ({ h with headers := h.headers.delete k } : MsgHdrs).Fit := by
        intro k' vs hget
        rw [OrderedMap.get_delete] at hget
        split at hget
        · cases hget
        · exact hf k' vs hget
      exact ih hdelete

theorem Fit.delete {h : MsgHdrs} (hf : h.Fit) (k : String) (m : Match) : (h.delete k m).1.Fit := by
  rw [MsgHdrs.delete]
  split
  · exact hf
  · exact hf.deleteAll _

theorem Fit.set {h : MsgHdrs} (hf : h.Fit) (k v : String) (m : Match) : (h.set k v m).1.Fit := by
  have hdelete := hf.delete k m
  rw [MsgHdrs.set]
  split
  · next heq =>
      rw [heq] at hdelete
      exact hdelete
  · next heq =>
      rw [heq] at hdelete
      exact hdelete.append k v m

/-- No call changes the status. -/
theorem status_append (h : MsgHdrs) (k v : String) (m : Match) :
    (h.append k v m).1.code = h.code ∧ (h.append k v m).1.description = h.description := by
  rcases h.append_cases k v m with ⟨e, heq⟩ | ⟨_, _, _, _, _, _, _, _, heq⟩
  · rw [heq]
    exact ⟨rfl, rfl⟩
  · rw [heq]
    exact ⟨rfl, rfl⟩

theorem status_delete (h : MsgHdrs) (k : String) (m : Match) :
    (h.delete k m).1.code = h.code ∧ (h.delete k m).1.description = h.description := by
  rw [MsgHdrs.delete]
  split
  · exact ⟨rfl, rfl⟩
  · exact ⟨rfl, rfl⟩

theorem status_set (h : MsgHdrs) (k v : String) (m : Match) :
    (h.set k v m).1.code = h.code ∧ (h.set k v m).1.description = h.description := by
  have hdelete := h.status_delete k m
  rw [MsgHdrs.set]
  split
  · next heq =>
      rw [heq] at hdelete
      exact hdelete
  · next h' heq =>
      rw [heq] at hdelete
      have happend := h'.status_append k v m
      exact ⟨happend.1.trans hdelete.1, happend.2.trans hdelete.2⟩

/-- The calls that build headers. -/
inductive Call where
  | append (k v : String) (m : Match)
  | set (k v : String) (m : Match)
deriving DecidableEq, Repr

/-- A call; one that throws leaves the headers as it had made them. -/
def call (h : MsgHdrs) : Call → MsgHdrs
  | .append k v m => (h.append k v m).1
  | .set k v m => (h.set k v m).1

/-- The headers some calls build. -/
def build (cs : List Call) : MsgHdrs := cs.foldl call new

/-- **Every call keeps headers well formed.** -/
theorem wellFormed_build (cs : List Call) : (build cs).WellFormed := by
  have hcalls : ∀ h : MsgHdrs, h.Fit → (cs.foldl call h).Fit ∧ (cs.foldl call h).code = h.code ∧
      (cs.foldl call h).description = h.description := by
    induction cs with
    | nil => exact fun _ hf => ⟨hf, rfl, rfl⟩
    | cons c cs ih =>
        intro h hf
        cases c with
        | append k v m =>
            have hstatus := h.status_append k v m
            obtain ⟨hfit, hcode, hdescription⟩ := ih _ (hf.append k v m)
            exact ⟨hfit, hcode.trans hstatus.1, hdescription.trans hstatus.2⟩
        | set k v m =>
            have hstatus := h.status_set k v m
            obtain ⟨hfit, hcode, hdescription⟩ := ih _ (hf.set k v m)
            exact ⟨hfit, hcode.trans hstatus.1, hdescription.trans hstatus.2⟩
  obtain ⟨hfit, hcode, hdescription⟩ := hcalls new (fit_empty 0 "")
  exact ⟨hcode, hdescription, hfit⟩

end

/-! ## Reading what was written -/

/-- There is a line break in a text. -/
def Breaks (cs : List Char) : Prop := ['\r', '\n'] <:+: cs

theorem splitLines_ne_nil (cs : List Char) : splitLines cs ≠ [] := by
  induction cs using splitLines.induct with
  | case1 => nofun
  | case2 cs _ => nofun
  | case3 c cs hcr ih =>
      obtain ⟨l, ls, hsplit⟩ := List.exists_cons_of_ne_nil ih
      rw [splitLines, hsplit, List.modifyHead_cons]
      · nofun
      · exact hcr

/-- **A text is split at a line break**, whatever is on its sides. -/
theorem splitLines_append (xs ys : List Char) :
    splitLines (xs ++ '\r' :: '\n' :: ys) = splitLines xs ++ splitLines ys := by
  induction xs using splitLines.induct with
  | case1 => rfl
  | case2 cs ih =>
      rw [List.cons_append, List.cons_append, splitLines, ih, splitLines, List.cons_append]
  | case3 c cs hcr ih =>
      have hcr' : ∀ cs', c = '\r' → cs ++ '\r' :: '\n' :: ys = '\n' :: cs' → False := by
        intro cs' hc hcs
        cases cs with
        | nil => cases hcs
        | cons d cs =>
            obtain ⟨rfl, -⟩ := List.cons.inj hcs
            exact hcr cs hc rfl
      obtain ⟨l, ls, hsplit⟩ := List.exists_cons_of_ne_nil (splitLines_ne_nil cs)
      rw [List.cons_append, splitLines, ih, splitLines, hsplit]
      · rfl
      · exact hcr
      · exact hcr'

/-- A text without a line break is one line. -/
theorem splitLines_of_not_breaks {cs : List Char} (h : ¬ Breaks cs) : splitLines cs = [cs] := by
  induction cs using splitLines.induct with
  | case1 => rfl
  | case2 cs _ => exact absurd (List.prefix_append ['\r', '\n'] cs).isInfix h
  | case3 c cs hcr ih =>
      have hrest : ¬ Breaks cs := fun hbreaks => h (hbreaks.trans (List.suffix_cons c cs).isInfix)
      rw [splitLines, ih hrest, List.modifyHead_cons]
      exact hcr

theorem not_breaks_of_not_mem {cs : List Char} (h : '\r' ∉ cs) : ¬ Breaks cs :=
  fun hbreaks => h (hbreaks.subset List.mem_cons_self)

/-- The lines of a block are those of its parts, with the two empty ones at its end. -/
theorem splitLines_block (first : List Char) (ls : List (List Char)) :
    splitLines (first ++ (ls.flatMap fun l => '\r' :: '\n' :: l) ++ ['\r', '\n', '\r', '\n']) =
      splitLines first ++ ls.flatMap splitLines ++ [[], []] := by
  induction ls generalizing first with
  | nil =>
      rw [List.flatMap_nil, List.append_nil, splitLines_append]
      simp only [List.flatMap_nil, List.append_nil]
      rfl
  | cons l ls ih =>
      have hl := ih l
      rw [List.flatMap_cons, List.flatMap_cons]
      simp only [List.cons_append, List.append_assoc] at hl ⊢
      rw [splitLines_append, hl]

/-- The line of a key and a value. -/
def line (k v : String) : List Char := k.toList ++ ':' :: ' ' :: v.toList

theorem colon_mem_line (k v : String) : ':' ∈ line k v := List.mem_append_right _ List.mem_cons_self

/-- The key is in front of the first colon. -/
theorem takeWhile_line {k : String} (hk : ValidKey k) (v : String) :
    (line k v).takeWhile (· ≠ ':') = k.toList := by
  have hcolon : ∀ c ∈ k.toList, decide (c ≠ ':') = true := by
    intro c hc
    have hchar := hk c hc
    simp only [isKeyChar, Bool.and_eq_true] at hchar
    exact hchar.1.1
  rw [line, List.takeWhile_append_of_pos hcolon, List.takeWhile_cons_of_neg (by simp),
    List.append_nil]

theorem drop_line (k v : String) : (line k v).drop (k.toList.length + 1) = ' ' :: v.toList := by
  rw [line, List.drop_append]
  simp

section

variable [Engine]

/-- A fit value goes behind those of its key. -/
theorem append_fit (mh : MsgHdrs) {k v : String} (hk : FitKey k) (hv : ValidValue v) :
    mh.append k v .exact =
      ({ mh with headers := mh.headers.set k ((mh.headers.get k).getD [] ++ [v]) }, none) := by
  obtain ⟨ck, hck⟩ := (canonicalMIMEHeaderKey_spec k).2 hk
  have hfound : ∀ keys : List String, ((keys.filter (· = k)).head?).getD k = k := by
    intro keys
    cases hhead : (keys.filter (· = k)).head? with
    | none => rfl
    | some k' => simpa using List.of_mem_filter (List.mem_of_head? hhead)
  simp only [append, hck, findKeys, validHeaderValue_of_validValue hv, reduceCtorEq, if_false,
    hfound]

/-- A line that was written is read as its value under its key. -/
theorem decodeLine_line {mh : MsgHdrs} {k v : String} (hk : FitKey k) (hv : ValidValue v) :
    decodeLine mh (line k v) =
      .ok { mh with headers := mh.headers.set k ((mh.headers.get k).getD [] ++ [v]) } := by
  have htrim : trim (' ' :: v.toList) = v.toList := by
    rw [trim, List.dropWhile_cons_of_pos (by decide)]
    exact hv.2.2
  simp only [decodeLine, if_pos (colon_mem_line k v), takeWhile_line hk.1, drop_line, htrim,
    String.ofList_toList, append_fit mh hk hv]

theorem decodeLines_append {mh mh' : MsgHdrs} {xs : List (List Char)} (ys : List (List Char))
    (h : decodeLines mh xs = .ok mh') : decodeLines mh (xs ++ ys) = decodeLines mh' ys := by
  induction xs generalizing mh with
  | nil =>
      cases h
      rfl
  | cons x xs ih =>
      rw [List.cons_append, decodeLines]
      rw [decodeLines] at h
      cases hx : decodeLine mh x with
      | error e =>
          rw [hx] at h
          cases h
      | ok mh₁ =>
          rw [hx] at h
          exact ih h

/-- The values of a key are read behind those it has, its entry being the last one. -/
theorem decodeLines_values {mh : MsgHdrs} {es : List (String × List String)} {k : String}
    {acc : List String} (hentries : mh.headers.entries = es ++ [(k, acc)]) (hk : FitKey k)
    {vs : List String} (hvs : ∀ v ∈ vs, ValidValue v) :
    ∃ mh', decodeLines mh (vs.map (line k)) = .ok mh' ∧
      mh'.headers.entries = es ++ [(k, acc ++ vs)] ∧ mh'.code = mh.code ∧
      mh'.description = mh.description := by
  induction vs generalizing mh acc with
  | nil => exact ⟨mh, rfl, by rw [hentries, List.append_nil], rfl, rfl⟩
  | cons v vs ih =>
      have hget : mh.headers.get k = some acc := by
        apply OrderedMap.mem_entries.1
        rw [hentries]
        exact List.mem_append_right _ List.mem_cons_self
      have hset : (mh.headers.set k (acc ++ [v])).entries = es ++ [(k, acc ++ [v])] :=
        OrderedMap.entries_set_last hentries _
      obtain ⟨mh', hdecode, hentries', hcode, hdescription⟩ :=
        @ih { mh with headers := mh.headers.set k (acc ++ [v]) } _ hset
          fun v' hv' => hvs v' (List.mem_cons_of_mem v hv')
      refine ⟨mh', ?_, ?_, hcode, hdescription⟩
      · rw [List.map_cons, decodeLines, decodeLine_line hk (hvs v List.mem_cons_self), hget]
        exact hdecode
      · rw [hentries', List.append_assoc]
        rfl

end

/-- The lines of an entry. -/
def entryLines (e : String × List String) : List (List Char) := e.2.map (line e.1)

section

variable [Engine]

/-- The entries are read behind those that were read before, each under a new key. -/
theorem decodeLines_entries {mh : MsgHdrs} {es : List (String × List String)}
    (hnodup : ((mh.headers.entries ++ es).map Prod.fst).Nodup)
    (hes : ∀ e ∈ es, FitKey e.1 ∧ e.2 ≠ [] ∧ ∀ v ∈ e.2, ValidValue v) :
    ∃ mh', decodeLines mh (es.flatMap entryLines) = .ok mh' ∧
      mh'.headers.entries = mh.headers.entries ++ es ∧ mh'.code = mh.code ∧
      mh'.description = mh.description := by
  induction es generalizing mh with
  | nil => exact ⟨mh, rfl, (List.append_nil _).symm, rfl, rfl⟩
  | cons e es ih =>
      obtain ⟨k, vs⟩ := e
      obtain ⟨hk, hne, hvs⟩ := hes (k, vs) List.mem_cons_self
      obtain ⟨v, vs, rfl⟩ := List.exists_cons_of_ne_nil hne
      have hnew : k ∉ mh.headers.keys := by
        intro hmem
        rw [List.map_append, List.nodup_append] at hnodup
        exact hnodup.2.2 k hmem k List.mem_cons_self rfl
      have hget : mh.headers.get k = none := by
        cases hget : mh.headers.get k with
        | none => rfl
        | some vs' => exact absurd (OrderedMap.mem_keys.2 ⟨vs', hget⟩) hnew
      -- the first value makes the entry, the others go behind it
      obtain ⟨mh₁, hdecode₁, hentries₁, hcode₁, hdescription₁⟩ :=
        @decodeLines_values _ { mh with headers := mh.headers.set k [v] } _ _ _
          (OrderedMap.entries_set_of_new hnew) hk vs
          fun v' hv' => hvs v' (List.mem_cons_of_mem v hv')
      have hfirst : decodeLines mh (entryLines (k, v :: vs)) = .ok mh₁ := by
        rw [entryLines, List.map_cons, decodeLines, decodeLine_line hk (hvs v List.mem_cons_self),
          hget]
        exact hdecode₁
      have hnodup₁ : ((mh₁.headers.entries ++ es).map Prod.fst).Nodup := by
        rw [hentries₁, List.append_assoc]
        exact hnodup
      obtain ⟨mh', hdecode, hentries, hcode, hdescription⟩ :=
        ih hnodup₁ fun e he => hes e (List.mem_cons_of_mem _ he)
      refine ⟨mh', ?_, ?_, hcode.trans hcode₁, hdescription.trans hdescription₁⟩
      · rw [List.flatMap_cons, decodeLines_append _ hfirst, hdecode]
      · rw [hentries, hentries₁, List.append_assoc]
        rfl

end

section

variable {h : MsgHdrs}

theorem toList_text (hne : ¬ (h.size = 0 ∧ h.code = 0)) :
    h.text.toList = h.statusLine ++ (h.lines.flatMap fun l => '\r' :: '\n' :: l) ++ ['\r', '\n',
      '\r', '\n'] := by
  rw [text, if_neg hne, String.toList_ofList]

/-- The first line starts with the header. -/
theorem header_prefix_statusLine (h : MsgHdrs) : header <+: h.statusLine := by
  unfold statusLine
  split
  · exact List.prefix_append _ _
  · exact List.prefix_refl _

/-- The bytes of a block are read as its text: there is no mark in front of it. -/
theorem decode_text (hne : ¬ (h.size = 0 ∧ h.code = 0)) : Wire.decode h.encode = h.text := by
  obtain ⟨rest, hrest⟩ := h.header_prefix_statusLine
  have hheader : header = ['N', 'A', 'T', 'S', '/', '1', '.', '0'] := by decide
  apply Wire.decode_encode
  rw [toList_text hne, ← hrest, hheader]
  simp only [List.cons_append, List.head?_cons, ne_eq, Option.some.injEq, Char.reduceEq,
    not_false_iff]

/-- The status that a first line is read as. -/
def statusOf (first : List Char) : Int × String :=
  if first = header then (0, "") else decodeStatus first

/-- A line that was written is one line. -/
theorem not_breaks_line {k v : String} (hk : ValidKey k) (hv : '\r' ∉ v.toList) :
    ¬ Breaks (line k v) := by
  apply not_breaks_of_not_mem
  intro hcr
  rcases List.mem_append.1 hcr with hcr | hcr
  · exact absurd (hk _ hcr) (by decide)
  · simp only [List.mem_cons, false_or, Char.reduceEq] at hcr
    exact hv hcr

variable [Engine]

/-- Reading a block is reading its lines. -/
theorem decode_of_splitLines (hne : ¬ (h.size = 0 ∧ h.code = 0)) {first : List Char}
    {rest : List (List Char)} (hsplit : splitLines h.text.toList = first :: rest) :
    decode h.encode =
      decodeLines { new with code := (statusOf first).1, description := (statusOf first).2 }
      rest := by
  rw [decode, decode_text hne, hsplit]
  rfl

/-- The lines of fit headers are read as these headers. -/
theorem decodeLines_lines (hf : h.Fit) :
    decodeLines ⟨h.code, h.description, .empty⟩ (h.lines ++ [[], []]) = .ok h := by
  have hes : ∀ e ∈ h.headers.entries, FitKey e.1 ∧ e.2 ≠ [] ∧ ∀ v ∈ e.2, ValidValue v :=
    fun e he => hf e.1 e.2 (OrderedMap.mem_entries.1 he)
  obtain ⟨mh, hdecode, hentries, hcode, hdescription⟩ :=
    @decodeLines_entries _ ⟨h.code, h.description, .empty⟩ h.headers.entries h.headers.nodup hes
  rw [show h.lines = h.headers.entries.flatMap entryLines from rfl, decodeLines_append _ hdecode]
  have hsame : mh = h := by
    obtain ⟨code, description, headers⟩ := h
    obtain ⟨code', description', headers'⟩ := mh
    have hheaders : headers' = headers := OrderedMap.eq_of_entries hentries
    have hcodes : code' = code := hcode
    have hdescriptions : description' = description := hdescription
    rw [hheaders, hcodes, hdescriptions]
  rw [hsame]
  rfl

/-- **Reading a block gives the headers it was written from**, if their status is read back. -/
theorem decode_encode_of_status (hf : h.Fit) (hne : ¬ (h.size = 0 ∧ h.code = 0))
    (hbreaks : ¬ Breaks h.statusLine) (hstatus : statusOf h.statusLine = (h.code, h.description)) :
    decode h.encode = .ok h := by
  have hlines : h.lines.flatMap splitLines = h.lines := by
    refine (List.flatMap_congr fun l hl => ?_).trans (List.flatMap_singleton' h.lines)
    obtain ⟨e, he, hl⟩ := List.mem_flatMap.1 hl
    obtain ⟨v, hv, rfl⟩ := List.mem_map.1 hl
    obtain ⟨hk, -, hvs⟩ := hf e.1 e.2 (OrderedMap.mem_entries.1 he)
    exact splitLines_of_not_breaks (not_breaks_line hk.1 (hvs v hv).1)
  have hsplit : splitLines h.text.toList = h.statusLine :: (h.lines ++ [[], []]) := by
    rw [toList_text hne, splitLines_block, hlines, splitLines_of_not_breaks hbreaks]
    rfl
  rw [decode_of_splitLines hne hsplit, hstatus]
  exact decodeLines_lines hf

/-- Without a status, too. -/
theorem decode_encode (hw : h.WellFormed) (hsize : h.size ≠ 0) : decode h.encode = .ok h := by
  have hstatus : h.statusLine = header := by
    rw [statusLine, hw.code, if_neg (fun hpos => absurd hpos.1 (Int.lt_irrefl 0))]
  refine decode_encode_of_status hw.entry (fun hempty => hsize hempty.1) ?_ ?_
  · rw [hstatus]
    exact not_breaks_of_not_mem (by decide)
  · rw [hstatus, statusOf, if_pos rfl, hw.code, hw.description]

/-! ## Equal headers -/

/-- An entry has no more values than a call takes. -/
def Listed (e : String × List String) : Prop := e.2.length ≤ Engine.maxArguments

/-- The values of a key that is there, if a call takes them. -/
theorem values_entry {e : String × List String} (he : e ∈ h.headers.entries) :
    h.values e.1 .exact =
      match spread e.2 with
      | some vs => .ok vs
      | none => .error .tooManyArguments := by
  have hget : h.headers.get e.1 = some e.2 := OrderedMap.mem_entries.1 he
  have hfound : h.headers.keys.filter (· = e.1) = [e.1] := by
    have hmem : e.1 ∈ h.headers.keys := OrderedMap.mem_keys.2 ⟨e.2, hget⟩
    have hcount : h.headers.keys.count e.1 = 1 := List.count_eq_one_of_mem h.headers.nodup hmem
    have hfilter := List.filter_beq (l := h.headers.keys) e.1
    rw [hcount, List.replicate_one] at hfilter
    refine Eq.trans (List.filter_congr ?_) hfilter
    intro k _
    exact (Bool.beq_eq_decide_eq k e.1).symm
  simp only [values, findKeys, hfound, pushed, hget, Option.getD_some]
  cases spread e.2 with
  | none => rfl
  | some vs => simp only [List.append_nil]

/-- **Headers equal themselves** exactly if no key has too many values for a call; otherwise the
comparison throws. -/
theorem equals_self_iff (h : MsgHdrs) :
    h.equals h = .ok true ↔ ∀ e ∈ h.headers.entries, Listed e := by
  have hloop : ∀ es : List (String × List String), (∀ e ∈ es, e ∈ h.headers.entries) →
      (h.equalEntries es = .ok true ↔ ∀ e ∈ es, Listed e) := by
    intro es hes
    induction es with
    | nil => simp [equalEntries]
    | cons e es ih =>
        obtain ⟨he, hrest⟩ := List.forall_mem_cons.1 hes
        rw [List.forall_mem_cons, ← ih hrest, Listed, equalEntries, values_entry he]
        cases hspread : spread e.2 with
        | none =>
            have hlong := spread_eq_none_iff.1 hspread
            simp [Nat.not_le.2 hlong]
        | some vs =>
            obtain ⟨hle, rfl⟩ := spread_eq_some_iff.1 hspread
            simp [hle]
  rw [equals, if_pos ⟨rfl, rfl⟩]
  exact hloop _ fun e he => he

end

/-- Headers with one key that has many values. -/
def manyValues (n : Nat) : MsgHdrs :=
  ⟨0, "", OrderedMap.set .empty "k" (List.replicate n "v")⟩

theorem entries_manyValues (n : Nat) :
    (manyValues n).headers.entries = [("k", List.replicate n "v")] := rfl

section

variable [Engine]

/-- They are built by appending. -/
theorem append_manyValues (n : Nat) :
    (manyValues n).append "k" "v" .exact = (manyValues (n + 1), none) := by
  have hkey : FitKey "k" := fitKey_of_short (by decide) (by decide)
  have hvalue : ValidValue "v" := ⟨by decide, by decide, by decide⟩
  rw [append_fit _ hkey hvalue]
  refine congrArg (fun headers => ((⟨0, "", headers⟩ : MsgHdrs), none))
    (OrderedMap.eq_of_entries ?_)
  show OrderedMap.entries (OrderedMap.set _ "k" _) = [("k", List.replicate (n + 1) "v")]
  have hlast : (manyValues n).headers.entries = [] ++ [("k", List.replicate n "v")] :=
    entries_manyValues n
  rw [OrderedMap.entries_set_last hlast, List.replicate_succ']
  rfl

theorem append_new : new.append "k" "v" .exact = (manyValues 1, none) := by
  have hkey : FitKey "k" := fitKey_of_short (by decide) (by decide)
  have hvalue : ValidValue "v" := ⟨by decide, by decide, by decide⟩
  rw [append_fit new hkey hvalue]
  rfl

theorem build_manyValues (n : Nat) :
    build (List.replicate (n + 1) (.append "k" "v" .exact)) = manyValues (n + 1) := by
  have hrest : ∀ m n, (List.replicate n (Call.append "k" "v" .exact)).foldl call (manyValues m) =
      manyValues (m + n) := by
    intro m n
    induction n generalizing m with
    | zero => rfl
    | succ n ih =>
        rw [List.replicate_succ, List.foldl_cons, call, append_manyValues, ih (m + 1),
          Nat.add_right_comm, Nat.add_assoc]
  rw [build, List.replicate_succ, List.foldl_cons, call, append_new, hrest, Nat.add_comm]

/-- One value more than a call takes is too many. -/
theorem not_listed_manyValues {n : Nat} (hn : Engine.maxArguments < n) :
    ¬ ∀ e ∈ (manyValues n).headers.entries, Listed e := by
  intro hall
  have hle := hall ("k", List.replicate n "v") List.mem_cons_self
  rw [Listed, List.length_replicate] at hle
  omega

end

end MsgHdrs

end NatsClient.Wire
