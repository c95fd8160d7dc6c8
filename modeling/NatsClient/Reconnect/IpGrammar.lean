import Mathlib.Data.List.Basic

/-!
# Texts of internet addresses

A text is a list of UTF-16 code units. `Address` relates the texts of addresses to the 16 bytes they
denote: a dotted quad, eight groups in hexadecimal with colons between them, two colons for one or
more groups of zeros, and a dotted quad in the place of the last two groups.

An octet and a group may have any number of leading zeros. `Short` says that no group has more than
four digits.
-/

set_option autoImplicit false

namespace NatsClient.Reconnect

/-- A string, by its code units. -/
abbrev Units := List UInt16

/-- The code units of a string. -/
def codeUnits (s : String) : Units :=
  s.toList.flatMap fun c =>
    if c.toNat < 0x10000 then [.ofNat c.toNat]
    else [.ofNat (0xD800 + (c.toNat - 0x10000) / 0x400),
      .ofNat (0xDC00 + (c.toNat - 0x10000) % 0x400)]

def dot : UInt16 := 46

def colon : UInt16 := 58

/-! ## Numbers -/

/-- `ASCII0 <= c && c <= ASCII9`, with the value of the digit. -/
def decimalDigit (c : UInt16) : Option Nat :=
  if 48 ≤ c.toNat ∧ c.toNat ≤ 57 then some (c.toNat - 48) else none

/-- The digits of both cases. -/
def hexDigit (c : UInt16) : Option Nat :=
  if 48 ≤ c.toNat ∧ c.toNat ≤ 57 then some (c.toNat - 48)
  else if 97 ≤ c.toNat ∧ c.toNat ≤ 102 then some (c.toNat - 97 + 10)
  else if 65 ≤ c.toNat ∧ c.toNat ≤ 70 then some (c.toNat - 65 + 10)
  else none

section

variable (digit : UInt16 → Option Nat) (base : Nat)

/-- The value of digits behind a number. -/
def value (n : Nat) (t : Units) : Nat := t.foldl (fun n c => n * base + (digit c).getD 0) n

/-- A text of one digit or more, with its value. -/
structure Numeral (t : Units) (n : Nat) : Prop where
  ne : t ≠ []
  digits : ∀ c ∈ t, digit c ≠ none
  value : value digit base 0 t = n

/-- No digit is in front of a text. -/
def Stops (r : Units) : Prop := ∀ c ∈ r.head?, digit c = none

end

/-! ## Addresses -/

/-- A decimal number below 256. -/
structure Octet (o : Units) (n : Nat) : Prop extends Numeral decimalDigit 10 o n where
  le : n ≤ 0xFF

/-- A hexadecimal number below 65536. -/
structure Group (g : Units) (n : Nat) : Prop extends Numeral hexDigit 16 g n where
  le : n ≤ 0xFFFF

/-- Four octets with dots between them. -/
inductive DottedQuad : Units → List UInt8 → Prop
  | mk {o₁ o₂ o₃ o₄ : Units} {n₁ n₂ n₃ n₄ : Nat} (h₁ : Octet o₁ n₁) (h₂ : Octet o₂ n₂)
      (h₃ : Octet o₃ n₃) (h₄ : Octet o₄ n₄) :
      DottedQuad (o₁ ++ dot :: (o₂ ++ dot :: (o₃ ++ dot :: o₄)))
        [.ofNat n₁, .ofNat n₂, .ofNat n₃, .ofNat n₄]

/-- The two bytes of a group. -/
def pair (n : Nat) : List UInt8 := [.ofNat (n / 256), .ofNat (n % 256)]

/-- Groups with colons between them. -/
inductive Groups : Units → List UInt8 → Prop
  | one {g : Units} {n : Nat} (hg : Group g n) : Groups g (pair n)
  | cons {g s : Units} {n : Nat} {bs : List UInt8} (hg : Group g n) (hs : Groups s bs) :
      Groups (g ++ colon :: s) (pair n ++ bs)

/-- Groups with colons between them, and maybe a dotted quad at the end. -/
inductive Pieces : Units → List UInt8 → Prop
  | group {g : Units} {n : Nat} (hg : Group g n) : Pieces g (pair n)
  | quad {q : Units} {bs : List UInt8} (hq : DottedQuad q bs) : Pieces q bs
  | cons {g s : Units} {n : Nat} {bs : List UInt8} (hg : Group g n) (hs : Pieces s bs) :
      Pieces (g ++ colon :: s) (pair n ++ bs)

/-- The text of an address of 16 bytes. On either side of the two colons there may be nothing. -/
inductive Long : Units → List UInt8 → Prop
  | full {s : Units} {bs : List UInt8} (hs : Pieces s bs) (hlength : bs.length = 16) : Long s bs
  | elided {l r : Units} {bs bs' : List UInt8} (hl : l = [] ∧ bs = [] ∨ Groups l bs)
      (hr : r = [] ∧ bs' = [] ∨ Pieces r bs') (hlength : bs.length + bs'.length < 16) :
      Long (l ++ colon :: colon :: r)
        (bs ++ List.replicate (16 - (bs.length + bs'.length)) 0 ++ bs')

/-- The bytes of an address of four bytes: `::ffff:a.b.c.d`. -/
def mapped (bs : List UInt8) : List UInt8 := List.replicate 10 0 ++ [0xff, 0xff] ++ bs

/-- **The text of an address**, and what it denotes. -/
inductive Address : Units → List UInt8 → Prop
  | short {s : Units} {bs : List UInt8} (hs : DottedQuad s bs) : Address s (mapped bs)
  | long {s : Units} {bs : List UInt8} (hs : Long s bs) : Address s bs

/-- No group has more than four digits. -/
def Short (s : Units) : Prop := ∀ g ∈ s.splitOn colon, dot ∉ g → g.length ≤ 4

instance (s : Units) : Decidable (Short s) := List.decidableBAll _ _

/-! ## What the texts are made of -/

section

variable {digit : UInt16 → Option Nat} {base n : Nat} {t r s q g o : Units} {bs : List UInt8}

theorem le_value (hbase : 1 ≤ base) (n : Nat) (t : Units) : n ≤ value digit base n t := by
  induction t generalizing n with
  | nil => exact Nat.le_refl n
  | cons c t ih =>
      have hstep := ih (n * base + (digit c).getD 0)
      have hmul : n ≤ n * base := Nat.le_mul_of_pos_right n hbase
      exact Nat.le_trans (Nat.le_trans hmul (Nat.le_add_right _ _)) hstep

/-- The first character of a numeral is a digit. -/
theorem Numeral.cons (h : Numeral digit base t n) : ∃ c t', t = c :: t' ∧ digit c ≠ none := by
  obtain ⟨c, t', rfl⟩ := List.exists_cons_of_ne_nil h.ne
  exact ⟨c, t', rfl, h.digits c List.mem_cons_self⟩

theorem hexDigit_of_decimalDigit {c : UInt16} {d : Nat} (h : decimalDigit c = some d) :
    hexDigit c = some d ∧ d ≤ 9 := by
  rw [decimalDigit] at h
  split at h
  · next hc =>
      rw [hexDigit, if_pos hc]
      obtain rfl := Option.some.inj h
      exact ⟨rfl, by omega⟩
  · cases h

/-- **An octet is a group, too**: in hexadecimal its digits have a value of at most `0x255`. -/
theorem Octet.hex (h : Octet o n) : ∃ m, Group o m := by
  have hvalue : ∀ (t : Units) (d : Nat), (∀ c ∈ t, decimalDigit c ≠ none) →
      value decimalDigit 10 d t ≤ 0xFF →
      (∀ c ∈ t, hexDigit c ≠ none) ∧
        value hexDigit 16 (d + 6 * (d / 10) + 96 * (d / 100)) t ≤ 0xFFFF := by
    intro t
    induction t with
    | nil =>
        intro d _ hle
        have hd : d ≤ 0xFF := hle
        refine ⟨fun c hc => absurd hc List.not_mem_nil, ?_⟩
        show d + 6 * (d / 10) + 96 * (d / 100) ≤ 0xFFFF
        omega
    | cons c t ih =>
        intro d hdigits hle
        obtain ⟨hc, ht⟩ := List.forall_mem_cons.1 hdigits
        obtain ⟨x, hx⟩ := Option.ne_none_iff_exists'.1 hc
        obtain ⟨hhex, hnine⟩ := hexDigit_of_decimalDigit hx
        have hrest : value decimalDigit 10 (d * 10 + x) t ≤ 0xFF := by
          simpa [value, hx] using hle
        have hbound : d * 10 + x ≤ 0xFF := Nat.le_trans (le_value (by decide) _ t) hrest
        obtain ⟨hdigits', hvalue⟩ := ih (d * 10 + x) ht hrest
        refine ⟨List.forall_mem_cons.2 ⟨by rw [hhex]; exact Option.some_ne_none x, hdigits'⟩, ?_⟩
        -- the digits so far are read in the other base as the same digits
        have hsame : (d + 6 * (d / 10) + 96 * (d / 100)) * 16 + x =
            (d * 10 + x) + 6 * ((d * 10 + x) / 10) + 96 * ((d * 10 + x) / 100) := by
          omega
        rw [← hsame] at hvalue
        simpa [value, hhex] using hvalue
  obtain ⟨hdigits, hle⟩ := hvalue o 0 h.digits (h.value.symm ▸ h.le)
  exact ⟨_, ⟨h.ne, hdigits, rfl⟩, hle⟩

end

end NatsClient.Reconnect
