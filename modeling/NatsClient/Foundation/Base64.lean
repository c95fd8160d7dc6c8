import Mathlib.Data.List.Basic
import Mathlib.Tactic.Common

/-!
# Base 64

The platform's `btoa` and `atob` on bytes: three bytes are four numbers below 64 (`sextets`), each
number is a symbol of the standard alphabet, and the last group is padded with `=`. `atob` is the
forgiving decoder: it ignores white space, takes off the padding of a text whose length is a
multiple of four, and drops the bits that do not fill a byte.

* `join_sextets`: the numbers are joined to the bytes again;
* `atob_symbols`: what `btoa` wrote, `atob` reads, also where the padding was taken off.
-/

set_option autoImplicit false

namespace NatsClient.Foundation.Base64

/-- The numbers below 64 a list of bytes is cut into, six bits each. -/
def sextets : List UInt8 → List Nat
  | [] => []
  | [a] => [a.toNat / 4, a.toNat % 4 * 16]
  | [a, b] => [a.toNat / 4, a.toNat % 4 * 16 + b.toNat / 16, b.toNat % 16 * 4]
  | a :: b :: c :: rest =>
      a.toNat / 4 :: (a.toNat % 4 * 16 + b.toNat / 16) :: (b.toNat % 16 * 4 + c.toNat / 64)
        :: c.toNat % 64 :: sextets rest

/-- The bytes a list of numbers below 64 is joined to: bits that do not fill a byte are dropped. -/
def join : List Nat → List UInt8
  | a :: b :: c :: d :: rest =>
      UInt8.ofNat (a * 4 + b / 16) :: UInt8.ofNat (b % 16 * 16 + c / 4)
        :: UInt8.ofNat (c % 4 * 64 + d) :: join rest
  | [a, b, c] => [UInt8.ofNat (a * 4 + b / 16), UInt8.ofNat (b % 16 * 16 + c / 4)]
  | [a, b] => [UInt8.ofNat (a * 4 + b / 16)]
  | [_] | [] => []

/-- The standard alphabet. -/
def symbol (n : Nat) : Char :=
  if n < 26 then Char.ofNat (65 + n)
  else if n < 52 then Char.ofNat (97 + (n - 26))
  else if n < 62 then Char.ofNat (48 + (n - 52))
  else if n = 62 then '+'
  else '/'

/-- The number of a symbol. -/
def value? (c : Char) : Option Nat :=
  if 'A' ≤ c ∧ c ≤ 'Z' then some (c.toNat - 65)
  else if 'a' ≤ c ∧ c ≤ 'z' then some (c.toNat - 97 + 26)
  else if '0' ≤ c ∧ c ≤ '9' then some (c.toNat - 48 + 52)
  else if c = '+' then some 62
  else if c = '/' then some 63
  else none

/-- The number of `=` behind the symbols of `n` bytes. -/
def padding (n : Nat) : Nat := (3 - n % 3) % 3

/-- `btoa`. -/
def btoa (bs : List UInt8) : List Char :=
  (sextets bs).map symbol ++ List.replicate (padding bs.length) '='

/-- The ASCII white space. -/
def isSpace (c : Char) : Bool :=
  c = ' ' || c = '\t' || c = '\n' || c = '\x0c' || c = '\r'

/-- A text without one `=` at its end. -/
def chop (s : List Char) : List Char :=
  if s.getLast? = some '=' then s.dropLast else s

/-- `atob`: `none` is the `InvalidCharacterError`. -/
def atob (s : List Char) : Option (List UInt8) :=
  let s := s.filter (!isSpace ·)
  let s := if s.length % 4 = 0 then chop (chop s) else s
  if s.length % 4 = 1 then none else (s.mapM value?).map join

/-- The values of the alphabet's symbols. -/
theorem value?_symbol {n : Nat} (hn : n < 64) : value? (symbol n) = some n := by
  revert n
  decide

theorem symbol_spec {n : Nat} (hn : n < 64) :
    isSpace (symbol n) = false ∧ symbol n ≠ '=' := by
  revert n
  decide

theorem sextets_lt {bs : List UInt8} {n : Nat} (hn : n ∈ sextets bs) : n < 64 := by
  induction bs using sextets.induct with
  | case1 => cases hn
  | case2 a =>
      have ha := a.toNat_lt
      simp only [sextets, List.mem_cons, List.not_mem_nil, or_false] at hn
      omega
  | case3 a b =>
      have ha := a.toNat_lt
      have hb := b.toNat_lt
      simp only [sextets, List.mem_cons, List.not_mem_nil, or_false] at hn
      omega
  | case4 a b c rest ih =>
      have ha := a.toNat_lt
      have hb := b.toNat_lt
      have hc := c.toNat_lt
      simp only [sextets, List.mem_cons] at hn
      rcases hn with hn | hn | hn | hn | hn
      · omega
      · omega
      · omega
      · omega
      · exact ih hn

theorem length_sextets (bs : List UInt8) :
    (sextets bs).length + padding bs.length = (bs.length + 2) / 3 * 4 := by
  induction bs using sextets.induct with
  | case1 => rfl
  | case2 a => simp only [sextets, padding, List.length_cons, List.length_nil]
  | case3 a b => simp only [sextets, padding, List.length_cons, List.length_nil]
  | case4 a b c rest ih =>
      simp only [padding] at ih
      simp only [sextets, padding, List.length_cons]
      omega

private theorem ofNat_eq {b : UInt8} {n : Nat} (hn : n = b.toNat) : UInt8.ofNat n = b := by
  rw [hn, UInt8.ofNat_toNat]

/-- **Cut and joined, the bytes are the same.** -/
theorem join_sextets (bs : List UInt8) : join (sextets bs) = bs := by
  induction bs using sextets.induct with
  | case1 => rfl
  | case2 a =>
      have ha := a.toNat_lt
      rw [sextets, join, ofNat_eq (b := a) (by omega)]
  | case3 a b =>
      have ha := a.toNat_lt
      have hb := b.toNat_lt
      rw [sextets, join, ofNat_eq (b := a) (by omega), ofNat_eq (b := b) (by omega)]
  | case4 a b c rest ih =>
      have ha := a.toNat_lt
      have hb := b.toNat_lt
      have hc := c.toNat_lt
      rw [sextets, join, ih, ofNat_eq (b := a) (by omega), ofNat_eq (b := b) (by omega),
        ofNat_eq (b := c) (by omega)]

theorem mapM_value?_symbols {ns : List Nat} (hns : ∀ n ∈ ns, n < 64) :
    (ns.map symbol).mapM value? = some ns := by
  induction ns with
  | nil => rfl
  | cons n ns ih =>
      have hhead := value?_symbol (hns n (List.mem_cons_self ..))
      have htail := ih fun m hm => hns m (List.mem_cons_of_mem n hm)
      simp only [List.map_cons, List.mapM_cons, hhead, htail, Option.bind_eq_bind, Option.bind_some,
        Option.pure_def]

theorem chop_concat (s : List Char) : chop (s ++ ['=']) = s := by
  rw [chop, if_pos List.getLast?_concat, List.dropLast_concat]

/-- Symbols end in no padding. -/
theorem chop_symbols {ns : List Nat} (hns : ∀ n ∈ ns, n < 64) :
    chop (ns.map symbol) = ns.map symbol := by
  rw [chop, if_neg]
  intro hlast
  have hmem : '=' ∈ ns.map symbol := List.mem_of_getLast? hlast
  obtain ⟨n, hn, hsymbol⟩ := List.mem_map.1 hmem
  exact (symbol_spec (hns n hn)).2 hsymbol

/-- Up to two `=` are taken off. -/
theorem chop_chop_padded {ns : List Nat} (hns : ∀ n ∈ ns, n < 64) {p : Nat} (hp : p < 3) :
    chop (chop (ns.map symbol ++ List.replicate p '=')) = ns.map symbol := by
  match p, hp with
  | 0, _ =>
      simp only [List.replicate_zero, List.append_nil]
      rw [chop_symbols hns, chop_symbols hns]
  | 1, _ =>
      have hone : List.replicate 1 '=' = ['='] := rfl
      rw [hone, chop_concat, chop_symbols hns]
  | 2, _ =>
      have htwo : List.replicate 2 '=' = ['='] ++ ['='] := rfl
      rw [htwo, ← List.append_assoc, chop_concat, chop_concat]

/-- **What was encoded is decoded**, with the padding or without. -/
theorem atob_symbols (bs : List UInt8) {p : Nat} (hp : p = 0 ∨ p = padding bs.length) :
    atob ((sextets bs).map symbol ++ List.replicate p '=') = some bs := by
  have hlt : ∀ n ∈ sextets bs, n < 64 := fun n hn => sextets_lt hn
  have hsextets := length_sextets bs
  have hpad : padding bs.length < 3 := Nat.mod_lt _ (by omega)
  have hclean : ((sextets bs).map symbol ++ List.replicate p '=').filter (!isSpace ·) =
      (sextets bs).map symbol ++ List.replicate p '=' := by
    rw [List.filter_eq_self]
    intro c hc
    rcases List.mem_append.1 hc with hc | hc
    · obtain ⟨n, hn, rfl⟩ := List.mem_map.1 hc
      rw [(symbol_spec (hlt n hn)).1]
      rfl
    · rw [List.eq_of_mem_replicate hc]
      rfl
  have hbare : (if ((sextets bs).map symbol ++ List.replicate p '=').length % 4 = 0 then
        chop (chop ((sextets bs).map symbol ++ List.replicate p '='))
      else (sextets bs).map symbol ++ List.replicate p '=') = (sextets bs).map symbol := by
    rcases hp with rfl | rfl
    · simp only [List.replicate_zero, List.append_nil, chop_symbols hlt, ite_self]
    · have hlength : ((sextets bs).map symbol ++ List.replicate (padding bs.length) '=').length %
          4 = 0 := by
        rw [List.length_append, List.length_map, List.length_replicate, hsextets]
        omega
      rw [if_pos hlength]
      exact chop_chop_padded hlt hpad
  -- one symbol alone is never what is left: a byte has two
  have hone : ¬ ((sextets bs).map symbol).length % 4 = 1 := by
    rw [List.length_map]
    omega
  simp only [atob, hclean, hbare, if_neg hone, mapM_value?_symbols hlt, Option.map_some,
    join_sextets]

/-- What `btoa` wrote, `atob` reads. -/
theorem atob_btoa (bs : List UInt8) : atob (btoa bs) = some bs := atob_symbols bs (.inr rfl)

/-- Without padding, symbols are what is left. -/
theorem filter_btoa (bs : List UInt8) : (btoa bs).filter (· ≠ '=') = (sextets bs).map symbol := by
  have hsymbols : ((sextets bs).map symbol).filter (· ≠ '=') = (sextets bs).map symbol := by
    rw [List.filter_eq_self]
    intro c hc
    obtain ⟨n, hn, rfl⟩ := List.mem_map.1 hc
    exact decide_eq_true (symbol_spec (sextets_lt hn)).2
  have hpad : (List.replicate (padding bs.length) '=').filter (· ≠ '=') = [] := by
    rw [List.filter_eq_nil_iff]
    intro c hc
    rw [List.eq_of_mem_replicate hc]
    decide
  rw [btoa, List.filter_append, hsymbols, hpad, List.append_nil]

/-- What is written ends in `=` unless whole groups of three bytes were written. -/
theorem mem_btoa_of_padded {bs : List UInt8} (hbs : bs.length % 3 ≠ 0) : '=' ∈ btoa bs := by
  have hpad : padding bs.length ≠ 0 := by
    simp only [padding]
    omega
  apply List.mem_append_right
  exact List.mem_replicate.2 ⟨hpad, rfl⟩

end NatsClient.Foundation.Base64
