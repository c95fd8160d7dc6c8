import Mathlib.Algebra.GroupWithZero.Nat
import Mathlib.Data.Nat.Log
import Mathlib.Tactic.Common

/-!
# Natural numbers in a binary floating-point format

A natural number in a format with `p` significant bits: `roundNat p n` is the nearest number with at
most `p` significant bits, ties going to the even significand. Numbers up to `2 ^ p` are exact
(`roundNat_of_le`), the others are off by less than their `2 ^ p`-th part (`roundNat_error`). The
exponent is not bounded here; `roundNat_lt_iff` says what stays below a bound. `f64Text` prints a
number, the numbers below `2 ^ 53` in decimal (`f64Text_of_lt`).
-/

set_option autoImplicit false

namespace NatsClient.Foundation

/-- The natural number nearest to `n` that has at most `p` significant bits, ties to even. -/
def roundNat (p n : Nat) : Nat :=
  if n < 2 ^ p then n
  else
    let ulp := 2 ^ (Nat.log2 n + 1 - p)
    let q := n / ulp
    let r := n % ulp
    if 2 * r < ulp ∨ (2 * r = ulp ∧ q % 2 = 0) then q * ulp else (q + 1) * ulp

/-- Numbers up to `2 ^ p` are represented exactly. -/
theorem roundNat_of_le {p n : Nat} (hp : 0 < p) (h : n ≤ 2 ^ p) : roundNat p n = n := by
  unfold roundNat
  by_cases hlt : n < 2 ^ p
  · rw [if_pos hlt]
  · have hn : n = 2 ^ p := by omega
    subst hn
    have hlog : Nat.log2 (2 ^ p) = p := Nat.log2_two_pow
    have hulp : 2 ^ (p + 1 - p) = 2 := by simp
    rw [if_neg hlt]
    simp only [hlog, hulp]
    have heven : 2 ^ p % 2 = 0 := by
      obtain ⟨k, rfl⟩ : ∃ k, p = k + 1 := ⟨p - 1, by omega⟩
      omega
    rw [heven, if_pos (Or.inl (by omega))]
    omega

/-- **The rounding error** is at most `n / 2 ^ p`. -/
theorem roundNat_error (p n : Nat) :
    roundNat p n ≤ n + n / 2 ^ p ∧ n ≤ roundNat p n + n / 2 ^ p := by
  rw [roundNat]
  by_cases hlt : n < 2 ^ p
  · rw [if_pos hlt]
    exact ⟨Nat.le_add_right _ _, Nat.le_add_right _ _⟩
  · rw [if_neg hlt]
    have hpos : 0 < 2 ^ p := Nat.two_pow_pos p
    have hlog : 2 ^ Nat.log2 n ≤ n := Nat.log2_self_le (by omega)
    have hle : p ≤ Nat.log2 n := (Nat.le_log2 (by omega)).2 (Nat.not_lt.1 hlt)
    -- half a unit is at most the `2 ^ p`-th part of the number
    have hhalf : 2 ^ (Nat.log2 n - p) ≤ n / 2 ^ p := by
      rw [Nat.le_div_iff_mul_le hpos, ← Nat.pow_add, Nat.sub_add_cancel hle]
      exact hlog
    have hulp : 2 ^ (Nat.log2 n + 1 - p) = 2 * 2 ^ (Nat.log2 n - p) := by
      rw [← Nat.pow_succ', Nat.succ_sub hle]
    have hparts := Nat.div_add_mod n (2 ^ (Nat.log2 n + 1 - p))
    rw [Nat.mul_comm] at hparts
    have hrest : n % 2 ^ (Nat.log2 n + 1 - p) < 2 ^ (Nat.log2 n + 1 - p) :=
      Nat.mod_lt _ (Nat.two_pow_pos _)
    dsimp only
    split
    case isTrue h => omega
    case isFalse h =>
      rw [Nat.succ_mul]
      omega

/-- The format of JavaScript numbers has 53 significant bits. -/
def f64 (n : Nat) : Nat := roundNat 53 n

theorem f64_of_le {n : Nat} (h : n ≤ 2 ^ 53) : f64 n = n :=
  roundNat_of_le (by omega) h

/-- A number from `2 ^ e` on is represented by one from there on. -/
theorem le_roundNat {p e n : Nat} (hp : 0 < p) (he : p ≤ e) (h : 2 ^ e ≤ n) :
    2 ^ e ≤ roundNat p n := by
  have hpos : 0 < 2 ^ e := Nat.two_pow_pos e
  have hlog : 2 ^ Nat.log2 n ≤ n := Nat.log2_self_le (by omega)
  have hle : e ≤ Nat.log2 n := (Nat.le_log2 (by omega)).2 h
  -- the unit divides the power of two in front of `n`
  have hunit : 2 ^ Nat.log2 n = 2 ^ (p - 1) * 2 ^ (Nat.log2 n + 1 - p) := by
    rw [← Nat.pow_add]
    congr 1
    omega
  have hquotient : 2 ^ Nat.log2 n ≤ n / 2 ^ (Nat.log2 n + 1 - p) * 2 ^ (Nat.log2 n + 1 - p) := by
    rw [hunit]
    apply Nat.mul_le_mul_right
    rw [Nat.le_div_iff_mul_le (Nat.two_pow_pos _), ← hunit]
    exact hlog
  have hbound : 2 ^ e ≤ n / 2 ^ (Nat.log2 n + 1 - p) * 2 ^ (Nat.log2 n + 1 - p) :=
    (Nat.pow_le_pow_right Nat.two_pos hle).trans hquotient
  have hexact : ¬ n < 2 ^ p := Nat.not_lt.2 ((Nat.pow_le_pow_right Nat.two_pos he).trans h)
  unfold roundNat
  rw [if_neg hexact]
  dsimp only
  split
  · exact hbound
  · exact hbound.trans (Nat.mul_le_mul_right _ (Nat.le_succ _))

/-- A number below a power of two is not rounded past it. -/
theorem roundNat_le {p e n : Nat} (hp : 0 < p) (h : n < 2 ^ e) : roundNat p n ≤ 2 ^ e := by
  unfold roundNat
  split
  case isTrue hlt => exact h.le
  case isFalse hge =>
    have hlog : Nat.log2 n < e := (Nat.log2_lt (by have := Nat.two_pow_pos p; omega)).2 h
    have hlow : p ≤ Nat.log2 n :=
      (Nat.le_log2 (by have := Nat.two_pow_pos p; omega)).2 (Nat.not_lt.1 hge)
    -- the unit divides the power of two behind `n`
    have hunit : 2 ^ e = 2 ^ (e - (Nat.log2 n + 1 - p)) * 2 ^ (Nat.log2 n + 1 - p) := by
      rw [← Nat.pow_add]
      congr 1
      omega
    have hnext : (n / 2 ^ (Nat.log2 n + 1 - p) + 1) * 2 ^ (Nat.log2 n + 1 - p) ≤ 2 ^ e := by
      rw [hunit]
      apply Nat.mul_le_mul_right
      rw [Nat.succ_le_iff, Nat.div_lt_iff_lt_mul (Nat.two_pow_pos _), ← hunit]
      exact h
    dsimp only
    split
    · exact (Nat.mul_le_mul_right _ (Nat.le_succ _)).trans hnext
    · exact hnext

/-- A number in the upper half of a power of two has the unit `2 ^ (e - p)`. -/
theorem roundNat_lt_iff_of_le {p k e n : Nat} (hp : 0 < p) (he : e = p + k + 1)
    (hhigh : 2 ^ (e - 1) ≤ n) (hlt : n < 2 ^ e) : roundNat p n < 2 ^ e ↔ n + 2 ^ k < 2 ^ e := by
  have hhalf : 2 ^ (e - p) = 2 * 2 ^ k := by
    rw [← Nat.pow_succ']
    congr 1
    omega
  have hlog : Nat.log2 n = e - 1 := by
    have hne : n ≠ 0 := by have := Nat.two_pow_pos (e - 1); omega
    exact (Nat.log2_eq_iff hne).2 ⟨hhigh, by rwa [Nat.sub_add_cancel (by omega)]⟩
  have hexact : ¬ n < 2 ^ p :=
    Nat.not_lt.2 ((Nat.pow_le_pow_right Nat.two_pos (by omega)).trans hhigh)
  have hulp : Nat.log2 n + 1 - p = e - p := by omega
  have hpow : 2 ^ e = 2 ^ p * 2 ^ (e - p) := by
    rw [← Nat.pow_add]
    congr 1
    omega
  have hparts := Nat.div_add_mod n (2 ^ (e - p))
  rw [Nat.mul_comm] at hparts
  have hrest : n % 2 ^ (e - p) < 2 ^ (e - p) := Nat.mod_lt _ (Nat.two_pow_pos _)
  have hquotient : n / 2 ^ (e - p) < 2 ^ p := by
    rw [Nat.div_lt_iff_lt_mul (Nat.two_pow_pos _), ← hpow]
    exact hlt
  rw [roundNat, if_neg hexact, hulp]
  dsimp only
  rcases Nat.lt_or_ge (n / 2 ^ (e - p) + 1) (2 ^ p) with hinner | hlast
  · have hnext : (n / 2 ^ (e - p) + 1 + 1) * 2 ^ (e - p) ≤ 2 ^ e := by
      rw [hpow]
      exact Nat.mul_le_mul_right _ hinner
    simp only [Nat.add_mul, Nat.one_mul] at hnext
    split
    · omega
    · rw [Nat.add_mul]
      omega
  · -- the last multiple of the unit is odd, so half a unit behind it goes up
    have hodd : n / 2 ^ (e - p) % 2 = 1 := by
      obtain ⟨k, rfl⟩ : ∃ k, p = k + 1 := ⟨p - 1, by omega⟩
      rw [Nat.pow_succ] at hquotient hlast
      omega
    have hnext : (n / 2 ^ (e - p) + 1) * 2 ^ (e - p) = 2 ^ e := by
      rw [hpow]
      congr 1
      omega
    rw [Nat.add_mul, Nat.one_mul] at hnext
    rw [hodd]
    split
    · omega
    · rw [Nat.add_mul]
      omega

/-- **What is represented below a power of two**: what is below it by more than half a unit. -/
theorem roundNat_lt_iff {p k e n : Nat} (hp : 0 < p) (he : e = p + k + 1) :
    roundNat p n < 2 ^ e ↔ n + 2 ^ k < 2 ^ e := by
  have hup : 2 ^ e = 2 * 2 ^ (e - 1) := by
    rw [← Nat.pow_succ']
    congr 1
    omega
  have hpos : 0 < 2 ^ k := Nat.two_pow_pos k
  have hsmall : 2 ^ k < 2 ^ (e - 1) := Nat.pow_lt_pow_right Nat.one_lt_two (by omega)
  rcases Nat.lt_or_ge n (2 ^ e) with hlt | hge
  · rcases Nat.lt_or_ge n (2 ^ (e - 1)) with hlow | hhigh
    · have hle : roundNat p n ≤ 2 ^ (e - 1) := roundNat_le hp hlow
      omega
    · exact roundNat_lt_iff_of_le hp he hhigh hlt
  · have hle : 2 ^ e ≤ roundNat p n := le_roundNat hp (by omega) hge
    omega

/-- The multiple of `10 ^ e` nearest to `n`. -/
def nearestMultiple (n e : Nat) : Nat := (n + 10 ^ e / 2) / 10 ^ e * 10 ^ e

/-- The number of trailing decimal digits of `n`, at most `k`, that its format does not need. -/
def spareDigits (n : Nat) : Nat → Nat
  | 0 => 0
  | k + 1 => if f64 (nearestMultiple n (k + 1)) = n then k + 1 else spareDigits n k

/-- A number of the format in decimal, with no more significant digits than it needs; from `10 ^ 21`
on with an exponent. -/
def f64Text (n : Nat) : List Char :=
  let spare := spareDigits n (Nat.log 10 n)
  let digits := Nat.toDigits 10 (nearestMultiple n spare)
  if n < 10 ^ 21 then digits
  else
    let significant := digits.take (digits.length - spare)
    let fraction := significant.drop 1
    significant.take 1 ++ (if fraction = [] then [] else '.' :: fraction) ++ 'e' :: '+' ::
      Nat.toDigits 10 (digits.length - 1)

/-- A number below `2 ^ 53` needs all its digits that are not zero. -/
theorem nearestMultiple_spareDigits {n : Nat} (h : n < 2 ^ 53) (k : Nat) :
    nearestMultiple n (spareDigits n k) = n := by
  induction k with
  | zero => simp [spareDigits, nearestMultiple]
  | succ k ih =>
      rw [spareDigits]
      split
      · next heq =>
          rcases Nat.lt_or_ge (nearestMultiple n (k + 1)) (2 ^ 53) with hlt | hge
          · rwa [f64_of_le hlt.le] at heq
          · -- what is not below `2 ^ 53` does not represent `n`
            have hle : 2 ^ 53 ≤ f64 (nearestMultiple n (k + 1)) := le_roundNat (by omega) le_rfl hge
            rw [heq] at hle
            exact absurd h (Nat.not_lt.2 hle)
      · exact ih

/-- **Numbers below `2 ^ 53` are printed in decimal.** -/
theorem f64Text_of_lt {n : Nat} (h : n < 2 ^ 53) : f64Text n = Nat.toDigits 10 n := by
  have hbound : n < 10 ^ 21 := h.trans (by decide)
  simp only [f64Text, if_pos hbound, nearestMultiple_spareDigits h]

end NatsClient.Foundation
