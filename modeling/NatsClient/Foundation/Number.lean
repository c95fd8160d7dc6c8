import Mathlib.Algebra.Order.GroupWithZero.Basic
import Mathlib.Algebra.Order.Ring.Nat
import Mathlib.Algebra.Order.Ring.Unbundled.Rat
import Mathlib.Order.WithBot
import NatsClient.Foundation.Binary64

/-!
# JavaScript numbers

The numbers other than `NaN`: rational numbers and two infinities, in their order. A natural number
or an integer is rounded to the nearest one (`ofNat`, `ofInt`), which is exact up to `2 ^ 53`
(`ofNat_of_le`) and infinite from `overflow` on (`ofNat_of_lt`, `ofNat_of_ge`).
-/

set_option autoImplicit false

namespace NatsClient.Foundation

/-- A JavaScript number that is not `NaN`. -/
inductive Number where
  | negInfinity
  | finite (q : Rat)
  | infinity
deriving DecidableEq

namespace Number

/-- `a < b`. -/
def lt : Number → Number → Bool
  | .negInfinity, .negInfinity => false
  | .negInfinity, _ => true
  | .finite _, .negInfinity => false
  | .finite p, .finite q => decide (p < q)
  | .finite _, .infinity => true
  | .infinity, _ => false

/-- `-a`. -/
def neg : Number → Number
  | .negInfinity => .infinity
  | .finite q => .finite (-q)
  | .infinity => .negInfinity

/-- The number nearest to a natural number. -/
def ofNat (n : Nat) : Number := if f64 n < 2 ^ 1024 then .finite (f64 n : Nat) else .infinity

/-- The number nearest to an integer. -/
def ofInt : Int → Number
  | .ofNat n => ofNat n
  | .negSucc n => (ofNat (n + 1)).neg

/-- The rational numbers, with one number below them and one above. -/
def extended : Number → WithBot (WithTop ℚ)
  | .negInfinity => ⊥
  | .finite q => ((q : WithTop ℚ) : WithBot (WithTop ℚ))
  | .infinity => ((⊤ : WithTop ℚ) : WithBot (WithTop ℚ))

theorem extended_injective : Function.Injective extended := by
  intro a b h
  cases a <;> cases b <;> simp_all [extended]

instance : LinearOrder Number := LinearOrder.lift' extended extended_injective

theorem lt_iff {a b : Number} : a.lt b = true ↔ a < b := by
  show _ ↔ extended a < extended b
  cases a with
  | negInfinity => cases b <;> simp [lt, extended]
  | finite p =>
      cases b with
      | negInfinity => simp [lt, extended]
      | finite q => simp [lt, extended]
      | infinity => exact iff_of_true rfl (WithBot.coe_lt_coe.2 (WithTop.coe_lt_top p))
  | infinity => cases b <;> simp [lt, extended]

/-- Numbers up to `2 ^ 53` are exact. -/
theorem ofNat_of_le {n : Nat} (h : n ≤ 2 ^ 53) : ofNat n = .finite n := by
  rw [ofNat, f64_of_le h, if_pos]
  calc n ≤ 2 ^ 53 := h
    _ < 2 ^ 1024 := pow_lt_pow_right₀ one_lt_two (by decide)

/-- Half a unit below `2 ^ 1024`, where the numbers without a finite one next to them begin. -/
def overflow : Nat := 2 ^ 1024 - 2 ^ 970

theorem f64_lt_iff (n : Nat) : f64 n < 2 ^ 1024 ↔ n < overflow := by
  have hround : f64 n < 2 ^ 1024 ↔ n + 2 ^ 970 < 2 ^ 1024 := roundNat_lt_iff (by decide) rfl
  rw [hround, overflow, Nat.lt_sub_iff_add_lt]

theorem ofNat_of_lt {n : Nat} (h : n < overflow) : ofNat n = .finite (f64 n : Nat) := by
  rw [ofNat, if_pos ((f64_lt_iff n).2 h)]

theorem ofNat_of_ge {n : Nat} (h : overflow ≤ n) : ofNat n = .infinity := by
  rw [ofNat, if_neg]
  rw [f64_lt_iff]
  exact not_lt_of_ge h

/-- Rounding keeps a number on its side of one. -/
theorem one_lt_ofNat_iff (n : Nat) : finite 1 < ofNat n ↔ 1 < n := by
  by_cases hn : n ≤ 2 ^ 53
  · rw [ofNat_of_le hn, ← lt_iff]
    exact decide_eq_true_iff.trans (by exact_mod_cast Iff.rfl)
  · have hlarge : 2 ^ 53 < n := Nat.not_le.1 hn
    have hone : 1 < f64 n := lt_of_lt_of_le (by decide) (le_roundNat (by decide) le_rfl hlarge.le)
    refine iff_of_true ?_ (lt_trans (by decide) hlarge)
    rw [← lt_iff, ofNat]
    split
    · exact decide_eq_true (by exact_mod_cast hone)
    · rfl

end Number

end NatsClient.Foundation
