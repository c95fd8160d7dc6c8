import Mathlib.Algebra.GroupWithZero.Nat
import Mathlib.Data.List.Basic
import Mathlib.Tactic.Common

/-!
# Numerals of a fixed width

`fixedDigits digit base width n` writes `n` with `width` digits, the last one first, and drops what
does not fit. Numbers are written alike exactly when they differ by a multiple of `base ^ width`
(`fixedDigits_eq_iff`), so numbers below that are told apart.
-/

set_option autoImplicit false

namespace NatsClient.Foundation

variable {α : Type} (digit : Nat → α) (base : Nat)

/-- The last `width` digits of `n`. -/
def fixedDigits : Nat → Nat → List α
  | 0, _ => []
  | width + 1, n => fixedDigits width (n / base) ++ [digit (n % base)]

theorem length_fixedDigits (width n : Nat) : (fixedDigits digit base width n).length = width := by
  induction width generalizing n with
  | zero => rfl
  | succ width ih => rw [fixedDigits, List.length_append, ih, List.length_singleton]

variable {digit base}

theorem mem_fixedDigits (hbase : 0 < base) {width n : Nat} {a : α}
    (ha : a ∈ fixedDigits digit base width n) : ∃ i, i < base ∧ a = digit i := by
  induction width generalizing n with
  | zero => cases ha
  | succ width ih =>
      rw [fixedDigits, List.mem_append, List.mem_singleton] at ha
      rcases ha with ha | rfl
      · exact ih ha
      · exact ⟨n % base, Nat.mod_lt n hbase, rfl⟩

/-- **Numbers written alike**, where the digits are different. -/
theorem fixedDigits_eq_iff (hbase : 0 < base)
    (hdigit : ∀ i j, i < base → j < base → digit i = digit j → i = j) {width n m : Nat} :
    fixedDigits digit base width n = fixedDigits digit base width m ↔
      n % base ^ width = m % base ^ width := by
  induction width generalizing n m with
  | zero => simp only [fixedDigits, Nat.pow_zero, Nat.mod_one]
  | succ width ih =>
      have hn := Nat.mod_lt n hbase
      have hm := Nat.mod_lt m hbase
      -- the last digit, and the number in front of it
      have hsplit : ∀ k, k % base ^ (width + 1) = k % base + base * (k / base % base ^ width) := by
        intro k
        rw [Nat.pow_succ, Nat.mul_comm, Nat.mod_mul]
      rw [fixedDigits, fixedDigits, List.append_singleton_inj, ih, hsplit, hsplit]
      constructor
      · rintro ⟨hfront, hlast⟩
        rw [hfront, hdigit _ _ hn hm hlast]
      · intro heq
        have hlast : n % base = m % base := by
          have hmod := congrArg (· % base) heq
          simpa only [Nat.add_mul_mod_self_left, Nat.mod_mod] using hmod
        rw [hlast] at heq
        exact ⟨Nat.eq_of_mul_eq_mul_left hbase (Nat.add_left_cancel heq), by rw [hlast]⟩

end NatsClient.Foundation
