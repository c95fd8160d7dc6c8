import Mathlib.Data.Nat.Count
import Mathlib.Data.List.Range
import Mathlib.Tactic.Common

/-!
# Numbered deliveries of an increasing sequence

A source holds the natural numbers that satisfy `p`. A delivery that started at `s` hands out the
elements from `s` on in order and numbers them `1, 2, 3, …`: `Numbered p s d q` says that element
`q` has number `d`. A receiver that has seen the elements below `b`, and expects number `d + 1`, is
in step with such a delivery when `InStep p s d b` holds.

* `InStep.next`: the element with the expected number is the next one not seen;
* `InStep.restart`: a delivery started behind the last element seen is in step at number `0`;
* `exactlyOnce_matching`: the elements of a range are received exactly once and in order.
-/

set_option autoImplicit false

namespace NatsClient.Foundation

variable {p : Nat → Prop} [DecidablePred p] {s d q a b : Nat}

/-- In a delivery that started at `s`, the element `q` has number `d`. -/
def Numbered (p : Nat → Prop) [DecidablePred p] (s d q : Nat) : Prop :=
  p q ∧ s ≤ q ∧ Nat.count p s + d = Nat.count p (q + 1)

instance : Decidable (Numbered p s d q) := inferInstanceAs (Decidable (_ ∧ _ ∧ _))

/-- Behind number `d` of a delivery that started at `s`, exactly the elements below `b` are seen. -/
def InStep (p : Nat → Prop) [DecidablePred p] (s d b : Nat) : Prop :=
  s ≤ b ∧ Nat.count p s + d = Nat.count p b

/-- The elements from `a` on that are below `b`, in order. -/
def matching (p : Nat → Prop) [DecidablePred p] (a b : Nat) : List Nat :=
  (List.range b).filter fun x => a ≤ x ∧ p x

/-- A list of elements is received exactly once and in order: it increases, and no element between
two received ones is missing. -/
def ExactlyOnce (p : Nat → Prop) (l : List Nat) : Prop :=
  l.Pairwise (· < ·) ∧ ∀ x, p x → ∀ y ∈ l, ∀ z ∈ l, y < x → x < z → x ∈ l

/-- A delivery started at `b` is in step before its first number. -/
theorem InStep.restart (p : Nat → Prop) [DecidablePred p] (b : Nat) : InStep p b 0 b :=
  ⟨Nat.le_refl b, Nat.add_zero _⟩

/-- **The element with the expected number is the next one**: it was not seen, nothing between is an
element, and behind it the receiver is in step again. -/
theorem InStep.next (hstep : InStep p s d b) (hnext : Numbered p s (d + 1) q) :
    b ≤ q ∧ Nat.count p b = Nat.count p q ∧ InStep p s (d + 1) (q + 1) := by
  obtain ⟨hsb, hcount⟩ := hstep
  obtain ⟨hq, hsq, hnumber⟩ := hnext
  have hsucc : Nat.count p (q + 1) = Nat.count p q + 1 := Nat.count_succ_eq_succ_count_iff.2 hq
  have heq : Nat.count p b = Nat.count p q := by omega
  refine ⟨?_, heq, by omega, hnumber⟩
  by_contra hlt
  have hmono : Nat.count p (q + 1) ≤ Nat.count p b := Nat.count_monotone p (by omega)
  omega

/-- The elements up to the next one. -/
theorem matching_eq_of_count_eq (a : Nat) (hbq : b ≤ q) (h : Nat.count p b = Nat.count p q) :
    matching p a b = matching p a q := by
  induction q, hbq using Nat.le_induction with
  | base => rfl
  | succ q hbq ih =>
      have hle : Nat.count p b ≤ Nat.count p q := Nat.count_monotone p hbq
      have hstep : Nat.count p q ≤ Nat.count p (q + 1) := Nat.count_monotone p (Nat.le_succ q)
      have hq : ¬ p q := Nat.count_succ_eq_count_iff.1 (by omega)
      rw [ih (by omega), matching, matching, List.range_succ, List.filter_append,
        List.filter_cons_of_neg (by simp [hq]), List.filter_nil, List.append_nil]

/-- **Receiving the next element** extends what was received by it. -/
theorem matching_append (hab : a ≤ b) (hbq : b ≤ q) (hq : p q)
    (h : Nat.count p b = Nat.count p q) : matching p a b ++ [q] = matching p a (q + 1) := by
  have haq : a ≤ q ∧ p q := ⟨by omega, hq⟩
  rw [matching_eq_of_count_eq a hbq h, matching, matching, List.range_succ, List.filter_append,
    List.filter_cons_of_pos (by simpa using haq), List.filter_nil]

theorem matching_self (p : Nat → Prop) [DecidablePred p] (a : Nat) : matching p a a = [] := by
  rw [matching, List.filter_eq_nil_iff]
  intro x hx hax
  rw [List.mem_range] at hx
  simp only [decide_eq_true_eq] at hax
  omega

/-- **The elements of a range are received exactly once and in order.** -/
theorem exactlyOnce_matching (p : Nat → Prop) [DecidablePred p] (a b : Nat) :
    ExactlyOnce p (matching p a b) := by
  refine ⟨List.Pairwise.filter _ List.pairwise_lt_range, ?_⟩
  intro x hx y hy z hz hyx hxz
  simp only [matching, List.mem_filter, List.mem_range, decide_eq_true_eq] at hy hz ⊢
  exact ⟨by omega, by omega, hx⟩

end NatsClient.Foundation
