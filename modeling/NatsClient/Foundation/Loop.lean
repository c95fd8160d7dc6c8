import Mathlib.Tactic.Common

/-!
# Loops with fuel

A loop is given by its turn `σ → σ ⊕ β`, which goes on with a state or ends with a result. `loop`
makes as many turns as it has fuel for, `none` where that does not suffice.

* `loop_mono`: more fuel changes nothing;
* `loop_total`: a loop whose turns lower a measure ends;
* `loop_induction`: what holds in front of every turn, and what follows of the result.
-/

set_option autoImplicit false

namespace NatsClient.Foundation

variable {σ β : Type}

/-- The loop from a state on. -/
def loop (turn : σ → σ ⊕ β) : Nat → σ → Option β
  | 0, _ => none
  | fuel + 1, s =>
      match turn s with
      | .inl s' => loop turn fuel s'
      | .inr b => some b

section

variable {turn : σ → σ ⊕ β} {fuel fuel' : Nat} {s s' : σ} {b : β}

theorem loop_inl (h : turn s = .inl s') : loop turn (fuel + 1) s = loop turn fuel s' := by
  rw [loop, h]

theorem loop_inr (h : turn s = .inr b) : loop turn (fuel + 1) s = some b := by
  rw [loop, h]

/-- **More fuel changes nothing.** -/
theorem loop_mono (h : loop turn fuel s = some b) (hle : fuel ≤ fuel') :
    loop turn fuel' s = some b := by
  induction fuel generalizing fuel' s with
  | zero => cases h
  | succ fuel ih =>
      obtain ⟨n, rfl⟩ := Nat.exists_eq_add_of_le' hle
      show loop turn (n + fuel + 1) s = some b
      cases hturn : turn s with
      | inl s' =>
          rw [loop_inl hturn] at h ⊢
          exact ih h (Nat.le_add_left ..)
      | inr b' =>
          rw [loop_inr hturn] at h ⊢
          exact h

/-- **A loop ends** where every turn that goes on lowers a measure. -/
theorem loop_total {I : σ → Prop} (measure : σ → Nat)
    (hturn : ∀ s s', I s → turn s = .inl s' → I s' ∧ measure s' < measure s) (hs : I s)
    (hfuel : measure s < fuel) : ∃ b, loop turn fuel s = some b := by
  induction fuel generalizing s with
  | zero => exact absurd hfuel (Nat.not_lt_zero _)
  | succ fuel ih =>
      cases h : turn s with
      | inl s' =>
          obtain ⟨hs', hlt⟩ := hturn s s' hs h
          rw [loop_inl h]
          exact ih hs' (Nat.lt_of_lt_of_le hlt (Nat.le_of_lt_succ hfuel))
      | inr b => exact ⟨b, loop_inr h⟩

/-- **Invariants of loops**: what every turn keeps, and what it gives where the loop ends. -/
theorem loop_induction {I : σ → Prop} {P : β → Prop} (hgoes : ∀ s s', I s → turn s = .inl s' → I s')
    (hends : ∀ s b, I s → turn s = .inr b → P b) (hs : I s) (h : loop turn fuel s = some b) :
    P b := by
  induction fuel generalizing s with
  | zero => cases h
  | succ fuel ih =>
      cases hturn : turn s with
      | inl s' =>
          rw [loop_inl hturn] at h
          exact ih (hgoes s s' hs hturn) h
      | inr b' =>
          rw [loop_inr hturn] at h
          cases h
          exact hends s b hs hturn

end

end NatsClient.Foundation
