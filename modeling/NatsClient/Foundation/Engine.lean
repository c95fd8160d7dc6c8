import Mathlib.Data.List.Basic

/-!
# What a program takes from its engine

The parts of the language that engines decide or that are too large to write down: how many
arguments a call may have, and the lower case of a text. They are the parameters of what is proved.
-/

set_option autoImplicit false

namespace NatsClient.Foundation

/-- An engine. -/
class Engine where
  /-- A call with more arguments throws a `RangeError`. -/
  maxArguments : Nat
  /-- The smallest of these limits. -/
  enough : 65536 ≤ maxArguments
  /-- `s.toLowerCase()`. -/
  toLowerCase : String → String

/-- The text of the `RangeError`. -/
def Engine.rangeError : String := "Maximum call stack size exceeded"

section

variable [Engine] {α : Type}

/-- `...xs` as the arguments of a call; `none` is the `RangeError`. -/
def spread (xs : List α) : Option (List α) :=
  if xs.length ≤ Engine.maxArguments then some xs else none

@[simp] theorem spread_eq_some_iff {xs ys : List α} :
    spread xs = some ys ↔ xs.length ≤ Engine.maxArguments ∧ xs = ys := by
  rw [spread, Option.ite_none_right_eq_some, Option.some.injEq]

@[simp] theorem spread_eq_none_iff {xs : List α} :
    spread xs = none ↔ Engine.maxArguments < xs.length := by
  rw [spread, ite_eq_right_iff, ← Nat.not_le]
  exact ⟨fun h hle => absurd (h hle) (Option.some_ne_none _), fun h hle => absurd hle h⟩

theorem spread_of_le {xs : List α} (h : xs.length ≤ Engine.maxArguments) : spread xs = some xs :=
  spread_eq_some_iff.2 ⟨h, rfl⟩

theorem length_le_of_enough {xs : List α} (h : xs.length ≤ 65536) :
    xs.length ≤ Engine.maxArguments :=
  Nat.le_trans h Engine.enough

end

/-- An engine with a common limit, as far as the lower case of ASCII goes. -/
@[reducible] def Engine.common : Engine where
  maxArguments := 125000
  enough := by decide
  toLowerCase s := String.ofList (s.toList.map Char.toLower)

end NatsClient.Foundation
