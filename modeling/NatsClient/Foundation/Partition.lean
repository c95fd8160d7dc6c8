import Mathlib.Data.List.Basic
import Mathlib.Tactic.Common

/-!
# Partitions into pieces of one length

`IsPartition n l parts`: the parts are consecutive pieces of `l` with `n` elements each, only the
last one may have fewer, and none is empty.

* `IsPartition.concat`: full pieces with a shorter one behind them;
* `IsPartition.length_pos`: no piece is empty.
-/

set_option autoImplicit false

namespace NatsClient.Foundation

variable {α : Type} {n : Nat} {l rest : List α} {parts : List (List α)}

/-- Consecutive pieces of `n` elements, the last one of at least one. -/
structure IsPartition (n : Nat) (l : List α) (parts : List (List α)) : Prop where
  flatten_eq : parts.flatten = l
  full : ∀ p ∈ parts.dropLast, p.length = n
  last : ∀ p ∈ parts.getLast?, 0 < p.length ∧ p.length ≤ n

namespace IsPartition

theorem nil : IsPartition n ([] : List α) [] where
  flatten_eq := rfl
  full := by
    intro p hp
    cases hp
  last := by
    intro p hp
    cases hp

/-- **Full pieces, and a rest of at least one element.** -/
theorem concat (hfull : ∀ p ∈ parts, p.length = n) (hpos : 0 < rest.length)
    (hle : rest.length ≤ n) : IsPartition n (parts.flatten ++ rest) (parts ++ [rest]) where
  flatten_eq := by rw [List.flatten_append, List.flatten_singleton]
  full := by
    intro p hp
    rw [List.dropLast_concat] at hp
    exact hfull p hp
  last := by
    intro p hp
    rw [List.getLast?_concat, Option.mem_def, Option.some.injEq] at hp
    rw [← hp]
    exact ⟨hpos, hle⟩

/-- The first part, and a partition of what is behind it. -/
theorem cons_inv {p : List α} (h : IsPartition n l (p :: parts)) :
    p = l.take n ∧ 0 < p.length ∧ IsPartition n (l.drop n) parts := by
  obtain ⟨hflatten, hfull, hlast⟩ := h
  rw [List.flatten_cons] at hflatten
  cases parts with
  | nil =>
      obtain ⟨hpos, hle⟩ := hlast p rfl
      rw [List.flatten_nil, List.append_nil] at hflatten
      rw [← hflatten, List.take_of_length_le hle, List.drop_eq_nil_of_le hle]
      exact ⟨rfl, hpos, nil⟩
  | cons q parts =>
      have hp : p.length = n :=
        hfull p (by rw [List.dropLast_cons_cons]; exact List.mem_cons_self ..)
      have hlater : IsPartition n (q :: parts).flatten (q :: parts) := by
        refine ⟨rfl, ?_, ?_⟩
        · intro r hr
          apply hfull r
          rw [List.dropLast_cons_cons]
          exact List.mem_cons_of_mem p hr
        · intro r hr
          apply hlast r
          rw [List.getLast?_cons_cons]
          exact hr
      -- some part has at least one and at most `n` elements
      have hn : 0 < n := by
        have hbounds := hlater.last _ (List.getLast?_eq_some_getLast (List.cons_ne_nil q parts))
        omega
      rw [← hflatten, ← hp, List.take_left, List.drop_left, hp]
      exact ⟨rfl, by omega, hlater⟩

/-- No part is empty. -/
theorem length_pos (h : IsPartition n l parts) {p : List α} (hp : p ∈ parts) : 0 < p.length := by
  induction parts generalizing l with
  | nil => cases hp
  | cons q parts ih =>
      obtain ⟨_, hpos, hrest⟩ := h.cons_inv
      rcases List.mem_cons.1 hp with rfl | hp
      · exact hpos
      · exact ih hrest hp

end IsPartition

end NatsClient.Foundation
