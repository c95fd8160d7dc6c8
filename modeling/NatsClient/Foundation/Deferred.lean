import Mathlib.Tactic.Common

/-!
# Deferreds

A store of promises that are numbered in the order in which they are created. Settling a deferred
has an effect the first time only, and only on one that was created, which the store carries as a
field (`Deferreds.fresh`).

* `outcome_settle`, `outcome_settleAll`: what settling does to each deferred;
* `settle_of_settled`, `settleAll_of_settled`: a settled deferred stays as it is.
-/

set_option autoImplicit false

namespace NatsClient.Foundation

/-- How a deferred was settled. -/
inductive Outcome where
  | resolved
  | rejected
deriving DecidableEq, Repr

/-- The deferreds below `created` exist; `outcome` says how they were settled. -/
structure Deferreds where
  created : Nat
  outcome : Nat → Option Outcome
  fresh : ∀ d, created ≤ d → outcome d = none

namespace Deferreds

/-- No deferred yet. -/
def empty : Deferreds := ⟨0, fun _ => none, fun _ _ => rfl⟩

/-- `deferred()`; the new one has the number `created`. -/
def create (ds : Deferreds) : Deferreds where
  created := ds.created + 1
  outcome := ds.outcome
  fresh d hd := ds.fresh d (Nat.le_of_succ_le hd)

/-- `d.resolve()` or `d.reject(err)`. -/
def settle (ds : Deferreds) (d : Nat) (o : Outcome) : Deferreds where
  created := ds.created
  outcome i := if i = d ∧ d < ds.created ∧ ds.outcome d = none then some o else ds.outcome i
  fresh i hi := by
    have hne : ¬ (i = d ∧ d < ds.created ∧ ds.outcome d = none) := by
      rintro ⟨rfl, hlt, -⟩
      omega
    rw [if_neg hne]
    exact ds.fresh i hi

/-- Each of a list of deferreds is settled. -/
def settleAll (ds : Deferreds) (l : List Nat) (o : Outcome) : Deferreds :=
  l.foldl (fun ds d => ds.settle d o) ds

section

variable {ds : Deferreds} {d i : Nat} {o o' : Outcome} {l : List Nat}

@[simp] theorem created_create (ds : Deferreds) : ds.create.created = ds.created + 1 := rfl

@[simp] theorem outcome_create (ds : Deferreds) : ds.create.outcome = ds.outcome := rfl

@[simp] theorem created_settle (ds : Deferreds) (d : Nat) (o : Outcome) :
    (ds.settle d o).created = ds.created := rfl

theorem outcome_settle (ds : Deferreds) (d : Nat) (o : Outcome) (i : Nat) :
    (ds.settle d o).outcome i =
      if i = d ∧ d < ds.created ∧ ds.outcome d = none then some o else ds.outcome i := rfl

/-- A settled deferred was created. -/
theorem lt_created (h : ds.outcome d = some o) : d < ds.created := by
  by_contra hge
  rw [ds.fresh d (Nat.le_of_not_lt hge)] at h
  cases h

/-- **The first settlement counts.** -/
theorem settle_of_settled (h : ds.outcome i = some o') : (ds.settle d o).outcome i = some o' := by
  rw [outcome_settle, if_neg, h]
  rintro ⟨rfl, -, hnone⟩
  rw [hnone] at h
  cases h

theorem settle_of_ne (h : i ≠ d) : (ds.settle d o).outcome i = ds.outcome i := by
  rw [outcome_settle, if_neg]
  rintro ⟨heq, -⟩
  exact h heq

/-- A pending deferred takes the outcome it is given. -/
theorem settle_self (hlt : d < ds.created) (h : ds.outcome d = none) :
    (ds.settle d o).outcome d = some o := by
  rw [outcome_settle, if_pos ⟨rfl, hlt, h⟩]

@[simp] theorem created_settleAll (ds : Deferreds) (l : List Nat) (o : Outcome) :
    (ds.settleAll l o).created = ds.created := by
  induction l generalizing ds with
  | nil => rfl
  | cons d l ih => exact ih (ds.settle d o)

theorem settleAll_of_settled (h : ds.outcome i = some o') :
    (ds.settleAll l o).outcome i = some o' := by
  induction l generalizing ds with
  | nil => exact h
  | cons d l ih => exact ih (settle_of_settled h)

/-- What settling a list does to each deferred. -/
theorem outcome_settleAll (ds : Deferreds) (l : List Nat) (o : Outcome) (i : Nat) :
    (ds.settleAll l o).outcome i =
      if i ∈ l ∧ i < ds.created ∧ ds.outcome i = none then some o else ds.outcome i := by
  induction l generalizing ds with
  | nil => simp [settleAll]
  | cons d l ih =>
      show ((ds.settle d o).settleAll l o).outcome i = _
      rw [ih, created_settle, outcome_settle]
      by_cases hid : i = d
      · subst hid
        by_cases hopen : i < ds.created ∧ ds.outcome i = none
        · simp [hopen.1, hopen.2]
        · simp [hopen]
      · simp [hid]

end

end Deferreds

end NatsClient.Foundation
