import Mathlib.Logic.Relation
import Mathlib.Order.WellFounded
import Mathlib.Tactic.Common

/-!
# Chains of links

A partial function `next` on places: `next a = some b` is a link from `a` to `b`. `Leads` says that
the links lead from one place to another, and `Ends` that the chain from a place comes to an end.

`ends_iff_of_write`: where all chains end, they still do after one place got another link, exactly
if this link does not lead back to the place.
-/

set_option autoImplicit false

namespace NatsClient.Foundation.Chain

variable {α : Type} {next next' : α → Option α} {a b c w : α}

/-- The links lead from one place to the other. -/
def Leads (next : α → Option α) : α → α → Prop := Relation.ReflTransGen fun a b => next a = some b

/-- The chain from a place ends. -/
def Ends (next : α → Option α) (a : α) : Prop := Acc (fun b a => next a = some b) a

theorem leads_refl (a : α) : Leads next a a := Relation.ReflTransGen.refl

theorem leads_head (hab : next a = some b) (hbc : Leads next b c) : Leads next a c :=
  Relation.ReflTransGen.head hab hbc

/-- A place without a link leads nowhere. -/
theorem eq_of_leads (hac : Leads next a c) (hnone : next a = none) : a = c := by
  rcases Relation.ReflTransGen.cases_head hac with rfl | ⟨b, hab, -⟩
  · rfl
  · rw [hnone] at hab
    cases hab

theorem ends_of_none (hnone : next a = none) : Ends next a :=
  Acc.intro a fun b hab => by
    rw [hnone] at hab
    cases hab

/-- A chain ends where that from the next place does. -/
theorem ends_of_next (hab : next a = some b) (hb : Ends next b) : Ends next a :=
  Acc.intro a fun _ hab' => Option.some.inj (hab.symm.trans hab') ▸ hb

/-- **A circle does not end.** -/
theorem not_ends_of_leads (hab : next a = some b) (hba : Leads next b a) : ¬ Ends next a := by
  intro hends
  induction hends generalizing b with
  | intro a _ ih =>
      -- the next place is on the circle too
      by_cases hne : b = a
      · subst hne
        exact ih b hab hab hba
      · rcases Relation.ReflTransGen.cases_head hba with rfl | ⟨c, hbc, hca⟩
        · exact hne rfl
        · exact ih b hab hbc (hca.tail hab)

section

variable (hsame : ∀ a, a ≠ w → next' a = next a)

include hsame

/-- The way to the place that is written is what it was. -/
theorem leads_of_write (haw : Leads next a w) : Leads next' a w := by
  induction haw using Relation.ReflTransGen.head_induction_on with
  | refl => exact leads_refl w
  | @head a b hab _ ih =>
      by_cases ha : a = w
      · rw [ha]
        exact leads_refl w
      · exact leads_head ((hsame a ha).trans hab) ih

/-- A chain that does not come to the place ends as before. -/
theorem ends_of_not_leads (ha : Ends next a) (haw : ¬ Leads next a w) : Ends next' a := by
  induction ha with
  | intro a _ ih =>
      have hne : a ≠ w := by
        rintro rfl
        exact haw (leads_refl a)
      cases hnext : next a with
      | none => exact ends_of_none ((hsame a hne).trans hnext)
      | some b =>
          apply ends_of_next ((hsame a hne).trans hnext)
          exact ih b hnext fun hbw => haw (leads_head hnext hbw)

/-- **One place is written.** All chains still end exactly if its new link does not lead back. -/
theorem ends_iff_of_write (hends : ∀ a, Ends next a) :
    (∀ a, Ends next' a) ↔ ∀ b, next' w = some b → ¬ Leads next b w := by
  constructor
  · intro hends' b hb hbw
    exact not_ends_of_leads hb (leads_of_write hsame hbw) (hends' w)
  · intro hback a
    have hw : Ends next' w := by
      cases hnext : next' w with
      | none => exact ends_of_none hnext
      | some b => exact ends_of_next hnext (ends_of_not_leads hsame (hends b) (hback b hnext))
    -- along the old chain, up to the place
    have ha := hends a
    induction ha with
    | intro a _ ih =>
        by_cases hne : a = w
        · rw [hne]
          exact hw
        · cases hnext : next a with
          | none => exact ends_of_none ((hsame a hne).trans hnext)
          | some b => exact ends_of_next ((hsame a hne).trans hnext) (ih b hnext)

end

end NatsClient.Foundation.Chain
