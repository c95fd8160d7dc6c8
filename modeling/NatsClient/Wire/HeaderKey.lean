import NatsClient.Wire.HeaderStore

/-!
# Canonical header keys

`canonicalMIMEHeaderKey` (`headers.ts`) decides the case of a letter by the character in front of
it, and no letter is taken for another: the canonical form is a function of the key in lower case
(`recase_lower`), which it gives back in lower case (`lower_recase`).

* `canonicalKey_eq`: what the loop returns for a valid key;
* `canonical_iff`: the keys that are not too long have a canonical form if their characters are
  those of a key, and two have the same if they are equal up to case.
-/

set_option autoImplicit false

namespace NatsClient.Wire

open NatsClient.Foundation MsgHdrs

/-- Equal up to the case of the letters of ASCII. -/
def EqualFold (a b : String) : Prop := a.toList.map Char.toLower = b.toList.map Char.toLower

/-- The letters of a key in the case that the character in front of each asks for. -/
def recase (upper : Bool) : List Char → List Char
  | [] => []
  | c :: cs => (if upper then c.toUpper else c.toLower) :: recase (c = '-') cs

variable {a : String}

/-- **The loop**, for a valid key. -/
theorem canonicalKey_eq {cs : List Char} (upper : Bool) (hcs : ∀ c ∈ cs, isKeyChar c = true) :
    canonicalKey upper cs = .ok (recase upper cs) := by
  induction cs generalizing upper with
  | nil => rfl
  | cons c cs ih =>
      obtain ⟨hc, hrest⟩ := List.forall_mem_cons.1 hcs
      simp only [canonicalKey, if_pos hc, ih _ hrest, recase]

/-- What a letter in one case says of the other. -/
theorem lower_case {c : Char} (hc : isKeyChar c = true) :
    c.toUpper.toLower = c.toLower ∧ c.toLower.toUpper = c.toUpper ∧ c.toLower.toLower = c.toLower ∧
      (c.toLower = '-' ↔ c = '-') :=
  of_ascii (P := fun c => isKeyChar c = true → c.toUpper.toLower = c.toLower ∧
    c.toLower.toUpper = c.toUpper ∧
    c.toLower.toLower = c.toLower ∧ (c.toLower = '-' ↔ c = '-')) (by decide) (lt_of_isKeyChar hc) hc

/-- Only the case of letters changes. -/
theorem lower_recase {cs : List Char} (upper : Bool) (hcs : ∀ c ∈ cs, isKeyChar c = true) :
    (recase upper cs).map Char.toLower = cs.map Char.toLower := by
  induction cs generalizing upper with
  | nil => rfl
  | cons c cs ih =>
      obtain ⟨hc, hrest⟩ := List.forall_mem_cons.1 hcs
      obtain ⟨hupper, -, hlower, -⟩ := lower_case hc
      rw [recase, List.map_cons, List.map_cons, ih _ hrest]
      cases upper with
      | true => rw [if_pos rfl, hupper]
      | false => rw [if_neg Bool.false_ne_true, hlower]

/-- The case that a letter had does not matter. -/
theorem recase_lower {cs : List Char} (upper : Bool) (hcs : ∀ c ∈ cs, isKeyChar c = true) :
    recase upper (cs.map Char.toLower) = recase upper cs := by
  induction cs generalizing upper with
  | nil => rfl
  | cons c cs ih =>
      obtain ⟨hc, hrest⟩ := List.forall_mem_cons.1 hcs
      obtain ⟨-, hupper, hlower, hdash⟩ := lower_case hc
      rw [List.map_cons, recase, recase, ih _ hrest, hupper, hlower]
      simp only [hdash]

/-- The characters of a key. -/
theorem isKeyChar_eq_false {c : Char} :
    isKeyChar c = false ↔ c.toNat < 33 ∨ 126 < c.toNat ∨ c = ':' := by
  cases hc : isKeyChar c with
  | false =>
      refine ⟨fun _ => ?_, fun _ => rfl⟩
      by_contra hnot
      simp only [not_or, Nat.not_lt] at hnot
      rw [isKeyChar] at hc
      simp [hnot] at hc
  | true =>
      simp only [isKeyChar, Bool.and_eq_true, decide_eq_true_eq] at hc
      constructor
      · intro h
        cases h
      · rintro (h | h | h)
        · omega
        · omega
        · exact absurd h hc.1.1

/-- A key is not valid for one of its characters. -/
theorem not_validKey_iff :
    ¬ ValidKey a ↔ ∃ c ∈ a.toList, c.toNat < 33 ∨ 126 < c.toNat ∨ c = ':' := by
  simp only [ValidKey, not_forall, Bool.not_eq_true, isKeyChar_eq_false, exists_prop]

section

variable [Engine]

/-- What is asked of the canonical form of a key: there is none just for a key with a character
outside of the printable ones of ASCII or with a colon. It differs from the key in the case of
letters only and is its own canonical form, and two keys have the same if and only if they are equal
up to case. -/
structure Canonicalizes (a : String) : Prop where
  throws : (∃ e, canonicalMIMEHeaderKey a = .error e) ↔
    ∃ c ∈ a.toList, c.toNat < 33 ∨ 126 < c.toNat ∨ c = ':'
  canonical : ∀ ca, canonicalMIMEHeaderKey a = .ok ca →
    EqualFold ca a ∧ canonicalMIMEHeaderKey ca = .ok ca ∧
    ∀ b cb, canonicalMIMEHeaderKey b = .ok cb → (ca = cb ↔ EqualFold a b)

theorem canonical_eq (ha : FitKey a) :
    canonicalMIMEHeaderKey a = .ok (String.ofList (recase true a.toList)) := by
  obtain ⟨ck, hck⟩ := (canonicalMIMEHeaderKey_spec a).2 ha
  obtain ⟨cs, hcs, -, rfl⟩ := canonicalMIMEHeaderKey_eq_ok.1 hck
  rw [canonicalKey_eq true ha.1] at hcs
  rw [hck, Except.ok.inj hcs]

/-- There is no canonical form of the keys that are not fit. -/
theorem canonical_error_iff : (∃ e, canonicalMIMEHeaderKey a = .error e) ↔ ¬ FitKey a := by
  rw [← canonicalMIMEHeaderKey_spec]
  cases canonicalMIMEHeaderKey a with
  | ok ca => simp
  | error e => simp

/-- The canonical forms of fit keys are as they should be. -/
theorem canonical_of_ok {ca : String} (hca : canonicalMIMEHeaderKey a = .ok ca) :
    EqualFold ca a ∧ canonicalMIMEHeaderKey ca = .ok ca ∧
      ∀ b cb, canonicalMIMEHeaderKey b = .ok cb → (ca = cb ↔ EqualFold a b) := by
  have ha : FitKey a := (canonicalMIMEHeaderKey_spec a).1 ⟨ca, hca⟩
  refine ⟨?_, canonicalMIMEHeaderKey_canonical hca, fun b cb hcb => ?_⟩
  · rw [canonical_eq ha] at hca
    cases hca
    rw [EqualFold, String.toList_ofList]
    exact lower_recase true ha.1
  · have hb : FitKey b := (canonicalMIMEHeaderKey_spec b).1 ⟨cb, hcb⟩
    rw [canonical_eq ha, Except.ok.injEq] at hca
    rw [canonical_eq hb, Except.ok.injEq] at hcb
    rw [← hca, ← hcb, String.ofList_inj, EqualFold]
    constructor
    · intro heq
      rw [← lower_recase true ha.1, ← lower_recase true hb.1, heq]
    · intro heq
      rw [← recase_lower true ha.1, ← recase_lower true hb.1, heq]

/-- The characters alone decide exactly for the keys that a call takes the characters of, and for
those that are not valid anyway. -/
theorem throws_iff_iff : ((∃ e, canonicalMIMEHeaderKey a = .error e) ↔ ¬ ValidKey a) ↔
    a.length ≤ Engine.maxArguments ∨ ¬ ValidKey a := by
  rw [canonical_error_iff, FitKey]
  tauto

/-- **Which keys have a canonical form**, as it is asked: just those that are not longer than the
arguments of a call, or have a character that a key has not. -/
theorem canonical_iff (a : String) :
    Canonicalizes a ↔ a.length ≤ Engine.maxArguments ∨
      ∃ c ∈ a.toList, c.toNat < 33 ∨ 126 < c.toNat ∨ c = ':' := by
  rw [← not_validKey_iff, ← throws_iff_iff]
  refine ⟨fun h => ?_, fun h => ⟨?_, fun ca hca => canonical_of_ok hca⟩⟩
  · rw [not_validKey_iff]
    exact h.throws
  · rw [← not_validKey_iff]
    exact h

end

/-- A long key of valid characters has none. -/
theorem not_canonical :
    letI : Engine := .common
    ¬ ∀ a : String, Canonicalizes a := by
  let _ : Engine := .common
  intro hall
  have hthrows := (hall (longKey 200000)).throws
  rw [← not_validKey_iff, throws_iff_iff, length_longKey] at hthrows
  exact hthrows.elim (absurd · (by decide)) (absurd (validKey_longKey _))

end NatsClient.Wire
