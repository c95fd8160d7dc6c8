import Mathlib.Data.List.Nodup
import Mathlib.Logic.ExistsUnique

/-!
# Shuffling

Model of `shuffle` (`util.ts`), with which `Servers` (`servers.ts`) mixes the servers it is given
and the addresses a host resolves to. `Math.floor(Math.random() * (i + 1))` is a draw, a number up
to `i`.

* `shuffle_exact`: every order comes from exactly one sequence of draws.
-/

set_option autoImplicit false

namespace NatsClient.Util

variable {α : Type} {a b : Array α} {i j k : Nat} {draws : List Nat}

/-- The loop of `shuffle` from `i` on. -/
def shuffleFrom : Nat → List Nat → Array α → Array α
  | i + 1, j :: draws, a => shuffleFrom i draws (a.swapIfInBounds (i + 1) j)
  | _, _, a => a

/-- `shuffle(a)`. -/
def shuffle (draws : List Nat) (a : Array α) : Array α := shuffleFrom (a.size - 1) draws a

/-- What the loop draws from `i` on. -/
inductive Drawn : Nat → List Nat → Prop where
  | nil : Drawn 0 []
  | cons (i j : Nat) (draws : List Nat) (hj : j ≤ i + 1) (h : Drawn i draws) :
      Drawn (i + 1) (j :: draws)

theorem swapIfInBounds_perm (a : Array α) (i j : Nat) : (a.swapIfInBounds i j).Perm a := by
  rw [Array.swapIfInBounds_def]
  split
  case isTrue hi =>
    split
    case isTrue hj => exact Array.swap_perm hi hj
    case isFalse => exact .refl a
  case isFalse => exact .refl a

/-- **A shuffle loses nothing.** -/
theorem shuffleFrom_perm (i : Nat) (draws : List Nat) (a : Array α) :
    (shuffleFrom i draws a).Perm a := by
  induction i generalizing draws a with
  | zero => exact .refl a
  | succ i ih =>
      cases draws with
      | nil => exact .refl a
      | cons j draws =>
          exact (ih draws (a.swapIfInBounds (i + 1) j)).trans (swapIfInBounds_perm a (i + 1) j)

theorem getElem?_swapIfInBounds (a : Array α) (hi : i < a.size) (hj : j < a.size) (k : Nat) :
    (a.swapIfInBounds i j)[k]? = if k = i then a[j]? else if k = j then a[i]? else a[k]? := by
  rw [Array.swapIfInBounds_def, dif_pos hi, dif_pos hj, Array.getElem?_swap]
  grind

/-- What lies behind `i` stays. -/
theorem getElem?_shuffleFrom (hdrawn : Drawn i draws) (hi : i < a.size) (hk : i < k) :
    (shuffleFrom i draws a)[k]? = a[k]? := by
  induction hdrawn generalizing a with
  | nil => rfl
  | cons i j draws hj hdrawn ih =>
      have hrest :=
        @ih (a.swapIfInBounds (i + 1) j) (by rw [Array.size_swapIfInBounds]; omega) (by omega)
      refine hrest.trans ?_
      rw [getElem?_swapIfInBounds a hi (by omega), if_neg (by omega), if_neg (by omega)]

/-- Two orders that agree behind the first place agree. -/
theorem eq_of_agree (hperm : b.Perm a) (hagree : ∀ k, 0 < k → b[k]? = a[k]?) : b = a := by
  obtain ⟨xs⟩ := a
  obtain ⟨ys⟩ := b
  have hlist : ys.Perm xs := Array.perm_iff_toList_perm.1 hperm
  cases xs with
  | nil => rw [hlist.eq_nil]
  | cons x xs =>
      cases ys with
      | nil => exact absurd hlist.length_eq (Nat.succ_ne_zero _).symm
      | cons y ys =>
          have hrest : ys = xs := by
            refine List.ext_getElem? fun k => ?_
            have hk := hagree (k + 1) (Nat.succ_pos k)
            rwa [List.getElem?_toArray, List.getElem?_toArray, List.getElem?_cons_succ,
              List.getElem?_cons_succ] at hk
          rw [hrest] at hlist ⊢
          have hone : [y].Perm [x] := (List.perm_append_right_iff xs).1 hlist
          rw [List.singleton_perm_singleton.1 hone]

/-- An element stands at one place. -/
theorem index_inj (hnodup : a.toList.Nodup) (hi : i < a.size) (h : a[j]? = a[i]?) : j = i := by
  have hsome : a[i]? = some a[i] := Array.getElem?_eq_getElem hi
  rw [hsome] at h
  obtain ⟨hj, hsame⟩ := Array.getElem?_eq_some_iff.1 h
  exact (List.Nodup.getElem_inj_iff hnodup).1 hsame

/-- **The draws of an order** that leaves what lies behind `i`. -/
theorem exists_draws (i : Nat) (a b : Array α) (hi : i < a.size) (hnodup : a.toList.Nodup)
    (hperm : b.Perm a) (hagree : ∀ k, i < k → b[k]? = a[k]?) :
    ∃! draws, Drawn i draws ∧ shuffleFrom i draws a = b := by
  induction i generalizing a with
  | zero =>
      refine ⟨[], ⟨.nil, (eq_of_agree hperm hagree).symm⟩, ?_⟩
      rintro draws ⟨hdrawn, -⟩
      cases hdrawn
      rfl
  | succ i ih =>
      -- the draw is where the last element of the part that is mixed comes from
      have hib : i + 1 < b.size := hperm.size_eq.symm ▸ hi
      have hnodupb : b.toList.Nodup := (Array.perm_iff_toList_perm.1 hperm).nodup_iff.2 hnodup
      obtain ⟨j, hj, hjb⟩ := Array.mem_iff_getElem.1 (hperm.mem_iff.1 (Array.getElem_mem hib))
      have hfrom : a[j]? = b[i + 1]? := by
        rw [Array.getElem?_eq_getElem hj, Array.getElem?_eq_getElem hib, hjb]
      have hle : j ≤ i + 1 := by
        by_contra hlt
        have hsame := index_inj hnodupb hib ((hagree j (Nat.not_le.1 hlt)).trans hfrom)
        omega
      have hplaced : ∀ k, i < k → b[k]? = (a.swapIfInBounds (i + 1) j)[k]? := by
        intro k hk
        rw [getElem?_swapIfInBounds a hi hj]
        by_cases heq : k = i + 1
        · rw [if_pos heq, heq, hfrom]
        · rw [if_neg heq, if_neg (by omega)]
          exact hagree k (by omega)
      have hmixed := swapIfInBounds_perm a (i + 1) j
      obtain ⟨draws, ⟨hdrawn, hdone⟩, hunique⟩ := ih (a.swapIfInBounds (i + 1) j)
        (by rw [Array.size_swapIfInBounds]; omega)
        ((Array.perm_iff_toList_perm.1 hmixed).nodup_iff.2 hnodup) (hperm.trans hmixed.symm) hplaced
      refine ⟨j :: draws, ⟨.cons i j draws hle hdrawn, hdone⟩, ?_⟩
      rintro other ⟨hother, hsame⟩
      cases hother with
      | cons i j' rest hj' hrest =>
          have hi' : i < (a.swapIfInBounds (i + 1) j').size := by
            rw [Array.size_swapIfInBounds]
            omega
          have hlast : b[i + 1]? = a[j']? := by
            rw [← hsame]
            refine (getElem?_shuffleFrom hrest hi' (Nat.lt_succ_self i)).trans ?_
            rw [getElem?_swapIfInBounds a hi (by omega), if_pos rfl]
          cases index_inj hnodup hj (hlast.symm.trans hfrom.symm)
          rw [hunique rest ⟨hrest, hsame⟩]

/-- **Shuffling.** No draws lose or repeat anything; and of an array without duplicates every order
comes from exactly one sequence of draws. -/
theorem shuffle_exact (a : Array α) :
    (∀ draws, (shuffle draws a).Perm a) ∧
      (a.toList.Nodup → ∀ b : Array α, b.Perm a → ∃! draws, Drawn (a.size - 1) draws ∧
        shuffle draws a = b) := by
  refine ⟨fun draws => shuffleFrom_perm _ draws a, fun hnodup b hperm => ?_⟩
  by_cases hempty : a.size = 0
  · refine ⟨[], ⟨by rw [hempty]; exact .nil, ?_⟩, ?_⟩
    · have hb : b.size = 0 := hperm.size_eq.trans hempty
      rw [Array.eq_empty_of_size_eq_zero hempty, Array.eq_empty_of_size_eq_zero hb]
      rfl
    · rintro draws ⟨hdrawn, -⟩
      rw [hempty] at hdrawn
      cases hdrawn
      rfl
  · refine exists_draws (a.size - 1) a b (by omega) hnodup hperm fun k hk => ?_
    have hsize := hperm.size_eq
    rw [Array.getElem?_eq_none (by omega), Array.getElem?_eq_none (by omega)]

/-- The draws of one order of three. -/
theorem shuffle_exact_three : ∃! draws, Drawn 2 draws ∧ shuffle draws #[1, 2, 3] = #[3, 1, 2] :=
  (shuffle_exact #[1, 2, 3]).2 (by decide) #[3, 1, 2] (Array.perm_iff_toList_perm.2 (by decide))

end NatsClient.Util
