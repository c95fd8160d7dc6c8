import Mathlib.Data.List.Nodup
import Mathlib.Tactic.Common

/-!
# Maps in insertion order

A map as the list of its entries in the order in which their keys were first set. A key occurs once,
which the map carries as a field (`OrderedMap.nodup`). Setting a key that is there replaces its
value in place; a new key goes to the end.

* `mem_entries`: the entries are what `get` finds;
* `get_set`, `get_delete`, `get_deleteAll`: what the operations do to each key;
* `keys_set_of_mem`, `keys_set_of_new`, `keys_deleteAll`: what they do to the order of the keys.
-/

set_option autoImplicit false

namespace NatsClient.Foundation

/-- The entries of a map, each key once. -/
structure OrderedMap (κ ν : Type) where
  entries : List (κ × ν)
  nodup : (entries.map Prod.fst).Nodup

namespace OrderedMap

variable {κ ν : Type}

/-- The map without entries. -/
def empty : OrderedMap κ ν := ⟨[], List.nodup_nil⟩

/-- The keys in order. -/
def keys (m : OrderedMap κ ν) : List κ := m.entries.map Prod.fst

/-- The values in order. -/
def values (m : OrderedMap κ ν) : List ν := m.entries.map Prod.snd

/-- The number of entries. -/
def size (m : OrderedMap κ ν) : Nat := m.entries.length

/-- Two maps with the same entries are the same. -/
theorem eq_of_entries {m m' : OrderedMap κ ν} (h : m.entries = m'.entries) : m = m' := by
  cases m
  cases m'
  cases h
  rfl

variable [DecidableEq κ]

/-- The value of a key. -/
def get (m : OrderedMap κ ν) (k : κ) : Option ν := m.entries.lookup k

/-- The entries with another value under a key. -/
def replace (entries : List (κ × ν)) (k : κ) (v : ν) : List (κ × ν) :=
  entries.map fun e => if e.1 = k then (k, v) else e

theorem keys_replace (entries : List (κ × ν)) (k : κ) (v : ν) :
    (replace entries k v).map Prod.fst = entries.map Prod.fst := by
  rw [replace, List.map_map]
  apply List.map_congr_left
  intro e _
  by_cases he : e.1 = k
  · simp only [Function.comp_apply, he, if_true]
  · simp only [Function.comp_apply, if_neg he]

/-- A key takes a value. -/
def set (m : OrderedMap κ ν) (k : κ) (v : ν) : OrderedMap κ ν :=
  if h : k ∈ m.keys then ⟨replace m.entries k v, by
    rw [keys_replace]
    exact m.nodup⟩
  else ⟨m.entries ++ [(k, v)], by
    rw [List.map_append, List.nodup_append]
    refine ⟨m.nodup, by simp, fun a ha b hb => ?_⟩
    rw [List.map_singleton, List.mem_singleton] at hb
    rintro rfl
    rw [hb] at ha
    exact h ha⟩

/-- A key is removed. -/
def delete (m : OrderedMap κ ν) (k : κ) : OrderedMap κ ν :=
  ⟨m.entries.filter fun e => e.1 ≠ k, List.Nodup.sublist
    (List.Sublist.map Prod.fst List.filter_sublist) m.nodup⟩

/-- Keys are removed. -/
def deleteAll (m : OrderedMap κ ν) (ks : List κ) : OrderedMap κ ν := ks.foldl delete m

/-- The entries of another map are set, one after the other. -/
def assign (m m' : OrderedMap κ ν) : OrderedMap κ ν := m'.entries.foldl (fun m e => m.set e.1 e.2) m

section

variable {m : OrderedMap κ ν} {k k' : κ} {v : ν}

/-- **The entries are what `get` finds.** -/
theorem mem_entries : (k, v) ∈ m.entries ↔ m.get k = some v := by
  constructor
  · intro hmem
    cases hget : m.get k with
    | none =>
        have hne := List.lookup_eq_none_iff.1 hget (k, v) hmem
        simp at hne
    | some v' =>
        obtain ⟨l₁, l₂, heq, -⟩ := List.lookup_eq_some_iff.1 hget
        have hmem' : (k, v') ∈ m.entries := by
          rw [heq]
          exact List.mem_append_right _ List.mem_cons_self
        have hsame := List.inj_on_of_nodup_map m.nodup hmem hmem' rfl
        rw [(Prod.mk.inj hsame).2]
  · intro hget
    obtain ⟨l₁, l₂, heq, -⟩ := List.lookup_eq_some_iff.1 hget
    rw [heq]
    exact List.mem_append_right _ List.mem_cons_self

theorem mem_keys : k ∈ m.keys ↔ ∃ v, m.get k = some v := by
  rw [keys, List.mem_map]
  constructor
  · rintro ⟨⟨k', v⟩, hmem, rfl⟩
    exact ⟨v, mem_entries.1 hmem⟩
  · rintro ⟨v, hget⟩
    exact ⟨(k, v), mem_entries.2 hget, rfl⟩

theorem mem_values : v ∈ m.values ↔ ∃ k, m.get k = some v := by
  rw [values, List.mem_map]
  constructor
  · rintro ⟨⟨k, v'⟩, hmem, rfl⟩
    exact ⟨k, mem_entries.1 hmem⟩
  · rintro ⟨k, hget⟩
    exact ⟨(k, v), mem_entries.2 hget, rfl⟩

/-- The values are distinct where no value is under two keys. -/
theorem nodup_values (h : ∀ k k' v, m.get k = some v → m.get k' = some v → k = k') :
    m.values.Nodup := by
  apply List.Nodup.map_on
  · rintro ⟨k, v⟩ he ⟨k', v'⟩ he' heq
    have hsame : v = v' := heq
    subst hsame
    rw [h k k' v (mem_entries.1 he) (mem_entries.1 he')]
  · exact List.Nodup.of_map _ m.nodup

/-- Two maps agree on a key when their entries under it are the same. -/
theorem get_congr {m m' : OrderedMap κ ν} (h : ∀ v, (k, v) ∈ m'.entries ↔ (k, v) ∈ m.entries) :
    m'.get k = m.get k := by
  cases hget : m.get k with
  | some v => exact mem_entries.1 ((h v).2 (mem_entries.2 hget))
  | none =>
      cases hget' : m'.get k with
      | none => rfl
      | some v =>
          rw [mem_entries.1 ((h v).1 (mem_entries.2 hget'))] at hget
          cases hget

@[simp] theorem get_empty (k : κ) : (empty : OrderedMap κ ν).get k = none := rfl

/-- **What setting a key does.** -/
theorem get_set (m : OrderedMap κ ν) (k k' : κ) (v : ν) :
    (m.set k v).get k' = if k' = k then some v else m.get k' := by
  by_cases hk : k' = k
  · subst hk
    rw [if_pos rfl]
    apply mem_entries.1
    unfold set
    by_cases hmem : k' ∈ m.keys
    · rw [dif_pos hmem]
      obtain ⟨e, he, hfst⟩ := List.mem_map.1 hmem
      exact List.mem_map.2 ⟨e, he, if_pos hfst⟩
    · rw [dif_neg hmem]
      exact List.mem_append_right _ (List.mem_singleton_self _)
  · rw [if_neg hk]
    apply get_congr
    intro v'
    unfold set
    by_cases hmem : k ∈ m.keys
    · rw [dif_pos hmem]
      show (k', v') ∈ m.entries.map _ ↔ _
      rw [List.mem_map]
      constructor
      · rintro ⟨e, he, heq⟩
        by_cases hfst : e.1 = k
        · rw [if_pos hfst] at heq
          exact absurd (Prod.mk.inj heq).1.symm hk
        · rw [if_neg hfst] at heq
          exact heq ▸ he
      · intro he
        exact ⟨(k', v'), he, if_neg hk⟩
    · rw [dif_neg hmem]
      show (k', v') ∈ m.entries ++ [(k, v)] ↔ _
      rw [List.mem_append, List.mem_singleton]
      constructor
      · rintro (he | heq)
        · exact he
        · exact absurd (Prod.mk.inj heq).1 hk
      · exact Or.inl

theorem get_foldl_set (entries : List (κ × ν)) (hnodup : (entries.map Prod.fst).Nodup)
    (m : OrderedMap κ ν) (k : κ) :
    (entries.foldl (fun m e => m.set e.1 e.2) m).get k = (entries.lookup k).or (m.get k) := by
  induction entries generalizing m with
  | nil => rfl
  | cons e entries ih =>
      obtain ⟨k', v⟩ := e
      rw [List.map_cons, List.nodup_cons] at hnodup
      rw [List.foldl_cons, ih hnodup.2, get_set, List.lookup_cons]
      by_cases hk : k = k'
      · -- the other entries are under other keys
        have hnone : entries.lookup k = none := by
          rw [List.lookup_eq_none_iff]
          intro e he
          have hmem : e.1 ∈ entries.map Prod.fst := List.mem_map_of_mem he
          have hne : k ≠ e.1 := fun heq => hnodup.1 (hk ▸ heq ▸ hmem)
          simpa using hne
        rw [hnone, if_pos hk, hk, beq_self_eq_true]
        rfl
      · rw [if_neg hk, beq_eq_false_iff_ne.2 hk]

/-- **What assigning a map does.** -/
theorem get_assign (m m' : OrderedMap κ ν) (k : κ) :
    (m.assign m').get k = (m'.get k).or (m.get k) :=
  get_foldl_set m'.entries m'.nodup m k

/-- Parts of one map that are put together. -/
theorem mem_entries_assign {m m' s : OrderedMap κ ν} (hm : ∀ e ∈ m.entries, e ∈ s.entries)
    (hm' : ∀ e ∈ m'.entries, e ∈ s.entries) {e : κ × ν} :
    e ∈ (m.assign m').entries ↔ e ∈ m.entries ∨ e ∈ m'.entries := by
  obtain ⟨k, v⟩ := e
  rw [mem_entries, mem_entries, mem_entries, get_assign]
  cases hget : m'.get k with
  | none => simp
  | some v' =>
      have hin := mem_entries.1 (hm' _ (mem_entries.2 hget))
      constructor
      · exact .inr
      · rintro (hold | hnew)
        · rw [mem_entries.1 (hm _ (mem_entries.2 hold))] at hin
          exact hin.symm ▸ rfl
        · exact hnew

/-- **What removing a key does.** -/
theorem get_delete (m : OrderedMap κ ν) (k k' : κ) :
    (m.delete k).get k' = if k' = k then none else m.get k' := by
  by_cases hk : k' = k
  · subst hk
    rw [if_pos rfl]
    cases hget : (m.delete k').get k' with
    | none => rfl
    | some v =>
        have hmem : (k', v) ∈ m.entries.filter fun e => e.1 ≠ k' := mem_entries.2 hget
        simp at hmem
  · rw [if_neg hk]
    apply get_congr
    intro v
    show (k', v) ∈ m.entries.filter _ ↔ _
    simp [List.mem_filter, hk]

/-- Setting a key that is there keeps the keys. -/
theorem keys_set_of_mem (h : k ∈ m.keys) : (m.set k v).keys = m.keys := by
  rw [set, dif_pos h]
  exact keys_replace m.entries k v

theorem keys_set_of_new (h : k ∉ m.keys) : (m.set k v).keys = m.keys ++ [k] := by
  rw [set, dif_neg h]
  exact List.map_append

/-- Setting a key adds it. -/
theorem mem_keys_set : k' ∈ (m.set k v).keys ↔ k' ∈ m.keys ∨ k' = k := by
  by_cases h : k ∈ m.keys
  · rw [keys_set_of_mem h]
    refine ⟨.inl, ?_⟩
    rintro (hmem | rfl)
    · exact hmem
    · exact h
  · rw [keys_set_of_new h, List.mem_append, List.mem_singleton]

theorem keys_delete (m : OrderedMap κ ν) (k : κ) : (m.delete k).keys = m.keys.filter (· ≠ k) := by
  rw [keys, delete, keys, List.filter_map]
  rfl

theorem keys_deleteAll (m : OrderedMap κ ν) (ks : List κ) :
    (m.deleteAll ks).keys = m.keys.filter (· ∉ ks) := by
  induction ks generalizing m with
  | nil => simp [deleteAll]
  | cons k ks ih =>
      show ((m.delete k).deleteAll ks).keys = _
      rw [ih, keys_delete, List.filter_filter]
      apply List.filter_congr
      intro k' _
      simp [Bool.and_comm]

/-- **What removing some keys does.** -/
theorem get_deleteAll (m : OrderedMap κ ν) (ks : List κ) (k' : κ) :
    (m.deleteAll ks).get k' = if k' ∈ ks then none else m.get k' := by
  induction ks generalizing m with
  | nil => simp [deleteAll]
  | cons k ks ih =>
      show ((m.delete k).deleteAll ks).get k' = _
      rw [ih, get_delete]
      by_cases hk : k' = k
      · simp [hk]
      · simp [hk]

/-- Setting a new key appends. -/
theorem entries_set_of_new (h : k ∉ m.keys) : (m.set k v).entries = m.entries ++ [(k, v)] := by
  rw [set, dif_neg h]

/-- Setting the last key changes the last entry. -/
theorem entries_set_last {es : List (κ × ν)} (h : m.entries = es ++ [(k, v)]) (v' : ν) :
    (m.set k v').entries = es ++ [(k, v')] := by
  have hnodup := m.nodup
  have hmem : k ∈ m.keys := by
    rw [keys, h, List.map_append]
    exact List.mem_append_right _ List.mem_cons_self
  rw [h, List.map_append, List.nodup_append] at hnodup
  have hother : replace es k v' = es := by
    refine (List.map_congr_left ?_).trans (List.map_id es)
    intro e he
    have hne : e.1 ≠ k := hnodup.2.2 e.1 (List.mem_map_of_mem he) k List.mem_cons_self
    exact if_neg hne
  rw [set, dif_pos hmem]
  show replace m.entries k v' = _
  rw [h]
  show (es ++ [(k, v)]).map _ = _
  rw [List.map_append]
  show replace es k v' ++ _ = _
  rw [hother, List.map_singleton, if_pos rfl]

end

end OrderedMap

end NatsClient.Foundation
