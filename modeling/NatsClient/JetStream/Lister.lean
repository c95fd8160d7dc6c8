import NatsClient.Wire.Text
import Mathlib.Data.List.Infix

/-!
# Paged listing

Model of `ListerImpl` (`jslister.ts`) and of the filters that the listers give it
(`jsmstream_api.ts`, `jsmconsumer_api.ts`). A request asks for the page at an offset, which advances
by all that was on the page; the caller gets what the filter leaves of it.

`next` answers with an empty array where there are no more pages, and also where nothing on the page
passes the filter. The iterator takes both for the end. So it yields everything exactly if each page
in front of an item that passes has such an item itself (`iterate_iff`).
-/

set_option autoImplicit false

namespace NatsClient.JetStream.Listing

open NatsClient.Wire

/-- The `type` of a response. -/
inductive ResponseType where
  | streamNames
  | streamList
  | consumerList
  | other
deriving DecidableEq, Repr

/-- A paged response, with the fields the lister reads. -/
structure ApiResponse (α : Type) where
  type : ResponseType
  total : Nat
  streams : Option (List α)
  consumers : Option (List α)
deriving DecidableEq, Repr

/-- The fields of `ListerImpl`; `total` is that of `pageInfo`. -/
structure ListerImpl (E : Type) where
  offset : Nat
  total : Option Nat
  err : Option E
deriving DecidableEq, Repr

/-- The array of a response that belongs to its type; a type that is not known has streams. -/
def ApiResponse.items {α : Type} (r : ApiResponse α) : List α :=
  match r.type with
  | .streamNames | .streamList | .other => r.streams.getD []
  | .consumerList => r.consumers.getD []

/-- A filter of a lister: the response it reads, what passes, and what is made of it. -/
structure ListerFieldFilter (α β : Type) where
  type : ResponseType
  passes : α → Bool
  make : α → β

/-- What a filter leaves of a response. -/
def ListerFieldFilter.apply {α β : Type} (f : ListerFieldFilter α β) (r : ApiResponse α) : List β :=
  (r.items.filter f.passes).map f.make

/-! ## The listers -/

/-- The fields of `StreamInfo` that the listers go by. -/
structure StreamInfo where
  name : String
  sealed : Option Bool
  deny_delete : Option Bool
  deny_purge : Option Bool
  allow_rollup_hdrs : Option Bool
deriving DecidableEq, Repr

/-- `_fixInfo(si)`. -/
def fixInfo (si : StreamInfo) : StreamInfo where
  name := si.name
  sealed := some (si.sealed.getD false)
  deny_delete := some (si.deny_delete.getD false)
  deny_purge := some (si.deny_purge.getD false)
  allow_rollup_hdrs := some (si.allow_rollup_hdrs.getD false)

/-- `kvPrefix`. -/
def kvPrefix : String := "KV_"

/-- `osPrefix`. -/
def osPrefix : String := "OBJ_"

/-- `s.startsWith(p)`. -/
def startsWith (p s : String) : Bool := p.toList.isPrefixOf s.toList

/-- The filter of `list()`. -/
def list : ListerFieldFilter StreamInfo StreamInfo := ⟨.streamList, fun _ => true, fixInfo⟩

/-- The filter of `names()`. -/
def names : ListerFieldFilter String String := ⟨.streamNames, fun _ => true, id⟩

/-- The filter of `list(stream)` of the consumers. -/
def consumers (ConsumerInfo : Type) : ListerFieldFilter ConsumerInfo ConsumerInfo :=
  ⟨.consumerList, fun _ => true, id⟩

/-- The filter of `listKvs()`; a status has the stream and the cluster. -/
def listKvs (cluster : String) : ListerFieldFilter StreamInfo (StreamInfo × String) :=
  ⟨.streamList, fun si => startsWith kvPrefix si.name, fun si => (fixInfo si, cluster)⟩

/-- The filter of `listObjectStores()`. -/
def listObjectStores : ListerFieldFilter StreamInfo StreamInfo :=
  ⟨.streamList, fun si => startsWith osPrefix si.name, fixInfo⟩

/-! ## The lister -/

namespace ListerImpl

variable {α β E : Type}

/-- The constructor. -/
def new : ListerImpl E := ⟨0, none, none⟩

/-- `countResponse(r)`. -/
def countResponse (r : ApiResponse α) : Nat :=
  match r.type with
  | .streamNames | .streamList => (r.streams.getD []).length
  | .consumerList => (r.consumers.getD []).length
  | .other => (r.streams.getD []).length

/-- `next()`, with the answers to its requests. -/
def next (filter : ApiResponse α → List β) (request : Nat → Except E (ApiResponse α))
    (l : ListerImpl E) : ListerImpl E × Except E (List β) :=
  if l.err.isSome then (l, .ok [])
  else if l.total.any fun total => total ≤ l.offset then (l, .ok [])
  else
    match request l.offset with
    | .ok r =>
        let l := { l with total := some r.total }
        let count := countResponse r
        if count = 0 then (l, .ok []) else ({ l with offset := l.offset + count }, .ok (filter r))
    | .error err => ({ l with err := some err }, .error err)

/-- `[Symbol.asyncIterator]()`: what it yields and the exception it ends with; `none` where it has
not ended after `fuel` pages. -/
def iterate (filter : ApiResponse α → List β) (request : Nat → Except E (ApiResponse α)) :
    Nat → ListerImpl E → Option (List β × Option E)
  | 0, _ => none
  | fuel + 1, l =>
      match l.next filter request with
      | (_, .error err) => some ([], some err)
      | (_, .ok []) => some ([], none)
      | (l, .ok (item :: page)) =>
          (iterate filter request fuel l).map fun r => (item :: page ++ r.1, r.2)

/-- A response with one page of a list of `total` items. -/
def respond (type : ResponseType) (total : Nat) (page : List α) : ApiResponse α :=
  match type with
  | .consumerList => ⟨.consumerList, total, none, some page⟩
  | .streamNames => ⟨.streamNames, total, some page, none⟩
  | .streamList => ⟨.streamList, total, some page, none⟩
  | .other => ⟨.other, total, some page, none⟩

/-- The server: it has a list that does not change, and serves `limit` items from an offset on. -/
def serve (type : ResponseType) (limit : Nat) (items : List α) (offset : Nat) :
    Except E (ApiResponse α) :=
  .ok (respond type items.length ((items.drop offset).take limit))

/-- Each page in front of an item that passes has an item that passes. -/
def NoGap (limit : Nat) (passes : α → Bool) (items : List α) : Prop :=
  ∀ k, (∃ a ∈ items.drop ((k + 1) * limit), passes a = true) →
    ∃ a ∈ (items.drop (k * limit)).take limit, passes a = true

section

variable {f : ListerFieldFilter α β} {items rest : List α} {limit : Nat} {l : ListerImpl E}

/-! ## Gaps -/

theorem noGap_nil : NoGap limit f.passes [] := by
  rintro k ⟨a, ha, -⟩
  rw [List.drop_nil] at ha
  cases ha

/-- The first page and those behind it. -/
theorem noGap_iff : NoGap limit f.passes rest ↔
    ((∃ a ∈ rest.drop limit, f.passes a = true) → ∃ a ∈ rest.take limit, f.passes a = true) ∧
      NoGap limit f.passes (rest.drop limit) := by
  have hshift : ∀ k, (rest.drop limit).drop (k * limit) = rest.drop ((k + 1) * limit) := by
    intro k
    rw [List.drop_drop, Nat.succ_mul, Nat.add_comm]
  constructor
  · intro h
    refine ⟨fun hlater => ?_, fun k hlater => ?_⟩
    · have hfirst := h 0
      rw [Nat.zero_mul, List.drop_zero, Nat.zero_add, Nat.one_mul] at hfirst
      exact hfirst hlater
    · rw [hshift]
      rw [hshift] at hlater
      exact h (k + 1) hlater
  · rintro ⟨hfirst, hrest⟩ k hlater
    cases k with
    | zero =>
        rw [Nat.zero_mul, List.drop_zero]
        rw [Nat.zero_add, Nat.one_mul] at hlater
        exact hfirst hlater
    | succ k =>
        have hnext := hrest k
        rw [hshift, hshift] at hnext
        exact hnext hlater

theorem filter_eq_nil_iff_not_exists :
    rest.filter f.passes = [] ↔ ¬ ∃ a ∈ rest, f.passes a = true := by
  rw [List.filter_eq_nil_iff]
  constructor
  · rintro h ⟨a, ha, hpasses⟩
    exact h a ha hpasses
  · intro h a ha hpasses
    exact h ⟨a, ha, hpasses⟩

/-- Where nothing on the first page passes, nothing passes at all, or there is a gap. -/
theorem noGap_iff_of_first_empty (hfirst : (rest.take limit).filter f.passes = []) :
    NoGap limit f.passes rest ↔ rest.filter f.passes = [] := by
  have hnone := filter_eq_nil_iff_not_exists.1 hfirst
  constructor
  · intro h
    have hlater := mt (noGap_iff.1 h).1 hnone
    rw [← List.take_append_drop limit rest, List.filter_append, hfirst,
      filter_eq_nil_iff_not_exists.2 hlater]
    rfl
  · intro h k hlater
    obtain ⟨a, ha, hpasses⟩ := hlater
    exact absurd ⟨a, List.mem_of_mem_drop ha, hpasses⟩ (filter_eq_nil_iff_not_exists.1 h)

/-! ## The iteration -/

/-- The lister is in front of the rest of the list. -/
structure At (items rest : List α) (l : ListerImpl E) : Prop where
  rest : items.drop l.offset = rest
  total : ∀ total, l.total = some total → total = items.length
  err : l.err = none

theorem at_new (items : List α) : At items items (new : ListerImpl E) := ⟨rfl, nofun, rfl⟩

theorem total_respond (type : ResponseType) (total : Nat) (page : List α) :
    (respond type total page).total = total := by
  cases type <;> rfl

theorem countResponse_respond (type : ResponseType) (total : Nat) (page : List α) :
    countResponse (respond type total page) = page.length := by
  cases type <;> rfl

theorem apply_respond (f : ListerFieldFilter α β) (total : Nat) (page : List α) :
    f.apply (respond f.type total page) = (page.filter f.passes).map f.make := by
  have hitems : (respond f.type total page).items = page := by
    cases f.type <;> rfl
  rw [ListerFieldFilter.apply, hitems]

/-- **One page.** -/
theorem next_serve (h : At items rest l) (hlimit : 0 < limit) :
    ∃ l', l.next f.apply (serve f.type limit items) =
        (l', .ok (((rest.take limit).filter f.passes).map f.make)) ∧
      (rest ≠ [] → At items (rest.drop limit) l') := by
  have herr : ¬ l.err.isSome = true := by
    rw [h.err]
    exact Bool.false_ne_true
  unfold next
  rw [if_neg herr]
  by_cases hend : (l.total.any fun total => decide (total ≤ l.offset)) = true
  · -- the whole list was served
    rw [if_pos hend]
    obtain ⟨total, htotal, hle⟩ := (Option.any_eq_true _ _).1 hend
    rw [h.total total htotal, decide_eq_true_eq] at hle
    have hrest : rest = [] := by
      rw [← h.rest]
      exact List.drop_eq_nil_of_le hle
    rw [hrest, List.take_nil]
    exact ⟨l, rfl, fun hne => absurd rfl hne⟩
  · rw [if_neg hend]
    simp only [serve, h.rest, countResponse_respond, total_respond, apply_respond]
    by_cases hempty : (rest.take limit).length = 0
    · rw [if_pos hempty]
      have hrest : rest = [] := by
        rw [List.length_take] at hempty
        exact List.length_eq_zero_iff.1 (by omega)
      rw [hrest, List.take_nil]
      exact ⟨_, rfl, fun hne => absurd rfl hne⟩
    · rw [if_neg hempty]
      refine ⟨_, rfl, fun _ => ⟨?_, ?_, h.err⟩⟩
      · show items.drop (l.offset + (rest.take limit).length) = rest.drop limit
        rw [← List.drop_drop, h.rest, List.length_take]
        rcases Nat.le_total limit rest.length with hle | hle
        · rw [Nat.min_eq_left hle]
        · rw [Nat.min_eq_right hle, List.drop_length, List.drop_eq_nil_of_le hle]
      · rintro total htotal
        exact (Option.some.inj htotal).symm

/-- More fuel changes nothing. -/
theorem iterate_mono {filter : ApiResponse α → List β} {request : Nat → Except E (ApiResponse α)}
    {fuel fuel' : Nat} {r : List β × Option E} (h : iterate filter request fuel l = some r)
    (hle : fuel ≤ fuel') : iterate filter request fuel' l = some r := by
  induction fuel generalizing fuel' l r with
  | zero => cases h
  | succ fuel ih =>
      obtain ⟨n, rfl⟩ := Nat.exists_eq_add_of_le' hle
      show iterate filter request (n + fuel + 1) l = some r
      cases hnext : l.next filter request with
      | mk l' page =>
          cases page with
          | error err =>
              simp only [iterate, hnext] at h ⊢
              exact h
          | ok page =>
              cases page with
              | nil =>
                  simp only [iterate, hnext] at h ⊢
                  exact h
              | cons item page =>
                  simp only [iterate, hnext, Option.map_eq_some_iff] at h ⊢
                  obtain ⟨r', hr', rfl⟩ := h
                  exact ⟨r', ih hr' (Nat.le_add_left ..), rfl⟩

/-- **The pages from somewhere on**, by induction on what is left of the list. -/
theorem iterate_serve (hlimit : 0 < limit) (fuel : Nat) (h : At items rest l)
    (hfuel : rest.length + 1 ≤ fuel) :
    ∃ ys, iterate f.apply (serve f.type limit items) fuel l = some (ys, none) ∧
      ys <+: (rest.filter f.passes).map f.make ∧
      (ys = (rest.filter f.passes).map f.make ↔ NoGap limit f.passes rest) := by
  induction fuel generalizing rest l with
  | zero => exact absurd hfuel (Nat.not_succ_le_zero _)
  | succ fuel ih =>
      obtain ⟨l', hnext, hbehind⟩ := next_serve (f := f) h hlimit
      have hsplit : (rest.filter f.passes).map f.make =
          ((rest.take limit).filter f.passes).map f.make ++
            ((rest.drop limit).filter f.passes).map f.make := by
        rw [← List.map_append, ← List.filter_append, List.take_append_drop]
      cases hfirst : ((rest.take limit).filter f.passes).map f.make with
      | nil =>
          -- the iterator takes the page for the end
          rw [hfirst] at hnext
          refine ⟨[], ?_, List.nil_prefix, ?_⟩
          · simp only [iterate, hnext]
          · rw [noGap_iff_of_first_empty (List.map_eq_nil_iff.1 hfirst), eq_comm,
              List.map_eq_nil_iff]
      | cons item page =>
          have hsome : ∃ a ∈ rest.take limit, f.passes a = true := by
            by_contra hnone
            rw [← filter_eq_nil_iff_not_exists (f := f)] at hnone
            rw [hnone] at hfirst
            cases hfirst
          have hne : rest ≠ [] := by
            rintro rfl
            rw [List.take_nil] at hfirst
            cases hfirst
          have hshort : (rest.drop limit).length + 1 ≤ fuel := by
            have hpos := List.length_pos_iff.2 hne
            rw [List.length_drop]
            omega
          obtain ⟨ys, hys, hprefix, hiff⟩ := ih (hbehind hne) hshort
          rw [hfirst] at hnext hsplit
          refine ⟨item :: page ++ ys, ?_, ?_, ?_⟩
          · simp only [iterate, hnext, hys, Option.map_some]
          · rw [hsplit]
            exact (List.prefix_append_right_inj _).2 hprefix
          · rw [hsplit, List.append_cancel_left_eq, hiff]
            exact ⟨fun hbehind => noGap_iff.2 ⟨fun _ => hsome, hbehind⟩, fun h => (noGap_iff.1 h).2⟩

end

/-- **What a lister yields.** The iteration ends, within a number of pages that does not exceed the
length of the list by more than one. It yields every item that passes the filter, once and in order,
exactly if each page in front of such an item has one itself. -/
theorem iterate_iff (f : ListerFieldFilter α β) (limit : Nat) (items : List α)
    (hlimit : 0 < limit) :
    ∃ ys, (∀ fuel, items.length + 1 ≤ fuel →
        iterate f.apply (serve f.type limit items) fuel (new : ListerImpl E) = some (ys, none)) ∧
      (ys = (items.filter f.passes).map f.make ↔ NoGap limit f.passes items) := by
  obtain ⟨ys, hys, hprefix, hiff⟩ :=
    iterate_serve (f := f) hlimit (items.length + 1) (at_new (E := E) items) (Nat.le_refl _)
  exact ⟨ys, fun fuel hfuel => iterate_mono hys hfuel, hiff⟩

/-- Two pages with a bucket on each. -/
theorem iterate_iff_buckets :
    let f := listKvs "c"
    let stream : String → StreamInfo := fun name => ⟨name, none, none, none, none⟩
    let items := [stream "KV_a", stream "s", stream "KV_b"]
    iterate f.apply (serve f.type 2 items) 4 (new : ListerImpl Unit) =
      some ([stream "KV_a", stream "KV_b"].map f.make, none) := by
  intro f stream items
  obtain ⟨ys, hys, hiff⟩ := iterate_iff (E := Unit) f 2 items (by decide)
  have hbehind : NoGap 2 f.passes [stream "KV_b"] := by
    refine noGap_iff.2 ⟨?_, noGap_nil⟩
    rintro ⟨a, ha, -⟩
    cases ha
  have hgap : NoGap 2 f.passes items :=
    noGap_iff.2 ⟨fun _ => ⟨stream "KV_a", List.mem_cons_self, by decide +kernel⟩, hbehind⟩
  rw [hys 4 (Nat.le_refl _), hiff.2 hgap]
  decide +kernel

/-- A bucket behind a page of other streams is not listed. -/
theorem not_iterate :
    ¬ ∀ (f : ListerFieldFilter StreamInfo (StreamInfo × String)) (limit : Nat) (items : List
      StreamInfo),
        0 < limit → ∃ fuel, iterate f.apply (serve f.type limit items) fuel
        (new : ListerImpl Unit) =
          some ((items.filter f.passes).map f.make, none) := by
  intro h
  let f := listKvs "c"
  let stream : String → StreamInfo := fun name => ⟨name, none, none, none, none⟩
  let items := [stream "s", stream "KV_a"]
  obtain ⟨fuel, hyields⟩ := h f 1 items (by decide)
  have hends : iterate f.apply (serve f.type 1 items) 1 (new : ListerImpl Unit) = some
      ([], none) := by
    decide +kernel
  have hall : some (([] : List (StreamInfo × String)), (none : Option Unit)) =
      some ((items.filter f.passes).map f.make, none) := by
    rcases Nat.le_total fuel 1 with hle | hle
    · exact hends.symm.trans (iterate_mono hyields hle)
    · exact (iterate_mono hends hle).symm.trans hyields
  revert hall
  decide +kernel

end ListerImpl

end NatsClient.JetStream.Listing
