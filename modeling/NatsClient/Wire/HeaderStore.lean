import NatsClient.Wire.Headers

/-!
# The store of headers

The calls of `MsgHdrsImpl` as a store of values under keys: with a match, one key finds several of
the keys that are stored (`found`).

* `store_laws`: what is read after `set`, `append` and `delete`, and that the keys that are not
  found keep their values, as long as no call has too many arguments;
* `rejected_atomic_iff`: a call that refuses its key or its value leaves the headers as they were,
  except a `set` that found a key: that one is gone by then.
-/

set_option autoImplicit false

namespace NatsClient.Wire

open NatsClient.Foundation

namespace MsgHdrs

section

variable [Engine]

/-! ## Reading -/

/-- A value of the first key that is found, or the empty text. -/
def pick (choose : List String → Option String) (h : MsgHdrs) (k : String) (m : Match) :
    Except HeaderError String :=
  match h.findKeys k m with
  | .ok keys => .ok (((keys.head?.bind h.headers.get).bind choose).getD "")
  | .error e => .error e

/-- `get(k, match)`. -/
def get : MsgHdrs → String → Match → Except HeaderError String := pick List.head?

/-- `last(k, match)`. -/
def last : MsgHdrs → String → Match → Except HeaderError String := pick List.getLast?

/-- `has(k, match)`. -/
def has (h : MsgHdrs) (k : String) (m : Match) : Except HeaderError Bool :=
  match h.findKeys k m with
  | .ok keys => .ok (decide (0 < keys.length))
  | .error e => .error e

/-- The calls that edit headers. -/
inductive Edit where
  | set (k v : String) (m : Match)
  | append (k v : String) (m : Match)
  | delete (k : String) (m : Match)
deriving DecidableEq, Repr

/-- A call, with what it throws. -/
def edit (h : MsgHdrs) : Edit → MsgHdrs × Option HeaderError
  | .set k v m => h.set k v m
  | .append k v m => h.append k v m
  | .delete k m => h.delete k m

/-- The headers behind some calls, each of which may have thrown. -/
def edits (h : MsgHdrs) (es : List Edit) : MsgHdrs := es.foldl (fun h e => (h.edit e).1) h

/-! ## The keys that are found -/

/-- A stored key is found under a key. -/
def found (k : String) : Match → String → Bool
  | .exact, k' => k' = k
  | .canonicalMIME, k' =>
      match canonicalMIMEHeaderKey k with
      | .ok ck => k' = ck
      | .error _ => false
  | .ignoreCase, k' => Engine.toLowerCase k = Engine.toLowerCase k'

end

section

variable {h h' : MsgHdrs} {k k' ck v value : String} {m : Match}

/-- The case of a letter is decided once. -/
theorem case_case {c : Char} (hc : isKeyChar c = true) :
    c.toUpper.toUpper = c.toUpper ∧ c.toLower.toLower = c.toLower ∧
      (c.toUpper = '-' ↔ c = '-') ∧ (c.toLower = '-' ↔ c = '-') :=
  of_ascii (P := fun c => isKeyChar c = true → c.toUpper.toUpper = c.toUpper ∧
    c.toLower.toLower = c.toLower ∧
    (c.toUpper = '-' ↔ c = '-') ∧ (c.toLower = '-' ↔ c = '-')) (by decide) (lt_of_isKeyChar hc) hc

/-- A canonical key is its own canonical form. -/
theorem canonicalKey_canonical {upper : Bool} {cs cs' : List Char}
    (hcs : canonicalKey upper cs = .ok cs') : canonicalKey upper cs' = .ok cs' := by
  induction cs generalizing upper cs' with
  | nil =>
      cases hcs
      rfl
  | cons c cs ih =>
      rw [canonicalKey] at hcs
      split at hcs
      · next hc =>
          cases hrest : canonicalKey (c = '-') cs with
          | error e =>
              rw [hrest] at hcs
              cases hcs
          | ok rest =>
              rw [hrest] at hcs
              cases hcs
              obtain ⟨hupper, hlower, hdash, hdash'⟩ := case_case hc
              have hchar := isKeyChar_case hc
              cases upper with
              | true =>
                  simp only [if_true, canonicalKey, hchar.1, hdash, ih hrest, hupper]
              | false =>
                  simp only [Bool.false_eq_true, if_false, canonicalKey, hchar.2, if_true,
                    hdash', ih hrest, hlower]
      · cases hcs

variable [Engine]

theorem canonicalMIMEHeaderKey_canonical (hck : canonicalMIMEHeaderKey k = .ok ck) :
    canonicalMIMEHeaderKey ck = .ok ck := by
  obtain ⟨cs, hcs, hle, rfl⟩ := canonicalMIMEHeaderKey_eq_ok.1 hck
  refine canonicalMIMEHeaderKey_eq_ok.2 ⟨cs, ?_, hle, rfl⟩
  rw [String.toList_ofList, canonicalKey_canonical hcs]

/-- **What `findKeys` finds**; it throws where the key is to be made canonical and cannot. -/
theorem findKeys_cases (h : MsgHdrs) (k : String) (m : Match) :
    h.findKeys k m = .ok (h.headers.keys.filter (found k m)) ∨
      (∃ e, h.findKeys k m = .error e) ∧ ¬ FitKey k ∧ ∀ k', found k m k' = false := by
  cases m with
  | exact => exact .inl rfl
  | ignoreCase => exact .inl rfl
  | canonicalMIME =>
      have hspec := canonicalMIMEHeaderKey_spec k
      cases hck : canonicalMIMEHeaderKey k with
      | ok ck =>
          refine .inl ?_
          rw [findKeys, hck]
          refine congrArg Except.ok (List.filter_congr fun k' _ => ?_)
          simp only [found, hck]
      | error e =>
          refine .inr ⟨⟨e, by rw [findKeys, hck]⟩, fun hk => ?_, fun k' => ?_⟩
          · obtain ⟨ck, hck'⟩ := hspec.2 hk
            rw [hck] at hck'
            cases hck'
          · simp only [found, hck]

theorem findKeys_eq (hk : FitKey k) (h : MsgHdrs) (m : Match) :
    h.findKeys k m = .ok (h.headers.keys.filter (found k m)) := by
  rcases h.findKeys_cases k m with heq | ⟨-, hnot, -⟩
  · exact heq
  · exact absurd hk hnot

/-- The key that an append uses where it finds none. -/
def ownKey (k : String) (m : Match) : String :=
  match m with
  | .canonicalMIME => ((canonicalMIMEHeaderKey k).toOption).getD k
  | .exact | .ignoreCase => k

theorem found_ownKey (hk : FitKey k) (m : Match) : found k m (ownKey k m) = true := by
  obtain ⟨ck, hck⟩ := (canonicalMIMEHeaderKey_spec k).2 hk
  cases m with
  | exact => simp only [found, ownKey, decide_true]
  | ignoreCase => simp only [found, ownKey, decide_true]
  | canonicalMIME => simp only [found, ownKey, hck, Except.toOption, Option.getD_some, decide_true]

/-- **What an append does**: it goes to the first key that is found, or else makes one. -/
theorem append_eq (hk : FitKey k) (hv : validHeaderValue v = .ok value) (h : MsgHdrs) (m : Match) :
    let k' := (h.headers.keys.filter (found k m)).head?.getD (ownKey k m)
    h.append k v m =
      ({ h with headers := h.headers.set k' ((h.headers.get k').getD [] ++ [value]) }, none) := by
  obtain ⟨ck, hck⟩ := (canonicalMIMEHeaderKey_spec k).2 hk
  have hown : (if m = .canonicalMIME then ck else k) = ownKey k m := by
    cases m with
    | exact => rfl
    | ignoreCase => rfl
    | canonicalMIME => simp only [ownKey, hck, Except.toOption, Option.getD_some, if_true]
  have hkeys : h.findKeys (ownKey k m) m = .ok (h.headers.keys.filter (found k m)) := by
    cases m with
    | exact => rfl
    | ignoreCase => rfl
    | canonicalMIME =>
        have hself : ownKey k .canonicalMIME = ck :=
          by simp only [ownKey, hck, Except.toOption, Option.getD_some]
        rw [hself, findKeys, canonicalMIMEHeaderKey_canonical hck]
        refine congrArg Except.ok (List.filter_congr fun k' _ => ?_)
        simp only [found, hck]
  simp only [append, hck, hown, hkeys, hv]

end

/-! ## The laws -/

/-- What is stored of a value. -/
def stored (v : String) : String := String.ofList (trim v.toList)

theorem validHeaderValue_eq {v : String} (hv : '\r' ∉ v.toList ∧ '\n' ∉ v.toList) :
    validHeaderValue v = .ok (stored v) := by
  rw [validHeaderValue, if_neg (not_or.2 hv), stored]

/-- The number of values of a key. -/
def count (h : MsgHdrs) (k : String) : Nat := ((h.headers.get k).getD []).length

/-- The headers where a key has one more value, behind those it had. -/
def taking (h : MsgHdrs) (k value : String) : MsgHdrs :=
  { h with headers := h.headers.set k ((h.headers.get k).getD [] ++ [value]) }

theorem get_taking (h : MsgHdrs) (k value : String) :
    (h.taking k value).headers.get k = some ((h.headers.get k).getD [] ++ [value]) := by
  rw [taking, OrderedMap.get_set, if_pos rfl]

theorem get_taking_of_ne (h : MsgHdrs) {k k' : String} (value : String) (hne : k' ≠ k) :
    (h.taking k value).headers.get k' = h.headers.get k' := by
  rw [taking, OrderedMap.get_set, if_neg hne]

theorem count_taking (h : MsgHdrs) (k value : String) :
    (h.taking k value).count k = h.count k + 1 := by
  rw [count, get_taking, Option.getD_some, List.length_append, List.length_singleton, count]

theorem count_taking_of_ne (h : MsgHdrs) {k k' : String} (value : String) (hne : k' ≠ k) :
    (h.taking k value).count k' = h.count k' := by
  rw [count, get_taking_of_ne h value hne, count]

section

variable [Engine]

/-- The keys that are not found keep their values. -/
def Spares (k : String) (m : Match) (h h' : MsgHdrs) : Prop :=
  ∀ k', found k m k' = false → h'.headers.get k' = h.headers.get k'

/-- The values of the keys that are found. -/
def listed (h : MsgHdrs) (k : String) (m : Match) : List String :=
  (h.headers.keys.filter (found k m)).flatMap fun k => (h.headers.get k).getD []

/-- The values of no key that is found are too many for a call. -/
def Within (h : MsgHdrs) (k : String) (m : Match) : Prop :=
  ∀ k' ∈ h.headers.keys.filter (found k m), h.count k' ≤ Engine.maxArguments

/-- No call has too many arguments: the key is not too long, and neither are the lists of values
that are found, the first of which has room for one more. -/
structure Roomy (h : MsgHdrs) (k : String) (m : Match) : Prop where
  key : k.length ≤ Engine.maxArguments
  within : h.Within k m
  first : ∀ k' ∈ (h.headers.keys.filter (found k m)).head?, h.count k' < Engine.maxArguments

/-- The laws of the store, for one key, value and match. -/
structure Laws (h : MsgHdrs) (k v : String) (m : Match) : Prop where
  set : ∃ h', h.set k v m = (h', none) ∧ h'.values k m = .ok [stored v] ∧ Spares k m h h'
  append : ∃ h', h.append k v m = (h', none) ∧ h'.last k m = .ok (stored v) ∧ Spares k m h h' ∧
    ∃ before behind, h.values k m = .ok (before ++ behind) ∧
      h'.values k m = .ok (before ++ stored v :: behind)
  get : ∃ vs, h.values k m = .ok vs ∧ h.get k m = .ok (vs.head?.getD "")
  delete : ∃ h', h.delete k m = (h', none) ∧ h'.has k m = .ok false ∧ Spares k m h h'

section

variable {h h' : MsgHdrs} {k k' v value : String} {m : Match}

/-- The values are read unless one of the lists is too long. -/
theorem pushed_eq_ok {ks vs : List String} :
    h.pushed ks = .ok vs ↔ (∀ k ∈ ks, h.count k ≤ Engine.maxArguments) ∧
      vs = ks.flatMap fun k => (h.headers.get k).getD [] := by
  induction ks generalizing vs with
  | nil => simp [pushed, eq_comm]
  | cons k ks ih =>
      rw [pushed, List.forall_mem_cons, List.flatMap_cons, count]
      by_cases hle : ((h.headers.get k).getD []).length ≤ Engine.maxArguments
      · rw [spread_of_le hle]
        dsimp only
        cases hrest : h.pushed ks with
        | ok rest =>
            obtain ⟨hlists, hsame⟩ := ih.1 hrest
            dsimp only
            rw [Except.ok.injEq, hsame, and_iff_right ⟨hle, hlists⟩, eq_comm]
        | error e =>
            refine iff_of_false (fun heq => by cases heq) ?_
            rintro ⟨⟨-, hlists⟩, -⟩
            rw [ih.2 ⟨hlists, rfl⟩] at hrest
            cases hrest
      · rw [spread_eq_none_iff.2 (Nat.not_le.1 hle)]
        refine iff_of_false (fun heq => by cases heq) ?_
        rintro ⟨⟨hle', -⟩, -⟩
        exact hle hle'

theorem values_eq_ok {vs : List String} (hk : FitKey k) :
    h.values k m = .ok vs ↔ h.Within k m ∧ vs = h.listed k m := by
  rw [values, findKeys_eq hk]
  exact pushed_eq_ok

theorem pick_eq (hk : FitKey k) (choose : List String → Option String) (h : MsgHdrs) (m : Match) :
    pick choose h k m =
      .ok
      ((((h.headers.keys.filter (found k m)).head?.bind h.headers.get).bind choose).getD "") := by
  rw [pick, findKeys_eq hk]

theorem spares_taking {k₀ : String} (hfound : found k m k₀ = true) (h : MsgHdrs)
    (value : String) : Spares k m h (h.taking k₀ value) := by
  intro k' hnot
  apply get_taking_of_ne
  rintro rfl
  rw [hfound] at hnot
  cases hnot

/-- A new key takes a value: it is the only one of those that are found. -/
theorem taking_new (hk : FitKey k) {k₀ : String} (hfound : found k m k₀ = true)
    (hkeys : h.headers.keys.filter (found k m) = []) (value : String) :
    (h.taking k₀ value).last k m = .ok value ∧ h.listed k m = [] ∧
      (h.taking k₀ value).listed k m = [value] ∧ (h.taking k₀ value).Within k m ∧
      h.Within k m := by
  have hnew : k₀ ∉ h.headers.keys := fun hmem =>
    (List.eq_nil_iff_forall_not_mem.1 hkeys) k₀ (List.mem_filter.2 ⟨hmem, hfound⟩)
  have hkeys' : (h.taking k₀ value).headers.keys.filter (found k m) = [k₀] := by
    rw [taking, OrderedMap.keys_set_of_new hnew, List.filter_append, hkeys, List.nil_append,
      List.filter_singleton, hfound, cond_true]
  have hnone : h.headers.get k₀ = none := by
    cases hold : h.headers.get k₀ with
    | none => rfl
    | some vs => exact absurd (OrderedMap.mem_keys.2 ⟨vs, hold⟩) hnew
  have hget : (h.taking k₀ value).headers.get k₀ = some [value] := by
    rw [get_taking, hnone]
    rfl
  have hzero : h.count k₀ = 0 := by
    rw [count, hnone]
    rfl
  have henough : 65536 ≤ Engine.maxArguments := Engine.enough
  refine ⟨?_, ?_, ?_, ?_, ?_⟩
  · rw [last, pick_eq hk, hkeys']
    simp [hget]
  · rw [listed, hkeys]
    rfl
  · rw [listed, hkeys']
    simp [hget]
  · intro k' hk'
    rw [hkeys', List.mem_singleton] at hk'
    rw [hk', count_taking]
    omega
  · intro k' hk'
    rw [hkeys] at hk'
    cases hk'

/-- The first of the keys that are found takes a value: the values of the others are behind it. -/
theorem taking_stored (hk : FitKey k) {k₀ : String} {ks : List String}
    (hkeys : h.headers.keys.filter (found k m) = k₀ :: ks) (value : String) :
    (h.taking k₀ value).last k m = .ok value ∧
      (∃ before behind, h.listed k m = before ++ behind ∧
        (h.taking k₀ value).listed k m = before ++ value :: behind) ∧
      ((h.taking k₀ value).Within k m ↔ h.Within k m ∧ h.count k₀ < Engine.maxArguments) := by
  have hmem : k₀ ∈ h.headers.keys := by
    have hin : k₀ ∈ h.headers.keys.filter (found k m) := hkeys ▸ List.mem_cons_self
    exact (List.mem_filter.1 hin).1
  have hkeys' : (h.taking k₀ value).headers.keys.filter (found k m) = k₀ :: ks := by
    rw [taking, OrderedMap.keys_set_of_mem hmem, hkeys]
  have hne : ∀ k' ∈ ks, k' ≠ k₀ := by
    have hnodup : (k₀ :: ks).Nodup := hkeys ▸ h.headers.nodup.filter _
    intro k' hk' heq
    exact (List.nodup_cons.1 hnodup).1 (heq ▸ hk')
  have hrest : (ks.flatMap fun k => ((h.taking k₀ value).headers.get k).getD []) =
      ks.flatMap fun k => (h.headers.get k).getD [] := by
    apply List.flatMap_congr
    intro k' hk'
    rw [get_taking_of_ne h value (hne k' hk')]
  have hcounts : ∀ k' ∈ ks, (h.taking k₀ value).count k' = h.count k' := fun k' hk' =>
    count_taking_of_ne h value (hne k' hk')
  refine ⟨?_, ⟨(h.headers.get k₀).getD [], ks.flatMap fun k => (h.headers.get k).getD [], ?_, ?_⟩,
    ?_⟩
  · rw [last, pick_eq hk, hkeys']
    simp [get_taking]
  · rw [listed, hkeys]
    rfl
  · rw [listed, hkeys', List.flatMap_cons, hrest, get_taking, Option.getD_some, List.append_assoc]
    rfl
  · rw [Within, Within, hkeys', hkeys, List.forall_mem_cons, List.forall_mem_cons, count_taking]
    constructor
    · rintro ⟨hfirst, hlists⟩
      exact ⟨⟨by omega, fun k' hk' => hcounts k' hk' ▸ hlists k' hk'⟩, by omega⟩
    · rintro ⟨⟨-, hlists⟩, hfirst⟩
      exact ⟨hfirst, fun k' hk' => (hcounts k' hk').symm ▸ hlists k' hk'⟩

/-- **What an append does** to what is read. -/
theorem append_spec (hk : FitKey k) (hv : validHeaderValue v = .ok value) (h : MsgHdrs)
    (m : Match) :
    ∃ h', h.append k v m = (h', none) ∧ h'.last k m = .ok value ∧ Spares k m h h' ∧
      (∃ before behind, h.listed k m = before ++ behind ∧
        h'.listed k m = before ++ value :: behind) ∧
      (h'.Within k m ↔ h.Within k m ∧
        ∀ k' ∈ (h.headers.keys.filter (found k m)).head?, h.count k' < Engine.maxArguments) := by
  refine ⟨_, append_eq hk hv h m, ?_⟩
  cases hkeys : h.headers.keys.filter (found k m) with
  | nil =>
      have hfound := found_ownKey hk m
      obtain ⟨hlast, hbefore, hbehind, hwithin', hwithin⟩ := taking_new hk hfound hkeys value
      refine ⟨hlast, spares_taking hfound h value, ⟨[], [], hbefore, hbehind⟩, ?_⟩
      exact iff_of_true hwithin' ⟨hwithin, fun k' hk' => by cases hk'⟩
  | cons k₀ ks =>
      have hin : k₀ ∈ h.headers.keys.filter (found k m) := hkeys ▸ List.mem_cons_self
      obtain ⟨hlast, hlisted, hwithin⟩ := taking_stored hk hkeys value
      refine ⟨hlast, spares_taking (List.mem_filter.1 hin).2 h value, hlisted, ?_⟩
      refine hwithin.trans (and_congr_right fun _ => ?_)
      simp only [List.head?_cons, Option.mem_some_iff, forall_eq']

/-- A delete takes off just the keys that are found. -/
theorem delete_spec (hk : FitKey k) (h : MsgHdrs) (m : Match) :
    ∃ h', h.delete k m = (h', none) ∧ h'.headers.keys.filter (found k m) = [] ∧
      Spares k m h h' := by
  refine ⟨{ h with headers := h.headers.deleteAll (h.headers.keys.filter (found k m)) }, ?_, ?_, ?_⟩
  · rw [delete, findKeys_eq hk]
  · show ((h.headers.deleteAll _).keys).filter _ = _
    rw [OrderedMap.keys_deleteAll, List.filter_filter, List.filter_eq_nil_iff]
    intro k' hmem hboth
    obtain ⟨hfound, hnot⟩ := Bool.and_eq_true_iff.1 hboth
    exact of_decide_eq_true hnot (List.mem_filter.2 ⟨hmem, hfound⟩)
  · intro k' hnot
    show (h.headers.deleteAll _).get k' = _
    rw [OrderedMap.get_deleteAll, if_neg]
    intro hmem
    rw [(List.mem_filter.1 hmem).2] at hnot
    cases hnot

/-- A `set` under the key itself leaves it with the one value. -/
theorem set_exact (hk : FitKey k) (hv : validHeaderValue v = .ok value) (h : MsgHdrs) :
    ∃ h', h.set k v .exact = (h', none) ∧ h'.headers.get k = some [value] := by
  obtain ⟨h₁, hdelete, hnone, -⟩ := delete_spec hk h .exact
  have hget : h₁.headers.get k = none := by
    cases hold : h₁.headers.get k with
    | none => rfl
    | some vs =>
        have hin := List.mem_filter.2 ⟨OrderedMap.mem_keys.2 ⟨vs, hold⟩, found_ownKey hk .exact⟩
        rw [hnone] at hin
        cases hin
  refine ⟨{ h₁ with headers := h₁.headers.set k [value] }, ?_, ?_⟩
  · have happend := append_eq hk hv h₁ .exact
    simp only [hnone, List.head?_nil, Option.getD_none, ownKey, hget, List.nil_append] at happend
    rw [set, hdelete]
    exact happend
  · show (h₁.headers.set k [value]).get k = _
    rw [OrderedMap.get_set, if_pos rfl]

theorem set_laws (hk : FitKey k) (hv : validHeaderValue v = .ok value) (h : MsgHdrs) (m : Match) :
    ∃ h', h.set k v m = (h', none) ∧ h'.values k m = .ok [value] ∧ Spares k m h h' := by
  obtain ⟨h₁, hdelete, hnone, hspares⟩ := delete_spec hk h m
  obtain ⟨h', happend, -, hspares', ⟨before, behind, hvalues, hvalues'⟩, hwithin⟩ :=
    append_spec hk hv h₁ m
  rw [listed, hnone] at hvalues
  obtain ⟨rfl, rfl⟩ := List.append_eq_nil_iff.1 hvalues.symm
  have hfew : h'.Within k m := by
    refine hwithin.2 ⟨fun k' hk' => ?_, fun k' hk' => ?_⟩
    · rw [hnone] at hk'
      cases hk'
    · rw [hnone] at hk'
      cases hk'
  refine ⟨h', ?_, (values_eq_ok hk).2 ⟨hfew, hvalues'.symm⟩,
    fun k' hnot => (hspares' k' hnot).trans (hspares k' hnot)⟩
  rw [set, hdelete]
  exact happend

/-- The first value is read. -/
theorem get_eq (hk : FitKey k) (hf : h.Fit) (m : Match) :
    h.get k m = .ok ((h.listed k m).head?.getD "") := by
  rw [get, pick_eq hk, listed]
  cases hkeys : h.headers.keys.filter (found k m) with
  | nil => rfl
  | cons k₀ ks =>
      have hin : k₀ ∈ h.headers.keys.filter (found k m) := hkeys ▸ List.mem_cons_self
      obtain ⟨vs, hget⟩ := OrderedMap.mem_keys.1 (List.mem_filter.1 hin).1
      -- a key has a value
      obtain ⟨v, vs, rfl⟩ := List.exists_cons_of_ne_nil (hf k₀ vs hget).2.1
      simp [hget]

theorem Roomy.laws (hr : h.Roomy k m) (hf : h.Fit) (hk : ValidKey k)
    (hv : '\r' ∉ v.toList ∧ '\n' ∉ v.toList) : h.Laws k v m := by
  have hkey : FitKey k := ⟨hk, hr.key⟩
  have hvalue := validHeaderValue_eq hv
  have hlisted : h.values k m = .ok (h.listed k m) := (values_eq_ok hkey).2 ⟨hr.within, rfl⟩
  refine ⟨set_laws hkey hvalue h m, ?_, ⟨_, hlisted, get_eq hkey hf m⟩, ?_⟩
  · obtain ⟨h', happend, hlast, hspares, ⟨before, behind, hbefore, hbehind⟩, hwithin⟩ :=
      append_spec hkey hvalue h m
    refine ⟨h', happend, hlast, hspares, before, behind, ?_, ?_⟩
    · rw [hlisted, hbefore]
    · exact (values_eq_ok hkey).2 ⟨hwithin.2 ⟨hr.within, hr.first⟩, hbehind.symm⟩
  · obtain ⟨h', hdelete, hnone, hspares⟩ := delete_spec hkey h m
    refine ⟨h', hdelete, ?_, hspares⟩
    rw [has, findKeys_eq hkey, hnone]
    rfl

theorem Fit.edit (hf : h.Fit) (e : Edit) : (h.edit e).1.Fit := by
  cases e with
  | set k v m => exact hf.set k v m
  | append k v m => exact hf.append k v m
  | delete k m => exact hf.delete k m

theorem Fit.edits (hf : h.Fit) (es : List Edit) : (h.edits es).Fit := by
  induction es generalizing h with
  | nil => exact hf
  | cons e es ih => exact ih (hf.edit e)

/-- What an append throws for. -/
theorem append_throws_iff (h : MsgHdrs) (k v : String) (m : Match) :
    (h.append k v m).2 ≠ none ↔ ¬ (FitKey k ∧ '\r' ∉ v.toList ∧ '\n' ∉ v.toList) := by
  constructor
  · rintro hthrows ⟨hk, hv⟩
    rw [append_eq hk (validHeaderValue_eq hv)] at hthrows
    exact hthrows rfl
  · intro hinvalid hnone
    rcases h.append_cases k v m with ⟨e, heq⟩ | ⟨ck, keys, value, hck, -, hvalue, -⟩
    · rw [heq] at hnone
      cases hnone
    · rw [validHeaderValue] at hvalue
      split at hvalue
      · cases hvalue
      · next hlines =>
          exact hinvalid ⟨(canonicalMIMEHeaderKey_spec k).1 ⟨ck, hck⟩, not_or.1 hlines⟩

/-- An append that does not throw has a key that is fit. -/
theorem fitKey_of_append (happend : h.append k v m = (h', none)) : FitKey k := by
  by_contra hnot
  refine (append_throws_iff h k v m).2 (fun hboth => hnot hboth.1) ?_
  rw [happend]

theorem Laws.roomy (hl : h.Laws k v m) (hv : '\r' ∉ v.toList ∧ '\n' ∉ v.toList) : h.Roomy k m := by
  obtain ⟨h', happend, -, -, before, behind, hvalues, hvalues'⟩ := hl.append
  have hk := fitKey_of_append happend
  obtain ⟨h'', happend', -, -, -, hwithin⟩ := append_spec hk (validHeaderValue_eq hv) h m
  obtain rfl : h'' = h' := (Prod.mk.inj (happend'.symm.trans happend)).1
  exact ⟨hk.2, (hwithin.1 ((values_eq_ok hk).1 hvalues').1).1,
    (hwithin.1 ((values_eq_ok hk).1 hvalues').1).2⟩

/-- **The laws of the store**, behind any calls, hold exactly if no call has too many arguments. -/
theorem store_laws (code : Int) (description : String) (es : List Edit) (k v : String) (m : Match)
    (hk : ValidKey k) (hv : '\r' ∉ v.toList ∧ '\n' ∉ v.toList) :
    (edits ⟨code, description, .empty⟩ es).Laws k v m ↔
      (edits ⟨code, description, .empty⟩ es).Roomy k m :=
  ⟨fun hl => hl.roomy hv, fun hr => hr.laws ((fit_empty code description).edits es) hk hv⟩

end

end

/-- Three spellings of a key, two of which are there. -/
theorem store_laws_variants :
    letI : Engine := .common
    (edits new [.set "x-id" "1" .exact, .set "X-Id" "2" .exact]).Laws "X-ID" " a: b " .ignoreCase ↔
      (edits new [.set "x-id" "1" .exact, .set "X-Id" "2" .exact]).Roomy "X-ID" .ignoreCase :=
  letI : Engine := .common
  store_laws 0 "" _ "X-ID" " a: b " .ignoreCase (List.all_eq_true.1 (by decide)) (by decide)

/-- A long key. -/
def longKey (n : Nat) : String := String.ofList (List.replicate n 'a')

theorem validKey_longKey (n : Nat) : ValidKey (longKey n) := by
  intro c hc
  rw [longKey, String.toList_ofList] at hc
  rw [List.eq_of_mem_replicate hc]
  rfl

theorem length_longKey (n : Nat) : (longKey n).length = n := by
  rw [longKey, String.length_ofList, List.length_replicate]

/-- A valid key that is too long to be made canonical is not taken. -/
theorem not_store_laws :
    letI : Engine := .common
    ¬ ∀ (code : Int) (description : String) (es : List Edit) (k v : String) (m : Match),
      ValidKey k → '\r' ∉ v.toList ∧ '\n' ∉ v.toList →
      (edits ⟨code, description, .empty⟩ es).Laws k v m := by
  let _ : Engine := .common
  intro hall
  have hlaws := hall 0 "" [] (longKey 200000) "" .exact (validKey_longKey _) (by decide)
  have hle := (hlaws.roomy (by decide)).key
  rw [length_longKey] at hle
  exact absurd hle (by decide)

/-! ## Calls that throw -/

section

variable [Engine]

/-- A call that builds headers, with what it throws. -/
def attempt (h : MsgHdrs) : Call → MsgHdrs × Option HeaderError
  | .append k v m => h.append k v m
  | .set k v m => h.set k v m

/-- A call throws what has the code `BAD_HEADER`: it does not take the key or the value. -/
def Refuses (h : MsgHdrs) (c : Call) : Prop :=
  ∃ e, (h.attempt c).2 = some e ∧ e.code = some "BAD_HEADER"

/-- A call that is refused has the same keys and values behind it as before it. -/
def RejectedAtomic (h : MsgHdrs) (c : Call) : Prop :=
  h.Refuses c → (h.attempt c).1.headers = h.headers

/-- A `set` that finds a key has a valid key and, unless the key is too long, a valid value. -/
def Guarded (h : MsgHdrs) : Call → Prop
  | .append _ _ _ => True
  | .set k v m =>
      (∃ k' ∈ h.headers.keys, found k m k' = true) →
        ValidKey k ∧ (k.length ≤ Engine.maxArguments → '\r' ∉ v.toList ∧ '\n' ∉ v.toList)

end

section

variable {h : MsgHdrs} {k v : String} {m : Match}

/-- The loop throws for a character. -/
theorem canonicalKey_error {upper : Bool} {cs : List Char} {e : HeaderError}
    (h : canonicalKey upper cs = .error e) : e.code = some "BAD_HEADER" := by
  induction cs generalizing upper with
  | nil => cases h
  | cons c cs ih =>
      rw [canonicalKey] at h
      split at h
      · cases hrest : canonicalKey (c = '-') cs with
        | ok rest =>
            rw [hrest] at h
            cases h
        | error e' =>
            rw [hrest] at h
            cases h
            exact ih hrest
      · cases h
        rfl

/-- Removing keys that are there is seen. -/
theorem deleteAll_eq_self_iff {keys : List String} (hkeys : ∀ k ∈ keys, k ∈ h.headers.keys) :
    h.headers.deleteAll keys = h.headers ↔ keys = [] := by
  constructor
  · intro hsame
    rw [List.eq_nil_iff_forall_not_mem]
    intro k hk
    obtain ⟨vs, hget⟩ := OrderedMap.mem_keys.1 (hkeys k hk)
    have hgone := OrderedMap.get_deleteAll h.headers keys k
    rw [hsame, hget, if_pos hk] at hgone
    cases hgone
  · rintro rfl
    rfl

variable [Engine]

theorem append_atomic (h : MsgHdrs) (k v : String) (m : Match)
    (hthrows : (h.append k v m).2 ≠ none) : (h.append k v m).1 = h := by
  rcases h.append_cases k v m with ⟨e, heq⟩ | ⟨_, _, _, _, _, _, _, _, heq⟩
  · rw [heq]
  · rw [heq] at hthrows
    exact absurd rfl hthrows

/-- **What an append refuses**: a key with a character that is not allowed and, the key being fit, a
value with a line break. A valid key that is too long is another error. -/
theorem append_refuses_iff (h : MsgHdrs) (k v : String) (m : Match) :
    (∃ e, (h.append k v m).2 = some e ∧ e.code = some "BAD_HEADER") ↔
      ¬ (ValidKey k ∧ (k.length ≤ Engine.maxArguments → '\r' ∉ v.toList ∧ '\n' ∉ v.toList)) := by
  by_cases hkey : ValidKey k
  · obtain ⟨cs, hcs⟩ := (canonicalKey_spec true k.toList).2 hkey
    have hlength : cs.length = k.length := by rw [length_canonicalKey hcs, String.length_toList]
    by_cases hle : k.length ≤ Engine.maxArguments
    · by_cases hv : '\r' ∉ v.toList ∧ '\n' ∉ v.toList
      · rw [append_eq ⟨hkey, hle⟩ (validHeaderValue_eq hv)]
        simp [hkey, hv]
      · have hvalue : validHeaderValue v = .error .badValue := by
          rw [validHeaderValue, if_pos (by tauto)]
        refine iff_of_true ⟨.badValue, ?_, rfl⟩ fun hboth => hv (hboth.2 hle)
        rcases h.append_cases k v m with ⟨e, heq⟩ | ⟨_, _, value, _, _, hok, _⟩
        · obtain ⟨ck, hck⟩ := (canonicalMIMEHeaderKey_spec k).2 ⟨hkey, hle⟩
          have hfit : FitKey (if m = .canonicalMIME then ck else k) := by
            split
            · exact fitKey_canonical hck
            · exact ⟨hkey, hle⟩
          simp only [append, hck, findKeys_eq hfit, hvalue]
        · rw [hvalue] at hok
          cases hok
    · have hlong : canonicalMIMEHeaderKey k = .error .tooManyArguments := by
        simp only [canonicalMIMEHeaderKey, hcs, spread_eq_none_iff.2 (hlength ▸ Nat.not_le.1 hle)]
      refine iff_of_false ?_ fun hnot => hnot ⟨hkey, fun hle' => absurd hle' hle⟩
      rintro ⟨e, he, hcode⟩
      simp only [append, hlong, Option.some.injEq] at he
      rw [← he] at hcode
      cases hcode
  · refine iff_of_true ?_ fun hboth => hkey hboth.1
    cases hcs : canonicalKey true k.toList with
    | ok cs => exact absurd ((canonicalKey_spec true k.toList).1 ⟨cs, hcs⟩) hkey
    | error e =>
        refine ⟨e, ?_, canonicalKey_error hcs⟩
        simp only [append, canonicalMIMEHeaderKey, hcs]

/-- **A call that is refused changes nothing exactly if it is no `set` that finds a key**: the key
is deleted before the key and the value are checked. -/
theorem rejected_atomic_iff (h : MsgHdrs) (c : Call) : h.RejectedAtomic c ↔ h.Guarded c := by
  cases c with
  | append k v m =>
      refine iff_of_true ?_ trivial
      rintro ⟨e, he, -⟩
      refine congrArg MsgHdrs.headers (append_atomic h k v m ?_)
      show (h.attempt (.append k v m)).2 ≠ none
      rw [he]
      exact Option.some_ne_none e
  | set k v m =>
      show ((∃ e, (h.set k v m).2 = some e ∧ e.code = some "BAD_HEADER") →
        (h.set k v m).1.headers = h.headers) ↔ _
      rcases h.findKeys_cases k m with hkeys | ⟨⟨e, herror⟩, -, hnone⟩
      · -- the keys that are found are deleted, and then the value is appended
        obtain ⟨h₁, hdelete, hheaders⟩ : ∃ h₁, h.delete k m = (h₁, none) ∧
            h₁.headers = h.headers.deleteAll (h.headers.keys.filter (found k m)) := by
          rw [delete, hkeys]
          exact ⟨_, rfl, rfl⟩
        have hset : h.set k v m = h₁.append k v m := by
          rw [set, hdelete]
        have hsame : h₁.headers = h.headers ↔ h.headers.keys.filter (found k m) = [] :=
          hheaders ▸ deleteAll_eq_self_iff fun k' hk' => (List.mem_filter.1 hk').1
        have hatomic : ∀ e, (h₁.append k v m).2 = some e → (h₁.append k v m).1 = h₁ :=
          fun e he => append_atomic h₁ k v m (by rw [he]; exact Option.some_ne_none e)
        rw [hset]
        constructor
        · rintro hrejected ⟨k', hmem, hfound⟩
          by_contra hinvalid
          obtain ⟨e, he, hcode⟩ := (append_refuses_iff h₁ k v m).2 hinvalid
          have heq := hrejected ⟨e, he, hcode⟩
          rw [hatomic e he] at heq
          have hnil := List.eq_nil_iff_forall_not_mem.1 (hsame.1 heq)
          exact hnil k' (List.mem_filter.2 ⟨hmem, hfound⟩)
        · rintro hguarded ⟨e, he, hcode⟩
          rw [hatomic e he]
          refine hsame.2 (List.filter_eq_nil_iff.2 fun k' hmem hfound => ?_)
          exact (append_refuses_iff h₁ k v m).1 ⟨e, he, hcode⟩ (hguarded ⟨k', hmem, hfound⟩)
      · -- the lookup itself fails, and nothing was deleted
        have hset : h.set k v m = (h, some e) := by
          rw [set, delete, herror]
        refine iff_of_true (fun _ => by rw [hset]) ?_
        rintro ⟨k', -, hfound⟩
        rw [hnone k'] at hfound
        cases hfound

end

/-- A `set` of a text with a line break loses the value that was there. -/
theorem not_rejected_atomic :
    letI : Engine := .common
    ¬ ∀ (h : MsgHdrs) (c : Call), h.RejectedAtomic c := by
  intro hall
  let h := @build .common [.set "a" "1" .exact]
  have hatomic := hall h (.set "a" "2\r\n" .exact) ⟨.badValue, by decide, rfl⟩
  have hget : h.headers.get "a" = some ["1"] := by decide
  rw [← hatomic] at hget
  revert hget
  decide

end MsgHdrs

end NatsClient.Wire
