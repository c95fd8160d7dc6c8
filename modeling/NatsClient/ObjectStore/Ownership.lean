import NatsClient.ObjectStore.Clients

/-!
# Owners of the nuids of a bucket

The invariant of the clients of a bucket where clashing calls do not overlap. Each published nuid
has an owner, the name whose entry carries it; a put makes its name the owner of its nuid, and only
a renaming update changes it (`own`). `World` says what this makes of the stream, `Fits` what a call
under way may count on, and `Inv` joins them.

* `publishes`, `purges`, `own_chunks`, `read`: the four kinds of stream operations keep the
  invariant;
* `of_advance`: what each of them has to show.
-/

set_option autoImplicit false

namespace NatsClient.ObjectStore

open Foundation Wire

variable {sha256 : StreamingHash}

namespace Call

/-- The name of a call that is going to purge old chunks, and the entry it read. -/
def target : Call → Option (String × ServerObjectInfo)
  | .put call (.writing (some old) _) => some (call.objMeta.name, old)
  | .put call (.published (some old)) => some (call.objMeta.name, old)
  | .put call (.purging old) => some (call.objMeta.name, old)
  | .delete name (.publishing info) => some (name, info)
  | .delete name (.purging info) => some (name, info)
  | _ => none

/-- The same, for a call that has published its own entry. -/
def purges : Call → Option (String × ServerObjectInfo)
  | .put call (.published (some old)) => some (call.objMeta.name, old)
  | .put call (.purging old) => some (call.objMeta.name, old)
  | .delete name (.purging info) => some (name, info)
  | _ => none

/-- The name of an update that has not published yet, and the entry it holds. -/
def holds : Call → Option (String × ServerObjectInfo)
  | .update name _ (.targeting info) => some (name, info)
  | .update name _ (.publishing info) => some (name, info)
  | _ => none

/-- The name that a renaming update is going to purge. -/
def dooms : Call → Option String
  | .update name _ .purging => some name
  | _ => none

/-- A put that has not published its entry. -/
def unborn : Call → Option PutCall
  | .put call .reading => some call
  | .put call (.writing _ _) => some call
  | .put call .cleaning => some call
  | _ => none

/-- The chunks a put has still to publish. -/
def left (sha256 : StreamingHash) : Call → Option (PutCall × List Bytes)
  | .put call .reading => some (call, (call.writer : Writer sha256).published)
  | .put call (.writing _ rest) => some (call, rest)
  | _ => none

/-- The names in what a call holds are those it works on. -/
def Named : Call → Prop
  | .delete name (.publishing info) => info.name = name ∧ info.isDeleted = true
  | .update name _ (.targeting info) => info.name = name
  | .update name change (.publishing info) => info.name = change.name.getD name
  | .update name change .purging => change.name.getD name ≠ name
  | _ => True

end Call

/-- What holds of a call when `own` tells the owners of the nuids that were published. -/
structure Fits (sha256 : StreamingHash) (own : String → Option String) (b : Bucket)
    (puts : List PutCall) (c : Call) : Prop where
  target : ∀ n info id, c.target = some (n, info) → info.nuid = some id → own id = some n
  purges : ∀ n info id e, c.purges = some (n, info) → info.nuid = some id → b.latest n = some e →
    e.nuid = some id → e.isDeleted = true
  holds : ∀ n info id, c.holds = some (n, info) → info.nuid = some id →
    own id = some n ∧ Complete sha256 b puts info id
  live : ∀ n info, c.holds = some (n, info) → info.isDeleted = false
  unborn : ∀ p, c.unborn = some p → own p.id = none ∧ p ∈ puts
  left : ∀ p rest, c.left sha256 = some (p, rest) →
    b.chunks p.id ++ rest = (p.writer : Writer sha256).published
  named : c.Named

/-- What holds of the bucket when the names in `doomed` are about to be purged by a rename. -/
structure World (sha256 : StreamingHash) (own : String → Option String) (b : Bucket)
    (puts : List PutCall) (doomed : String → Prop) : Prop where
  name_eq : ∀ n e, b.latest n = some e → e.name = n
  owned : ∀ n e id, b.latest n = some e → e.nuid = some id →
    (∃ m, own id = some m) ∧ (¬ doomed n → own id = some n)
  complete : ∀ n e id, b.latest n = some e → e.isDeleted = false → e.nuid = some id → ¬ doomed n →
    Complete sha256 b puts e id
  known : ∀ id n, own id = some n → ∃ p ∈ puts, p.id = id
  fresh : ∀ id, (∀ p ∈ puts, p.id ≠ id) → b.chunks id = []
  named : ∀ p ∈ puts, p.id ≠ "undefined"

namespace Clients

/-- A renaming update is going to purge the name. -/
def Doomed (s : Clients) (n : String) : Prop :=
  ∃ (i : Nat) (c : Call), s.calls[i]? = some c ∧ c.dooms = some n

/-- The invariant: nuids have owners, every call fits them, calls that clash do not overlap, and two
puts have not the same nuid. -/
structure Inv (sha256 : StreamingHash) (own : String → Option String) (s : Clients) : Prop where
  world : World sha256 own s.bucket s.puts s.Doomed
  fits : ∀ (i : Nat) (c : Call), s.calls[i]? = some c → Fits sha256 own s.bucket s.puts c
  apart : ∀ (i j : Nat) (c d : Call), i ≠ j → s.calls[i]? = some c → s.calls[j]? = some d →
    c.pending = true → d.pending = true → ¬ c.op.Clash d.op
  distinct : ∀ (i j : Nat) (c d : Call) (p q : PutCall), i ≠ j → s.calls[i]? = some c →
    s.calls[j]? = some d → c.unborn = some p → d.unborn = some q → p.id ≠ q.id

end Clients

section

variable {own own' : String → Option String} {b b' : Bucket} {puts : List PutCall} {c c' d : Call}
  {n id : String} {info : ServerObjectInfo}

/-- A call that published was going to purge before. -/
theorem target_of_purges (h : c.purges = some (n, info)) : c.target = some (n, info) := by
  cases c with
  | put call stage =>
      cases stage with
      | purging old => exact h
      | published old =>
          cases old with
          | none => cases h
          | some old => exact h
      | reading | writing _ _ | cleaning | finished => cases h
  | delete name stage =>
      cases stage with
      | purging info => exact h
      | reading | publishing _ | finished => cases h
  | update name change stage => cases h
  | link name info stage => cases h

/-- A call that is going to purge is a put or a delete under way. -/
theorem writes_of_target (h : c.target = some (n, info)) :
    c.pending = true ∧ c.op.writes = some n := by
  cases c with
  | put call stage =>
      cases stage with
      | purging old =>
          cases h
          exact ⟨rfl, rfl⟩
      | writing old rest =>
          cases old with
          | none => cases h
          | some old =>
              cases h
              exact ⟨rfl, rfl⟩
      | published old =>
          cases old with
          | none => cases h
          | some old =>
              cases h
              exact ⟨rfl, rfl⟩
      | reading | cleaning | finished => cases h
  | delete name stage =>
      cases stage with
      | publishing info =>
          cases h
          exact ⟨rfl, rfl⟩
      | purging info =>
          cases h
          exact ⟨rfl, rfl⟩
      | reading | finished => cases h
  | update name change stage => cases h
  | link name info stage => cases h

theorem updates_of_holds (h : c.holds = some (n, info)) :
    c.pending = true ∧ c.op.updates = some n := by
  cases c with
  | put call stage => cases h
  | delete name stage => cases h
  | update name change stage =>
      cases stage with
      | targeting info =>
          cases h
          exact ⟨rfl, rfl⟩
      | publishing info =>
          cases h
          exact ⟨rfl, rfl⟩
      | reading | purging | finished => cases h
  | link name info stage => cases h

/-- A call that is going to purge a name renames it. -/
theorem renames_of_dooms (h : c.dooms = some n) (hnamed : c.Named) :
    c.pending = true ∧ c.op.updates = some n ∧ c.op.renames = some n := by
  cases c with
  | put call stage => cases h
  | delete name stage => cases h
  | update name change stage =>
      cases stage with
      | purging =>
          cases h
          exact ⟨rfl, rfl, if_pos hnamed⟩
      | reading | targeting _ | publishing _ | finished => cases h
  | link name info stage => cases h

/-- A put with chunks left to publish has not published its entry. -/
theorem unborn_of_left {p : PutCall} {rest : List Bytes} (h : c.left sha256 = some (p, rest)) :
    c.unborn = some p := by
  cases c with
  | put call stage =>
      cases stage with
      | reading =>
          cases h
          rfl
      | writing old rest =>
          cases h
          rfl
      | published _ | purging _ | cleaning | finished => cases h
  | delete name stage => cases h
  | update name change stage => cases h
  | link name info stage => cases h

/-- A call with nothing left to do has published its entry, or never will. -/
theorem unborn_of_idle (hidle : c.pending = false) : c.unborn = none := by
  cases c with
  | put call stage =>
      cases stage with
      | finished | published _ | purging _ => rfl
      | reading | writing _ _ | cleaning => cases hidle
  | delete name stage => rfl
  | update name change stage => rfl
  | link name info stage => rfl

/-- Chunks that are as they were leave an object as complete as it was. -/
theorem Complete.of_chunks_eq (h : Complete sha256 b puts info id)
    (hchunks : b'.chunks id = b.chunks id) : Complete sha256 b' puts info id := by
  obtain ⟨call, hcall, hid, hpublished, hnumber, hsize⟩ := h
  rw [← hchunks] at hpublished hnumber hsize
  exact ⟨call, hcall, hid, hpublished, hnumber, hsize⟩

/-- A call that publishes no entry, and leaves the chunks alone that the other call needs. -/
theorem Fits.frame (h : Fits sha256 own b puts d)
    (hlatest : ∀ m e, b'.latest m = some e → b.latest m = some e)
    (hholds : ∀ m info id, d.holds = some (m, info) → info.nuid = some id →
      b'.chunks id = b.chunks id)
    (hleft : ∀ p rest, d.left sha256 = some (p, rest) → b'.chunks p.id = b.chunks p.id) :
    Fits sha256 own b' puts d where
  target := h.target
  purges m info id e hp hid he := h.purges m info id e hp hid (hlatest m e he)
  holds m info id hd hid := by
    obtain ⟨hown, hcomplete⟩ := h.holds m info id hd hid
    exact ⟨hown, hcomplete.of_chunks_eq (hholds m info id hd hid)⟩
  live := h.live
  unborn := h.unborn
  left p rest hp := by
    rw [hleft p rest hp]
    exact h.left p rest hp
  named := h.named

/-- A call that publishes an entry, which may make its name the owner of the entry's nuid. -/
theorem Fits.publish {e : ServerObjectInfo} (h : Fits sha256 own b puts d)
    (hlatest : ∀ m, b'.latest m = if m = n then some e else b.latest m)
    (hchunks : ∀ x, b'.chunks x = b.chunks x)
    (htarget : ∀ m info id, d.target = some (m, info) → info.nuid = some id → own' id = own id)
    (hholds : ∀ m info id, d.holds = some (m, info) → info.nuid = some id → own' id = own id)
    (hunborn : ∀ p, d.unborn = some p → own' p.id = own p.id)
    (hpurges : ∀ info id, d.purges = some (n, info) → info.nuid = some id → e.nuid = some id →
      e.isDeleted = true) :
    Fits sha256 own' b' puts d where
  target m info id hd hid := by
    rw [htarget m info id hd hid]
    exact h.target m info id hd hid
  purges m info id f hd hid hf hnuid := by
    rw [hlatest] at hf
    split at hf
    · next hm =>
        cases hf
        subst hm
        exact hpurges info id hd hid hnuid
    · exact h.purges m info id f hd hid hf hnuid
  holds m info id hd hid := by
    obtain ⟨hown, hcomplete⟩ := h.holds m info id hd hid
    rw [hholds m info id hd hid]
    exact ⟨hown, hcomplete.of_chunks_eq (hchunks id)⟩
  live := h.live
  unborn p hp := by
    rw [hunborn p hp]
    exact h.unborn p hp
  left p rest hp := by
    rw [hchunks]
    exact h.left p rest hp
  named := h.named

variable {doomed doomed' : String → Prop}

/-- A call that leaves the entries alone, and the chunks of the objects that are there. -/
theorem World.frame (h : World sha256 own b puts doomed) (hlatest : ∀ m, b'.latest m = b.latest m)
    (hdoomed : ∀ m, doomed m → doomed' m)
    (hlive : ∀ m e id, b.latest m = some e → e.isDeleted = false → e.nuid = some id → ¬ doomed m →
      b'.chunks id = b.chunks id)
    (hfresh : ∀ id, (∀ p ∈ puts, p.id ≠ id) → b'.chunks id = []) :
    World sha256 own b' puts doomed' where
  name_eq m e he := h.name_eq m e ((hlatest m).symm.trans he)
  owned m e id he hid := by
    obtain ⟨hsome, hown⟩ := h.owned m e id ((hlatest m).symm.trans he) hid
    exact ⟨hsome, fun hnot => hown fun hm => hnot (hdoomed m hm)⟩
  complete m e id he hl hid hnot := by
    have he := (hlatest m).symm.trans he
    have hnot : ¬ doomed m := fun hm => hnot (hdoomed m hm)
    exact (h.complete m e id he hl hid hnot).of_chunks_eq (hlive m e id he hl hid hnot)
  known := h.known
  fresh := hfresh
  named := h.named

/-- A call that publishes an entry. -/
theorem World.publish {e : ServerObjectInfo} (h : World sha256 own b puts doomed)
    (hlatest : ∀ m, b'.latest m = if m = n then some e else b.latest m)
    (hchunks : ∀ x, b'.chunks x = b.chunks x) (hname : e.name = n)
    (hdoomed : ∀ m, doomed m → doomed' m) (hown : ∀ id, e.nuid = some id → own' id = some n)
    (hothers : ∀ id m, own id = some m → (∃ k, own' id = some k) ∧
      (¬ doomed' m → m ≠ n → own' id = some m))
    (hknown : ∀ id m, own' id = some m → ∃ p ∈ puts, p.id = id)
    (hcomplete : ∀ id, e.isDeleted = false → e.nuid = some id → Complete sha256 b puts e id) :
    World sha256 own' b' puts doomed' where
  name_eq m f hf := by
    rw [hlatest] at hf
    split at hf
    · next hm =>
        cases hf
        exact hname.trans hm.symm
    · exact h.name_eq m f hf
  owned m f id hf hid := by
    rw [hlatest] at hf
    split at hf
    · next hm =>
        cases hf
        subst hm
        have howner := hown id hid
        exact ⟨⟨m, howner⟩, fun _ => howner⟩
    · next hm =>
        obtain ⟨⟨k, hk⟩, howner⟩ := h.owned m f id hf hid
        refine ⟨(hothers id k hk).1, ?_⟩
        intro hnot
        -- another name keeps its nuids, unless it is about to be purged
        exact (hothers id m (howner fun hd => hnot (hdoomed m hd))).2 hnot hm
  complete m f id hf hlive hid hnot := by
    rw [hlatest] at hf
    split at hf
    · next hm =>
        cases hf
        exact (hcomplete id hlive hid).of_chunks_eq (hchunks id)
    · have hnot : ¬ doomed m := fun hd => hnot (hdoomed m hd)
      exact (h.complete m f id hf hlive hid hnot).of_chunks_eq (hchunks id)
  known := hknown
  fresh id hid := by
    rw [hchunks]
    exact h.fresh id hid
  named := h.named

/-- A rename that purges the old name. -/
theorem World.purge (h : World sha256 own b puts doomed)
    (hlatest : ∀ m, b'.latest m = if m = n then none else b.latest m)
    (hchunks : ∀ x, b'.chunks x = b.chunks x) (hdoomed : ∀ m, m ≠ n → doomed m → doomed' m) :
    World sha256 own b' puts doomed' := by
  have hkept : ∀ m e, b'.latest m = some e → m ≠ n ∧ b.latest m = some e := by
    intro m e he
    rw [hlatest] at he
    split at he
    · cases he
    · next hm => exact ⟨hm, he⟩
  constructor
  · intro m e he
    exact h.name_eq m e (hkept m e he).2
  · intro m e id he hid
    obtain ⟨hm, he⟩ := hkept m e he
    obtain ⟨hsome, hown⟩ := h.owned m e id he hid
    exact ⟨hsome, fun hnot => hown fun hd => hnot (hdoomed m hm hd)⟩
  · intro m e id he hlive hid hnot
    obtain ⟨hm, he⟩ := hkept m e he
    have hnot : ¬ doomed m := fun hd => hnot (hdoomed m hm hd)
    exact (h.complete m e id he hlive hid hnot).of_chunks_eq (hchunks id)
  · exact h.known
  · intro id hid
    rw [hchunks]
    exact h.fresh id hid
  · exact h.named

/-- The chunks of another nuid are not touched. -/
theorem chunks_store_of_id_ne {x : String} (hx : x ≠ id) (bytes : Bytes) :
    (b.store (b.chunkSubject id) (.bytes bytes) false).chunks x = b.chunks x :=
  Bucket.chunks_store_of_ne fun heq => hx (Bucket.chunkSubject_inj heq)

theorem chunks_purge_of_id_ne {x : String} (hx : x ≠ id) :
    (b.purge (b.chunkSubject id)).chunks x = b.chunks x :=
  Bucket.chunks_purge_of_ne fun heq => hx (Bucket.chunkSubject_inj heq)

theorem chunks_store_entry {subject : String} {rollup : Bool}
    (hsubj : b.metaSubject n = some subject) (x : String) :
    (b.store subject (.json info) rollup).chunks x = b.chunks x :=
  Bucket.chunks_store_of_ne (Bucket.chunkSubject_ne_metaSubject hsubj)

theorem chunks_purge_entries {subject : String} (hsubj : b.metaSubject n = some subject)
    (x : String) : (b.purge subject).chunks x = b.chunks x :=
  Bucket.chunks_purge_of_ne (Bucket.chunkSubject_ne_metaSubject hsubj)

end

namespace Clients.Inv

variable {own own' : String → Option String} {s : Clients} {i : Nat} {c c' : Call} {b' : Bucket}
  {n id : String} {info : ServerObjectInfo}

theorem doomed_set (hc : s.calls[i]? = some c) (m : String) :
    Doomed ⟨b', s.calls.set i c', s.puts⟩ m ↔
      c'.dooms = some m ∨ ∃ (j : Nat) (d : Call), j ≠ i ∧ s.calls[j]? = some d ∧
      d.dooms = some m := by
  have hi : i < s.calls.length := (List.getElem?_eq_some_iff.1 hc).1
  constructor
  · rintro ⟨j, d, hj, hd⟩
    by_cases hji : j = i
    · subst hji
      simp only [List.getElem?_set_self hi, Option.some.injEq] at hj
      subst hj
      exact Or.inl hd
    · simp only [List.getElem?_set_ne (Ne.symm hji)] at hj
      exact Or.inr ⟨j, d, hji, hj, hd⟩
  · rintro (hd | ⟨j, d, hji, hj, hd⟩)
    · exact ⟨i, c', List.getElem?_set_self hi, hd⟩
    · exact ⟨j, d, (List.getElem?_set_ne (Ne.symm hji)).trans hj, hd⟩

/-- A name that is about to be purged still is, unless its rename was the call. -/
theorem doomed_of_doomed (hc : s.calls[i]? = some c) {m : String} (hm : s.Doomed m) :
    c.dooms = some m ∨ Doomed ⟨b', s.calls.set i c', s.puts⟩ m := by
  obtain ⟨j, d, hj, hd⟩ := hm
  by_cases hji : j = i
  · subst hji
    rw [hc, Option.some.injEq] at hj
    subst hj
    exact Or.inl hd
  · exact Or.inr ((doomed_set hc m).2 (Or.inr ⟨j, d, hji, hj, hd⟩))

/-- **The invariant behind a stream operation**, from the bucket, the call and the other calls. -/
theorem of_advance (h : Inv sha256 own s) (hc : s.calls[i]? = some c) (hpending : c.pending = true)
    (hop : c'.op = c.op) (hunborn : ∀ p, c'.unborn = some p → c.unborn = some p)
    (hworld : World sha256 own' b' s.puts (Doomed ⟨b', s.calls.set i c', s.puts⟩))
    (hself : Fits sha256 own' b' s.puts c')
    (hothers : ∀ (j : Nat) (d : Call), j ≠ i → s.calls[j]? = some d →
      Fits sha256 own' b' s.puts d) : Inv sha256 own' ⟨b', s.calls.set i c', s.puts⟩ := by
  have hi : i < s.calls.length := (List.getElem?_eq_some_iff.1 hc).1
  -- the call that goes on, or one of the others
  have hget : ∀ (j : Nat) (d : Call), (s.calls.set i c')[j]? = some d →
      (j = i ∧ d = c') ∨ (j ≠ i ∧ s.calls[j]? = some d) := by
    intro j d hj
    by_cases hji : j = i
    · subst hji
      rw [List.getElem?_set_self hi, Option.some.injEq] at hj
      exact Or.inl ⟨rfl, hj.symm⟩
    · rw [List.getElem?_set_ne (Ne.symm hji)] at hj
      exact Or.inr ⟨hji, hj⟩
  constructor
  · exact hworld
  · intro j d hj
    rcases hget j d hj with ⟨rfl, rfl⟩ | ⟨hji, hj'⟩
    · exact hself
    · exact hothers j d hji hj'
  · intro j k d e hjk hj hk hd he
    rcases hget j d hj with ⟨rfl, rfl⟩ | ⟨hji, hj'⟩
    · rcases hget k e hk with ⟨rfl, rfl⟩ | ⟨hki, hk'⟩
      · exact absurd rfl hjk
      · rw [hop]
        -- it is about what it was about before
        exact h.apart j k c e hjk hc hk' hpending he
    · rcases hget k e hk with ⟨rfl, rfl⟩ | ⟨hki, hk'⟩
      · rw [hop]
        exact h.apart j k d c hjk hj' hc hd hpending
      · exact h.apart j k d e hjk hj' hk' hd he
  · intro j k d e p q hjk hj hk hd he
    rcases hget j d hj with ⟨rfl, rfl⟩ | ⟨hji, hj'⟩
    · rcases hget k e hk with ⟨rfl, rfl⟩ | ⟨hki, hk'⟩
      · exact absurd rfl hjk
      · exact h.distinct j k c e p q hjk hc hk' (hunborn p hd) he
    · rcases hget k e hk with ⟨rfl, rfl⟩ | ⟨hki, hk'⟩
      · exact h.distinct j k d c p q hjk hj' hc hd (hunborn q he)
      · exact h.distinct j k d e p q hjk hj' hk' hd he

/-- While a put or delete is under way, its object is not about to be renamed away. -/
theorem not_doomed_of_writes (h : Inv sha256 own s) (hc : s.calls[i]? = some c)
    (hpending : c.pending = true) (hwrites : c.op.writes = some n) : ¬ s.Doomed n := by
  rintro ⟨j, d, hj, hd⟩
  obtain ⟨hpend, hupdates, _⟩ := renames_of_dooms hd (h.fits j d hj).named
  have hji : j ≠ i := by
    intro heq
    subst heq
    rw [hc, Option.some.injEq] at hj
    subst hj
    cases c with
    | update name change stage => cases hwrites
    | put call stage => cases hupdates
    | delete name stage => cases hupdates
    | link name info stage => cases hupdates
  apply h.apart j i d c hji hj hc hpend hpending
  left
  rw [hupdates, hwrites]
  exact ⟨rfl, rfl⟩

/-- While an update is in front of its publish, no other one is about to rename its object away. -/
theorem not_doomed_of_updates (h : Inv sha256 own s) (hc : s.calls[i]? = some c)
    (hpending : c.pending = true) (hupdates : c.op.updates = some n) (hdooms : c.dooms = none) :
    ¬ s.Doomed n := by
  rintro ⟨j, d, hj, hd⟩
  obtain ⟨hpend, _, hrenames⟩ := renames_of_dooms hd (h.fits j d hj).named
  have hji : j ≠ i := by
    intro heq
    subst heq
    rw [hc, Option.some.injEq] at hj
    subst hj
    rw [hdooms] at hd
    cases hd
  apply h.apart j i d c hji hj hc hpend hpending
  right
  rw [hrenames, hupdates]
  exact ⟨rfl, rfl⟩

/-- While an update of an object is under way, no call is going to purge chunks for the object. -/
theorem no_target (h : Inv sha256 own s) (hc : s.calls[i]? = some c) (hpending : c.pending = true)
    (hupdates : c.op.updates = some n) {j : Nat} {d : Call} (hj : s.calls[j]? = some d)
    (hji : j ≠ i) : d.target ≠ some (n, info) := by
  intro hd
  obtain ⟨hpend, hwrites⟩ := writes_of_target hd
  apply h.apart i j c d hji.symm hc hj hpending hpend
  left
  rw [hupdates, hwrites]
  exact ⟨rfl, rfl⟩

/-- What a call has read, where the name is not about to be purged. -/
theorem of_read (h : Inv sha256 own s) (hread : s.bucket.rawInfo n = .ok (some info))
    (hnot : ¬ s.Doomed n) :
    info.name = n ∧ (∀ id, info.nuid = some id → own id = some n) ∧
      ∀ id, info.isDeleted = false → info.nuid = some id →
      Complete sha256 s.bucket s.puts info id := by
  obtain ⟨stored, seq, hlatest, rfl⟩ := Bucket.latest_of_rawInfo hread
  refine ⟨h.world.name_eq n stored hlatest, ?_, ?_⟩
  · intro id hid
    exact (h.world.owned n stored id hlatest hid).2 hnot
  · intro id hlive hid
    exact h.world.complete n stored id hlatest hlive hid hnot

/-- A call that reads, or gives up. -/
theorem read (h : Inv sha256 own s) (hc : s.calls[i]? = some c) (hpending : c.pending = true)
    (hop : c'.op = c.op) (hdooms : c.dooms = none)
    (hunborn : ∀ p, c'.unborn = some p → c.unborn = some p)
    (hself : Fits sha256 own s.bucket s.puts c') :
    Inv sha256 own ⟨s.bucket, s.calls.set i c', s.puts⟩ := by
  apply h.of_advance hc hpending hop hunborn _ hself
  · intro j d _ hj
    exact h.fits j d hj
  · apply h.world.frame (fun _ => rfl) _ (fun _ _ _ _ _ _ _ => rfl) h.world.fresh
    intro m hm
    rcases doomed_of_doomed hc hm with hd | hd
    · rw [hdooms] at hd
      cases hd
    · exact hd

/-- A call that holds no entry and is no put fits as far as its chunks to purge do. -/
theorem fits_of_target {b : Bucket} {puts : List PutCall}
    (htarget : ∀ n info id, c.target = some (n, info) → info.nuid = some id → own id = some n)
    (hpurges : ∀ n info id e, c.purges = some (n, info) → info.nuid = some id →
      b.latest n = some e → e.nuid = some id → e.isDeleted = true)
    (hholds : c.holds = none) (hunborn : c.unborn = none) (hleft : c.left sha256 = none)
    (hnamed : c.Named) : Fits sha256 own b puts c where
  target := htarget
  purges := hpurges
  holds := by
    intro n info id hd
    rw [hholds] at hd
    cases hd
  live := by
    intro n info hd
    rw [hholds] at hd
    cases hd
  unborn := by
    intro p hp
    rw [hunborn] at hp
    cases hp
  left := by
    intro p rest hp
    rw [hleft] at hp
    cases hp
  named := hnamed

theorem fits_of_no_role {b : Bucket} {puts : List PutCall} (htarget : c.target = none)
    (hpurges : c.purges = none) (hholds : c.holds = none) (hunborn : c.unborn = none)
    (hleft : c.left sha256 = none) (hnamed : c.Named) : Fits sha256 own b puts c := by
  apply fits_of_target _ _ hholds hunborn hleft hnamed
  · intro n info id hd
    rw [htarget] at hd
    cases hd
  · intro n info id e hd
    rw [hpurges] at hd
    cases hd

theorem no_unborn {P : PutCall → Prop} (hunborn : c.unborn = none) :
    ∀ p, c.unborn = some p → P p := by
  intro p hp
  rw [hunborn] at hp
  cases hp

/-- A call with nothing left to do fits. -/
theorem idle {b : Bucket} {puts : List PutCall} (hidle : c.pending = false) :
    Fits sha256 own b puts c := by
  have hroles : c.target = none ∧ c.purges = none ∧ c.holds = none ∧ c.unborn = none ∧
      c.left sha256 = none ∧ c.Named := by
    cases c with
    | put call stage =>
        cases stage with
        | finished => exact ⟨rfl, rfl, rfl, rfl, rfl, trivial⟩
        | reading | writing _ _ | published _ | purging _ | cleaning => cases hidle
    | delete name stage =>
        cases stage with
        | finished => exact ⟨rfl, rfl, rfl, rfl, rfl, trivial⟩
        | reading | publishing _ | purging _ => cases hidle
    | update name change stage =>
        cases stage with
        | finished => exact ⟨rfl, rfl, rfl, rfl, rfl, trivial⟩
        | reading | targeting _ | publishing _ | purging => cases hidle
    | link name info stage =>
        cases stage with
        | finished => exact ⟨rfl, rfl, rfl, rfl, rfl, trivial⟩
        | reading | publishing => cases hidle
  obtain ⟨htarget, hpurges, hholds, hunborn, hleft, hnamed⟩ := hroles
  exact fits_of_no_role htarget hpurges hholds hunborn hleft hnamed

/-- A call gives up, and has nothing left to do. -/
theorem finishes (h : Inv sha256 own s) (hc : s.calls[i]? = some c) (hpending : c.pending = true)
    (hop : c'.op = c.op) (hdooms : c.dooms = none) (hidle : c'.pending = false) :
    Inv sha256 own ⟨s.bucket, s.calls.set i c', s.puts⟩ :=
  h.read hc hpending hop hdooms (no_unborn (unborn_of_idle hidle)) (idle hidle)

/-- The nuid of a put that has not published is in the way of no other call. -/
theorem unborn_apart (h : Inv sha256 own s) (hc : s.calls[i]? = some c) {call : PutCall}
    (hunborn : c.unborn = some call) {j : Nat} {d : Call} (hj : s.calls[j]? = some d)
    (hji : j ≠ i) :
    (∀ m info id, d.holds = some (m, info) → info.nuid = some id → id ≠ call.id) ∧
      (∀ m info id, d.target = some (m, info) → info.nuid = some id → id ≠ call.id) ∧
      (∀ p, d.unborn = some p → p.id ≠ call.id) ∧
      ∀ p rest, d.left sha256 = some (p, rest) → p.id ≠ call.id := by
  have hnone := ((h.fits i c hc).unborn call hunborn).1
  refine ⟨?_, ?_, ?_, ?_⟩
  · intro m info id hd hid heq
    subst heq
    have hown := ((h.fits j d hj).holds m info _ hd hid).1
    rw [hnone] at hown
    cases hown
  · intro m info id hd hid heq
    subst heq
    have hown := (h.fits j d hj).target m info _ hd hid
    rw [hnone] at hown
    cases hown
  · intro p hp
    exact h.distinct j i d c p call hji hj hc hp hunborn
  · intro p rest hp
    exact h.distinct j i d c p call hji hj hc (unborn_of_left hp) hunborn

/-- The chunks of a put that has not published may change: no other call and no entry needs them. -/
theorem own_chunks (h : Inv sha256 own s) (hc : s.calls[i]? = some c) (hpending : c.pending = true)
    (hop : c'.op = c.op) (hdooms : c.dooms = none) {call : PutCall} (hunborn : c.unborn = some call)
    (hunborn' : ∀ p, c'.unborn = some p → c.unborn = some p)
    (hlatest : ∀ m, b'.latest m = s.bucket.latest m)
    (hchunks : ∀ x, x ≠ call.id → b'.chunks x = s.bucket.chunks x)
    (hself : Fits sha256 own b' s.puts c') : Inv sha256 own ⟨b', s.calls.set i c', s.puts⟩ := by
  obtain ⟨hnone, hcall⟩ := (h.fits i c hc).unborn call hunborn
  apply h.of_advance hc hpending hop hunborn' _ hself
  · intro j d hji hj
    obtain ⟨hholds, _, _, hleft⟩ := h.unborn_apart hc hunborn hj hji
    apply (h.fits j d hj).frame fun m e he => (hlatest m).symm.trans he
    · intro m info id hd hid
      exact hchunks id (hholds m info id hd hid)
    · intro p rest hp
      exact hchunks p.id (hleft p rest hp)
  · apply h.world.frame hlatest
    · intro m hm
      rcases doomed_of_doomed hc hm with hd | hd
      · rw [hdooms] at hd
        cases hd
      · exact hd
    · intro m e id he _ hid _
      apply hchunks
      rintro rfl
      obtain ⟨k, hk⟩ := (h.world.owned m e _ he hid).1
      rw [hnone] at hk
      cases hk
    · intro id hid
      rw [hchunks id (Ne.symm (hid call hcall))]
      exact h.world.fresh id hid

/-- **A call publishes an entry.** The owner of its nuid becomes the name of the entry; where that
was another name, the call is about to purge it, and no other call counts on the owner. -/
theorem publishes (h : Inv sha256 own s) (hc : s.calls[i]? = some c) (hpending : c.pending = true)
    (hop : c'.op = c.op) (hdooms : c.dooms = none) (hunborn : c'.unborn = none) {subject : String}
    {rollup : Bool} {e : ServerObjectInfo} (hsubj : s.bucket.metaSubject n = some subject)
    (hname : e.name = n) (hown : ∀ id, e.nuid = some id → own' id = some n)
    (hsame : ∀ id, e.nuid ≠ some id → own' id = own id)
    (hmoved : ∀ id m, e.nuid = some id → own id = some m → m ≠ n → c'.dooms = some m)
    (hput : ∀ id, e.nuid = some id → ∃ p ∈ s.puts, p.id = id)
    (hcomplete : ∀ id, e.isDeleted = false → e.nuid = some id →
      Complete sha256 s.bucket s.puts e id)
    (hothers : ∀ (j : Nat) (d : Call), j ≠ i → s.calls[j]? = some d → ∀ id, e.nuid = some id →
      (∀ m info, d.target = some (m, info) → info.nuid = some id → own' id = own id) ∧
      (∀ m info, d.holds = some (m, info) → info.nuid = some id → own' id = own id) ∧
      (∀ p, d.unborn = some p → p.id ≠ id) ∧
      ∀ info, d.purges = some (n, info) → info.nuid = some id → e.isDeleted = true)
    (hself : Fits sha256 own' (s.bucket.store subject (.json e) rollup) s.puts c') :
    Inv sha256 own' ⟨s.bucket.store subject (.json e) rollup, s.calls.set i c', s.puts⟩ := by
  have hlatest : ∀ m, (s.bucket.store subject (.json e) rollup).latest m =
      if m = n then some e else s.bucket.latest m := Bucket.latest_store hsubj
  have hchunks : ∀ x, (s.bucket.store subject (.json e) rollup).chunks x = s.bucket.chunks x :=
    chunks_store_entry hsubj
  apply h.of_advance hc hpending hop _ _ hself
  · intro j d hji hj
    have hd := hothers j d hji hj
    apply (h.fits j d hj).publish hlatest hchunks
    · -- the nuids of the other calls are not the one of the entry, or keep their owner
      intro m info id htarget hid
      cases hnuid : decide (e.nuid = some id) with
      | true => exact (hd id (of_decide_eq_true hnuid)).1 m info htarget hid
      | false => exact hsame id (of_decide_eq_false hnuid)
    · intro m info id hholds hid
      cases hnuid : decide (e.nuid = some id) with
      | true => exact (hd id (of_decide_eq_true hnuid)).2.1 m info hholds hid
      | false => exact hsame id (of_decide_eq_false hnuid)
    · intro p hp
      apply hsame
      intro hnuid
      exact (hd p.id hnuid).2.2.1 p hp rfl
    · intro info id hpurges hid hnuid
      exact (hd id hnuid).2.2.2 info hpurges hid
  · intro p hp
    rw [hunborn] at hp
    cases hp
  · apply h.world.publish hlatest hchunks hname
    · intro m hm
      rcases doomed_of_doomed hc hm with hd | hd
      · rw [hdooms] at hd
        cases hd
      · exact hd
    · exact hown
    · intro id m hm
      cases hnuid : decide (e.nuid = some id) with
      | true =>
          have hnuid := of_decide_eq_true hnuid
          refine ⟨⟨n, hown id hnuid⟩, ?_⟩
          intro hnot hne
          -- the old name is the one that the call is about to purge
          exact absurd ((doomed_set hc m).2 (Or.inl (hmoved id m hnuid hm hne))) hnot
      | false =>
          have hkept := (hsame id (of_decide_eq_false hnuid)).trans hm
          exact ⟨⟨m, hkept⟩, fun _ _ => hkept⟩
    · intro id m hm
      cases hnuid : decide (e.nuid = some id) with
      | true => exact hput id (of_decide_eq_true hnuid)
      | false => exact h.world.known id m ((hsame id (of_decide_eq_false hnuid)).symm.trans hm)
    · exact hcomplete

/-- **A call purges the chunks of an entry that its own has replaced.** -/
theorem purges (h : Inv sha256 own s) (hc : s.calls[i]? = some c) (hop : c'.op = c.op)
    (hpurges : c.purges = some (n, info)) (hdooms : c.dooms = none) (hidle : c'.pending = false) :
    Inv sha256 own
      ⟨s.bucket.purge (s.bucket.chunkSubject info.nuidText), s.calls.set i c', s.puts⟩ := by
  have htarget := target_of_purges hpurges
  obtain ⟨hpending, hwrites⟩ := writes_of_target htarget
  have hfits := h.fits i c hc
  have hunborn : ∀ p, c'.unborn = some p → c.unborn = some p := by
    intro p hp
    rw [unborn_of_idle hidle] at hp
    cases hp
  -- what is purged is the nuid of the entry, which the name owns, or no nuid at all
  have hnuid : ∀ id p, p ∈ s.puts → p.id = id → id = info.nuidText → info.nuid = some id := by
    intro id p hp hpid hid
    cases hinfo : info.nuid with
    | none =>
        rw [ServerObjectInfo.nuidText, hinfo] at hid
        exact absurd (hpid.trans hid) (h.world.named p hp)
    | some x =>
        rw [ServerObjectInfo.nuidText, hinfo] at hid
        rw [hid]
        rfl
  have hlatest : ∀ m, (s.bucket.purge (s.bucket.chunkSubject info.nuidText)).latest m =
      s.bucket.latest m := Bucket.latest_purge_chunks
  apply h.of_advance hc hpending hop hunborn _ (idle hidle)
  · intro j d hji hj
    apply (h.fits j d hj).frame fun m e he => (hlatest m).symm.trans he
    · intro m other id hholds hid
      apply chunks_purge_of_id_ne
      intro heq
      obtain ⟨hown, ⟨p, hp, hpid, _⟩⟩ := (h.fits j d hj).holds m other id hholds hid
      have hown' := hfits.target n info id htarget (hnuid id p hp hpid heq)
      rw [hown, Option.some.injEq] at hown'
      subst hown'
      -- an update of the object and this call would overlap
      obtain ⟨hpend, hupdates⟩ := updates_of_holds hholds
      exact h.no_target hj hpend hupdates hc hji.symm htarget
    · intro p rest hleft
      apply chunks_purge_of_id_ne
      intro heq
      obtain ⟨hnone, hmem⟩ := (h.fits j d hj).unborn p (unborn_of_left hleft)
      have hown := hfits.target n info p.id htarget (hnuid p.id p hmem rfl heq)
      rw [hnone] at hown
      cases hown
  · apply h.world.frame hlatest
    · intro m hm
      rcases doomed_of_doomed hc hm with hd | hd
      · rw [hdooms] at hd
        cases hd
      · exact hd
    · intro m e id he hlive hid hnot
      apply chunks_purge_of_id_ne
      intro heq
      obtain ⟨k, hk⟩ := (h.world.owned m e id he hid).1
      obtain ⟨p, hp, hpid⟩ := h.world.known id k hk
      have hinfo := hnuid id p hp hpid heq
      have hown := (h.world.owned m e id he hid).2 hnot
      have hown' := hfits.target n info id htarget hinfo
      rw [hown, Option.some.injEq] at hown'
      subst hown'
      have hdeleted := hfits.purges m info id e hpurges hinfo he hid
      rw [hlive] at hdeleted
      cases hdeleted
    · intro id hid
      cases hsame : decide (id = info.nuidText) with
      | true =>
          rw [of_decide_eq_true hsame]
          exact Bucket.chunks_purge_self
      | false =>
          rw [chunks_purge_of_id_ne (of_decide_eq_false hsame)]
          exact h.world.fresh id hid

end Clients.Inv

end NatsClient.ObjectStore
