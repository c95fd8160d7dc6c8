import NatsClient.Foundation.Run
import NatsClient.ObjectStore.Get

/-!
# Puts that fail

Model of a call of `_put` (`objectstore.ts`) behind the read of the old entry, with its requests
under way. A publish is sent and has a promise; the server stores it or refuses it, at a time of its
own, and the promise is fulfilled or rejected, also rejected (a time-out) where the publish was or
will be stored. The first failure the call notices makes it purge the chunks of its nuid
(`cleanUp`), and the purge takes effect at a time of its own too.

`failed_put_atomic_iff`: a put that failed leaves the bucket as it was if and only if no chunk was
stored behind the purge and the entry was not stored (`Orderly`).
-/

set_option autoImplicit false

namespace NatsClient.ObjectStore

open Foundation Wire

/-- Where a publish is: on its way to the server, or what the server did with it. -/
inductive Fate where
  | underWay
  | stored
  | refused
deriving DecidableEq, Repr

/-- The state of a promise. -/
inductive Promise where
  | pending
  | fulfilled
  | rejected
deriving DecidableEq, Repr

/-- A publish: its data, where it is, and its promise. -/
structure Publish (α : Type) where
  data : α
  fate : Fate
  promise : Promise
deriving DecidableEq, Repr

/-- What happens to a publish. -/
inductive PublishEvent where
  | stored
  | refused
  | acked
  | rejected
deriving DecidableEq, Repr

namespace Publish

variable {α : Type}

/-- A publish that was just sent. -/
def sent (data : α) : Publish α := ⟨data, .underWay, .pending⟩

/-- The publish behind an event. It is acknowledged only when it was stored, but rejected at any
time: the answer may be late or lost. -/
def update (p : Publish α) : PublishEvent → Option (Publish α)
  | .stored => if p.fate = .underWay then some { p with fate := .stored } else none
  | .refused => if p.fate = .underWay then some { p with fate := .refused } else none
  | .acked =>
      if p.fate = .stored ∧ p.promise = .pending then some { p with promise := .fulfilled }
      else none
  | .rejected => if p.promise = .pending then some { p with promise := .rejected } else none

/-- What an event does to a publish. -/
theorem update_cases {p p' : Publish α} {event : PublishEvent} (h : p.update event = some p') :
    (event = .stored ∧ p.fate = .underWay ∧ p' = ⟨p.data, .stored, p.promise⟩) ∨
      (event = .refused ∧ p.fate = .underWay ∧ p' = ⟨p.data, .refused, p.promise⟩) ∨
      (event = .acked ∧ p.fate = .stored ∧ p.promise = .pending ∧
        p' = ⟨p.data, .stored, .fulfilled⟩) ∨
      (event = .rejected ∧ p.promise = .pending ∧ p' = ⟨p.data, p.fate, .rejected⟩) := by
  obtain ⟨data, fate, promise⟩ := p
  cases event with
  | stored =>
      simp only [update, Option.ite_none_right_eq_some, Option.some.injEq] at h
      exact Or.inl ⟨rfl, h.1, h.2.symm⟩
  | refused =>
      simp only [update, Option.ite_none_right_eq_some, Option.some.injEq] at h
      exact Or.inr (Or.inl ⟨rfl, h.1, h.2.symm⟩)
  | acked =>
      simp only [update, Option.ite_none_right_eq_some, Option.some.injEq] at h
      obtain ⟨⟨rfl, hpending⟩, rfl⟩ := h
      exact Or.inr (Or.inr (Or.inl ⟨rfl, rfl, hpending, rfl⟩))
  | rejected =>
      simp only [update, Option.ite_none_right_eq_some, Option.some.injEq] at h
      exact Or.inr (Or.inr (Or.inr ⟨rfl, h.1, h.2.symm⟩))

end Publish

/-- Where the call is: in its loop, at `Promise.all(proms)`, at the publish of the entry, at the
purge of the old chunks, at the purge of its own, or settled. -/
inductive Phase where
  | reading
  | settling
  | entering
  | purging
  | cleaning
  | resolved
  | rejected
deriving DecidableEq, Repr

/-- A call under way: the stream, the writer, the publishes of the chunks in the order in which they
were sent, the publish of the entry, and whether the purges that were sent took effect. -/
structure PutRun (sha256 : StreamingHash) where
  bucket : Bucket
  writer : Writer sha256
  phase : Phase
  proms : List (Publish Bytes)
  entry : Option (Publish ServerObjectInfo)
  cleanUp : Option Bool
  oldPurge : Option Bool

/-- What happens: to the source, to the `i`-th chunk publish, to the publish of the entry and to the
purges. `settled` is the return of `Promise.all`, `purgeSettled` that of the purge waited for. -/
inductive PutEvent where
  | value (piece : Bytes)
  | done
  | readerFails
  | chunk (i : Nat) (event : PublishEvent)
  | settled
  | entry (event : PublishEvent)
  | cleanUpPurged
  | oldPurged
  | purgeSettled
deriving DecidableEq, Repr

/-- What the call was made with: the stream then, the arguments, the old entry and the subject of
the entries. -/
structure PutContext where
  bucket : Bucket
  call : PutCall
  old : Option ServerObjectInfo
  metaSubj : String
  rawInfo_eq : bucket.rawInfo call.objMeta.name = .ok old
  metaSubject_eq : bucket.metaSubject call.objMeta.name = some metaSubj
  fresh : bucket.Fresh call.id

namespace PutContext

variable {sha256 : StreamingHash} (c : PutContext)

/-- `chunkSubj`. -/
def chunkSubj : String := c.bucket.chunkSubject c.call.id

/-- The call behind the read of the old entry. -/
def start : PutRun sha256 := ⟨c.bucket, Writer.start, .reading, [], none, none, none⟩

/-- The publishes of the chunks that a writer published since. -/
def published (w w' : Writer sha256) : List (Publish Bytes) :=
  (w'.published.drop w.published.length).map Publish.sent

/-- One event. -/
def step (s : PutRun sha256) : PutEvent → Option (PutRun sha256)
  | .value piece =>
      if s.phase = .reading then
        let w := s.writer.value c.call.maxChunk piece
        some { s with writer := w, proms := s.proms ++ published s.writer w }
      else none
  | .done =>
      if s.phase = .reading then
        let w := s.writer.done
        some { s with writer := w, proms := s.proms ++ published s.writer w, phase := .settling }
      else none
  | .readerFails =>
      if s.phase = .reading then some { s with phase := .cleaning, cleanUp := some false } else none
  | .chunk i event =>
      match s.proms[i]?.bind (·.update event) with
      | some p =>
          let bucket :=
            if event = .stored then s.bucket.store c.chunkSubj (.bytes p.data) false else s.bucket
          some { s with bucket := bucket, proms := s.proms.set i p }
      | none => none
  | .settled =>
      if s.phase = .settling then
        -- `Promise.all` rejects with the first rejection, while others may be pending
        if ∃ p ∈ s.proms, p.promise = .rejected then
          some { s with phase := .cleaning, cleanUp := some false }
        else if ∀ p ∈ s.proms, p.promise = .fulfilled then
          let info := c.call.entry c.bucket.name s.writer
          some { s with phase := .entering, entry := some (Publish.sent info) }
        else none
      else none
  | .entry event =>
      match s.entry.bind (·.update event) with
      | some p =>
          match event with
          | .stored =>
              let last := s.bucket.lastSeqOn c.metaSubj
              if c.call.previousRevision.getD last = last then
                let bucket := s.bucket.store c.metaSubj (.json p.data) true
                some { s with bucket := bucket, entry := some p }
              else none
          | .refused => some { s with entry := some p }
          | .acked =>
              if c.old.isSome then
                some { s with entry := some p, phase := .purging, oldPurge := some false }
              else some { s with entry := some p, phase := .resolved }
          | .rejected => some { s with entry := some p, phase := .cleaning, cleanUp := some false }
      | none => none
  | .cleanUpPurged =>
      if s.cleanUp = some false then
        some { s with bucket := s.bucket.purge c.chunkSubj, cleanUp := some true }
      else none
  | .oldPurged =>
      match c.old with
      | some old =>
          if s.oldPurge = some false then
            let bucket := s.bucket.purge (c.bucket.chunkSubject old.nuidText)
            some { s with bucket := bucket, oldPurge := some true }
          else none
      | none => none
  | .purgeSettled =>
      -- whether the purge worked or not: the put of a new entry succeeded, and the other one failed
      if s.phase = .purging then some { s with phase := .resolved }
      else if s.phase = .cleaning then some { s with phase := .rejected }
      else none

/-- What the order of things has to be: no chunk is stored once the purge took effect, and the entry
is not stored where its publish is rejected. -/
def Orderly (s : PutRun sha256) : PutEvent → Prop
  | .chunk _ .stored => s.cleanUp ≠ some true
  | .entry .stored => ∀ p ∈ s.entry, p.promise ≠ .rejected
  | .entry .rejected => ∀ p ∈ s.entry, p.fate ≠ .stored
  | _ => True

/-- Nothing is under way any more. -/
structure Landed (s : PutRun sha256) : Prop where
  proms : ∀ p ∈ s.proms, p.fate ≠ .underWay
  entry : ∀ p ∈ s.entry, p.fate ≠ .underWay
  cleanUp : s.cleanUp ≠ some false
  oldPurge : s.oldPurge ≠ some false

instance (s : PutRun sha256) : Decidable (Landed s) :=
  decidable_of_iff ((∀ p ∈ s.proms, p.fate ≠ .underWay) ∧ (∀ p ∈ s.entry, p.fate ≠ .underWay) ∧
      s.cleanUp ≠ some false ∧ s.oldPurge ≠ some false)
    ⟨fun h => ⟨h.1, h.2.1, h.2.2.1, h.2.2.2⟩, fun h => ⟨h.1, h.2, h.3, h.4⟩⟩

/-- The bucket is as it was to a reader of the object, and holds no chunk of the call. -/
structure Atomic (sha256 : StreamingHash) (b : Bucket) : Prop where
  entry : b.rawInfo c.call.objMeta.name = c.bucket.rawInfo c.call.objMeta.name
  readable : get sha256 b c.call.objMeta.name = get sha256 c.bucket c.call.objMeta.name
  clean : b.chunks c.call.id = []

/-- What goes with a phase: the publish of the entry and the purges sent by then. -/
def Shape (entry : Option (Publish ServerObjectInfo)) (cleanUp oldPurge : Option Bool) :
    Phase → Prop
  | .reading | .settling => entry = none ∧ cleanUp = none ∧ oldPurge = none
  | .entering => (∀ p ∈ entry, p.promise = .pending) ∧ cleanUp = none ∧ oldPurge = none
  | .purging | .resolved => (∀ p ∈ entry, p.promise = .fulfilled) ∧ cleanUp = none
  | .cleaning | .rejected =>
      (∀ p ∈ entry, p.promise = .rejected) ∧ cleanUp ≠ none ∧ oldPurge = none

/-- What holds in every run: only the subject of the call's chunks, the subject of the entries (once
the entry was stored) and the chunks of the old entry (once they were purged) are not as they
were. -/
structure Inv (s : PutRun sha256) : Prop where
  name_eq : s.bucket.name = c.bucket.name
  shape : Shape s.entry s.cleanUp s.oldPurge s.phase
  nuid_eq : ∀ p ∈ s.entry, p.data.nuidText = c.call.id
  not_entered : (∀ p ∈ s.entry, p.fate ≠ .stored) → s.bucket.on c.metaSubj = c.bucket.on c.metaSubj
  entered : ∀ p ∈ s.entry, p.fate = .stored →
    ∃ seq, s.bucket.last? c.metaSubj = some ⟨seq, c.metaSubj, .json p.data⟩
  others_eq : s.oldPurge ≠ some true → ∀ id, id ≠ c.call.id →
    s.bucket.chunks id = c.bucket.chunks id

/-- Nothing went wrong so far: behind the purge there are no chunks, and no rejected entry is
stored. -/
def Clean (s : PutRun sha256) : Prop :=
  (s.cleanUp = some true → s.bucket.chunks c.call.id = []) ∧
    ∀ p ∈ s.entry, p.promise = .rejected → p.fate ≠ .stored

section

variable {c} {s s' : PutRun sha256} {e : PutEvent} {b : Bucket}

theorem chunkSubj_eq (hname : b.name = c.bucket.name) : c.chunkSubj = b.chunkSubject c.call.id := by
  rw [chunkSubj, Bucket.chunkSubject, Bucket.chunkSubject, hname]

theorem chunkSubj_ne : c.metaSubj ≠ c.chunkSubj :=
  (Bucket.chunkSubject_ne_metaSubject c.metaSubject_eq).symm

/-- The subject of the entries is that of no chunks. -/
theorem chunkSubject_ne (hname : b.name = c.bucket.name) (id : String) :
    b.chunkSubject id ≠ c.metaSubj := by
  have heq : b.chunkSubject id = c.bucket.chunkSubject id := by
    rw [Bucket.chunkSubject, Bucket.chunkSubject, hname]
  rw [heq]
  exact Bucket.chunkSubject_ne_metaSubject c.metaSubject_eq

theorem chunkSubject_ne_chunkSubj (hname : b.name = c.bucket.name) {id : String}
    (hid : id ≠ c.call.id) : b.chunkSubject id ≠ c.chunkSubj := by
  rw [chunkSubj_eq hname]
  intro h
  exact hid (Bucket.chunkSubject_inj h)

/-- The old entry is not one of the call. -/
theorem old_ne {old : ServerObjectInfo} (hold : c.old = some old) : old.nuidText ≠ c.call.id := by
  have hread := c.rawInfo_eq
  rw [hold] at hread
  obtain ⟨m, hm, stored, hdata, rfl⟩ := Bucket.rawInfo_some hread
  exact (c.fresh m hm).2 stored hdata

/-- The old chunks have a subject of their own. -/
theorem oldSubject_ne {old : ServerObjectInfo} (hold : c.old = some old) :
    c.metaSubj ≠ c.bucket.chunkSubject old.nuidText ∧
      c.chunkSubj ≠ c.bucket.chunkSubject old.nuidText := by
  constructor
  · exact (Bucket.chunkSubject_ne_metaSubject c.metaSubject_eq).symm
  · intro h
    exact old_ne hold (Bucket.chunkSubject_inj h).symm

theorem inv_start : c.Inv (c.start : PutRun sha256) where
  name_eq := rfl
  shape := ⟨rfl, rfl, rfl⟩
  nuid_eq := by
    intro p hp
    cases hp
  not_entered _ := rfl
  entered := by
    intro p hp
    cases hp
  others_eq _ _ _ := rfl

/-- A chunk publish leaves the subject of the entries and the other chunks alone. -/
theorem Inv.chunk {i : Nat} {event : PublishEvent} (h : c.Inv s)
    (hstep : c.step s (.chunk i event) = some s') : c.Inv s' := by
  simp only [step] at hstep
  split at hstep
  · next p _ =>
      cases hstep
      cases event with
      | stored =>
          have hon : (s.bucket.store c.chunkSubj (.bytes p.data) false).on c.metaSubj =
              s.bucket.on c.metaSubj := Bucket.on_store_of_ne chunkSubj_ne
          constructor
          · exact h.name_eq
          · exact h.shape
          · exact h.nuid_eq
          · intro hp
            exact hon.trans (h.not_entered hp)
          · intro q hq hfate
            obtain ⟨seq, hlast⟩ := h.entered q hq hfate
            refine ⟨seq, ?_⟩
            rw [← hlast, Bucket.last?, Bucket.last?]
            exact congrArg _ hon
          · intro hpurge id hid
            refine Eq.trans ?_ (h.others_eq hpurge id hid)
            exact Bucket.chunks_store_of_ne (chunkSubject_ne_chunkSubj h.name_eq hid)
      | refused => exact ⟨h.name_eq, h.shape, h.nuid_eq, h.not_entered, h.entered, h.others_eq⟩
      | acked => exact ⟨h.name_eq, h.shape, h.nuid_eq, h.not_entered, h.entered, h.others_eq⟩
      | rejected => exact ⟨h.name_eq, h.shape, h.nuid_eq, h.not_entered, h.entered, h.others_eq⟩
  · cases hstep

/-- An event at the publish of the entry: what it does to the publish, and where it leads. -/
theorem entry_cases {event : PublishEvent} (hstep : c.step s (.entry event) = some s') :
    ∃ p p', s.entry = some p ∧ p.update event = some p' ∧
      ((event = .stored ∧
          s' =
          { s with bucket := s.bucket.store c.metaSubj (.json p'.data) true, entry := some p' }) ∨
        (event = .refused ∧ s' = { s with entry := some p' }) ∨
        (event = .acked ∧
          s' = { s with entry := some p', phase := .purging, oldPurge := some false }) ∨
        (event = .acked ∧ s' = { s with entry := some p', phase := .resolved }) ∨
        (event = .rejected ∧
          s' = { s with entry := some p', phase := .cleaning, cleanUp := some false })) := by
  simp only [step] at hstep
  split at hstep
  · next p' hp' =>
      obtain ⟨p, hp, hupdate⟩ := Option.bind_eq_some_iff.1 hp'
      refine ⟨p, p', hp, hupdate, ?_⟩
      cases event with
      | stored =>
          simp only [Option.ite_none_right_eq_some, Option.some.injEq] at hstep
          exact Or.inl ⟨rfl, hstep.2.symm⟩
      | refused =>
          cases hstep
          exact Or.inr (Or.inl ⟨rfl, rfl⟩)
      | acked =>
          simp only at hstep
          split at hstep
          · cases hstep
            exact Or.inr (Or.inr (Or.inl ⟨rfl, rfl⟩))
          · cases hstep
            exact Or.inr (Or.inr (Or.inr (Or.inl ⟨rfl, rfl⟩)))
      | rejected =>
          cases hstep
          exact Or.inr (Or.inr (Or.inr (Or.inr ⟨rfl, rfl⟩)))
  · cases hstep

/-- A pending publish of the entry is that of the phase. -/
theorem Inv.entering {p : Publish ServerObjectInfo} (h : c.Inv s) (hp : s.entry = some p)
    (hpending : p.promise = .pending) :
    s.phase = .entering ∧ s.cleanUp = none ∧ s.oldPurge = none := by
  have hshape := h.shape
  have hmem : p ∈ s.entry := hp
  cases hphase : s.phase with
  | reading =>
      rw [hphase] at hshape
      rw [hshape.1] at hp
      cases hp
  | settling =>
      rw [hphase] at hshape
      rw [hshape.1] at hp
      cases hp
  | entering =>
      rw [hphase] at hshape
      exact ⟨rfl, hshape.2⟩
  | purging =>
      rw [hphase] at hshape
      have hfulfilled := hshape.1 p hmem
      rw [hpending] at hfulfilled
      cases hfulfilled
  | cleaning =>
      rw [hphase] at hshape
      have hrejected := hshape.1 p hmem
      rw [hpending] at hrejected
      cases hrejected
  | resolved =>
      rw [hphase] at hshape
      have hfulfilled := hshape.1 p hmem
      rw [hpending] at hfulfilled
      cases hfulfilled
  | rejected =>
      rw [hphase] at hshape
      have hrejected := hshape.1 p hmem
      rw [hpending] at hrejected
      cases hrejected

/-- The shape does not depend on where the publish of the entry is. -/
theorem Shape.fate {p : Publish ServerObjectInfo} {cleanUp oldPurge : Option Bool} {phase : Phase}
    (h : Shape (some p) cleanUp oldPurge phase) (fate : Fate) :
    Shape (some ⟨p.data, fate, p.promise⟩) cleanUp oldPurge phase := by
  have hpromise : ∀ promise : Promise, (∀ q ∈ some p, q.promise = promise) →
      ∀ q ∈ some (⟨p.data, fate, p.promise⟩ : Publish ServerObjectInfo), q.promise = promise := by
    intro promise hp q hq
    cases hq
    exact hp p rfl
  cases phase with
  | reading => cases h.1
  | settling => cases h.1
  | entering => exact ⟨hpromise _ h.1, h.2⟩
  | purging => exact ⟨hpromise _ h.1, h.2⟩
  | cleaning => exact ⟨hpromise _ h.1, h.2⟩
  | resolved => exact ⟨hpromise _ h.1, h.2⟩
  | rejected => exact ⟨hpromise _ h.1, h.2⟩

/-- Where the stream is left alone, only the shape is to be checked. -/
theorem Inv.of_entry {p p' : Publish ServerObjectInfo} (h : c.Inv s)
    (hbucket : s'.bucket = s.bucket) (hp : s.entry = some p) (hp' : s'.entry = some p')
    (hdata : p'.data = p.data) (hfate : p'.fate = .stored ↔ p.fate = .stored)
    (hshape : Shape s'.entry s'.cleanUp s'.oldPurge s'.phase)
    (hpurge : s'.oldPurge ≠ some true → s.oldPurge ≠ some true) : c.Inv s' := by
  have hmem : p ∈ s.entry := hp
  constructor
  · rw [hbucket]
    exact h.name_eq
  · exact hshape
  · intro q hq
    rw [hp'] at hq
    cases hq
    rw [hdata]
    exact h.nuid_eq p hmem
  · intro hnot
    rw [hbucket]
    apply h.not_entered
    intro q hq
    rw [hp] at hq
    cases hq
    exact fun hstored => hnot p' hp' (hfate.2 hstored)
  · intro q hq hstored
    rw [hp'] at hq
    cases hq
    rw [hbucket, hdata]
    exact h.entered p hmem (hfate.1 hstored)
  · intro hnot
    rw [hbucket]
    exact h.others_eq (hpurge hnot)

/-- An event at the publish of the entry leaves the chunks alone. -/
theorem Inv.entry {event : PublishEvent} (h : c.Inv s) (hstep : c.step s (.entry event) = some s') :
    c.Inv s' := by
  obtain ⟨p, p', hp, hupdate, hcases⟩ := entry_cases hstep
  have hmem : p ∈ s.entry := hp
  have hshape := h.shape
  rw [hp] at hshape
  rcases Publish.update_cases hupdate with ⟨rfl, hway, rfl⟩ | ⟨rfl, hway, rfl⟩ |
    ⟨rfl, hstored, hpending, rfl⟩ | ⟨rfl, hpending, rfl⟩
  · -- stored: the only event that reaches the stream
    rcases hcases with ⟨-, rfl⟩ | ⟨hne, -⟩ | ⟨hne, -⟩ | ⟨hne, -⟩ | ⟨hne, -⟩
    · constructor
      · exact h.name_eq
      · exact hshape.fate .stored
      · intro q hq
        cases hq
        exact h.nuid_eq p hmem
      · intro hq
        exact absurd rfl (hq _ rfl)
      · intro q hq _
        cases hq
        exact ⟨_, Bucket.last?_store_self⟩
      · intro hpurge id hid
        refine Eq.trans ?_ (h.others_eq hpurge id hid)
        exact Bucket.chunks_store_of_ne (chunkSubject_ne h.name_eq id)
    all_goals cases hne
  · -- refused
    have hfate : Fate.refused = .stored ↔ p.fate = .stored := by
      rw [hway]
      decide
    rcases hcases with ⟨hne, -⟩ | ⟨-, rfl⟩ | ⟨hne, -⟩ | ⟨hne, -⟩ | ⟨hne, -⟩
    · cases hne
    · exact h.of_entry rfl hp rfl rfl hfate (hshape.fate .refused) id
    all_goals cases hne
  · -- acknowledged: the put goes on to the purge of the old chunks, or is resolved
    obtain ⟨_, hclean, hold⟩ := h.entering hp hpending
    have hfulfilled : ∀ q ∈ some (⟨p.data, .stored, .fulfilled⟩ : Publish ServerObjectInfo),
        q.promise = .fulfilled := by
      intro q hq
      cases hq
      rfl
    have hfate : Fate.stored = .stored ↔ p.fate = .stored := by rw [hstored]
    rcases hcases with ⟨hne, -⟩ | ⟨hne, -⟩ | ⟨-, rfl⟩ | ⟨-, rfl⟩ | ⟨hne, -⟩
    · cases hne
    · cases hne
    · refine h.of_entry rfl hp rfl rfl hfate ⟨hfulfilled, hclean⟩ ?_
      rw [hold]
      exact fun _ => nofun
    · exact h.of_entry rfl hp rfl rfl hfate ⟨hfulfilled, hclean⟩ id
    · cases hne
  · -- rejected
    obtain ⟨_, hclean, hold⟩ := h.entering hp hpending
    have hrejected : ∀ q ∈ some (⟨p.data, p.fate, .rejected⟩ : Publish ServerObjectInfo),
        q.promise = .rejected := by
      intro q hq
      cases hq
      rfl
    rcases hcases with ⟨hne, -⟩ | ⟨hne, -⟩ | ⟨hne, -⟩ | ⟨hne, -⟩ | ⟨-, rfl⟩
    · cases hne
    · cases hne
    · cases hne
    · cases hne
    · exact h.of_entry rfl hp rfl rfl Iff.rfl ⟨hrejected, nofun, hold⟩ id

/-- A purge of other chunks leaves the subject of the entries alone. -/
theorem Inv.purge {filter : String} (h : c.Inv s) (hne : c.metaSubj ≠ filter)
    (hbucket : s'.bucket = s.bucket.purge filter) (hentry : s'.entry = s.entry)
    (hshape : Shape s'.entry s'.cleanUp s'.oldPurge s'.phase)
    (hothers : s'.oldPurge ≠ some true → ∀ id, id ≠ c.call.id →
      s'.bucket.chunks id = c.bucket.chunks id) : c.Inv s' := by
  have hon : s'.bucket.on c.metaSubj = s.bucket.on c.metaSubj := by
    rw [hbucket]
    exact Bucket.on_purge_of_ne hne
  constructor
  · rw [hbucket]
    exact h.name_eq
  · exact hshape
  · rw [hentry]
    exact h.nuid_eq
  · rw [hentry, hon]
    exact h.not_entered
  · rw [hentry, Bucket.last?, hon]
    exact h.entered
  · exact hothers

theorem of_not_sent {P : Publish ServerObjectInfo → Prop}
    {entry : Option (Publish ServerObjectInfo)} (h : entry = none) : ∀ p ∈ entry, P p := by
  intro p hp
  rw [h] at hp
  cases hp

/-- **One event keeps the invariant.** -/
theorem inv_step (h : c.Inv s) (hstep : c.step s e = some s') : c.Inv s' := by
  have hshape := h.shape
  cases e with
  | value piece =>
      simp only [step, Option.ite_none_right_eq_some, Option.some.injEq] at hstep
      obtain ⟨_, rfl⟩ := hstep
      exact ⟨h.name_eq, h.shape, h.nuid_eq, h.not_entered, h.entered, h.others_eq⟩
  | done =>
      simp only [step, Option.ite_none_right_eq_some, Option.some.injEq] at hstep
      obtain ⟨hphase, rfl⟩ := hstep
      rw [hphase] at hshape
      exact ⟨h.name_eq, hshape, h.nuid_eq, h.not_entered, h.entered, h.others_eq⟩
  | readerFails =>
      simp only [step, Option.ite_none_right_eq_some, Option.some.injEq] at hstep
      obtain ⟨hphase, rfl⟩ := hstep
      rw [hphase] at hshape
      obtain ⟨hentry, _, hold⟩ := hshape
      exact ⟨h.name_eq, ⟨of_not_sent hentry, nofun, hold⟩, h.nuid_eq, h.not_entered, h.entered,
        h.others_eq⟩
  | chunk i event => exact h.chunk hstep
  | settled =>
      simp only [step] at hstep
      split at hstep
      · next hphase =>
          rw [hphase] at hshape
          obtain ⟨hentry, hclean, hold⟩ := hshape
          split at hstep
          · -- a chunk publish was rejected
            cases hstep
            exact ⟨h.name_eq, ⟨of_not_sent hentry, nofun, hold⟩, h.nuid_eq, h.not_entered,
              h.entered, h.others_eq⟩
          · split at hstep
            · -- all were fulfilled: the entry is sent
              cases hstep
              constructor
              · exact h.name_eq
              · refine ⟨?_, hclean, hold⟩
                intro p hp
                cases hp
                rfl
              · intro p hp
                cases hp
                rfl
              · intro _
                exact h.not_entered (of_not_sent hentry)
              · intro p hp hstored
                cases hp
                cases hstored
              · exact h.others_eq
            · cases hstep
      · cases hstep
  | entry event => exact h.entry hstep
  | cleanUpPurged =>
      simp only [step, Option.ite_none_right_eq_some, Option.some.injEq] at hstep
      obtain ⟨hsent, rfl⟩ := hstep
      have hshape' : Shape s.entry (some true) s.oldPurge s.phase := by
        cases hphase : s.phase with
        | cleaning =>
            rw [hphase] at hshape
            exact ⟨hshape.1, nofun, hshape.2.2⟩
        | rejected =>
            rw [hphase] at hshape
            exact ⟨hshape.1, nofun, hshape.2.2⟩
        | reading | settling | entering =>
            rw [hphase, hsent] at hshape
            cases hshape.2.1
        | purging | resolved =>
            rw [hphase, hsent] at hshape
            cases hshape.2
      refine h.purge chunkSubj_ne rfl rfl hshape' ?_
      intro hpurge id hid
      refine Eq.trans ?_ (h.others_eq hpurge id hid)
      exact Bucket.chunks_purge_of_ne (chunkSubject_ne_chunkSubj h.name_eq hid)
  | oldPurged =>
      simp only [step] at hstep
      split at hstep
      · next old hold =>
          simp only [Option.ite_none_right_eq_some, Option.some.injEq] at hstep
          obtain ⟨hsent, rfl⟩ := hstep
          have hshape' : Shape s.entry s.cleanUp (some true) s.phase := by
            cases hphase : s.phase with
            | purging | resolved =>
                rw [hphase] at hshape
                exact hshape
            | reading | settling | entering | cleaning | rejected =>
                rw [hphase, hsent] at hshape
                cases hshape.2.2
          exact h.purge (oldSubject_ne hold).1 rfl rfl hshape' (fun hnot => absurd rfl hnot)
      · cases hstep
  | purgeSettled =>
      simp only [step] at hstep
      split at hstep
      · next hphase =>
          cases hstep
          rw [hphase] at hshape
          exact ⟨h.name_eq, hshape, h.nuid_eq, h.not_entered, h.entered, h.others_eq⟩
      · split at hstep
        · next hphase =>
            cases hstep
            rw [hphase] at hshape
            exact ⟨h.name_eq, hshape, h.nuid_eq, h.not_entered, h.entered, h.others_eq⟩
        · cases hstep

/-- The chunks of the call are purged, or they are as they were with one behind them. -/
theorem chunks_store (hname : b.name = c.bucket.name) (bytes : Bytes) :
    (b.store c.chunkSubj (.bytes bytes) false).chunks c.call.id = b.chunks c.call.id ++
      [bytes] := by
  rw [chunkSubj_eq hname]
  exact Bucket.chunks_store_self bytes

theorem chunks_purge (hname : b.name = c.bucket.name) :
    (b.purge c.chunkSubj).chunks c.call.id = [] := by
  rw [chunkSubj_eq hname]
  exact Bucket.chunks_purge_self

/-- Behind the purge, a chunk publish breaks what was clean, whatever becomes of it later. -/
theorem clean_chunk {i : Nat} {event : PublishEvent} (h : c.Inv s)
    (hstep : c.step s (.chunk i event) = some s') :
    c.Clean s' ↔ c.Clean s ∧ Orderly s (.chunk i event) := by
  simp only [step] at hstep
  split at hstep
  · next p _ =>
      cases hstep
      cases event with
      | stored =>
          have hchunks := chunks_store h.name_eq p.data
          constructor
          · rintro ⟨hempty, hentry⟩
            have hnot : s.cleanUp ≠ some true := by
              intro hpurged
              have hnil : (s.bucket.store c.chunkSubj (.bytes p.data) false).chunks
                  c.call.id = [] :=
                hempty hpurged
              rw [hchunks] at hnil
              exact List.append_ne_nil_of_right_ne_nil _ (List.cons_ne_nil _ _) hnil
            exact ⟨⟨fun hpurged => absurd hpurged hnot, hentry⟩, hnot⟩
          · rintro ⟨⟨_, hentry⟩, hnot⟩
            exact ⟨fun hpurged => absurd hpurged hnot, hentry⟩
      | refused => exact (and_iff_left trivial).symm
      | acked => exact (and_iff_left trivial).symm
      | rejected => exact (and_iff_left trivial).symm
  · cases hstep

/-- What `Clean` says once the entry was sent. -/
theorem clean_of_entry {p : Publish ServerObjectInfo} (hp : s.entry = some p) :
    c.Clean s ↔ (s.cleanUp = some true → s.bucket.chunks c.call.id = []) ∧
      (p.promise = .rejected → p.fate ≠ .stored) := by
  rw [Clean, hp]
  constructor
  · rintro ⟨hchunks, hentry⟩
    exact ⟨hchunks, hentry p rfl⟩
  · rintro ⟨hchunks, hentry⟩
    refine ⟨hchunks, ?_⟩
    intro q hq
    cases hq
    exact hentry

/-- The publish of the entry breaks what was clean where it is both stored and rejected. -/
theorem clean_entry {event : PublishEvent} (h : c.Inv s)
    (hstep : c.step s (.entry event) = some s') :
    c.Clean s' ↔ c.Clean s ∧ Orderly s (.entry event) := by
  obtain ⟨p, p', hp, hupdate, hcases⟩ := entry_cases hstep
  rw [clean_of_entry hp]
  rcases Publish.update_cases hupdate with ⟨rfl, hway, rfl⟩ | ⟨rfl, hway, rfl⟩ |
    ⟨rfl, hstored, hpending, rfl⟩ | ⟨rfl, hpending, rfl⟩
  · rcases hcases with ⟨-, rfl⟩ | ⟨hne, -⟩ | ⟨hne, -⟩ | ⟨hne, -⟩ | ⟨hne, -⟩
    · have hchunks : (s.bucket.store c.metaSubj (.json p.data) true).chunks c.call.id =
          s.bucket.chunks c.call.id :=
            Bucket.chunks_store_of_ne (chunkSubject_ne h.name_eq c.call.id)
      rw [clean_of_entry rfl]
      simp only [Orderly, hp, hchunks, hway]
      constructor
      · rintro ⟨hclean, hnot⟩
        refine ⟨⟨hclean, fun _ => nofun⟩, ?_⟩
        intro q hq hrejected
        cases hq
        exact hnot hrejected rfl
      · rintro ⟨⟨hclean, _⟩, hnot⟩
        exact ⟨hclean, fun hrejected => absurd hrejected (hnot p rfl)⟩
    all_goals cases hne
  · rcases hcases with ⟨hne, -⟩ | ⟨-, rfl⟩ | ⟨hne, -⟩ | ⟨hne, -⟩ | ⟨hne, -⟩
    · cases hne
    · rw [clean_of_entry rfl, hway]
      simp [Orderly]
    all_goals cases hne
  · -- acknowledged: it was pending, so nothing failed
    have hpurge := (h.entering hp hpending).2.1
    rcases hcases with ⟨hne, -⟩ | ⟨hne, -⟩ | ⟨-, rfl⟩ | ⟨-, rfl⟩ | ⟨hne, -⟩
    · cases hne
    · cases hne
    · rw [clean_of_entry rfl, hpending]
      simp [Orderly, hpurge]
    · rw [clean_of_entry rfl, hpending]
      simp [Orderly, hpurge]
    · cases hne
  · have hpurge := (h.entering hp hpending).2.1
    rcases hcases with ⟨hne, -⟩ | ⟨hne, -⟩ | ⟨hne, -⟩ | ⟨hne, -⟩ | ⟨-, rfl⟩
    · cases hne
    · cases hne
    · cases hne
    · cases hne
    · rw [clean_of_entry rfl, hpending]
      simp [Orderly, hpurge, hp]

/-- Where the purge was not sent and the entry was not either, all is clean. -/
theorem clean_of_not_sent (hentry : s.entry = none) (hclean : s.cleanUp ≠ some true) : c.Clean s :=
  ⟨fun hpurged => absurd hpurged hclean, of_not_sent hentry⟩

/-- **One event keeps the call clean exactly if it is in order.** -/
theorem clean_step (h : c.Inv s) (hstep : c.step s e = some s') :
    c.Clean s' ↔ c.Clean s ∧ Orderly s e := by
  have hshape := h.shape
  cases e with
  | value piece =>
      simp only [step, Option.ite_none_right_eq_some, Option.some.injEq] at hstep
      obtain ⟨_, rfl⟩ := hstep
      exact (and_iff_left trivial).symm
  | done =>
      simp only [step, Option.ite_none_right_eq_some, Option.some.injEq] at hstep
      obtain ⟨_, rfl⟩ := hstep
      exact (and_iff_left trivial).symm
  | readerFails =>
      simp only [step, Option.ite_none_right_eq_some, Option.some.injEq] at hstep
      obtain ⟨hphase, rfl⟩ := hstep
      rw [hphase] at hshape
      -- the entry was not sent yet, so a clean-up takes nothing from it
      have hbefore : c.Clean s := clean_of_not_sent hshape.1 (by rw [hshape.2.1]; nofun)
      exact iff_of_true (clean_of_not_sent hshape.1 nofun) ⟨hbefore, trivial⟩
  | chunk i event => exact clean_chunk h hstep
  | settled =>
      simp only [step] at hstep
      split at hstep
      · next hphase =>
          rw [hphase] at hshape
          have hbefore : c.Clean s := clean_of_not_sent hshape.1 (by rw [hshape.2.1]; nofun)
          split at hstep
          · cases hstep
            exact iff_of_true (clean_of_not_sent hshape.1 nofun) ⟨hbefore, trivial⟩
          · split at hstep
            · cases hstep
              refine iff_of_true ?_ ⟨hbefore, trivial⟩
              rw [clean_of_entry rfl]
              exact ⟨hbefore.1, fun _ => nofun⟩
            · cases hstep
      · cases hstep
  | entry event => exact clean_entry h hstep
  | cleanUpPurged =>
      simp only [step, Option.ite_none_right_eq_some, Option.some.injEq] at hstep
      obtain ⟨hsent, rfl⟩ := hstep
      have hchunks := chunks_purge h.name_eq
      constructor
      · rintro ⟨_, hentry⟩
        refine ⟨⟨?_, hentry⟩, trivial⟩
        -- the clean-up was sent already, and arrives now
        rw [hsent]
        nofun
      · rintro ⟨⟨_, hentry⟩, _⟩
        exact ⟨fun _ => hchunks, hentry⟩
  | oldPurged =>
      simp only [step] at hstep
      split at hstep
      · next old hold =>
          simp only [Option.ite_none_right_eq_some, Option.some.injEq] at hstep
          obtain ⟨_, rfl⟩ := hstep
          -- the old nuid is another one
          have hchunks : (s.bucket.purge (c.bucket.chunkSubject old.nuidText)).chunks c.call.id =
              s.bucket.chunks c.call.id := by
            apply Bucket.chunks_purge_of_ne
            rw [← chunkSubj_eq h.name_eq]
            exact (oldSubject_ne hold).2
          simp only [Clean, Orderly, hchunks, and_true]
      · cases hstep
  | purgeSettled =>
      simp only [step] at hstep
      split at hstep
      · cases hstep
        exact (and_iff_left trivial).symm
      · split at hstep
        · cases hstep
          exact (and_iff_left trivial).symm
        · cases hstep

/-- What is read under the name is what the stream has under the subject of the entries. -/
theorem rawInfo_eq_of_on (hname : b.name = c.bucket.name)
    (hon : b.on c.metaSubj = c.bucket.on c.metaSubj) :
    b.rawInfo c.call.objMeta.name = c.bucket.rawInfo c.call.objMeta.name := by
  have hsubj : b.metaSubject c.call.objMeta.name = some c.metaSubj := by
    rw [Bucket.metaSubject, hname]
    exact c.metaSubject_eq
  simp only [Bucket.rawInfo, hsubj, c.metaSubject_eq, Bucket.last?, hon]

/-- What a get gives depends on the entry and on the chunks of its nuid. -/
theorem get_congr (hinfo : b.rawInfo c.call.objMeta.name = c.bucket.rawInfo c.call.objMeta.name)
    (hchunks : ∀ id, id ≠ c.call.id → b.chunks id = c.bucket.chunks id) :
    get sha256 b c.call.objMeta.name = get sha256 c.bucket c.call.objMeta.name := by
  have hold := c.rawInfo_eq
  rw [get, get, hinfo, hold]
  cases hinfo' : c.old with
  | none => rfl
  | some old =>
      have hconsume : b.consume old.nuidText = c.bucket.consume old.nuidText := by
        rw [Bucket.consume, Bucket.consume, hchunks _ (old_ne hinfo')]
      simp only [hconsume]

/-- Behind a failed call with nothing under way, the bucket is as it was exactly if the call is
clean. -/
theorem atomic_iff_clean (h : c.Inv s) (hfailed : s.phase = .rejected) (hlanded : Landed s) :
    c.Atomic sha256 s.bucket ↔ c.Clean s := by
  have hshape := h.shape
  rw [hfailed] at hshape
  obtain ⟨hrejected, hsent, hold⟩ := hshape
  have hpurged : s.cleanUp = some true := by
    cases hcleanUp : s.cleanUp with
    | none => exact absurd hcleanUp hsent
    | some took =>
        cases took with
        | false => exact absurd hcleanUp hlanded.cleanUp
        | true => rfl
  have hothers := h.others_eq (by rw [hold]; nofun)
  constructor
  · intro hatomic
    refine ⟨fun _ => hatomic.clean, ?_⟩
    intro p hp _ hstored
    -- a stored entry is what is read, and it is not one that was there
    obtain ⟨seq, hlast⟩ := h.entered p hp hstored
    have hname := (Bucket.metaSubject_of_rawInfo c.rawInfo_eq).1
    have hsubj : s.bucket.metaSubject c.call.objMeta.name = some c.metaSubj := by
      rw [Bucket.metaSubject, h.name_eq]
      exact c.metaSubject_eq
    have hread := Bucket.rawInfo_of_last hname hsubj hlast rfl
    rw [hatomic.entry] at hread
    obtain ⟨m, hm, stored, hdata, heq⟩ := Bucket.rawInfo_some hread
    have hnuid := congrArg ServerObjectInfo.nuidText heq.symm
    change stored.nuidText = p.data.nuidText at hnuid
    exact (c.fresh m hm).2 stored hdata (hnuid.trans (h.nuid_eq p hp))
  · rintro ⟨hempty, hentry⟩
    have hon := h.not_entered fun p hp => hentry p hp (hrejected p hp)
    have hinfo := rawInfo_eq_of_on h.name_eq hon
    exact ⟨hinfo, get_congr hinfo hothers, hempty hpurged⟩

theorem clean_start : c.Clean (c.start : PutRun sha256) := clean_of_not_sent rfl nofun

end

/-- **A failed put is atomic if and only if the publishes and the purge are in order.** In every run
that ends with a failed call and nothing under way, the old entry is unchanged and readable and the
stream holds no chunk of the call exactly if no chunk was stored behind the purge and no entry was
both stored and rejected. -/
theorem failed_put_atomic_iff (sha256 : StreamingHash) (c : PutContext) (es : List PutEvent)
    (s : PutRun sha256) (hrun : run c.step c.start es = some s) (hfailed : s.phase = .rejected)
    (hlanded : Landed s) :
    c.Atomic sha256 s.bucket ↔ Meets c.step Orderly (c.start : PutRun sha256) es := by
  have hinv : c.Inv s := invariant_run (fun _ _ _ h hstep => inv_step h hstep) hrun inv_start
  have hclean : c.Clean s ↔ c.Clean c.start ∧ Meets c.step Orderly (c.start : PutRun sha256) es :=
    iff_meets (fun _ _ _ h hstep => inv_step h hstep) (fun _ _ _ h hstep => clean_step h hstep) hrun
      inv_start
  rw [atomic_iff_clean hinv hfailed hlanded, hclean]
  exact and_iff_right clean_start

/-- A second put of the object that `putAbc` stored. -/
def overAbc : PutContext where
  bucket := (putInto hashOfAbc ⟨"b", [], 0⟩ putAbc).1
  call := { putAbc with id := "M" }
  old := some (putAbc.stored hashOfAbc ⟨"b", [], 0⟩ 3)
  metaSubj := "$O.b.M.YQ=="
  rawInfo_eq := by decide +kernel
  metaSubject_eq := by decide +kernel
  fresh := by decide +kernel

/-- The reader fails behind the first chunk, which is stored behind the purge; the call is
rejected. -/
def lateChunk : List PutEvent :=
  [.value [100, 101, 102], .readerFails, .cleanUpPurged, .chunk 0 .stored, .purgeSettled]

/-- The answer to the publish of the entry is lost: the entry is stored, the call purges its
chunks. -/
def lostAnswer : List PutEvent :=
  [.value [100], .done, .chunk 0 .stored, .chunk 0 .acked, .settled, .entry .stored,
    .entry .rejected, .cleanUpPurged, .purgeSettled]

/-- The reader fails behind the first chunk, which was stored before the purge. -/
def earlyChunk : List PutEvent :=
  [.value [100, 101, 102], .chunk 0 .stored, .readerFails, .cleanUpPurged, .purgeSettled]

theorem failed_put_atomic_iff_earlyChunk :
    ∃ s : PutRun hashOfAbc, run overAbc.step overAbc.start earlyChunk = some s ∧
      (overAbc.Atomic hashOfAbc s.bucket ↔
        Meets overAbc.step Orderly (overAbc.start : PutRun hashOfAbc) earlyChunk) := by
  have hends : (run overAbc.step (overAbc.start : PutRun hashOfAbc) earlyChunk).any
      (fun s => decide (s.phase = .rejected ∧ Landed s)) = true := by decide +kernel
  obtain ⟨s, hrun, hs⟩ := (Option.any_eq_true _ _).1 hends
  obtain ⟨hfailed, hlanded⟩ := of_decide_eq_true hs
  exact ⟨s, hrun, failed_put_atomic_iff hashOfAbc overAbc earlyChunk s hrun hfailed hlanded⟩

theorem not_failed_put_atomic :
    (∃ s : PutRun hashOfAbc, run overAbc.step overAbc.start lateChunk = some s ∧
      s.phase = .rejected ∧ Landed s ∧ s.bucket.chunks "M" = [[100, 101]] ∧
      ¬ overAbc.Atomic hashOfAbc s.bucket) ∧
    ∃ s : PutRun hashOfAbc, run overAbc.step overAbc.start lostAnswer = some s ∧
      s.phase = .rejected ∧ Landed s ∧ getBlob hashOfAbc overAbc.bucket "a" = .bytes [97, 98, 99] ∧
      getBlob hashOfAbc s.bucket "a" = .pending ∧ ¬ overAbc.Atomic hashOfAbc s.bucket := by
  constructor
  · have hends : (run overAbc.step (overAbc.start : PutRun hashOfAbc) lateChunk).any
        (fun s => decide (s.phase = .rejected ∧ Landed s ∧ s.bucket.chunks "M" = [[100, 101]])) =
          true := by decide +kernel
    obtain ⟨s, hrun, hs⟩ := (Option.any_eq_true _ _).1 hends
    obtain ⟨hfailed, hlanded, hchunks⟩ := of_decide_eq_true hs
    refine ⟨s, hrun, hfailed, hlanded, hchunks, ?_⟩
    intro hatomic
    have hclean : s.bucket.chunks "M" = [] := hatomic.clean
    rw [hchunks] at hclean
    cases hclean
  · have hends : (run overAbc.step (overAbc.start : PutRun hashOfAbc) lostAnswer).any
        (fun s => decide (s.phase = .rejected ∧ Landed s ∧
          getBlob hashOfAbc overAbc.bucket "a" = .bytes [97, 98, 99] ∧
          getBlob hashOfAbc s.bucket "a" = .pending)) = true := by decide +kernel
    obtain ⟨s, hrun, hs⟩ := (Option.any_eq_true _ _).1 hends
    obtain ⟨hfailed, hlanded, hold, hnew⟩ := of_decide_eq_true hs
    refine ⟨s, hrun, hfailed, hlanded, hold, hnew, ?_⟩
    intro hatomic
    have hread : get hashOfAbc s.bucket "a" = get hashOfAbc overAbc.bucket "a" := hatomic.readable
    rw [getBlob, hread, ← getBlob, hold] at hnew
    cases hnew

end PutContext

end NatsClient.ObjectStore
